import Mathlib.Data.List.Nodup
import MetricQuery.Proofs.Sql.Conversion
import MetricQuery.Proofs.Sql.Reading

/-! # Runs of the conversion

What holds of each way in which a part of a plan can be converted holds of every conversion that
succeeds (`Lower.ofPlan_induction`). The inputs of a step are converted one after the other, each as
a subquery under the next name (`Lower.InTurn`), and a part that is shared becomes the last of the
common table expressions (`Progress.sharing`).
-/

namespace MetricQuery.Sql

namespace Progress

/-- The name of the next common table expression. -/
def nextCteName (context : Context) (progress : Progress) : String :=
  Lower.generatedName context.settings.cteStem progress.nextCte

/-- The progress after a part has become a common table expression. -/
def sharing (context : Context) (progress : Progress) (plan : Dataflow) (dataSet : DataSet) :
    Progress where
  ctes := progress.ctes ++ [⟨progress.nextCteName context, dataSet.source⟩]
  shared := progress.shared ++ [⟨plan, progress.nextCteName context, dataSet.columns⟩]
  nextSubquery := progress.nextSubquery
  nextCte := progress.nextCte + 1

/-- The progress after a name for a subquery has been generated. -/
def naming (progress : Progress) : Progress :=
  { progress with nextSubquery := progress.nextSubquery + 1 }

end Progress

namespace Lower

/-- Whether common table expressions are numbered, and stand for the parts that are shared. -/
structure Numbered (context : Context) (progress : Progress) : Prop where
  names : progress.ctes.map (·.name) =
    (List.range progress.nextCte).map (generatedName context.settings.cteStem)
  shared : progress.shared.map (·.name) = progress.ctes.map (·.name)

namespace Numbered

variable {context : Context} {progress : Progress}

/-- At the start nothing is numbered. -/
theorem start : Numbered context ⟨[], [], 0, 0⟩ := ⟨rfl, rfl⟩

/-- The next common table expression has a new name. -/
theorem nextCteName_not_mem (numbered : Numbered context progress) :
    progress.nextCteName context ∉ progress.ctes.map (·.name) := by
  rw [numbered.names]
  intro member
  obtain ⟨number, inside, same⟩ := List.mem_map.mp member
  exact absurd (generatedName_inj same) (Nat.ne_of_lt (List.mem_range.mp inside))

/-- Common table expressions have different names. -/
theorem nodup (numbered : Numbered context progress) :
    (progress.ctes.map (·.name)).Nodup := by
  rw [numbered.names]
  exact List.nodup_range.map fun _ _ same => generatedName_inj same

/-- A new subquery name changes nothing about the numbering. -/
theorem naming (numbered : Numbered context progress) : Numbered context progress.naming :=
  ⟨numbered.names, numbered.shared⟩

/-- A part shared next keeps the numbering. -/
theorem sharing (numbered : Numbered context progress) (plan : Dataflow) (dataSet : DataSet) :
    Numbered context (progress.sharing context plan dataSet) := by
  constructor
  · rw [Progress.sharing, List.map_append, numbered.names, List.range_succ, List.map_append]
    rfl
  · rw [Progress.sharing, List.map_append, numbered.shared, List.map_append]
    rfl

end Numbered

/-- Whether plans become subqueries one after the other, where `converts` relates each plan, and the
progress before it, to its data set and the progress after it. -/
inductive InTurn (context : Context)
    (converts : Dataflow → Progress → DataSet → Progress → Prop) :
    List Dataflow → Progress → List Subquery → Progress → Prop where
  | nil (progress : Progress) : InTurn context converts [] progress [] progress
  | cons {plan : Dataflow} {rest : List Dataflow} {before middle after : Progress}
      {dataSet : DataSet} {subqueries : List Subquery}
      (first : converts plan before dataSet middle)
      (later : InTurn context converts rest middle.naming subqueries after) :
      InTurn context converts (plan :: rest) before
        (⟨generatedName context.settings.subqueryStem middle.nextSubquery, dataSet.columns,
          dataSet.source⟩ :: subqueries) after

variable {context : Context} {before after : Progress}

private theorem ofModel_eq_ok {name : String} {dataSet : DataSet} :
    ofModel context name before = .ok (dataSet, after) ↔
      ∃ model, context.catalog.model? name = some model ∧ after = before.naming ∧
        dataSet = readModel model
          (generatedName context.settings.subqueryStem before.nextSubquery) := by
  unfold ofModel
  cases context.catalog.model? name with
  | none => exact ⟨nofun, nofun⟩
  | some model =>
      constructor
      · rintro ⟨⟩
        exact ⟨model, rfl, rfl, rfl⟩
      · rintro ⟨_, ⟨⟩, rfl, rfl⟩
        rfl

/-- What each conversion does a successful conversion of several inputs does in turn. -/
theorem inTurn_of_ofOutputs {converts : Dataflow → Progress → DataSet → Progress → Prop}
    {plans : List Dataflow} {subqueries : List Subquery}
    (each : ∀ plan ∈ plans, ∀ before dataSet after,
      ofPlan context plan before = .ok (dataSet, after) → converts plan before dataSet after)
    (ok : ofOutputs context plans before = .ok (subqueries, after)) :
    InTurn context converts plans before subqueries after := by
  induction plans generalizing before subqueries with
  | nil =>
      rw [ofOutputs, run_pure_eq_ok] at ok
      obtain ⟨rfl, rfl⟩ := ok
      exact .nil _
  | cons plan rest ih =>
      simp only [ofOutputs, run_bind_eq_ok, run_pure_eq_ok] at ok
      obtain ⟨dataSet, middle, converted, subquery, _, ⟨⟩, later, _, tail, rfl, rfl⟩ := ok
      refine .cons (each plan List.mem_cons_self _ _ _ converted) ?_
      exact ih (fun other member => each other (List.mem_cons_of_mem _ member)) tail

section

variable {inside whole : Dataflow → Progress → DataSet → Progress → Prop}
  (read : ∀ name inputs model before, context.catalog.model? name = some model →
    inside (.node (.read name) inputs) before
      (readModel model (generatedName context.settings.subqueryStem before.nextSubquery))
      before.naming)
  (result : ∀ input before dataSet after, whole input before dataSet after →
    inside (.node .result [input]) before dataSet after)
  (assembled : ∀ step inputs before subqueries dataSet after, (∀ model, step ≠ .read model) →
    step ≠ .result → InTurn context whole inputs before subqueries after →
    assemble step subqueries = .ok dataSet → inside (.node step inputs) before dataSet after)
  (known : ∀ plan before part, isShared context plan = true →
    before.shared.find? (fun part : SharedPart => part.plan == plan) = some part →
    whole plan before ⟨part.columns, .table part.name⟩ before)
  (new : ∀ step inputs before dataSet after, isShared context (.node step inputs) = true →
    before.shared.find? (fun part : SharedPart => part.plan == .node step inputs) = none →
    ofInputs context step inputs before = .ok (dataSet, after) →
    inside (.node step inputs) before dataSet after →
    whole (.node step inputs) before ⟨dataSet.columns, .table (after.nextCteName context)⟩
      (after.sharing context (.node step inputs) dataSet))
  (unshared : ∀ plan before dataSet after, isShared context plan = false →
    inside plan before dataSet after → whole plan before dataSet after)

include read result assembled in
/-- What holds of the conversion of all inputs of a step holds behind the step. -/
theorem inside_of_ofInputs {step : Step} {inputs : List Dataflow} {dataSet : DataSet}
    (each : ∀ input ∈ inputs, ∀ before dataSet after,
      ofPlan context input before = .ok (dataSet, after) → whole input before dataSet after)
    (ok : ofInputs context step inputs before = .ok (dataSet, after)) :
    inside (.node step inputs) before dataSet after := by
  by_cases reads : ∃ model, step = .read model
  · obtain ⟨name, rfl⟩ := reads
    rw [ofInputs] at ok
    obtain ⟨model, found, rfl, rfl⟩ := ofModel_eq_ok.mp ok
    exact read name inputs model before found
  by_cases results : ∃ input, step = .result ∧ inputs = [input]
  · obtain ⟨input, rfl, rfl⟩ := results
    rw [ofInputs] at ok
    exact result input before dataSet after (each input List.mem_cons_self _ _ _ ok)
  have notRead : ∀ model, step ≠ .read model := fun model same => reads ⟨model, same⟩
  have many : step = .result → inputs.length ≠ 1 := fun same one => by
    obtain ⟨input, single⟩ := List.length_eq_one_iff.mp one
    exact results ⟨input, same, single⟩
  obtain ⟨subqueries, converted, ok⟩ := (ofInputs_eq_ok notRead many).mp ok
  have notLast : step ≠ .result := by
    rintro rfl
    have several : subqueries.length ≠ 1 := ofOutputs_length converted ▸ many rfl
    rw [assemble_of_not_one (by simp) (by simp) several] at ok
    cases ok
  exact assembled step inputs before subqueries dataSet after notRead notLast
    (inTurn_of_ofOutputs each converted) ok

include read result assembled known new unshared in
/-- What holds of each way in which a part can be converted, after its inputs, holds of every
conversion: of the step of a part, `inside`, and of the part as it is read, `whole`. -/
theorem ofPlan_induction (plan : Dataflow) :
    ∀ before dataSet after, ofPlan context plan before = .ok (dataSet, after) →
      whole plan before dataSet after := by
  induction plan using Dataflow.inductionOn with
  | node step inputs each =>
      intro before dataSet after ok
      rw [run_ofPlan] at ok
      cases shared : isShared context (.node step inputs) with
      | false =>
          simp only [shared, Bool.false_eq_true, if_false] at ok
          exact unshared _ _ _ _ shared (inside_of_ofInputs read result assembled each ok)
      | true =>
          simp only [shared, if_true] at ok
          cases found : before.shared.find? fun part : SharedPart =>
              part.plan == Dataflow.node step inputs with
          | some part =>
              rw [found] at ok
              obtain ⟨⟩ := ok
              exact known _ _ part shared found
          | none =>
              rw [found] at ok
              obtain ⟨⟨converted, middle⟩, run, ⟨⟩⟩ := bind_eq_ok.mp ok
              exact new step inputs before converted middle shared found run
                (inside_of_ofInputs read result assembled each run)

end

end Lower

/-- A statement is what the conversion of the whole plan has generated. -/
theorem Statement.ofPlan_eq_ok {catalog : Catalog} {settings : SqlSettings} {plan : Dataflow}
    {sharing : Sharing} {statement : Statement} :
    Statement.ofPlan catalog settings plan sharing = .ok statement ↔
      ∃ dataSet progress, Lower.ofPlan ⟨catalog, settings, plan, sharing.chosen plan⟩ plan
          ⟨[], [], 0, 0⟩ = .ok (dataSet, progress) ∧
        ⟨progress.ctes, dataSet.source⟩ = statement := by
  change (Lower.ofPlan _ plan ⟨[], [], 0, 0⟩).map (fun result =>
    Statement.mk result.2.ctes result.1.source) = _ ↔ _
  rw [map_eq_ok, Prod.exists]

end MetricQuery.Sql
