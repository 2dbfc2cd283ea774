import MetricQuery.Dataflow.Planning
import MetricQuery.Proofs.Sql.Columns
import MetricQuery.Proofs.Sql.Inlining
import MetricQuery.Proofs.Sql.Runs

/-! # What plans convert to

A plan without shared parts converts to data sets that differ in names of subqueries alone
(`Converts`). A plain data set is one of them, and so is what conversion gives if nothing is chosen
to be shared (`Lower.converts_of_ofPlan`); what is said of all of them needs no account of how names
are generated.
-/

namespace MetricQuery

/-- Whether a step computes from what a single part gives. -/
def Step.takesOne : Step → Bool
  | .read _ | .join _ | .combine | .result => false
  | _ => true

namespace Sql

/-- Whether a plan becomes a data set, where nothing is shared and the inputs of each step have some
different names. -/
inductive Converts (catalog : Catalog) : Dataflow → DataSet → Prop where
  | read {name : String} {model : SemanticModel} (found : catalog.model? name = some model)
      (inputs : List Dataflow) (subquery : String) :
      Converts catalog (.node (.read name) inputs) (readModel model subquery)
  | result {input : Dataflow} {dataSet : DataSet} (converts : Converts catalog input dataSet) :
      Converts catalog (.node .result [input]) dataSet
  | assembled {step : Step} {inputs : List Dataflow} {subqueries : List Subquery}
      {dataSet : DataSet} (reads : ∀ model, step ≠ .read model) (results : step ≠ .result)
      (each : List.Forall₂ (fun input (subquery : Subquery) =>
        Converts catalog input ⟨subquery.columns, subquery.source⟩) inputs subqueries)
      (distinct : (subqueries.map (·.name)).Nodup)
      (ok : assemble step subqueries = .ok dataSet) :
      Converts catalog (.node step inputs) dataSet

variable {catalog : Catalog} {plan : Dataflow} {dataSet : DataSet}

/-! ## Conversions -/

/-- The plain data set of a plan is one that it converts to. -/
theorem DataSet.converts_of_ofPlan (ok : DataSet.ofPlan catalog plan = .ok dataSet) :
    Converts catalog plan dataSet := by
  induction plan using Dataflow.inductionOn generalizing dataSet with
  | node step inputs ih =>
      rw [DataSet.ofPlan] at ok
      by_cases reads : ∃ model, step = .read model
      · obtain ⟨name, rfl⟩ := reads
        rw [DataSet.ofInputs] at ok
        split at ok
        · cases ok
        · rename_i model found
          obtain ⟨⟩ := ok
          exact .read found inputs _
      by_cases results : ∃ input, step = .result ∧ inputs = [input]
      · obtain ⟨input, rfl, rfl⟩ := results
        rw [DataSet.ofInputs] at ok
        exact .result (ih input List.mem_cons_self ok)
      have notRead : ∀ model, step ≠ .read model := fun model same => reads ⟨model, same⟩
      have many : step = .result → inputs.length ≠ 1 := fun same one => by
        obtain ⟨input, single⟩ := List.length_eq_one_iff.mp one
        exact results ⟨input, same, single⟩
      rw [DataSet.ofInputs_eq notRead many, ofPlans_eq_mapM, bind_eq_ok] at ok
      obtain ⟨dataSets, converted, ok⟩ := ok
      have same := List.forall₂_iff_zip.mp (mapM_eq_ok.mp converted)
      have alike : List.Forall₂ (Converts catalog) inputs dataSets :=
        List.forall₂_iff_zip.mpr ⟨same.1, fun among =>
          ih _ (List.of_mem_zip among).1 (same.2 among)⟩
      have notLast : step ≠ .result := by
        rintro rfl
        have several : (placed dataSets).length ≠ 1 := by
          rw [placed, List.length_mapIdx, ← alike.length_eq]
          exact many rfl
        rw [assemble_of_not_one (by simp) (by simp) several] at ok
        cases ok
      exact .assembled notRead notLast (forall₂_placed alike) (placed_nodup dataSets) ok

namespace Lower

variable {context : Context} {before after : Progress}

/-- Names that are generated one after the other are different. -/
theorem InTurn.names {converts : Dataflow → Progress → DataSet → Progress → Prop}
    {plans : List Dataflow} {subqueries : List Subquery}
    (later : ∀ plan before dataSet after, converts plan before dataSet after →
      before.nextSubquery ≤ after.nextSubquery)
    (run : InTurn context converts plans before subqueries after) :
    before.nextSubquery ≤ after.nextSubquery ∧ (subqueries.map (·.name)).Nodup ∧
      ∀ name ∈ subqueries.map (·.name), ∃ number, before.nextSubquery ≤ number ∧
        generatedName context.settings.subqueryStem number = name := by
  induction run with
  | nil progress => exact ⟨Nat.le_refl _, List.nodup_nil, nofun⟩
  | @cons plan rest before middle after dataSet subqueries first _ ih =>
      obtain ⟨least, distinct, numbered⟩ := ih
      have start := later plan before dataSet middle first
      have next : middle.nextSubquery + 1 ≤ after.nextSubquery := least
      refine ⟨by omega, List.nodup_cons.mpr ⟨fun member => ?_, distinct⟩, fun name member => ?_⟩
      · obtain ⟨number, bound, same⟩ := numbered _ member
        have above : middle.nextSubquery + 1 ≤ number := bound
        have equal := generatedName_inj same
        omega
      · rcases List.mem_cons.mp member with rfl | member
        · exact ⟨middle.nextSubquery, start, rfl⟩
        · obtain ⟨number, bound, same⟩ := numbered name member
          have above : middle.nextSubquery + 1 ≤ number := bound
          exact ⟨number, by omega, same⟩

/-- What every conversion relates a run in turn relates input by input. -/
theorem InTurn.forall₂ {converts : Dataflow → Progress → DataSet → Progress → Prop}
    {plans : List Dataflow} {subqueries : List Subquery} {related : Dataflow → DataSet → Prop}
    (relates : ∀ plan before dataSet after, converts plan before dataSet after →
      related plan dataSet)
    (run : InTurn context converts plans before subqueries after) :
    List.Forall₂ (fun plan (subquery : Subquery) =>
      related plan ⟨subquery.columns, subquery.source⟩) plans subqueries := by
  induction run with
  | nil progress => exact .nil
  | cons first _ ih => exact .cons (relates _ _ _ _ first) ih

/-- What conversion gives, if nothing is to be shared, is one of the data sets that a plan converts
to. Subqueries are counted on the way. -/
theorem counts_and_converts_of_ofPlan (none : context.chosen = [])
    (ok : ofPlan context plan before = .ok (dataSet, after)) :
    before.nextSubquery ≤ after.nextSubquery ∧ Converts context.catalog plan dataSet := by
  let motive : Dataflow → Progress → DataSet → Progress → Prop := fun plan before dataSet after =>
    before.nextSubquery ≤ after.nextSubquery ∧ Converts context.catalog plan dataSet
  have unshared : ∀ plan, isShared context plan = false := by
    intro plan
    rw [isShared, none, List.contains_nil, Bool.and_false]
  refine @ofPlan_induction context motive motive ?_ ?_ ?_ ?_ ?_ ?_ plan before dataSet after ok
  · exact fun name inputs model before found => ⟨Nat.le_succ _, .read found inputs _⟩
  · exact fun input before dataSet after whole => ⟨whole.1, .result whole.2⟩
  · intro step inputs before subqueries dataSet after reads results run ok
    obtain ⟨least, distinct, _⟩ := InTurn.names (fun _ _ _ _ whole => whole.1) run
    exact ⟨least, .assembled reads results (run.forall₂ fun _ _ _ _ whole => whole.2) distinct ok⟩
  · exact fun plan _ _ shared => nomatch (unshared plan).symm.trans shared
  · exact fun step inputs _ _ _ shared => nomatch (unshared _).symm.trans shared
  · exact fun _ _ _ _ _ inside => inside

/-- With nothing shared the conversion is the one without a state. -/
theorem converts_of_ofPlan (none : context.chosen = [])
    (ok : ofPlan context plan before = .ok (dataSet, after)) :
    Converts context.catalog plan dataSet := (counts_and_converts_of_ofPlan none ok).2

end Lower

/-! ## Joins -/

/-- Whether a data set is the join of a source with what further plans convert to. -/
inductive IsJoinOf (catalog : Catalog) (entities : List String) (rest : List Dataflow)
    (source : DataSet) : DataSet → Prop where
  | intro {left : Subquery} {rights : List Subquery} {joined : List Joined}
      (first : ⟨left.columns, left.source⟩ = source)
      (later : List.Forall₂ (fun input (subquery : Subquery) =>
        Converts catalog input ⟨subquery.columns, subquery.source⟩) rest rights)
      (distinct : ((left :: rights).map (·.name)).Nodup)
      (ok : joinEach left entities rights = .ok joined) :
      IsJoinOf catalog entities rest source (joinAll left joined)

section

variable {entities : List String} {rest : List Dataflow}

/-- A converted join is the join of its converted inputs. -/
theorem Converts.exists_isJoinOf
    (converts : Converts catalog (.node (.join entities) (plan :: rest)) dataSet) :
    ∃ source, Converts catalog plan source ∧ IsJoinOf catalog entities rest source dataSet := by
  cases converts with
  | assembled _ _ each distinct ok =>
      obtain ⟨left, rights, first, later, rfl⟩ := List.forall₂_cons_left_iff.mp each
      obtain ⟨_, joined, joins, rfl⟩ := assemble_join_eq_ok.mp ok
      exact ⟨_, first, .intro rfl later distinct joins⟩

/-- The data set of a join is the join of its inputs' data sets. -/
theorem DataSet.exists_isJoinOf
    (ok : DataSet.ofPlan catalog (.node (.join entities) (plan :: rest)) = .ok dataSet) :
    ∃ source, DataSet.ofPlan catalog plan = .ok source ∧
      IsJoinOf catalog entities rest source dataSet := by
  rw [DataSet.ofPlan, DataSet.ofInputs_eq (by simp) (by simp), ofPlans_eq_mapM, bind_eq_ok] at ok
  obtain ⟨dataSets, converted, ok⟩ := ok
  obtain ⟨source, others, first, later, rfl⟩ :=
    List.forall₂_cons_left_iff.mp (mapM_eq_ok.mp converted)
  have distinct := placed_nodup (source :: others)
  have alike := forall₂_placed (mapM_eq_ok.mp converted)
  rw [placed, List.mapIdx_cons] at ok distinct alike
  obtain ⟨_, joined, joins, rfl⟩ := assemble_join_eq_ok.mp ok
  cases alike with
  | cons _ later =>
      exact ⟨source, first, .intro rfl (later.imp fun _ _ => converts_of_ofPlan) distinct joins⟩

/-- With nothing shared a join is converted to the join of its inputs. -/
theorem Lower.exists_isJoinOf {context : Context} {before after : Progress}
    (none : context.chosen = [])
    (ok : ofPlan context (.node (.join entities) (plan :: rest)) before = .ok (dataSet, after)) :
    ∃ source middle, ofPlan context plan before = .ok (source, middle) ∧
      IsJoinOf context.catalog entities rest source dataSet := by
  rw [run_ofPlan, isShared, none, List.contains_nil, Bool.and_false] at ok
  obtain ⟨subqueries, converted, ok⟩ := (ofInputs_eq_ok (by simp) (by simp)).mp ok
  have run : InTurn context (fun plan before dataSet after =>
      ofPlan context plan before = .ok (dataSet, after)) (plan :: rest) before subqueries after :=
    inTurn_of_ofOutputs (fun _ _ _ _ _ ok => ok) converted
  have distinct := (InTurn.names
    (fun _ _ _ _ ok => (counts_and_converts_of_ofPlan none ok).1) run).2.1
  cases run with
  | @cons _ _ _ middle _ source _ first later =>
      obtain ⟨_, joined, joins, rfl⟩ := assemble_join_eq_ok.mp ok
      exact ⟨source, middle, first, .intro rfl
        (later.forall₂ fun _ _ _ _ ok => converts_of_ofPlan none ok) distinct joins⟩

end

/-! ## Last steps -/

namespace Converts

/-- The result is converted as what it is the result of. -/
theorem of_result (converts : Converts catalog (plan.andThen .result) dataSet) :
    Converts catalog plan dataSet := by
  cases converts with
  | result converts => exact converts
  | assembled _ results => exact (results rfl).elim

/-- A step on one input is converted on that input's conversion. -/
theorem of_andThen {step : Step} (converts : Converts catalog (plan.andThen step) dataSet)
    (single : step.takesOne = true) :
    ∃ input : Subquery, Converts catalog plan ⟨input.columns, input.source⟩ ∧
      Lower.ofStep input step = .ok dataSet := by
  cases converts with
  | read => cases single
  | result => cases single
  | assembled _ _ each _ ok =>
      obtain ⟨input, rest, first, none, rfl⟩ := List.forall₂_cons_left_iff.mp each
      obtain rfl := List.forall₂_nil_left_iff.mp none
      have joins : ∀ entities, step ≠ .join entities := by
        rintro _ rfl
        cases single
      have combines : step ≠ .combine := by
        rintro rfl
        cases single
      rw [assemble_singleton joins combines] at ok
      exact ⟨input, first, ok⟩

/-- Outputs that are brought together are combined, or there is a single one. -/
theorem of_combined {plans : List Dataflow}
    (converts : Converts catalog (Dataflow.combined plans) dataSet) :
    (∃ single, plans = [single] ∧ Converts catalog single dataSet) ∨
      ∃ first rest, List.Forall₂ (fun output (subquery : Subquery) =>
          Converts catalog output ⟨subquery.columns, subquery.source⟩) plans (first :: rest) ∧
        ((first :: rest).map (·.name)).Nodup ∧ combine first rest = .ok dataSet := by
  have several : ∀ plans, Converts catalog (.node .combine plans) dataSet →
      ∃ first rest, List.Forall₂ (fun output (subquery : Subquery) =>
          Converts catalog output ⟨subquery.columns, subquery.source⟩) plans (first :: rest) ∧
        ((first :: rest).map (·.name)).Nodup ∧ combine first rest = .ok dataSet := by
    intro plans converts
    cases converts with
    | @assembled _ _ subqueries _ _ _ each distinct ok =>
        cases subqueries with
        | nil => exact nomatch ok
        | cons first rest => exact ⟨first, rest, each, distinct, ok⟩
  match plans with
  | [single] => exact .inl ⟨single, rfl, converts⟩
  | [] | _ :: _ :: _ => exact .inr (several _ converts)

/-- The columns that a plan gives have the names that follow from what they hold. -/
theorem named (converts : Converts catalog plan dataSet) : dataSet.columns.AreNamed := by
  induction plan using Dataflow.inductionOn generalizing dataSet with
  | node step inputs ih =>
      cases converts with
      | @read name model _ _ subquery =>
          obtain ⟨_, ⟨⟩, named, _⟩ := readModel_makes model subquery
          exact named
      | result converts => exact ih _ List.mem_cons_self converts
      | assembled _ _ each _ ok =>
          refine assemble_named ok fun input among => ?_
          obtain ⟨plan, member, converts⟩ := exists_left_of_forall₂ each among
          exact ih plan member converts

end Converts

end Sql

end MetricQuery
