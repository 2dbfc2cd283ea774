import MetricQuery.Proofs.Sql.Conversion
import MetricQuery.Proofs.Sql.Inlining

/-! # Sharing changes nothing

However the parts of a plan to share are chosen, its statement says the same. Conversion with
shared parts is compared step by step with the plain data sets: what has been generated stays what
it is (`Extends`), and every common table expression says the same as the plain data set of the
part that it stands for (`Sound`). Putting the expressions in place of their names therefore gives
the statement without sharing, up to the names of subqueries (`Statement.ofPlan_inlined`).
-/

namespace MetricQuery.Sql

/-! ## Models -/

/-- Reading a model says the same under every name. -/
theorem positional_readModel (model : SemanticModel) (name : String) :
    (readModel model name).source.positional = (readModel model (Text.decimal 0)).source := by
  have placed : Select.placeName [name] name = Text.decimal 0 := by
    rw [Select.placeName, if_pos List.mem_cons_self, List.idxOf_cons_self]
  have same := readModel_transport (Select.placeName [name]) Relation.positional model name
    (Relation.positional_table _)
  rw [placed] at same
  rw [← same]
  exact Relation.positional_select _

/-- Reading a model reads its table. -/
theorem tables_readModel (model : SemanticModel) (name : String) :
    (readModel model name).source.tables = [model.table] := by
  rw [readModel, Selection.dataSet, Relation.tables_select]
  exact Relation.tables_table _

/-! ## Progress -/

open Lower

/-- What has been generated stays, and nothing is shared unless something is chosen. -/
structure Extends (context : Context) (before after : Progress) : Prop where
  ctes : ∃ later, after.ctes = before.ctes ++ later
  nextSubquery : before.nextSubquery ≤ after.nextSubquery
  unshared : context.chosen = [] → after.ctes = before.ctes

namespace Extends

variable {context : Context} {first second third : Progress}

/-- A conversion extends its own start. -/
theorem refl (progress : Progress) : Extends context progress progress :=
  ⟨⟨[], (List.append_nil _).symm⟩, Nat.le_refl _, fun _ => rfl⟩

/-- A conversion that goes on extends what was extended before. -/
theorem trans (earlier : Extends context first second) (later : Extends context second third) :
    Extends context first third := by
  obtain ⟨added, middle⟩ := earlier.ctes
  obtain ⟨further, last⟩ := later.ctes
  refine ⟨⟨added ++ further, ?_⟩, Nat.le_trans earlier.nextSubquery later.nextSubquery,
    fun none => ?_⟩
  · rw [last, middle, List.append_assoc]
  · rw [later.unshared none, earlier.unshared none]

/-- What could be inlined before can be inlined after. -/
theorem inlines {catalog : Catalog} {relation plain : Relation}
    (extended : Extends context first second)
    (inlines : Inlines catalog first.ctes relation plain) :
    Inlines catalog second.ctes relation plain := by
  obtain ⟨later, same⟩ := extended.ctes
  rw [same]
  exact inlines.append later

end Extends

/-- Common table expressions are numbered, and each says the same as the plain data set of the part
that it stands for. -/
structure Sound (context : Context) (progress : Progress) : Prop where
  names : progress.ctes.map (·.name) =
    (List.range progress.nextCte).map (generatedName context.settings.cteStem)
  shared : ∀ part ∈ progress.shared, ∃ plain, DataSet.ofPlan context.catalog part.plan = .ok plain ∧
    part.columns = plain.columns ∧
    Inlines context.catalog progress.ctes (.table part.name) plain.source

namespace Sound

variable {context : Context} {progress : Progress}

/-- The start is sound. -/
theorem start : Sound context ⟨[], [], 0, 0⟩ := ⟨rfl, nofun⟩

private theorem next_not_mem (sound : Sound context progress) :
    generatedName context.settings.cteStem progress.nextCte ∉ progress.ctes.map (·.name) := by
  rw [sound.names]
  intro member
  obtain ⟨number, inside, same⟩ := List.mem_map.mp member
  exact absurd (generatedName_inj same) (Nat.ne_of_lt (List.mem_range.mp inside))

/-- The number of the next subquery does not matter. -/
theorem nextSubquery (sound : Sound context progress) (number : Nat) :
    Sound context { progress with nextSubquery := number } := ⟨sound.names, sound.shared⟩

end Sound

/-- Whether a converted data set says the same as a plain one. -/
def Agrees (context : Context) (before : Progress) (converted : DataSet × Progress)
    (plain : DataSet) : Prop :=
  Extends context before converted.2 ∧ Sound context converted.2 ∧
    converted.1.columns = plain.columns ∧
    Inlines context.catalog converted.2.ctes converted.1.source plain.source

/-- Whether converted inputs, under names that have been generated one after the other, say the
same as plain data sets. -/
def AllAgree (context : Context) (before : Progress) (converted : List Subquery × Progress)
    (plains : List DataSet) : Prop :=
  Extends context before converted.2 ∧ Sound context converted.2 ∧
    (∃ numbers : List Nat, numbers.Pairwise (· < ·) ∧
      (∀ number ∈ numbers, before.nextSubquery ≤ number) ∧
      converted.1.map (·.name) =
        numbers.map (generatedName context.settings.subqueryStem)) ∧
    List.Forall₂ (fun subquery plain => subquery.columns = plain.columns ∧
      Inlines context.catalog converted.2.ctes subquery.source plain.source) converted.1 plains

section

variable {context : Context}

/-! ## Steps -/

private theorem Lower.ofModel_agrees (name : String) {before : Progress}
    (sound : Sound context before) :
    Alike (Agrees context before) (Lower.ofModel context name before)
      (match context.catalog.model? name with
        | none => .error (.unknownModel name)
        | some model => .ok (readModel model (Text.decimal 0))) := by
  unfold Lower.ofModel
  cases found : context.catalog.model? name with
  | none => exact .error _ _
  | some model =>
      refine .ok ⟨⟨⟨[], (List.append_nil _).symm⟩, Nat.le_succ _, fun _ => rfl⟩,
        sound.nextSubquery _, rfl, ?_⟩
      refine .of_models ?_ fun stored read => ?_
      · rw [positional_readModel, positional_readModel]
      · rw [tables_readModel, List.mem_singleton] at read
        exact ⟨model, Catalog.mem_of_model? found, read.symm⟩

private theorem Lower.ofOutputs_agree {inputs : List Dataflow}
    (each : ∀ input ∈ inputs, ∀ before, Sound context before →
      Alike (Agrees context before) (Lower.ofPlan context input before)
        (DataSet.ofPlan context.catalog input))
    {before : Progress} (sound : Sound context before) :
    Alike (AllAgree context before) (Lower.ofOutputs context inputs before)
      (DataSet.ofPlans context.catalog inputs) := by
  induction inputs generalizing before with
  | nil =>
      rw [Lower.ofOutputs, DataSet.ofPlans]
      exact .ok ⟨.refl before, sound, ⟨[], .nil, List.forall_mem_nil _, rfl⟩, .nil⟩
  | cons input rest ih =>
      rw [Lower.ofOutputs, DataSet.ofPlans]
      apply Alike.bind (each input List.mem_cons_self before sound)
      rintro ⟨dataSet, between⟩ plain ⟨extended, between_sound, columns, inlines⟩
      refine Alike.bind (ih (fun input member => each input (List.mem_cons_of_mem _ member))
        (between_sound.nextSubquery (between.nextSubquery + 1))) ?_
      rintro ⟨subqueries, after⟩ plains ⟨further, after_sound, ⟨numbers, ordered, later, names⟩,
        alike⟩
      refine .ok ⟨?_, after_sound, ⟨between.nextSubquery :: numbers, ?_, ?_, ?_⟩,
        .cons ⟨columns, ?_⟩ alike⟩
      · exact extended.trans ⟨further.ctes, Nat.le_trans (Nat.le_succ _) further.nextSubquery,
          further.unshared⟩
      · exact List.pairwise_cons.mpr ⟨later, ordered⟩
      · intro number member
        rcases List.mem_cons.mp member with rfl | member
        · exact extended.nextSubquery
        · exact Nat.le_trans extended.nextSubquery
            (Nat.le_trans (Nat.le_succ _) (later number member))
      · exact congrArg (_ :: ·) names
      · exact further.inlines inlines

/-- Inputs that agree with their plain data sets are put together to agree. -/
theorem Lower.ofInputs_agrees (step : Step) {inputs : List Dataflow}
    (each : ∀ input ∈ inputs, ∀ before, Sound context before →
      Alike (Agrees context before) (Lower.ofPlan context input before)
        (DataSet.ofPlan context.catalog input))
    {before : Progress} (sound : Sound context before) :
    Alike (Agrees context before) (Lower.ofInputs context step inputs before)
      (DataSet.ofInputs context.catalog step inputs) := by
  by_cases reads : ∃ model, step = .read model
  · obtain ⟨model, rfl⟩ := reads
    rw [Lower.ofInputs, DataSet.ofInputs]
    exact Lower.ofModel_agrees model sound
  by_cases results : ∃ input, step = .result ∧ inputs = [input]
  · obtain ⟨input, rfl, rfl⟩ := results
    rw [Lower.ofInputs, DataSet.ofInputs]
    exact each input List.mem_cons_self before sound
  have notRead : ∀ model, step ≠ .read model := fun model same => reads ⟨model, same⟩
  have many : step = .result → inputs.length ≠ 1 := fun same one => by
    obtain ⟨input, single⟩ := List.length_eq_one_iff.mp one
    exact results ⟨input, same, single⟩
  have assembled : ∀ result, Lower.ofInputs context step inputs before = .ok result ↔
      (Lower.ofOutputs context inputs >>= fun subqueries => liftM (assemble step subqueries))
        before = .ok result := by
    intro given
    obtain ⟨dataSet, after⟩ := given
    rw [Lower.ofInputs_eq_ok notRead many, run_bind_eq_ok]
    simp only [run_lift_eq_ok]
    constructor
    · intro succeeds
      obtain ⟨subqueries, converted, ok⟩ := succeeds
      exact ⟨subqueries, after, converted, ok, rfl⟩
    · intro succeeds
      obtain ⟨subqueries, _, converted, ok, rfl⟩ := succeeds
      exact ⟨subqueries, converted, ok⟩
  rw [DataSet.ofInputs_eq notRead many]
  refine .of_same_ok assembled (Alike.bind (Lower.ofOutputs_agree each sound) ?_)
  rintro ⟨subqueries, after⟩ plains ⟨extended, after_sound, ⟨numbers, ordered, _, names⟩, alike⟩
  have distinct : (subqueries.map (·.name)).Nodup := by
    rw [names]
    exact List.Nodup.map (fun _ _ same => generatedName_inj same) (ordered.imp Nat.ne_of_lt)
  have assembly : Alike (fun dataSet plain : DataSet => dataSet.columns = plain.columns ∧
      Inlines context.catalog after.ctes dataSet.source plain.source)
      (assemble step subqueries) (assemble step (placed plains)) := by
    by_cases last : step = .result
    · subst last
      cases alike with
      | nil => exact .error _ _
      | cons same rest =>
          cases rest with
          | nil => exact .ok same
          | cons =>
              rw [assemble_of_not_one (by simp) (by simp) (by simp),
                assemble_of_not_one (by simp) (by simp) (by simp [placed])]
              exact .error _ _
    · exact assemble_inlines notRead last distinct alike
  change Alike _ ((liftM (assemble step subqueries) : Lower DataSet) after) _
  rw [run_lift]
  exact assembly.map_left fun dataSet plain same => ⟨extended, after_sound, same⟩

private theorem Lower.share_agrees {plan : Dataflow} {before progress : Progress}
    {dataSet plain : DataSet}
    (chosen : context.chosen ≠ []) (ok : DataSet.ofPlan context.catalog plan = .ok plain)
    (same : Agrees context before (dataSet, progress) plain) :
    ∃ shared, share context plan dataSet progress = .ok shared ∧
      Agrees context before shared plain := by
  obtain ⟨extended, sound, columns, inlines⟩ := same
  have named := inlines.named sound.next_not_mem
  refine ⟨_, rfl, ?_, ⟨?_, ?_⟩, columns, named⟩
  · exact extended.trans ⟨⟨_, rfl⟩, Nat.le_refl _, fun none => (chosen none).elim⟩
  · rw [List.map_append, sound.names, List.map_singleton, List.range_succ, List.map_append,
      List.map_singleton]
  · intro part member
    rcases List.mem_append.mp member with member | member
    · obtain ⟨plain, ok, columns, inlines⟩ := sound.shared part member
      exact ⟨plain, ok, columns, inlines.append _⟩
    · obtain rfl := List.mem_singleton.mp member
      exact ⟨plain, ok, columns, named⟩

/-- Converting a plan. -/
theorem Lower.ofPlan_agrees (plan : Dataflow) :
    ∀ before, Sound context before →
      Alike (Agrees context before) (Lower.ofPlan context plan before)
        (DataSet.ofPlan context.catalog plan) := by
  induction plan using Dataflow.inductionOn with
  | node step inputs each =>
      intro before sound
      have unshared := Lower.ofInputs_agrees step each sound
      rw [run_ofPlan, DataSet.ofPlan]
      by_cases isShared : Lower.isShared context (.node step inputs) = true
      · rw [if_pos isShared]
        have chosen : context.chosen ≠ [] := by
          intro none
          rw [Lower.isShared, none, List.contains_nil, Bool.and_false] at isShared
          exact Bool.false_ne_true isShared
        split
        · rename_i part found
          have same : part.plan = .node step inputs := by
            have found := List.find?_some found
            exact beq_iff_eq.mp found
          obtain ⟨plain, ok, columns, inlines⟩ :=
            sound.shared part (List.mem_of_find?_eq_some found)
          rw [same, DataSet.ofPlan] at ok
          rw [ok]
          exact .ok ⟨.refl before, sound, columns, inlines⟩
        · generalize Lower.ofInputs context step inputs before = converted at unshared ⊢
          generalize plainly : DataSet.ofInputs context.catalog step inputs = plain at unshared ⊢
          cases unshared with
          | error => exact .error _ _
          | ok same =>
              obtain ⟨shared, ok, same⟩ := Lower.share_agrees chosen
                ((DataSet.ofPlan.eq_1 ..).trans plainly) same
              change Alike _ (share context (.node step inputs) _ _) _
              rw [ok]
              exact .ok same
      · rw [if_neg isShared]
        exact unshared

end

/-! ## Statements -/

private theorem sources_placed (dataSets : List DataSet) :
    (placed dataSets).map (·.source) = dataSets.map (·.source) := by
  refine List.ext_getElem ?_ fun place _ _ => ?_
  · rw [List.length_map, placed, List.length_mapIdx, List.length_map]
  · simp only [placed, List.getElem_map, List.getElem_mapIdx]

/-- A step reads no tables but those of its inputs. -/
theorem assemble_tables {step : Step} {inputs : List Subquery} {dataSet : DataSet}
    (reads : ∀ model, step ≠ .read model) (ok : assemble step inputs = .ok dataSet) :
    ∀ name ∈ dataSet.source.tables, ∃ source ∈ inputs.map (·.source), name ∈ source.tables := by
  intro name read
  by_cases last : step = .result
  · subst last
    match inputs with
    | [input] =>
        obtain ⟨⟩ := ok
        exact ⟨input.source, List.mem_cons_self, read⟩
    | [] | _ :: _ :: _ => exact nomatch ok
  · obtain ⟨statement, select, tables⟩ := assemble_reads reads last ok
    rw [select, Relation.tables_select, DataSet.ReadsFrom.sources_eq tables] at read
    exact List.mem_flatMap.mp read

/-- The plain data set of a plan reads models alone. -/
theorem DataSet.tables_ofPlan {catalog : Catalog} (plan : Dataflow) :
    ∀ plain, DataSet.ofPlan catalog plan = .ok plain → ∀ name ∈ plain.source.tables,
      ∃ model ∈ catalog.manifest.models, model.table = name := by
  induction plan using Dataflow.inductionOn with
  | node step inputs each =>
      intro plain ok name read
      rw [DataSet.ofPlan] at ok
      by_cases reads : ∃ model, step = .read model
      · obtain ⟨model, rfl⟩ := reads
        rw [DataSet.ofInputs] at ok
        split at ok
        · cases ok
        · rename_i model found
          obtain ⟨⟩ := ok
          rw [tables_readModel, List.mem_singleton] at read
          exact ⟨model, Catalog.mem_of_model? found, read.symm⟩
      by_cases results : ∃ input, step = .result ∧ inputs = [input]
      · obtain ⟨input, rfl, rfl⟩ := results
        rw [DataSet.ofInputs] at ok
        exact each input List.mem_cons_self plain ok name read
      have notRead : ∀ model, step ≠ .read model := fun model same => reads ⟨model, same⟩
      have many : step = .result → inputs.length ≠ 1 := fun same one => by
        obtain ⟨input, single⟩ := List.length_eq_one_iff.mp one
        exact results ⟨input, same, single⟩
      rw [DataSet.ofInputs_eq notRead many, ofPlans_eq_mapM, bind_eq_ok] at ok
      obtain ⟨dataSets, converted, ok⟩ := ok
      obtain ⟨source, among, inside⟩ := assemble_tables notRead ok name read
      rw [sources_placed] at among
      obtain ⟨dataSet, member, rfl⟩ := List.mem_map.mp among
      obtain ⟨input, present, done⟩ := exists_of_mapM_eq_ok converted dataSet member
      exact each input present dataSet done name inside

/-- Any statement of a plan says the same as its plain data set, and has no common table expression
if no part was chosen. -/
theorem Statement.ofPlan_agrees (catalog : Catalog) (settings : SqlSettings)
    (plan : Dataflow) (sharing : Sharing) :
    Alike (fun (statement : Statement) (plain : DataSet) =>
        Inlines catalog statement.ctes statement.root plain.source ∧
          (sharing.chosen plan = [] → statement.ctes = []))
      (Statement.ofPlan catalog settings plan sharing) (DataSet.ofPlan catalog plan) := by
  let context := Context.mk catalog settings plan (sharing.chosen plan)
  have start : Sound context ⟨[], [], 0, 0⟩ := .start
  change Alike _ ((Lower.ofPlan context plan ⟨[], [], 0, 0⟩).map fun result =>
    Statement.mk result.2.ctes result.1.source) _
  apply (Lower.ofPlan_agrees plan _ start).map_left
  rintro ⟨dataSet, progress⟩ plain ⟨extended, _, _, inlines⟩
  exact ⟨inlines, extended.unshared⟩

/-- Sharing parts of a plan makes no difference to whether it can be converted, nor to what the
statement says: once the common table expressions have been put in place of their names often
enough for none of the names to be left, the result is the one without sharing, up to the names of
subqueries. -/
theorem Statement.ofPlan_inlined (catalog : Catalog) (settings : SqlSettings) (plan : Dataflow)
    (sharing : Sharing) :
    ((∃ shared, Statement.ofPlan catalog settings plan sharing = .ok shared) ↔
      ∃ plain, Statement.ofPlan catalog settings plan .nothing = .ok plain) ∧
    ∀ shared plain, Statement.ofPlan catalog settings plan sharing = .ok shared →
      Statement.ofPlan catalog settings plan .nothing = .ok plain →
      AreFresh catalog shared.ctes →
      (∀ rounds, shared.ctes.length ≤ rounds → ¬ shared.IsReadBy (shared.inlined rounds)) ∧
      ∀ rounds, ¬ shared.IsReadBy (shared.inlined rounds) →
        (shared.inlined rounds).positional = plain.root.positional := by
  have converted := Statement.ofPlan_agrees catalog settings plan sharing
  have plainly := Statement.ofPlan_agrees catalog settings plan .nothing
  refine ⟨converted.isOk_iff.trans plainly.isOk_iff.symm, fun shared plain ok plainOk fresh => ?_⟩
  rw [ok] at converted
  rw [plainOk] at plainly
  generalize dataSet : DataSet.ofPlan catalog plan = result at converted plainly
  obtain @⟨_, second, inlines, _⟩ | _ := converted
  obtain ⟨plainInlines, unshared⟩ | _ := plainly
  have same : plain.root.positional = second.source.positional := by
    have none : plain.ctes = [] := unshared rfl
    rw [none] at plainInlines
    exact plainInlines [] 0 (fun _ _ _ absent => nomatch absent) (Nat.le_refl 0)
  have enough : ∀ rounds, shared.ctes.length ≤ rounds →
      (shared.inlined rounds).positional = plain.root.positional := by
    intro rounds bound
    have inlined := inlines [] rounds ((List.append_nil _).symm ▸ fresh) bound
    rw [List.append_nil] at inlined
    exact inlined.trans same.symm
  constructor
  · rintro rounds bound ⟨cte, member, read⟩
    rw [← Relation.tables_positional, enough rounds bound, same,
      Relation.tables_positional] at read
    obtain ⟨model, present, stored⟩ := DataSet.tables_ofPlan plan second dataSet cte.name read
    exact fresh model present cte member stored
  · intro rounds unread
    have fixed : shared.inlined (shared.ctes.length + rounds) = shared.inlined rounds := by
      rw [Statement.inlined, Function.iterate_add_apply]
      exact Relation.iterate_replaceCtes_of_unread
        (fun cte member read => unread ⟨cte, member, read⟩) _
    rw [← fixed]
    exact enough _ (Nat.le_add_right _ _)

/-- A manifest of one model without measures. -/
def ordersCatalog : Catalog :=
  ⟨⟨[⟨"orders", "shop.orders", none, [⟨"order", .primary, none⟩], [], [], none⟩], []⟩, 2⟩

/-- Large orders. -/
def largeOrders : Dataflow :=
  (Dataflow.leaf (.read "orders")).andThen (.constrain ⟨"amount > 10", [], []⟩)

/-- Large orders in two places and all orders in another one. -/
def ordersPlan : Dataflow :=
  (Dataflow.node .combine [largeOrders, largeOrders.andThen (.sort [] none),
    .leaf (.read "orders")]).andThen .result

/-- A shared part inside another one: after two rounds nothing is left of either. -/
theorem Statement.ofPlan_inlined_orders :
    ∃ shared plain,
      Statement.ofPlan ordersCatalog Settings.standard.sql ordersPlan
        (.parts [largeOrders, .leaf (.read "orders")]) = .ok shared ∧
      Statement.ofPlan ordersCatalog Settings.standard.sql ordersPlan .nothing = .ok plain ∧
      shared.ctes.map (·.name) = ["cte_0", "cte_1"] ∧
      (shared.inlined 2).positional = plain.root.positional := by
  obtain ⟨shared, ok, names⟩ : ∃ shared, Statement.ofPlan ordersCatalog Settings.standard.sql
      ordersPlan (.parts [largeOrders, .leaf (.read "orders")]) = .ok shared ∧
      shared.ctes.map (·.name) = ["cte_0", "cte_1"] := ⟨_, rfl, rfl⟩
  obtain ⟨plain, plainOk⟩ : ∃ plain, Statement.ofPlan ordersCatalog Settings.standard.sql
      ordersPlan .nothing = .ok plain := ⟨_, rfl⟩
  have fresh : AreFresh ordersCatalog shared.ctes := by
    intro model present cte member same
    have named : cte.name ∈ ["cte_0", "cte_1"] := names ▸ List.mem_map_of_mem member
    obtain rfl := List.mem_singleton.mp present
    rw [← same] at named
    revert named
    decide
  have two : shared.ctes.length = 2 := by simpa using congrArg List.length names
  obtain ⟨unread, same⟩ := (Statement.ofPlan_inlined ordersCatalog Settings.standard.sql ordersPlan
    (.parts [largeOrders, .leaf (.read "orders")])).2 shared plain ok plainOk fresh
  exact ⟨shared, plain, ok, plainOk, names, same 2 (unread 2 (Nat.le_of_eq two))⟩

end MetricQuery.Sql
