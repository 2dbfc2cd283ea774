import MetricQuery.Proofs.Failing
import MetricQuery.Sql.Assembly

/-! # Conversion as assembly

Conversion generates names on the way through a plan, and a join looks for its columns between the
conversions of two inputs. Apart from which error occurs, this is the same as converting all
inputs first and then making of them what the step makes of any subqueries
(`Lower.ofInputs_eq_ok`).
-/

namespace MetricQuery.Sql.Lower

variable {α β : Type} {context : Context} {before after : Progress}

/-- Different numbers generate different names. -/
theorem generatedName_inj {stem : String} {left right : Nat}
    (same : generatedName stem left = generatedName stem right) : left = right :=
  Text.decimal_inj ((String.append_right_inj _).mp same)

/-! ## Runs -/

/-- A part to share is read if it has been converted before, and otherwise converted and shared. -/
theorem run_ofPlan (step : Step) (inputs : List Dataflow) :
    ofPlan context (.node step inputs) before =
      if isShared context (.node step inputs) then
        match before.shared.find? fun part : SharedPart =>
          part.plan == Dataflow.node step inputs with
        | some part => .ok (⟨part.columns, .table part.name⟩, before)
        | none => ofInputs context step inputs before >>= fun converted =>
          share context (.node step inputs) converted.1 converted.2
      else ofInputs context step inputs before := by
  rw [ofPlan]
  split
  · change (match before.shared.find? fun part : SharedPart =>
        part.plan == Dataflow.node step inputs with
      | some part => (pure ⟨part.columns, .table part.name⟩ : Lower DataSet)
      | none => ofInputs context step inputs >>= share context (.node step inputs)) before = _
    cases before.shared.find? fun part : SharedPart =>
      part.plan == Dataflow.node step inputs <;> rfl
  · rfl

/-! ## Inputs -/

/-- Each input is converted to one subquery. -/
theorem ofOutputs_length {inputs : List Dataflow} {subqueries : List Subquery}
    (ok : ofOutputs context inputs before = .ok (subqueries, after)) :
    subqueries.length = inputs.length := by
  induction inputs generalizing before subqueries with
  | nil =>
      rw [ofOutputs, run_pure_eq_ok] at ok
      rw [← ok.1, List.length_nil, List.length_nil]
  | cons input rest ih =>
      simp only [ofOutputs, run_bind_eq_ok, run_pure_eq_ok] at ok
      obtain ⟨_, _, _, _, _, _, later, _, tail, rfl, rfl⟩ := ok
      rw [List.length_cons, ih tail, List.length_cons]

/-- The further inputs of a join may as well be converted before any of them is joined. -/
theorem ofRights_eq_ok {left : Subquery} {entities : List String} {rights : List Dataflow}
    {joined : List Joined} (even : rights.length = entities.length) :
    ofRights context left entities rights before = .ok (joined, after) ↔
      ∃ subqueries, ofOutputs context rights before = .ok (subqueries, after) ∧
        joinEach left entities subqueries = .ok joined := by
  induction rights generalizing entities joined before after with
  | nil =>
      obtain rfl := List.length_eq_zero_iff.mp even.symm
      rw [ofRights, ofOutputs]
      simp only [run_pure_eq_ok]
      constructor
      · intro given
        obtain ⟨rfl, rfl⟩ := given
        exact ⟨[], ⟨rfl, rfl⟩, rfl⟩
      · intro succeeds
        obtain ⟨_, ⟨rfl, rfl⟩, ok⟩ := succeeds
        exact ⟨Except.ok.inj ok, rfl⟩
      · exact fun _ _ _ _ _ absent => nomatch absent
  | cons right rights ih =>
      obtain ⟨entity, entities, rfl⟩ := List.exists_cons_of_length_eq_add_one even.symm
      have shorter : rights.length = entities.length := Nat.succ.inj even
      simp only [ofRights, ofOutputs, run_bind_eq_ok, run_lift_eq_ok, run_pure_eq_ok, ih shorter]
      constructor
      · rintro ⟨plain, middle, converted, subquery, _, named, join, _, ⟨found, rfl⟩, rest, _,
          ⟨subqueries, tail, each⟩, rfl, rfl⟩
        refine ⟨subquery :: subqueries,
          ⟨plain, middle, converted, subquery, _, named, subqueries, _, tail, rfl, rfl⟩, ?_⟩
        rw [joinEach_cons, found, each]
        rfl
      · rintro ⟨_, ⟨plain, middle, converted, subquery, further, named, subqueries, _, tail, rfl,
          rfl⟩, ok⟩
        rw [joinEach_cons] at ok
        obtain ⟨join, found, ok⟩ := bind_eq_ok.mp ok
        obtain ⟨rest, each, ok⟩ := bind_eq_ok.mp ok
        exact ⟨plain, middle, converted, subquery, further, named, join, _, ⟨found, rfl⟩, rest, _,
          ⟨subqueries, tail, each⟩, Except.ok.inj ok, rfl⟩

private theorem ofJoin_eq_ok {entities : List String} {left : Dataflow} {rights : List Dataflow}
    {dataSet : DataSet} :
    ofInputs context (.join entities) (left :: rights) before = .ok (dataSet, after) ↔
      ∃ subqueries, ofOutputs context (left :: rights) before = .ok (subqueries, after) ∧
        assemble (.join entities) subqueries = .ok dataSet := by
  by_cases even : rights.length = entities.length
  · simp only [ofInputs, ofOutputs, even, ne_eq, not_true_eq_false, ↓reduceIte, run_bind_eq_ok,
      run_pure_eq_ok, ofRights_eq_ok even]
    constructor
    · rintro ⟨plain, middle, converted, subquery, _, named, joined, _, ⟨subqueries, tail, each⟩,
        rfl, rfl⟩
      refine ⟨_, ⟨plain, middle, converted, subquery, _, named, subqueries, _, tail, rfl, rfl⟩, ?_⟩
      rw [assemble, if_pos ((ofOutputs_length tail).trans even), each]
      rfl
    · intro succeeds
      obtain ⟨_, ⟨plain, middle, converted, subquery, _, named, subqueries, _, tail, rfl, rfl⟩,
        ok⟩ := succeeds
      rw [assemble, if_pos ((ofOutputs_length tail).trans even)] at ok
      obtain ⟨joined, each, rfl⟩ := map_eq_ok.mp ok
      exact ⟨plain, middle, converted, subquery, _, named, joined, _, ⟨subqueries, tail, each⟩,
        rfl, rfl⟩
  · simp only [ofInputs, ofOutputs, even, ne_eq, not_false_eq_true, ↓reduceIte, run_bind_eq_ok,
      run_pure_eq_ok]
    constructor
    · intro fails
      obtain ⟨_, _, thrown, _⟩ := fails
      exact nomatch thrown
    · intro succeeds
      obtain ⟨_, ⟨_, _, _, _, _, _, subqueries, _, tail, rfl, rfl⟩, ok⟩ := succeeds
      rw [assemble, if_neg fun same => even ((ofOutputs_length tail).symm.trans same)] at ok
      exact nomatch ok

private theorem ofSingle_eq_ok {step : Step} {inputs : List Dataflow} {dataSet : DataSet}
    (reads : ∀ model, step ≠ .read model) (joins : ∀ entities, step ≠ .join entities)
    (combines : step ≠ .combine) (results : step = .result → inputs.length ≠ 1) :
    ofInputs context step inputs before = .ok (dataSet, after) ↔
      ∃ subqueries, ofOutputs context inputs before = .ok (subqueries, after) ∧
        assemble step subqueries = .ok dataSet := by
  match inputs with
  | [input] =>
      have converted : ofInputs context step [input] = (do
          let plain ← ofPlan context input
          let subquery ← asSubquery context plain
          ofStep subquery step) := by
        cases step with
        | read model => exact (reads model rfl).elim
        | join entities => exact (joins entities rfl).elim
        | combine => exact (combines rfl).elim
        | result => exact (results rfl rfl).elim
        | _ => rw [ofInputs] <;> nofun
      simp only [converted, ofOutputs, run_bind_eq_ok, run_pure_eq_ok, run_lift_eq_ok]
      constructor
      · intro succeeds
        obtain ⟨plain, middle, done, subquery, _, named, ok, rfl⟩ := succeeds
        refine ⟨_, ⟨plain, middle, done, subquery, _, named, [], _, ⟨rfl, rfl⟩, rfl, rfl⟩, ?_⟩
        rw [assemble_singleton joins combines, ok]
      · intro succeeds
        obtain ⟨_, ⟨plain, middle, done, subquery, _, named, _, _, ⟨rfl, rfl⟩, rfl, rfl⟩,
          ok⟩ := succeeds
        rw [assemble_singleton joins combines] at ok
        exact ⟨plain, middle, done, subquery, _, named, ok, rfl⟩
  | [] | first :: second :: rest =>
      constructor
      · intro ok
        cases step with
        | read model => exact (reads model rfl).elim
        | join entities => exact (joins entities rfl).elim
        | combine => exact (combines rfl).elim
        | _ => exact nomatch ok
      · intro succeeds
        obtain ⟨subqueries, converted, ok⟩ := succeeds
        have many : subqueries.length ≠ 1 := by simp [ofOutputs_length converted]
        rw [assemble_of_not_one joins combines many] at ok
        exact nomatch ok

/-- A step is converted as if its inputs were converted before anything is made of them. Reading a
model, and the last step over its single input, are no steps over subqueries. -/
theorem ofInputs_eq_ok {step : Step} {inputs : List Dataflow} {dataSet : DataSet}
    (reads : ∀ model, step ≠ .read model) (results : step = .result → inputs.length ≠ 1) :
    ofInputs context step inputs before = .ok (dataSet, after) ↔
      ∃ subqueries, ofOutputs context inputs before = .ok (subqueries, after) ∧
        assemble step subqueries = .ok dataSet := by
  cases step with
  | read model => exact (reads model rfl).elim
  | join entities =>
      cases inputs with
      | nil =>
          simp only [ofInputs, ofOutputs, run_pure_eq_ok]
          constructor
          · exact nofun
          · intro succeeds
            obtain ⟨_, ⟨rfl, _⟩, ok⟩ := succeeds
            exact nomatch ok
      | cons left rights => exact ofJoin_eq_ok
  | combine =>
      cases inputs with
      | nil =>
          simp only [ofInputs, ofOutputs, run_pure_eq_ok]
          constructor
          · exact nofun
          · intro succeeds
            obtain ⟨_, ⟨rfl, _⟩, ok⟩ := succeeds
            exact nomatch ok
      | cons first rest =>
          simp only [ofInputs, ofOutputs, run_bind_eq_ok, run_lift_eq_ok, run_pure_eq_ok]
          constructor
          · intro succeeds
            obtain ⟨plain, middle, converted, subquery, further, named, subqueries, _, tail, ok,
              rfl⟩ := succeeds
            exact ⟨_, ⟨plain, middle, converted, subquery, further, named, subqueries, _, tail, rfl,
              rfl⟩, ok⟩
          · intro succeeds
            obtain ⟨_, ⟨plain, middle, converted, subquery, further, named, subqueries, _, tail,
              rfl, rfl⟩, ok⟩ := succeeds
            exact ⟨plain, middle, converted, subquery, further, named, subqueries, _, tail, ok, rfl⟩
  | _ => exact ofSingle_eq_ok (by simp) (by simp) (by simp) results

end MetricQuery.Sql.Lower
