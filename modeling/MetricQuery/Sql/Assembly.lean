import MetricQuery.Sql.Lowering

/-! # Plain data sets

What a plan gives apart from everything that is generated on the way: no part is shared, and every
subquery is called by its place among the inputs of its step (`DataSet.ofPlan`). A step then gives
the same for the same inputs wherever it stands (`assemble`).
-/

namespace MetricQuery.Sql

/-- The joins of further subqueries to a first one, on one entity each. -/
def joinEach (left : Subquery) (entities : List String) (rights : List Subquery) :
    Except QueryError (List Joined) :=
  (entities.zip rights).mapM fun pair =>
    (joinOn pair.1 left pair.2).map fun join => ⟨pair.1, pair.2, join⟩

/-- Joining several inputs joins the first and then the others. -/
theorem joinEach_cons (left : Subquery) (entity : String) (entities : List String)
    (right : Subquery) (rights : List Subquery) :
    joinEach left (entity :: entities) (right :: rights) = (do
      let join ← joinOn entity left right
      let rest ← joinEach left entities rights
      return ⟨entity, right, join⟩ :: rest) := by
  rw [joinEach, List.zip_cons_cons, List.mapM_cons, joinEach]
  cases joinOn entity left right <;> rfl

/-- What a step makes of its inputs. -/
def assemble : Step → List Subquery → Except QueryError DataSet
  | .join _, [] => .error .emptyJoin
  | .join entities, left :: rights =>
    if rights.length = entities.length then (joinEach left entities rights).map (joinAll left)
    else .error (.unevenJoin rights.length entities.length)
  | .combine, [] => .error .emptyCombination
  | .combine, first :: rest => combine first rest
  | step, [input] => Lower.ofStep input step
  | step, inputs => .error (.notOneInput step.title inputs.length)

/-- A step on one input is that step's conversion. -/
theorem assemble_singleton {step : Step} (joins : ∀ entities, step ≠ .join entities)
    (combines : step ≠ .combine) (input : Subquery) :
    assemble step [input] = Lower.ofStep input step := by
  cases step with
  | join entities => exact (joins entities rfl).elim
  | combine => exact (combines rfl).elim
  | _ => rfl

/-- Other steps refuse any other number of inputs. -/
theorem assemble_of_not_one {step : Step} (joins : ∀ entities, step ≠ .join entities)
    (combines : step ≠ .combine) {inputs : List Subquery} (many : inputs.length ≠ 1) :
    assemble step inputs = .error (.notOneInput step.title inputs.length) := by
  match inputs with
  | [input] => exact (many rfl).elim
  | [] | _ :: _ :: _ =>
      cases step with
      | join entities => exact (joins entities rfl).elim
      | combine => exact (combines rfl).elim
      | _ => rfl

/-- Data sets as subqueries that are called by their places. -/
def placed (dataSets : List DataSet) : List Subquery :=
  dataSets.mapIdx fun place dataSet => ⟨Text.decimal place, dataSet.columns, dataSet.source⟩

namespace DataSet

mutual

/-- The plain data set of a plan. -/
def ofPlan (catalog : Catalog) : Dataflow → Except QueryError DataSet
  | .node step inputs => ofInputs catalog step inputs

/-- The data set of a step on some inputs, without sharing. -/
def ofInputs (catalog : Catalog) : Step → List Dataflow → Except QueryError DataSet
  | .read name, _ =>
    match catalog.model? name with
    | none => .error (.unknownModel name)
    | some model => .ok (readModel model (Text.decimal 0))
  | .result, [input] => ofPlan catalog input
  | step, inputs => do assemble step (placed (← ofPlans catalog inputs))

def ofPlans (catalog : Catalog) : List Dataflow → Except QueryError (List DataSet)
  | [] => .ok []
  | plan :: rest => do return (← ofPlan catalog plan) :: (← ofPlans catalog rest)

end

/-- The data sets of several plans are those of each. -/
theorem ofPlans_eq_mapM (catalog : Catalog) (plans : List Dataflow) :
    ofPlans catalog plans = plans.mapM (ofPlan catalog) := by
  induction plans with
  | nil => rw [ofPlans, List.mapM_nil]; rfl
  | cons plan rest ih => rw [ofPlans, ih, List.mapM_cons]

/-- Apart from reading a model, and from the last step over its single input, a step is assembled
from the plain data sets of its inputs. -/
theorem ofInputs_eq {catalog : Catalog} {step : Step} {inputs : List Dataflow}
    (reads : ∀ model, step ≠ .read model) (results : step = .result → inputs.length ≠ 1) :
    ofInputs catalog step inputs =
      (ofPlans catalog inputs >>= fun dataSets => assemble step (placed dataSets)) := by
  cases step with
  | read model => exact (reads model rfl).elim
  | result =>
      match inputs with
      | [input] => exact (results rfl rfl).elim
      | [] | _ :: _ :: _ => rw [ofInputs] <;> nofun
  | _ => rw [ofInputs] <;> nofun

end DataSet

end MetricQuery.Sql
