import MetricQuery.Proofs.Following
import MetricQuery.Proofs.Sql.Conversion

/-! # Statements over extended catalogs

A statement depends on the catalog only in the models that are read, so that a plan that can be
converted gives the same statement over a catalog with further models (`Statement.ofPlan_follows`).
-/

namespace MetricQuery.Sql

variable {catalog other : Catalog}
  (models : ∀ name model, catalog.model? name = some model → other.model? name = some model)

namespace Lower

variable {settings : SqlSettings} {whole : Dataflow} {chosen : List Dataflow}

private theorem ofOutputs_follows {inputs : List Dataflow}
    (each : ∀ input ∈ inputs, FollowsFrom (ofPlan ⟨catalog, settings, whole, chosen⟩ input)
      (ofPlan ⟨other, settings, whole, chosen⟩ input)) :
    FollowsFrom (ofOutputs ⟨catalog, settings, whole, chosen⟩ inputs)
      (ofOutputs ⟨other, settings, whole, chosen⟩ inputs) := by
  induction inputs with
  | nil => exact .refl _
  | cons input rest ih =>
      rw [ofOutputs, ofOutputs]
      refine (each input List.mem_cons_self).bind fun dataSet => ?_
      refine (FollowsFrom.refl _).bind fun first => ?_
      exact (ih fun another among => each another (List.mem_cons_of_mem _ among)).bind fun _ =>
        .refl _

include models in
private theorem ofInputs_follows (step : Step) {inputs : List Dataflow}
    (each : ∀ input ∈ inputs, FollowsFrom (ofPlan ⟨catalog, settings, whole, chosen⟩ input)
      (ofPlan ⟨other, settings, whole, chosen⟩ input)) :
    FollowsFrom (ofInputs ⟨catalog, settings, whole, chosen⟩ step inputs)
      (ofInputs ⟨other, settings, whole, chosen⟩ step inputs) := by
  by_cases reads : ∃ model, step = .read model
  · obtain ⟨name, rfl⟩ := reads
    rw [ofInputs, ofInputs, ofModel, ofModel]
    dsimp only
    cases found : catalog.model? name with
    | none => exact fun _ => .error _ _
    | some model =>
        rw [models name model found]
        exact .refl _
  by_cases results : ∃ input, step = .result ∧ inputs = [input]
  · obtain ⟨input, rfl, rfl⟩ := results
    rw [ofInputs, ofInputs]
    exact each input List.mem_cons_self
  have notRead : ∀ model, step ≠ .read model := fun model same => reads ⟨model, same⟩
  have many : step = .result → inputs.length ≠ 1 := fun same one => by
    obtain ⟨input, single⟩ := List.length_eq_one_iff.mp one
    exact results ⟨input, same, single⟩
  rintro before ⟨dataSet, after⟩ ok
  obtain ⟨subqueries, converted, ok⟩ := (ofInputs_eq_ok notRead many).mp ok
  exact (ofInputs_eq_ok notRead many).mpr
    ⟨subqueries, ofOutputs_follows each before _ converted, ok⟩

include models in
/-- A plan converted over one catalog is converted the same over an extension. -/
theorem ofPlan_follows (plan : Dataflow) :
    FollowsFrom (ofPlan ⟨catalog, settings, whole, chosen⟩ plan)
      (ofPlan ⟨other, settings, whole, chosen⟩ plan) := by
  induction plan using Dataflow.inductionOn with
  | node step inputs each =>
      have inside := ofInputs_follows models step each
      intro before
      change Follows (ofPlan _ _ before) (ofPlan _ _ before)
      rw [run_ofPlan, run_ofPlan]
      refine .ite ?_ (inside before)
      cases before.shared.find? fun part : SharedPart => part.plan == .node step inputs with
      | some part => exact .refl _
      | none => exact (inside before).bind fun _ => .refl _

end Lower

include models in
/-- A plan gives the same statement wherever its models are the same. -/
theorem Statement.ofPlan_follows (settings : SqlSettings) (plan : Dataflow) (sharing : Sharing) :
    Follows (Statement.ofPlan catalog settings plan sharing)
      (Statement.ofPlan other settings plan sharing) :=
  (Lower.ofPlan_follows models plan ⟨[], [], 0, 0⟩).bind fun _ => .refl _

end MetricQuery.Sql
