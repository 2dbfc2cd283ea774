import MetricQuery.Proofs.Dataflow.Extending
import MetricQuery.Proofs.Query.Extending
import MetricQuery.Proofs.Remembering
import MetricQuery.Proofs.Sql.Extending

/-! # Compiling over extended manifests

Further models and metrics under names of their own disturb no request: what compiles over a
manifest compiles to the same query, plan and statement over the extended one
(`Request.compileWith_of_extends`).
-/

namespace MetricQuery

namespace Request

/-- **Extending a manifest.** Put further models and metrics in at any places of a manifest, where no
model, entity, dimension, measure or metric among them has the name of one in the manifest, and the
metrics aggregate measures among them only. Every request that has compiled still compiles, to the
same resolved query, the same plan and the same statement, however parts of the plan are shared. -/
theorem compileWith_of_extends {base further whole : Manifest} (grown : base.Extends further whole)
    (hops : Nat) (settings : Settings) (request : Request) (sharing : Dataflow → Sql.Sharing)
    {compiled : CompiledQuery}
    (compiles : request.compileWith ⟨base, hops⟩ settings sharing = .ok compiled) :
    request.compileWith ⟨whole, hops⟩ settings sharing = .ok compiled := by
  rw [compileWith_eq] at compiles ⊢
  revert compiles
  have models : ∀ name model, (Catalog.mk base hops).model? name = some model →
      (Catalog.mk whole hops).model? name = some model := fun _ _ => grown.model?_eq
  refine Follows.bind (grown.resolveAlone_follows settings request) (fun query => ?_) compiled
  refine (grown.planQuery_follows query).bind fun plan => ?_
  exact (Sql.Statement.ofPlan_follows models settings.sql plan (sharing plan)).bind fun _ =>
    .refl _

/-- Tickets of customer support. -/
def supportManifest : Manifest :=
  ⟨[⟨"support", "desk.tickets", none, [⟨"ticket", .primary, none⟩],
      [⟨"channel", .categorical, none, none⟩], [⟨"tickets", .count, none, none⟩], none⟩],
    [⟨"ticket_count", .simple, ⟨some ⟨"tickets", none⟩, none, none, none, []⟩, none, none⟩]⟩

/-- The orders and visits of customers, with the tickets between them. -/
def supportedManifest : Manifest :=
  ⟨Scope.customersCatalog.manifest.models.insertIdx 1 supportManifest.models[0],
    supportManifest.metrics ++ Scope.customersCatalog.manifest.metrics⟩

/-- The revenue of northern customers by region. -/
def northRequest : Request :=
  ⟨["revenue"], ["customer__region"],
    ["\x7b\x7b Dimension('customer__region') \x7d\x7d = 'north'"], ["-revenue"], some 10⟩

/-- The revenue of the north compiles alike after support has been added. -/
theorem compileWith_north :
    Scope.customersCatalog.manifest.Extends supportManifest supportedManifest ∧
    ∃ compiled, northRequest.compileWith Scope.customersCatalog .standard (fun _ => .repeats) =
        .ok compiled ∧
      northRequest.compileWith ⟨supportedManifest, 2⟩ .standard (fun _ => .repeats) =
        .ok compiled := by
  have grown : Scope.customersCatalog.manifest.Extends supportManifest supportedManifest := by
    refine ⟨.kept _ (.inserted _ (.kept _ (.kept _ .nil))), .inserted _ (.kept _ (.kept _ .nil)),
      ?_, ?_, ?_, ?_, ?_, ?_⟩ <;> decide
  have succeeds : (northRequest.compileWith Scope.customersCatalog .standard
      (fun _ => .repeats)).isOk = true := by decide +kernel
  cases compiles : northRequest.compileWith Scope.customersCatalog .standard
      (fun _ => .repeats) with
  | error error =>
      rw [compiles] at succeeds
      exact nomatch succeeds
  | ok compiled => exact ⟨grown, compiled, rfl, compileWith_of_extends grown 2 _ _ _ compiles⟩

end Request

end MetricQuery
