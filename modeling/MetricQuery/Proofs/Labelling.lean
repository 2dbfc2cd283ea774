import MetricQuery.Proofs.Compiling
import MetricQuery.Proofs.Remembering
import MetricQuery.Proofs.Scope.Grounding
import MetricQuery.Proofs.Sql.Headings

/-! # Labels in compiled statements

Where the names of a manifest keep its columns apart, no select in the statement of a compiled
request has two columns of one name (`Request.nodup_headings_of_compileWith`). Besides, each model
has to have a name of its own, and no time dimension may be taken for the time of metrics at another
grain. A statement can repeat a name if only one of the two is missing
(`Request.not_nodup_headings_of_labelsApart`).
-/

namespace MetricQuery

open Sql

namespace Request

/-- **Columns of different names.** Let names in a manifest be well formed, each for an entity, for
a dimension or for a metric, and distinct within a model and among the inputs of a metric. If models
have names of their own, and a time dimension with the name of the time of metrics is stored at the
grain of that time, then no select in the statement of a compiled request has two columns of one
name, however parts of its plan are shared. -/
theorem nodup_headings_of_compileWith {catalog : Catalog} {settings : Settings} {request : Request}
    {sharing : Dataflow → Sharing} {compiled : CompiledQuery}
    (apart : catalog.manifest.LabelsApart)
    (distinct : (catalog.manifest.models.map SemanticModel.name).Nodup)
    (agrees : catalog.manifest.AgreesOnTime)
    (ok : request.compileWith catalog settings sharing = .ok compiled) :
    ∀ heading ∈ compiled.statement.headings, heading.Nodup := by
  rw [compileWith_eq] at ok
  obtain ⟨query, resolved, ok⟩ := bind_eq_ok.mp ok
  obtain ⟨plan, planned, ok⟩ := bind_eq_ok.mp ok
  obtain ⟨statement, converted, ⟨⟩⟩ := bind_eq_ok.mp ok
  have plain := (resolve_plain request settings _ (.empty _)).1 query resolved
  have parts := Dataflow.hasLegibleParts_of_ofQuery apart distinct agrees plain planned
  exact Statement.nodup_headings_of_ofPlan apart parts converted

/-- With all but the last step shared, the yield by region compiles to a statement in which columns
of one select have different names. -/
theorem nodup_headings_of_compileWith_yield : shopCatalog.manifest.LabelsApart ∧
    (shopCatalog.manifest.models.map SemanticModel.name).Nodup ∧
    shopCatalog.manifest.AgreesOnTime ∧ ∃ compiled,
      yieldRequest.compileWith shopCatalog .standard (fun plan => .parts plan.inputs) =
        .ok compiled ∧
      ∀ heading ∈ compiled.statement.headings, heading.Nodup := by
  have apart : shopCatalog.manifest.LabelsApart :=
    ⟨by decide +kernel, by decide +kernel, by decide +kernel, by decide +kernel, by decide +kernel⟩
  have distinct : (shopCatalog.manifest.models.map SemanticModel.name).Nodup := by decide +kernel
  have agrees : shopCatalog.manifest.AgreesOnTime := by decide +kernel
  have compiles : (yieldRequest.compileWith shopCatalog .standard
      fun plan => .parts plan.inputs).toOption.isSome = true := by decide +kernel
  refine ⟨apart, distinct, agrees, ?_⟩
  cases ok : yieldRequest.compileWith shopCatalog .standard fun plan => .parts plan.inputs with
  | error error =>
      rw [ok] at compiles
      cases compiles
  | ok compiled => exact ⟨compiled, rfl, nodup_headings_of_compileWith apart distinct agrees ok⟩

/-- Whether a request compiles to a statement in which a select has two columns of one name. -/
def RepeatsName (request : Request) (catalog : Catalog) : Prop :=
  ∃ compiled ∈ (request.compile catalog .standard).toOption,
    ∃ heading ∈ compiled.statement.headings, ¬ heading.Nodup

instance (request : Request) (catalog : Catalog) : Decidable (request.RepeatsName catalog) :=
  inferInstanceAs (Decidable (∃ compiled ∈ (request.compile catalog .standard).toOption, _))

/-- Daily orders with another time dimension, stored by month, that has the name of the time of
metrics. -/
def monthlyCatalog : Catalog :=
  ⟨⟨[⟨"orders", "shop.orders", some "ds", [⟨"order", .primary, none⟩],
      [⟨"ds", .time, none, none⟩, ⟨"metric_time", .time, none, some .month⟩],
      [⟨"amount", .sum, none, none⟩], none⟩], [Dataflow.revenueMetric]⟩, 2⟩

/-- Orders of customers with their accounts, where the customers of two tables are in models of one
name. -/
def namesakesCatalog : Catalog :=
  ⟨⟨[⟨"orders", "shop.orders", none, [⟨"order", .primary, none⟩, ⟨"customer", .foreign, none⟩], [],
        [⟨"amount", .sum, none, none⟩], none⟩,
      ⟨"customers", "shop.customers", none,
        [⟨"customer", .primary, none⟩, ⟨"account", .foreign, none⟩], [], [], none⟩,
      ⟨"customers", "shop.clients", none,
        [⟨"customer", .foreign, none⟩, ⟨"account", .primary, none⟩],
        [⟨"since", .time, none, some .day⟩], [], none⟩,
      ⟨"accounts", "shop.accounts", none, [⟨"account", .primary, none⟩],
        [⟨"since", .time, none, some .month⟩], [], none⟩], [Dataflow.revenueMetric]⟩, 2⟩

/-- That names keep columns apart is not enough, even if everything that metrics refer to exists.
Over either time dimension the year of a month is extracted under one name, and so is the year since
which there is an account in either model of that name. -/
theorem not_nodup_headings_of_labelsApart :
    (monthlyCatalog.manifest.LabelsApart ∧ monthlyCatalog.IsGrounded ∧
      (monthlyCatalog.manifest.models.map SemanticModel.name).Nodup ∧
      RepeatsName ⟨["revenue"], ["metric_time__month"], [], [], none⟩ monthlyCatalog) ∧
    (namesakesCatalog.manifest.LabelsApart ∧ namesakesCatalog.IsGrounded ∧
      namesakesCatalog.manifest.AgreesOnTime ∧
      RepeatsName ⟨["revenue"], ["customer__account__since__extract_year"], [], [], none⟩
        namesakesCatalog) := by
  refine ⟨⟨⟨?_, ?_, ?_, ?_, ?_⟩, Catalog.isGrounded_of_shallow ?_ ?_ ?_, ?_, ?_⟩,
    ⟨?_, ?_, ?_, ?_, ?_⟩, Catalog.isGrounded_of_shallow ?_ ?_ ?_, ?_, ?_⟩ <;> decide +kernel

end Request

end MetricQuery
