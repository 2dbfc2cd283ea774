import MetricQuery.Proofs.Dataflow.Metrics

/-! # Grouping by several offered items

Each item that a measure offers can be reached over some models, but a plan joins a single model for
each entity. Items can be requested together exactly if these single models can provide them
(`ofQuery_grouped_iff`); that they are all offered is not enough
(`ofQuery_region_tier`).
-/

namespace MetricQuery.Dataflow

open Sql

/-- A query for a metric, grouped by items. -/
def groupedQuery (metric : String) (items : List GroupByItem) : ResolvedQuery :=
  ⟨[⟨metric, none⟩], items, [], none, .empty, [], none, []⟩

private theorem ofQuery_groupedQuery (catalog : Catalog) (metric : String)
    (items : List GroupByItem) :
    ofQuery catalog (groupedQuery metric items) =
      (ofMetric catalog .empty catalog.metricDepth ⟨⟨metric, none⟩, items, [], none⟩).map
        (·.andThen .result) := by
  rw [ofQuery, planQuery, planSelection, groupedQuery, if_neg (by simp), ofMetric]
  simp only [Option.toList_none, List.mapM_cons, List.mapM_nil]
  cases planMetric catalog (conditionsAt .empty) catalog.metricDepth
    ⟨⟨metric, none⟩, items, [], none⟩ <;> rfl

/-- Planning a simple metric without filters, grouped by items that its measure offers, succeeds
exactly if for each entity in front of missing items the first model that looks able to provide
them is there and can be completed in the same way. It can only fail for want of such a model, and
the error names the entity, the model that is to be completed and what is needed through it. If
moreover these models offer what is taken to be their own, then the plan can be converted, however
its parts are shared. All this is so for any items if each entity identifies at most one model. -/
theorem ofQuery_grouped_iff {catalog : Catalog}
    (distinct : (catalog.manifest.models.map SemanticModel.name).Nodup)
    (reserved : catalog.manifest.IsTimeReserved) {metric : Metric} {input : InputMeasure}
    {model : SemanticModel} {measure : Measure}
    (found : catalog.metric? metric.name = some metric) (simple : metric.kind = .simple)
    (inputs : metric.inputs.measure = some input)
    (unfiltered : LocatedFilters.ofMetric metric = [])
    (measured : catalog.measure? input.name = some (model, measure)) (items : List GroupByItem)
    (offered : ∀ item ∈ items, item.kind ≠ .metric ∧
      Scope.offers (catalog.elementsOf input.name) item = true) :
    ((∃ plan, ofQuery catalog (groupedQuery metric.name items) = .ok plan) ↔
      Served catalog (fun _ _ => True) model [model.name] items) ∧
    (∀ error, ofQuery catalog (groupedQuery metric.name items) = .error error →
      LacksJoinTarget catalog.manifest model items error) ∧
    (Served catalog SemanticModel.OffersAlone model [model.name] items →
      ∃ plan, ofQuery catalog (groupedQuery metric.name items) = .ok plan ∧
        ∀ settings sharing, ∃ statement,
          Statement.ofPlan catalog settings plan sharing = .ok statement) ∧
    (catalog.manifest.IsUnambiguous →
      Served catalog SemanticModel.OffersAlone model [model.name] items) := by
  have single : metric.inputMeasures = [input] := by
    rw [Metric.inputMeasures, simple, inputs]
    rfl
  obtain ⟨noOwn, noInput⟩ := of_ofMetric_eq_nil unfiltered single
  obtain ⟨depth, deep⟩ : ∃ depth, catalog.metricDepth = depth + 1 := ⟨_, rfl⟩
  have planned : ofQuery catalog (groupedQuery metric.name items) =
      (ofMeasure catalog (subqueryAt catalog .empty depth) input.name items [] none).map
        fun aggregated => (aggregated.andThen
          (.compute ⟨metric.name, none⟩ (.measure input.name))).andThen .result := by
    rw [ofQuery_groupedQuery, deep,
      ofMetric_of_measure found single (conditionsAt_of_none noOwn) (conditionsAt_of_none noInput),
      simple]
    simp only [List.append_nil]
    cases ofMeasure catalog (subqueryAt catalog .empty depth) input.name items [] none <;> rfl
  have known := (Catalog.of_measure? measured).1
  have offers : ∀ item ∈ neededItems items [],
      Element.Offered catalog.manifest model measure item :=
    fun item member => Element.offered_of_offers measured (offered item member).2
  have noMetrics : ∀ item ∈ neededItems items [], item.kind ≠ .metric :=
    fun item member => (offered item member).1
  obtain ⟨success, failure⟩ := exists_ofMeasure_iff (subqueryAt catalog .empty depth) none
    measured noMetrics
  rw [planned]
  refine ⟨?_, ?_, ?_, ?_⟩
  · refine Iff.trans ?_ success
    constructor
    · intro succeeds
      obtain ⟨plan, ok⟩ := succeeds
      obtain ⟨aggregated, ok, _⟩ := map_eq_ok.mp ok
      exact ⟨aggregated, ok⟩
    · intro succeeds
      obtain ⟨aggregated, ok⟩ := succeeds
      exact ⟨_, by rw [ok]; rfl⟩
  · intro error failed
    apply failure error
    revert failed
    cases ofMeasure catalog (subqueryAt catalog .empty depth)
      input.name items [] none with
    | error => exact fun failed => failed
    | ok =>
        intro failed
        cases failed
  · intro served
    obtain ⟨aggregated, ok, yields⟩ := ofMeasure_yields distinct reserved
      (subqueryAt catalog .empty depth) none measured offers served
      fun item member isMetric => (noMetrics item member isMetric).elim
    refine ⟨_, by rw [ok]; rfl, fun settings sharing => ?_⟩
    refine (yields.compute ?_).result.exists_statement settings sharing
    exact List.forall_mem_singleton.mpr (.inr rfl)
  · intro unambiguous
    exact served_of_reached unambiguous (isWithin_mostLinks model items) known
      List.mem_cons_self fun item member => isReached_of_offered (offers item member)

/-- Orders of customers. -/
def ordersModel : SemanticModel :=
  ⟨"orders", "shop.orders", none, [⟨"customer", .foreign, none⟩], [],
    [⟨"amount", .sum, none, none⟩], none⟩

/-- Customers with their regions. -/
def customersModel : SemanticModel :=
  ⟨"customers", "shop.customers", none, [⟨"customer", .primary, none⟩],
    [⟨"region", .categorical, none, none⟩], [], none⟩

/-- Customers with their tiers. -/
def clientsModel : SemanticModel :=
  ⟨"clients", "shop.clients", none, [⟨"customer", .unique, none⟩],
    [⟨"tier", .categorical, none, none⟩], [], none⟩

/-- The revenue of orders. -/
def revenueMetric : Metric :=
  ⟨"revenue", .simple, ⟨some ⟨"amount", none⟩, none, none, none, []⟩, none, none⟩

/-- What is known about customers is spread over two models. -/
def clientsCatalog : Catalog :=
  ⟨⟨[ordersModel, customersModel, clientsModel], [revenueMetric]⟩, 2⟩

/-- What can be asked about a customer. -/
theorem offers_amount : ∀ item ∈ [.dimension "region" ["customer"], .dimension "tier" ["customer"],
      .entity "customer" []], item.kind ≠ .metric ∧
    Scope.offers (clientsCatalog.elementsOf "amount") item = true := by
  simp only [Element.offers_elementsOf_iff
    (rfl : clientsCatalog.measure? "amount" = some (ordersModel, _))]
  decide

/-- Without the region, the tier of a customer is found in the second model. -/
theorem ofQuery_tier : ∃ plan,
    ofQuery clientsCatalog (groupedQuery "revenue"
      [.dimension "tier" ["customer"], .entity "customer" []]) = .ok plan ∧
    ∀ settings sharing, ∃ statement,
      Statement.ofPlan clientsCatalog settings plan sharing = .ok statement := by
  have tier : Served clientsCatalog SemanticModel.OffersAlone clientsModel ["orders", "clients"]
      [.dimension "tier" []] := by
    have none : ∀ entity, clientsModel.neededThrough entity [.dimension "tier" []] = [] := by
      intro entity
      rfl
    refine .intro (fun _ => clientsModel) (fun item member _ _ => ?_)
      (fun entity needed => (needed (none entity)).elim)
      fun entity needed => (needed (none entity)).elim
    rw [List.mem_singleton.mp member]
    exact .inl ⟨rfl, .inl ⟨_, List.mem_cons_self, rfl, rfl⟩⟩
  have served : Served clientsCatalog SemanticModel.OffersAlone ordersModel ["orders"]
      [.dimension "tier" ["customer"], .entity "customer" []] := by
    have groups : linkGroups (missing ordersModel
        [.dimension "tier" ["customer"], .entity "customer" []]) =
        [⟨"customer", [.dimension "tier" []]⟩] := rfl
    have through : ∀ entity, ordersModel.neededThrough entity
        [.dimension "tier" ["customer"], .entity "customer" []] ≠ [] → entity = "customer" ∧
          ordersModel.neededThrough entity
            [.dimension "tier" ["customer"], .entity "customer" []] = [.dimension "tier" []] := by
      intro entity needed
      have member := mem_linkGroups_neededThrough needed
      rw [groups, List.mem_singleton, LinkGroup.mk.injEq] at member
      exact member
    refine .intro (fun _ => clientsModel) ?_ ?_ ?_
    · rintro _ (_ | ⟨_, _ | ⟨_, ⟨⟩⟩⟩) own _
      · exact nomatch isOwn_iff.mpr own
      · exact .inl ⟨rfl, .inr ⟨_, List.mem_cons_self, rfl⟩⟩
    · intro entity needed
      obtain ⟨rfl, same⟩ := through entity needed
      rw [same]
      exact joinTarget?_eq_some_iff.mp rfl
    · intro entity needed
      rw [(through entity needed).2]
      exact tier
  exact (@ofQuery_grouped_iff clientsCatalog (by decide) (by decide) revenueMetric _ ordersModel _
    rfl rfl rfl rfl rfl [.dimension "tier" ["customer"], .entity "customer" []]
    fun item member => offers_amount item (List.mem_cons_of_mem _ member)).2.2.1 served

/-- The region and the tier of a customer are both offered, but no single model has both. -/
theorem ofQuery_region_tier :
    clientsCatalog.manifest.IsValid ∧
    (∀ model ∈ clientsCatalog.manifest.models, (model.entities.map Entity.name ++
      model.dimensions.map Dimension.name ++ model.measures.map Measure.name).Nodup) ∧
    (∀ item ∈ [.dimension "region" ["customer"], .dimension "tier" ["customer"]],
      item.kind ≠ .metric ∧ Scope.offers (clientsCatalog.elementsOf "amount") item = true) ∧
    ofQuery clientsCatalog (groupedQuery "revenue"
      [.dimension "region" ["customer"], .dimension "tier" ["customer"]]) =
        .error (.noJoinTarget "customer" "orders" ["region", "tier"]) := by
  refine ⟨⟨by decide, by decide, by decide, by decide, by decide⟩, by decide, ?_, rfl⟩
  exact fun item member =>
    offers_amount item (List.mem_append_left [GroupByItem.entity "customer" []] member)

end MetricQuery.Dataflow
