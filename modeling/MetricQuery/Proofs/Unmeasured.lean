import Mathlib.Data.String.Basic
import MetricQuery.Proofs.Dataflow.Aggregations
import MetricQuery.Proofs.Element.Defining
import MetricQuery.Proofs.Query.Resolution

/-! # Queries without metrics

A query without metrics lists values from a single model. Of the models that have one of its items
only the first one by name is asked, so the query can be planned exactly if one model comes first
for each of its items (`Request.lists_iff_of_resolve`). It is not enough that some model has them
all (`Request.not_lists_customer_status`).
-/

namespace MetricQuery

variable {catalog : Catalog}

/-! ## Items without a measure -/

/-- Whether a model is the first one by name that has an item. -/
def Manifest.IsFirstWith (manifest : Manifest) (model : SemanticModel) (item : GroupByItem) :
    Prop :=
  model.HasLocal item ∧ ∀ other ∈ manifest.models, other.HasLocal item → model.name ≤ other.name

namespace Element

instance (model : SemanticModel) (item : GroupByItem) : Decidable (model.HasLocal item) :=
  decidable_of_iff _ mem_items_ofModel

/-- The model in which the first of some elements with an item is defined. -/
def firstModel? (elements : List Element) (item : GroupByItem) : Option String :=
  (elements.find? (·.item == item)).bind definedIn

/-- Elements are in order, so that the first one with an item is defined in the first model by
name. -/
theorem of_find?_elementsWithoutMetrics {item : GroupByItem} {element : Element}
    (found : catalog.elementsWithoutMetrics.find? (·.item == item) = some element) :
    ∃ model ∈ catalog.manifest.models, element.definedIn = some model.name ∧
      catalog.manifest.IsFirstWith model item := by
  have same : element.item = item := by simpa using List.find?_some found
  obtain ⟨model, known, own⟩ :=
    List.mem_flatMap.mp (mem_sortedDistinct.mp (List.mem_of_find?_eq_some found))
  have defined := definedIn_of_mem_ofModel own
  refine ⟨model, known, defined, mem_items_ofModel.mp (same ▸ List.mem_map_of_mem own), ?_⟩
  intro other knownOther has
  obtain ⟨rival, among, sameItem⟩ := List.mem_map.mp (mem_items_ofModel.mpr has)
  have listed : rival ∈ catalog.elementsWithoutMetrics :=
    mem_sortedDistinct.mpr (List.mem_flatMap.mpr ⟨other, knownOther, among⟩)
  have ordered : (compare element rival).isLE = true :=
    precedes_of_find? (fun _ => by rw [Std.ReflOrd.compare_self]; rfl)
      (pairwise_sortedDistinct _) found listed (by simpa using sameItem)
  rw [compare_eq_compareFields] at ordered
  change ((compare element.item rival.item).then
    ((compare element.definedIn rival.definedIn).then _)).isLE = true at ordered
  rw [same, sameItem, Std.ReflOrd.compare_self, Ordering.eq_then, Ordering.isLE_then_iff_and,
    defined, definedIn_of_mem_ofModel among] at ordered
  have least : (compare model.name other.name).isLE = true := ordered.1
  exact Std.LawfulBCmp.isLE_iff_le.mp least

private theorem firstModel?_eq_some {item : GroupByItem} {name : String} :
    firstModel? catalog.elementsWithoutMetrics item = some name ↔
      ∃ model ∈ catalog.manifest.models, model.name = name ∧
        catalog.manifest.IsFirstWith model item := by
  constructor
  · intro found
    obtain ⟨element, first, defined⟩ := Option.bind_eq_some_iff.mp found
    obtain ⟨model, known, named, first⟩ := of_find?_elementsWithoutMetrics first
    exact ⟨model, known, Option.some.inj (named.symm.trans defined), first⟩
  · rintro ⟨model, known, rfl, first⟩
    obtain ⟨element, member, same⟩ := List.mem_map.mp (mem_items_ofModel.mpr first.1)
    have listed : element ∈ catalog.elementsWithoutMetrics :=
      mem_sortedDistinct.mpr (List.mem_flatMap.mpr ⟨model, known, member⟩)
    cases found : catalog.elementsWithoutMetrics.find? (·.item == item) with
    | none => exact absurd same (by simpa using List.find?_eq_none.mp found element listed)
    | some earliest =>
        obtain ⟨other, knownOther, defined, firstOther⟩ := of_find?_elementsWithoutMetrics found
        have names : other.name = model.name :=
          String.le_antisymm (firstOther.2 model known first.1)
            (first.2 other knownOther firstOther.1)
        rw [firstModel?, found, Option.bind_some, defined, names]

end Element

namespace Dataflow

private theorem commonModel_some_eq_ok {elements : List Element} {current : String}
    {items : List GroupByItem} {result : Option String} :
    (commonModel elements (some current) items : Except QueryError _) = .ok result ↔
      result = some current ∧ ∀ item ∈ items, Element.firstModel? elements item = some current := by
  induction items with
  | nil =>
      constructor
      · rintro ⟨⟩
        exact ⟨rfl, nofun⟩
      · rintro ⟨rfl, _⟩
        rfl
  | cons item rest ih =>
      rw [List.forall_mem_cons, and_left_comm, ← ih, Element.firstModel?]
      simp only [commonModel]
      cases (elements.find? (·.item == item)).bind Element.definedIn with
      | none => exact ⟨nofun, nofun⟩
      | some model =>
          simp only
          split
          · rename_i same
            rw [same]
            exact (and_iff_right rfl).symm
          · rename_i other
            refine ⟨nofun, fun given => ?_⟩
            exact absurd (Option.some.inj given.1).symm other

/-- The model that some items come from is the first one with each of them. -/
theorem commonModel_eq_ok {elements : List Element} {items : List GroupByItem}
    {result : Option String} (some : items ≠ []) :
    (commonModel elements none items : Except QueryError _) = .ok result ↔
      ∃ name, result = .some name ∧
        ∀ item ∈ items, Element.firstModel? elements item = .some name := by
  obtain ⟨item, rest, rfl⟩ := List.exists_cons_of_ne_nil some
  simp only [List.forall_mem_cons, Element.firstModel?]
  simp only [commonModel]
  cases (elements.find? (·.item == item)).bind Element.definedIn with
  | none => exact ⟨nofun, nofun⟩
  | some model =>
      rw [commonModel_some_eq_ok]
      constructor
      · rintro ⟨rfl, others⟩
        exact ⟨model, rfl, rfl, others⟩
      · rintro ⟨_, rfl, ⟨⟩, others⟩
        exact ⟨rfl, others⟩

/-- Lists the values of items from a model. -/
def listing (model : SemanticModel) (groupBy : List GroupByItem) (conditions : List Condition) :
    Dataflow :=
  ((constrained (readModel model) conditions).andThen (.pass (groupBy.map .item))).andThen
    (.aggregate [])

/-- Items without metrics are planned when one model is the first with each, and listed from it. -/
theorem ofItems_eq_ok (distinct : (catalog.manifest.models.map SemanticModel.name).Nodup)
    {groupBy : List GroupByItem} {conditions : List Condition}
    (some : neededItems groupBy conditions ≠ []) {plan : Dataflow} :
    (ofItems catalog groupBy conditions : Except QueryError Dataflow) = .ok plan ↔
      ∃ model ∈ catalog.manifest.models,
        (∀ item ∈ neededItems groupBy conditions, catalog.manifest.IsFirstWith model item) ∧
          plan = listing model groupBy conditions := by
  rw [ofItems, bind_eq_ok]
  simp only [commonModel_eq_ok some, Element.firstModel?_eq_some]
  constructor
  · rintro ⟨_, ⟨name, rfl, first⟩, ok⟩
    obtain ⟨item, needed⟩ := List.exists_mem_of_ne_nil _ some
    obtain ⟨model, known, rfl, _⟩ := first item needed
    simp only [Catalog.model?_of_mem distinct known] at ok
    refine ⟨model, known, fun item needed => ?_, (Except.ok.inj ok).symm⟩
    obtain ⟨other, knownOther, same, isFirst⟩ := first item needed
    rwa [List.inj_on_of_nodup_map distinct knownOther known same] at isFirst
  · rintro ⟨model, known, first, rfl⟩
    refine ⟨_, ⟨model.name, rfl, fun item needed => ⟨model, known, rfl, first item needed⟩⟩, ?_⟩
    simp only [Catalog.model?_of_mem distinct known]
    rfl

/-- Whether a model is all that is read in a plan. -/
def ReadsOnly (plan : Dataflow) (model : SemanticModel) : Prop :=
  ∀ name inputs, (∃ way, plan.partAt? way = some (node (.read name) inputs)) ↔
    name = model.name ∧ inputs = []

/-- Reading a model reads that model alone. -/
theorem readsOnly_readModel (model : SemanticModel) : (readModel model).ReadsOnly model := by
  intro name inputs
  constructor
  · rintro ⟨_ | ⟨place, way⟩, found⟩
    · obtain ⟨⟩ := found
      exact ⟨rfl, rfl⟩
    · exact nomatch found
  · rintro ⟨rfl, rfl⟩
    exact ⟨[], rfl⟩

/-- A step on what reads one model alone reads that model alone. -/
theorem ReadsOnly.andThen {plan : Dataflow} {model : SemanticModel} (reads : plan.ReadsOnly model)
    (step : Step) (other : ∀ name, step ≠ .read name) : (plan.andThen step).ReadsOnly model := by
  intro name inputs
  rw [← reads name inputs]
  constructor
  · rintro ⟨_ | ⟨place, way⟩, found⟩
    · obtain ⟨rfl, _⟩ := node.inj (Option.some.inj found)
      exact (other name rfl).elim
    · cases place with
      | zero => exact ⟨way, found⟩
      | succ place => exact nomatch found
  · rintro ⟨way, found⟩
    exact ⟨0 :: way, found⟩

private theorem readsOnly_listing (model : SemanticModel) (groupBy : List GroupByItem)
    (conditions : List Condition) : (listing model groupBy conditions).ReadsOnly model := by
  have constrains : (constrained (readModel model) conditions).ReadsOnly model := by
    unfold constrained
    split
    · exact readsOnly_readModel model
    · exact (readsOnly_readModel model).andThen (.constrain _) nofun
  exact (constrains.andThen (.pass _) nofun).andThen (.aggregate []) nofun

end Dataflow

/-! ## Requests -/

/-- All items that a query lists or filters by. -/
def ResolvedQuery.needed (query : ResolvedQuery) : List GroupByItem :=
  Dataflow.neededItems query.groupBy query.condition.toList

namespace Request

/-- A resolved request without metrics can be planned exactly if one model is the first by name with
each of its items, and its plan then reads this model alone. If no two models have the same item of
it, then it can be planned exactly if some model has them all. -/
theorem lists_iff_of_resolve (distinct : (catalog.manifest.models.map SemanticModel.name).Nodup)
    {settings : Settings} {request : Request} (none : request.metrics = []) {memo : ReferenceMemo}
    (filled : memo.Filled) {query : ResolvedQuery}
    (resolved : ((request.resolve catalog settings).run.run memo).1 = .ok query) :
    ((∃ plan, Dataflow.ofQuery catalog query = .ok plan) ↔
      ∃ model ∈ catalog.manifest.models,
        ∀ item ∈ query.needed, catalog.manifest.IsFirstWith model item) ∧
    (∀ plan, Dataflow.ofQuery catalog query = .ok plan → ∃ model ∈ catalog.manifest.models,
      (∀ item ∈ query.needed, model.HasLocal item) ∧ plan.ReadsOnly model) ∧
    ((∀ item ∈ query.needed, ∀ left ∈ catalog.manifest.models, left.HasLocal item →
        ∀ right ∈ catalog.manifest.models, right.HasLocal item → left = right) →
      ((∃ plan, Dataflow.ofQuery catalog query = .ok plan) ↔
        ∃ model ∈ catalog.manifest.models, ∀ item ∈ query.needed, model.HasLocal item)) := by
  obtain ⟨unmeasured, listed⟩ := (resolve_unmeasured none settings memo filled).1 query resolved
  have some : query.needed ≠ [] := by
    obtain ⟨item, member⟩ := List.exists_mem_of_ne_nil _ listed
    exact List.ne_nil_of_mem (Dataflow.mem_neededItems.mpr (.inl member))
  have selected : Dataflow.ofSelection catalog query =
      Dataflow.ofItems catalog query.groupBy query.condition.toList := by
    rw [Dataflow.ofSelection, Dataflow.planSelection, if_pos (List.isEmpty_iff.mpr unmeasured)]
  have planned : (∃ plan, Dataflow.ofQuery catalog query = .ok plan) ↔
      ∃ model ∈ catalog.manifest.models,
        ∀ item ∈ query.needed, catalog.manifest.IsFirstWith model item := by
    constructor
    · rintro ⟨plan, ok⟩
      obtain ⟨selection, _, ok, _⟩ := Dataflow.of_ofQuery ok
      obtain ⟨model, known, first, _⟩ :=
        (Dataflow.ofItems_eq_ok distinct some).mp (selected.symm.trans ok)
      exact ⟨model, known, first⟩
    · rintro ⟨model, known, first⟩
      have ok := (Dataflow.ofItems_eq_ok distinct some).mpr ⟨model, known, first, rfl⟩
      exact ⟨_, bind_eq_ok.mpr ⟨_, selected.trans ok, rfl⟩⟩
  refine ⟨planned, fun plan ok => ?_, fun apart => planned.trans ?_⟩
  · obtain ⟨selection, sorted, selects, isSorted, rfl⟩ := Dataflow.of_ofQuery ok
    obtain ⟨model, known, first, rfl⟩ :=
      (Dataflow.ofItems_eq_ok distinct some).mp (selected.symm.trans selects)
    refine ⟨model, known, fun item needed => (first item needed).1, ?_⟩
    have reads := Dataflow.readsOnly_listing model query.groupBy query.condition.toList
    rcases isSorted with rfl | rfl
    · exact reads.andThen .result (by rintro _ ⟨⟩)
    · exact (reads.andThen (.sort _ _) (by rintro _ ⟨⟩)).andThen .result (by rintro _ ⟨⟩)
  · refine exists_congr fun model => and_congr_right fun known =>
      forall₂_congr fun item needed => ?_
    refine ⟨And.left, fun has => ⟨has, fun other knownOther hasOther => ?_⟩⟩
    rw [apart item needed model known has other knownOther hasOther]

/-- Orders of customers, with their status. -/
def statusModel : SemanticModel :=
  ⟨"orders", "shop.orders", none, [⟨"order", .primary, none⟩, ⟨"customer", .foreign, none⟩],
    [⟨"status", .categorical, none, none⟩], [], none⟩

/-- Orders and customers. -/
def statusCatalog : Catalog := ⟨⟨[statusModel, Dataflow.customersModel], []⟩, 2⟩

/-- All open orders. -/
def openRequest : Request :=
  ⟨[], ["order"], ["\x7b\x7b Dimension('order__status') \x7d\x7d = 'open'"], [], none⟩

/-- The customers of orders by the status of the orders. -/
def customersRequest : Request := ⟨[], ["customer", "order__status"], [], [], none⟩

/-- The open orders can be listed. -/
theorem lists_open_orders : ∃ query plan,
    ((openRequest.resolve statusCatalog .standard).run.run (.empty 4)).1 = .ok query ∧
    Dataflow.ofQuery statusCatalog query = .ok plan ∧
    query.needed = [.entity "order" [], .dimension "status" ["order"]] ∧
    (∃ model ∈ statusCatalog.manifest.models,
      (∀ item ∈ query.needed, model.HasLocal item) ∧ plan.ReadsOnly model) ∧
    ∃ model ∈ statusCatalog.manifest.models, ∀ item ∈ query.needed, model.HasLocal item := by
  have distinct : (statusCatalog.manifest.models.map SemanticModel.name).Nodup := by decide
  have checked : ((openRequest.resolve statusCatalog .standard).run.run
      (.empty 4)).1.toOption.any (fun query =>
        query.needed == [.entity "order" [], .dimension "status" ["order"]] &&
          (Dataflow.ofQuery statusCatalog query).isOk) = true := by decide +kernel
  cases resolved : ((openRequest.resolve statusCatalog .standard).run.run (.empty 4)).1 with
  | error error =>
      rw [resolved] at checked
      cases checked
  | ok query =>
      simp only [resolved, Except.toOption, Option.any_some, Bool.and_eq_true,
        beq_iff_eq] at checked
      obtain ⟨needed, planned⟩ := checked
      obtain ⟨_, reads, onlyOne⟩ := lists_iff_of_resolve distinct rfl (.empty 4) resolved
      cases ok : Dataflow.ofQuery statusCatalog query with
      | error error =>
          rw [ok] at planned
          cases planned
      | ok plan =>
          refine ⟨query, plan, rfl, ok, needed, reads plan ok, (onlyOne ?_).mp ⟨plan, ok⟩⟩
          rw [needed]
          decide +kernel

/-- The customers of orders cannot be listed together with the status of the orders, although orders
have both: customers are asked first about the customer. -/
theorem not_lists_customer_status :
    (statusCatalog.manifest.models.map SemanticModel.name).Nodup ∧
    (∀ model ∈ statusCatalog.manifest.models,
      (model.entities.map Entity.name ++ model.dimensions.map Dimension.name ++
        model.measures.map Measure.name).Nodup) ∧
    ∃ query,
      ((customersRequest.resolve statusCatalog .standard).run.run (.empty 4)).1 = .ok query ∧
      statusModel ∈ statusCatalog.manifest.models ∧
      (∀ item ∈ query.needed, statusModel.HasLocal item) ∧
      Dataflow.ofQuery statusCatalog query = .error (.notOfOneModel "order__status") := by
  have checked : ((customersRequest.resolve statusCatalog .standard).run.run
      (.empty 4)).1.toOption.any (fun query =>
        decide (∀ item ∈ query.needed, statusModel.HasLocal item) &&
          match Dataflow.ofQuery statusCatalog query with
          | .ok _ => false
          | .error error => error == .notOfOneModel "order__status") = true := by decide +kernel
  refine ⟨by decide, by decide, ?_⟩
  cases resolved : ((customersRequest.resolve statusCatalog .standard).run.run (.empty 4)).1 with
  | error error =>
      rw [resolved] at checked
      cases checked
  | ok query =>
      simp only [resolved, Except.toOption, Option.any_some, Bool.and_eq_true,
        decide_eq_true_eq] at checked
      obtain ⟨has, failed⟩ := checked
      refine ⟨query, rfl, List.mem_cons_self, has, ?_⟩
      cases planned : Dataflow.ofQuery statusCatalog query with
      | ok plan =>
          rw [planned] at failed
          cases failed
      | error error =>
          rw [planned] at failed
          rw [beq_iff_eq.mp failed]

end Request

end MetricQuery
