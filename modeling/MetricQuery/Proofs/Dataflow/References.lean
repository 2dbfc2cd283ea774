import MetricQuery.Proofs.Dataflow.Planning

/-! # Metrics that refer to metrics

A metric refers to its inputs and, in its filters, to metrics that are computed per value of an
entity. If no metric refers back to itself, then each of these can be planned as an item, at a depth
that the number of metrics bounds, as long as it is known what the filters mean
(`Dataflow.answers_of_isAcyclic`).
-/

namespace MetricQuery

namespace ItemReference

/-- A callout in a filter says what kind of item it refers to. -/
theorem exists_kind_of_readCallout {callout : String} {reference : ItemReference}
    (read : readCallout callout = .ok reference) : ∃ kind, reference.kind = some kind := by
  unfold readCallout at read
  split at read
  · rename_i call
    rw [ItemReference.read, if_pos call] at read
    obtain ⟨description, _, read⟩ := bind_eq_ok.mp read
    unfold ofDescription at read
    obtain ⟨_, _, read⟩ := bind_eq_ok.mp read
    obtain ⟨_, _, read⟩ := bind_eq_ok.mp read
    obtain ⟨_, _, read⟩ := bind_eq_ok.mp read
    obtain ⟨_, _, read⟩ := bind_eq_ok.mp read
    obtain ⟨kind, _, read⟩ := bind_eq_ok.mp read
    simp only at read
    split at read
    · obtain ⟨_, _, ⟨⟩⟩ := bind_eq_ok.mp read
      exact ⟨kind, rfl⟩
    · obtain ⟨_, _, ⟨⟩⟩ := bind_eq_ok.mp read
      exact ⟨kind, rfl⟩
  · exact nomatch read

private theorem kind_eq_metric {reference : ItemReference} {kind : ItemKind}
    (known : reference.kind = some kind) (accepted : .metric ∈ ItemPattern.kindsOf reference) :
    reference.kind = some .metric := by
  cases kind with
  | metric => exact known
  | dimension =>
      rw [ItemPattern.kindsOf, known] at accepted
      by_cases timeless : (reference.grain.isNone && reference.part.isNone) = true
      · simp [timeless] at accepted
      · simp [timeless] at accepted
  | _ => simp [ItemPattern.kindsOf, known] at accepted

end ItemReference

/-- The metrics that a filter refers to. -/
def Template.metrics (template : String) : List String :=
  match references template with
  | .ok references => (references.filter (·.kind == some .metric)).map ItemReference.name
  | .error _ => []

/-- The metrics that a metric refers to: its inputs, and those in its filters, in the filters of its
measure and of its inputs. -/
def Metric.referred (metric : Metric) : List String :=
  metric.inputMetrics.map InputMetric.name ++
    (LocatedFilters.ofMetric metric ++
      metric.inputMetrics.flatMap fun input => input.filter.getD []).flatMap Template.metrics

namespace Catalog

/-- Whether a metric refers to another one. -/
def RefersTo (catalog : Catalog) (outer inner : String) : Prop :=
  ∃ metric, catalog.metric? outer = some metric ∧ inner ∈ metric.referred

/-- Whether no metric refers back to itself. -/
def IsAcyclic (catalog : Catalog) : Prop :=
  ∀ name, ¬ Relation.TransGen catalog.RefersTo name name

section

open Classical

variable {catalog : Catalog} {outer inner : String}

/-- The metrics that a metric refers to, also through other metrics. -/
noncomputable def metricsBehind (catalog : Catalog) (name : String) : Finset String :=
  (catalog.manifest.metrics.map Metric.name).toFinset.filter
    (Relation.TransGen catalog.RefersTo name)

private theorem card_metricsBehind_le (catalog : Catalog) (name : String) :
    (catalog.metricsBehind name).card ≤ catalog.manifest.metrics.length :=
  (Finset.card_filter_le _ _).trans
    ((List.toFinset_card_le _).trans (List.length_map _).le)

/-- Without a circle there are fewer metrics behind a metric that is referred to. -/
theorem IsAcyclic.card_metricsBehind_lt (acyclic : catalog.IsAcyclic)
    (refers : catalog.RefersTo outer inner) {metric : Metric}
    (found : catalog.metric? inner = some metric) :
    (catalog.metricsBehind inner).card < (catalog.metricsBehind outer).card := by
  obtain ⟨known, named⟩ := of_metric? found
  have among : inner ∈ (catalog.manifest.metrics.map Metric.name).toFinset :=
    List.mem_toFinset.mpr (named ▸ List.mem_map_of_mem known)
  have further : catalog.metricsBehind inner ⊆ catalog.metricsBehind outer := by
    intro other member
    obtain ⟨isMetric, later⟩ := Finset.mem_filter.mp member
    exact Finset.mem_filter.mpr ⟨isMetric, .head refers later⟩
  apply Finset.card_lt_card
  refine (Finset.ssubset_iff_of_subset further).mpr ⟨inner, ?_, ?_⟩
  · exact Finset.mem_filter.mpr ⟨among, .single refers⟩
  · exact fun member => acyclic inner (Finset.mem_filter.mp member).2

end

end Catalog

namespace FilterLookup

variable {catalog : Catalog} {lookup : FilterLookup}

/-- Whether an item is no metric, or one whose filters are known. -/
def Covers (catalog : Catalog) (lookup : FilterLookup) (item : GroupByItem) : Prop :=
  item.kind = .metric → ∀ metric, catalog.metric? item.name = some metric →
    ∀ template ∈ LocatedFilters.ofMetric metric, lookup.Knows (.metric metric.name) template

/-- Whether what is found for each reference has its name and is of a kind that it can mean. -/
def IsNamed (lookup : FilterLookup) : Prop :=
  ∀ finding ∈ lookup.findings, ∀ item, finding.item = some item →
    item.name = finding.key.reference.name ∧
      item.kind ∈ ItemPattern.kindsOf finding.key.reference

/-- What is looked up for filters has names that can be read back. -/
theorem Gathers.isNamed {limit : Nat} {nodes : List PlacedNode}
    (gathers : Gathers catalog limit lookup nodes) : lookup.IsNamed := by
  intro finding member item isItem
  obtain ⟨_, _, finds⟩ := gathers.exists_finds member
  exact named_of_finds finds isItem

end FilterLookup

namespace Dataflow

variable {catalog : Catalog} {lookup : FilterLookup}

/-- The metrics that rendered filters read are metrics that the filters refer to. -/
theorem exists_template_of_conditionsAt (named : lookup.IsNamed) {location : FilterLocation}
    {filter : Option (List String)} {conditions : List Condition}
    (ok : conditionsAt lookup location filter = .ok conditions) {condition : Condition}
    (member : condition ∈ conditions) {item : GroupByItem} (inside : item ∈ condition.items)
    (kind : item.kind = .metric) :
    ∃ template ∈ filter.getD [], item.name ∈ Template.metrics template := by
  rw [conditionsAt_eq_mapM] at ok
  obtain ⟨template, declared, ok⟩ := exists_of_mapM_eq_ok ok condition member
  obtain ⟨references, read, _, items⟩ := Condition.of_ofTemplate ok
  obtain ⟨reference, among, finding, found⟩ := (items item).mp inside
  obtain ⟨member, key, isItem⟩ := FilterLookup.of_getItem found
  obtain ⟨sameName, accepted⟩ := named finding member item isItem
  rw [key] at sameName accepted
  obtain ⟨pieces, _, readEach⟩ := bind_eq_ok.mp read
  obtain ⟨callout, _, readCallout⟩ := exists_of_mapM_eq_ok readEach reference among
  obtain ⟨_, known⟩ := ItemReference.exists_kind_of_readCallout readCallout
  have isMetric := ItemReference.kind_eq_metric known (kind ▸ accepted)
  refine ⟨template, declared, ?_⟩
  rw [Template.metrics, read]
  refine List.mem_map.mpr ⟨reference, List.mem_filter.mpr ⟨among, ?_⟩, sameName.symm⟩
  exact beq_iff_eq.mpr isMetric

/-- The filters of a metric that are known can be rendered, and read what they refer to. -/
theorem exists_referring_conditionsAt (settled : lookup.IsSettled catalog) (named : lookup.IsNamed)
    {metric : Metric} (known : ∀ template ∈ LocatedFilters.ofMetric metric,
      lookup.Knows (.metric metric.name) template)
    {filter : Option (List String)}
    (declared : ∀ template ∈ filter.getD [], template ∈ LocatedFilters.ofMetric metric) :
    ∃ conditions, conditionsAt lookup (.metric metric.name) filter = .ok conditions ∧
      ∀ condition ∈ conditions, ∀ item ∈ condition.items,
        lookup.Means (.metric metric.name) item ∧
          (item.kind = .metric → item.name ∈ metric.referred) := by
  obtain ⟨conditions, ok⟩ := exists_conditionsAt settled fun template among =>
    known template (declared template among)
  refine ⟨conditions, ok, fun condition member item inside => ⟨?_, fun kind => ?_⟩⟩
  · exact means_of_conditionsAt ok condition member item inside
  · obtain ⟨template, among, refers⟩ := exists_template_of_conditionsAt named ok member inside kind
    refine List.mem_append_right _ (List.mem_flatMap.mpr ⟨template, ?_, refers⟩)
    exact List.mem_append_left _ (declared template among)

private theorem exists_referring_conditions (settled : lookup.IsSettled catalog)
    (named : lookup.IsNamed)
    {metric : Metric} (known : ∀ template ∈ LocatedFilters.ofMetric metric,
      lookup.Knows (.metric metric.name) template)
    {input : InputMeasure} (single : metric.inputMeasures = [input]) : ∃ own ofInput,
      conditionsAt lookup (.metric metric.name) metric.filter = .ok own ∧
      conditionsAt lookup (.metric metric.name) input.filter = .ok ofInput ∧
      ∀ condition ∈ own ++ ofInput, ∀ item ∈ condition.items,
        lookup.Means (.metric metric.name) item ∧
          (item.kind = .metric → item.name ∈ metric.referred) := by
  have among : input ∈ metric.inputMeasures := single ▸ List.mem_cons_self
  obtain ⟨own, ownRead, ownRefer⟩ := exists_referring_conditionsAt settled named known
    fun template declared => LocatedFilters.mem_ofMetric.mpr (.inr declared)
  obtain ⟨ofInput, inputRead, inputRefer⟩ := exists_referring_conditionsAt settled named known
    fun template declared => LocatedFilters.mem_ofMetric.mpr (.inl ⟨input, among, declared⟩)
  exact ⟨own, ofInput, ownRead, inputRead, List.forall_mem_append.mpr ⟨ownRefer, inputRefer⟩⟩

private theorem exists_metric?_of_offered (valid : catalog.manifest.IsValid) {model : SemanticModel}
    {measure : Measure} {item : GroupByItem}
    (offered : Element.Offered catalog.manifest model measure item) (kind : item.kind = .metric) :
    ∃ metric, catalog.metric? item.name = some metric := by
  obtain ⟨_, metric, _, _, known, _, _, _, rfl⟩ := of_offered_metric offered kind
  exact ⟨metric, Catalog.metric?_of_mem valid.metrics known⟩

private theorem offered_of_means (settled : lookup.IsSettled catalog) {name : String}
    {item : GroupByItem}
    (means : lookup.Means (.metric name) item) : catalog.Offers name item := by
  obtain ⟨finding, member, here, isItem⟩ := means
  obtain ⟨_, same, offers⟩ := settled.offered finding member
  obtain ⟨⟩ := isItem.symm.trans same
  exact offers name (here ▸ List.mem_cons_self)

section

variable (valid : catalog.manifest.IsValid) (unambiguous : catalog.manifest.IsUnambiguous)
  (acyclic : catalog.IsAcyclic) (settled : lookup.IsSettled catalog) (named : lookup.IsNamed)
  (meant : ∀ location item, lookup.Means location item → lookup.Covers catalog item)

include valid unambiguous acyclic settled named meant

/-- A metric whose filters are known can be computed as an item at any depth above the number of
metrics behind it. -/
theorem isComputed_of_isAcyclic {depth : Nat} {model : SemanticModel} {measure : Measure}
    {item : GroupByItem} (few : (catalog.metricsBehind item.name).card < depth)
    (offered : Element.Offered catalog.manifest model measure item) (kind : item.kind = .metric)
    (covers : lookup.Covers catalog item) :
    IsComputed catalog (subqueryAt catalog lookup depth) model item := by
  induction depth generalizing model measure item with
  | zero => exact absurd few (Nat.not_lt_zero _)
  | succ depth ih =>
      apply isComputed_of_conditions valid unambiguous offered kind
      intro metric input found single
      obtain ⟨own, ofInput, ownRead, inputRead, refer⟩ :=
        exists_referring_conditions settled named (covers kind metric found) single
      refine ⟨own, ofInput, ownRead, inputRead, ?_⟩
      intro condition member other inside owner measure foundMeasure
      obtain ⟨means, refers⟩ := refer condition member other inside
      have feeds : catalog.Feeds input.name item.name :=
        .own found (single ▸ List.mem_cons_self) rfl
      have offers := offered_of_means settled means
      rw [(Catalog.of_metric? found).2] at offers
      have offeredThere := Element.offered_of_offers foundMeasure (offers input.name feeds)
      refine ⟨offeredThere, fun kind => ?_⟩
      -- A metric in these filters has fewer metrics behind it, so that less depth is enough.
      obtain ⟨inner, foundInner⟩ := exists_metric?_of_offered valid offeredThere kind
      have fewer := acyclic.card_metricsBehind_lt ⟨metric, found, refers kind⟩ foundInner
      exact ih (by omega) offeredThere kind (meant _ other means)

/-- If no metric refers back to itself, then the metrics whose filters are known can be computed as
items. -/
theorem answers_of_isAcyclic :
    Answers catalog lookup (catalog.manifest.metrics.length + 1) (lookup.Covers catalog) := by
  intro depth model measure item deep offered kind covers
  have few := catalog.card_metricsBehind_le item.name
  apply isComputed_of_isAcyclic valid unambiguous acyclic settled named meant _ offered kind covers
  omega

end

end Dataflow

end MetricQuery
