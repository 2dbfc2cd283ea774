import MetricQuery.Proofs.Dataflow.References
import MetricQuery.Proofs.Dataflow.Subqueries
import MetricQuery.Proofs.Filter.Involvement

/-! # Planning with metrics as items

A resolved request can be planned exactly if the filters of each metric that is an item have been
looked up or refer to nothing, and they are looked up only if the metric is computed for the request
anyway (`Request.plans_iff_of_resolve`). The plan then joins subqueries for just these metrics, each
under the filters of its metric alone.
-/

namespace MetricQuery

open Dataflow (neededItems IsSubquery)

variable {catalog : Catalog}

namespace ResolvedQuery

/-- Whether the filters of a metric are looked up for a query, as far as they refer to anything. -/
def LooksUp (catalog : Catalog) (query : ResolvedQuery) (metric : Metric) : Prop :=
  (∃ output ∈ query.metrics, catalog.Involves output.metric metric.name) ∨
    ∀ template ∈ LocatedFilters.ofMetric metric, Template.references template = .ok []

namespace IsSound

variable {query : ResolvedQuery} {item : GroupByItem}

/-- A sound query names a metric. -/
theorem names_ne_nil (sound : query.IsSound catalog) :
    query.metrics.map MetricOutput.metric ≠ [] := List.map_eq_nil_iff.not.mpr sound.some

/-- The lookup of a sound query names the metrics it locates filters at. -/
theorem named (sound : query.IsSound catalog) : query.lookup.IsNamed := by
  obtain ⟨_, _, _, gathers, _⟩ := sound.gathered
  exact gathers.isNamed

/-- The lookup covers an item when it looks up the metric the item stands for. -/
theorem covers_iff (sound : query.IsSound catalog) : query.lookup.Covers catalog item ↔
    (item.kind = .metric → ∀ metric, catalog.metric? item.name = .some metric →
      query.LooksUp catalog metric) := by
  obtain ⟨scope, limit, built, gathers, fine⟩ := sound.gathered
  refine forall_congr' fun kind => forall₂_congr fun metric found => ?_
  have sameName := (Catalog.of_metric? found).2
  rw [gathers.knows_all_iff sound.names_ne_nil built fine (sameName ▸ found), LooksUp]
  simp only [List.mem_map, exists_exists_and_eq_and]

/-- Each filter of a query is a part of its condition. -/
theorem exists_condition_of_filter (sound : query.IsSound catalog) {template : String}
    (isFilter : template ∈ query.filters) : ∃ condition,
      (Condition.ofTemplate Condition.readAlone query.lookup query.location template).run =
        .ok condition ∧
      ∀ item ∈ condition.items, ∃ whole ∈ query.condition.toList, item ∈ whole.items := by
  obtain ⟨conditions, rendered, all⟩ := sound.rendered
  rw [Dataflow.conditionsAt_eq_mapM, mapM_eq_ok] at rendered
  obtain ⟨condition, member, ok⟩ := exists_right_of_forall₂ rendered isFilter
  obtain ⟨whole, together⟩ := Condition.exists_all_of_mem member
  refine ⟨condition, ok, fun item inside => ⟨whole, ?_, ?_⟩⟩
  · exact Option.mem_toList.mpr (all.trans together)
  · exact (Condition.mem_items_of_all together).mpr ⟨condition, member, inside⟩

/-- Each item that is grouped by or mentioned in a filter is needed for some measure that offers
it. -/
theorem exists_needing_derivation (sound : query.IsSound catalog)
    (complete : ∀ metric ∈ catalog.manifest.metrics, metric.isComplete = true)
    (mentioned : item ∈ query.mentioned) : ∃ output ∈ query.metrics, ∃ derivation,
      catalog.Derives output.metric derivation ∧
      Scope.offers (catalog.elementsOf derivation.measure) item = true ∧
      ∀ conditions, derivation.Renders query.lookup conditions →
        item ∈ neededItems query.groupBy (query.condition.toList ++ conditions) := by
  obtain ⟨scope, limit, built, gathers, fine⟩ := sound.gathered
  obtain ⟨first, asked⟩ := List.exists_mem_of_ne_nil _ sound.some
  obtain ⟨derivation, derives⟩ :=
    Scope.exists_derivation_of_mem complete (List.mem_map_of_mem asked) built
  rcases List.mem_append.mp mentioned with grouped | filtered
  · refine ⟨first, asked, derivation, derives, ?_, fun _ _ => ?_⟩
    · exact sound.grouped item grouped first asked _ derives.feeds
    · exact Dataflow.mem_neededItems.mpr (.inl grouped)
  · obtain ⟨finding, member, isItem⟩ := List.mem_filterMap.mp filtered
    obtain ⟨_, same, offers⟩ := sound.settled.offered finding member
    obtain ⟨⟩ := isItem.symm.trans same
    obtain ⟨node, inside, template, references, declared, read, among⟩ :=
      gathers.exists_declaration (Scope.ended_of_ofQuery built) member
    rcases Scope.exists_derivation_of_ofQuery complete sound.names_ne_nil built inside declared with
      ⟨here, isFilter⟩ | ⟨name, isName, derivation, derives, on⟩
    · refine ⟨first, asked, derivation, derives, ?_, fun conditions _ => ?_⟩
      · exact offers first.metric (here ▸ List.mem_map_of_mem asked) _ derives.feeds
      · obtain ⟨condition, ok, included⟩ := sound.exists_condition_of_filter isFilter
        rw [ResolvedQuery.location, ← here] at ok
        obtain ⟨whole, isWhole, reads⟩ := included item
          (Condition.mem_items_of_finding sound.settled member isItem ok read among)
        exact Dataflow.mem_neededItems.mpr
          (.inr ⟨whole, List.mem_append_left _ isWhole, reads⟩)
    · obtain ⟨output, asked, rfl⟩ := List.mem_map.mp isName
      refine ⟨output, asked, derivation, derives, ?_, fun conditions renders => ?_⟩
      · obtain ⟨metric, about, feeds⟩ := derives.exists_feeds on
        exact offers metric about _ feeds
      · obtain ⟨condition, isCondition, ok⟩ := exists_right_of_forall₂ renders on
        have reads := Condition.mem_items_of_finding sound.settled member isItem ok read among
        exact Dataflow.mem_neededItems.mpr
          (.inr ⟨condition, List.mem_append_right _ isCondition, reads⟩)

/-- What a sound query mentions some measure's model offers. -/
theorem exists_offered (sound : query.IsSound catalog)
    (complete : ∀ metric ∈ catalog.manifest.metrics, metric.isComplete = true)
    (mentioned : item ∈ query.mentioned) :
    ∃ model measure, Element.Offered catalog.manifest model measure item := by
  obtain ⟨_, _, derivation, _, offers, _⟩ := sound.exists_needing_derivation complete mentioned
  cases found : catalog.measure? derivation.measure with
  | none =>
      rw [Catalog.elementsOf, found] at offers
      cases offers
  | some owned => exact ⟨owned.1, owned.2, Element.offered_of_offers found offers⟩

end IsSound

end ResolvedQuery

namespace Dataflow

variable {lookup : FilterLookup} {query : ResolvedQuery} {item : GroupByItem}
  {plan input : Dataflow}

/-- The filters of a metric that a subquery has been planned for are known. -/
theorem IsSubquery.covers (isSubquery : IsSubquery catalog lookup item plan) :
    lookup.Covers catalog item := by
  cases isSubquery with
  | @intro _ metric input _ _ _ _ _ found measured _ renders =>
      intro _ same foundSame template declared
      obtain ⟨⟩ := found.symm.trans foundSame
      have on : (.metric metric.name, template) ∈ (Derivation.own metric input).filters := by
        rcases LocatedFilters.mem_ofMetric.mp declared with ⟨other, among, ofInput⟩ | own
        · rw [measured] at among
          rw [List.mem_singleton.mp among] at ofInput
          exact List.mem_append_right _ (Derivation.mem_located ofInput)
        · exact List.mem_append_left _ (Derivation.mem_located own)
      obtain ⟨_, _, ok⟩ := exists_right_of_forall₂ renders on
      obtain ⟨references, read, known, _⟩ := Condition.of_ofTemplate ok
      refine ⟨references, read, fun reference among => ?_⟩
      obtain ⟨_, finding, getItem⟩ := known reference among
      obtain ⟨member, key, _⟩ := FilterLookup.of_getItem getItem
      exact List.mem_map.mpr ⟨finding, member, key⟩

/-- The plan of a query for metrics brings the plans of its metrics together. -/
theorem exists_plans_of_ofQuery (some : query.metrics ≠ [])
    (ok : ofQuery catalog query = .ok plan) : ∃ plans,
      List.Forall₂ (fun output part => ofMetric catalog query.lookup catalog.metricDepth
        ⟨output, query.groupBy, query.condition.toList, none⟩ = .ok part) query.metrics plans ∧
      ∀ input, plan.JoinsMetric input ↔ ∃ part ∈ plans, part.JoinsMetric input := by
  obtain ⟨selection, sorted, selected, isSorted, rfl⟩ := of_ofQuery ok
  unfold ofSelection planSelection at selected
  rw [if_neg (by simpa using some)] at selected
  obtain ⟨plans, planned, ⟨⟩⟩ := bind_eq_ok.mp selected
  refine ⟨plans, mapM_eq_ok.mp planned, fun input => ⟨fun joins => ?_, fun given => ?_⟩⟩
  · have inside := joins.of_andThen rfl
    rcases isSorted with rfl | rfl
    · exact inside.of_combined
    · exact (inside.of_andThen rfl).of_combined
  · obtain ⟨part, among, joins⟩ := given
    have together := joins.combined among
    rcases isSorted with rfl | rfl
    · exact together.andThen _
    · exact (together.andThen _).andThen _

/-- Whether the metrics that are joined in the plan of a query are the subqueries for the metrics
among the items of the query. -/
structure JoinsSubqueries (catalog : Catalog) (query : ResolvedQuery) (plan : Dataflow) : Prop where
  joined : ∀ item ∈ query.mentioned, item.kind = .metric →
    ∃ input, plan.JoinsMetric input ∧ IsSubquery catalog query.lookup item input
  isSubquery : ∀ input, plan.JoinsMetric input →
    ∃ item ∈ query.mentioned, item.kind = .metric ∧ IsSubquery catalog query.lookup item input

/-- The plan of a sound query joins the subqueries of its metric items. -/
theorem joinsSubqueries_of_ofQuery (valid : catalog.manifest.IsValid)
    (sound : query.IsSound catalog) (ok : ofQuery catalog query = .ok plan) :
    JoinsSubqueries catalog query plan := by
  obtain ⟨plans, planned, joins_iff⟩ := exists_plans_of_ofQuery sound.some ok
  constructor
  · intro item mentioned kind
    obtain ⟨output, asked, derivation, derives, offers, needed⟩ :=
      sound.exists_needing_derivation valid.complete mentioned
    obtain ⟨part, among, ok⟩ := exists_right_of_forall₂ planned asked
    obtain ⟨aggregated, listed, _, conditions, renders, ok, _⟩ :=
      exists_right_of_forall₂ (aggregations_of_ofMetric ok) (mem_derivations_of_ofMetric ok derives)
    obtain ⟨input, isPlanned, joins⟩ := exists_joinsMetric_of_ofMeasure
      computes_of_subqueryAt ok (needed conditions renders) kind
    obtain ⟨_, _, offered⟩ := sound.exists_offered valid.complete mentioned
    refine ⟨input, (joins_iff input).mpr ⟨part, among, ?_⟩,
      isSubquery_of_isPlannedFor valid offered isPlanned⟩
    exact joins.of_mem_ownParts (mem_ownParts_of_mem_aggregations listed)
  · intro input joins
    obtain ⟨part, among, joins⟩ := (joins_iff input).mp joins
    obtain ⟨output, asked, ok⟩ := exists_left_of_forall₂ planned among
    obtain ⟨item, depth, mentioned, isPlanned⟩ := exists_subquery_of_joinsMetric
      (fun _ _ => ResolvedQuery.mentioned_of_means)
      (fun item member _ => List.mem_append_left _ member)
      (fun condition member item inside => ResolvedQuery.mentioned_of_means
        (sound.filtered (Option.mem_toList.mp member) item inside)) ok joins
    obtain ⟨_, _, offered⟩ := sound.exists_offered valid.complete mentioned
    exact ⟨item, mentioned, isPlanned.1, isSubquery_of_isPlannedFor valid offered isPlanned⟩

end Dataflow

namespace Request

/-- If no metric refers back to itself, then a resolved request for metrics can be planned exactly
if the filters of each metric among its items have been looked up. The plan joins the subqueries for
these metrics, each under the filters of its metric alone. -/
theorem plans_iff_of_resolve (valid : catalog.manifest.IsValid)
    (unambiguous : catalog.manifest.IsUnambiguous) (acyclic : catalog.IsAcyclic)
    {settings : Settings} {request : Request} (some : request.metrics ≠ []) {memo : ReferenceMemo}
    (filled : memo.Filled) {query : ResolvedQuery}
    (resolved : ((request.resolve catalog settings).run.run memo).1 = .ok query) :
    ((∃ plan, Dataflow.ofQuery catalog query = .ok plan) ↔
      ∀ item ∈ query.mentioned, item.kind = .metric →
        ∀ metric, catalog.metric? item.name = .some metric → query.LooksUp catalog metric) ∧
    ∀ plan, Dataflow.ofQuery catalog query = .ok plan →
      Dataflow.JoinsSubqueries catalog query plan := by
  have sound := (resolve_ensures some settings memo filled).1 query resolved
  refine ⟨⟨fun planned item mentioned kind => ?_, fun looksUp => ?_⟩, fun plan ok => ?_⟩
  · obtain ⟨plan, ok⟩ := planned
    have subqueries := Dataflow.joinsSubqueries_of_ofQuery valid sound ok
    obtain ⟨input, _, isSubquery⟩ := subqueries.joined item mentioned kind
    exact sound.covers_iff.mp isSubquery.covers kind
  · have covers : ∀ item ∈ query.mentioned, query.lookup.Covers catalog item :=
      fun item mentioned => sound.covers_iff.mpr (looksUp item mentioned)
    have answers := Dataflow.answers_of_isAcyclic valid unambiguous acyclic sound.settled
      sound.named fun location item means => covers item (ResolvedQuery.mentioned_of_means means)
    obtain ⟨plan, ok, _⟩ :=
      sound.ofQuery_yields_of_answers valid unambiguous answers (Nat.le_refl _) covers
    exact ⟨plan, ok⟩
  · exact Dataflow.joinsSubqueries_of_ofQuery valid sound ok

/-- A metric of customers who visit often. -/
def loyalRequest (metric : String) : Request :=
  ⟨[metric], [], ["\x7b\x7b Metric('traffic', group_by=['customer']) \x7d\x7d > 10"], [], none⟩

/-- The shop's manifest is valid. -/
theorem isValid_shopCatalog : shopCatalog.manifest.IsValid :=
  ⟨by decide, by decide, by decide, by decide, by decide⟩

/-- The shop's manifest is unambiguous. -/
theorem isUnambiguous_shopCatalog : shopCatalog.manifest.IsUnambiguous := by
  have identified : ∀ model ∈ shopCatalog.manifest.models, ∀ entity,
      model.isIdentifiedBy entity = true → model = Dataflow.customersModel := by
    rintro _ (_ | ⟨_, _ | ⟨_, _ | ⟨_, ⟨⟩⟩⟩⟩) entity identified
    · exact nomatch identified
    · exact nomatch identified
    · rfl
  intro left knownLeft right knownRight entity first second
  rw [identified left knownLeft entity first, identified right knownRight entity second]

/-- The metrics of the shop that others refer to refer to nothing. -/
theorem isAcyclic_shopCatalog : shopCatalog.IsAcyclic := by
  have shallow : ∀ metric ∈ shopCatalog.manifest.metrics, ∀ inner ∈ metric.referred,
      ∀ other ∈ shopCatalog.metric? inner, other.referred = [] := by decide +kernel
  intro name circle
  obtain ⟨_, ⟨metric, found, further⟩, _⟩ := Relation.TransGen.head'_iff.mp circle
  obtain ⟨_, _, outer, foundOuter, refers⟩ := Relation.TransGen.tail'_iff.mp circle
  have known := (Catalog.of_metric? foundOuter).1
  rw [shallow outer known name refers metric found] at further
  exact nomatch further

/-- The yield of customers who visit often can be planned, since it is computed from their
visits. -/
theorem plans_iff_of_resolve_yield : ∃ query plan,
    (((loyalRequest "yield").resolve shopCatalog .standard).run.run (.empty 4)).1 = .ok query ∧
    Dataflow.ofQuery shopCatalog query = .ok plan ∧
    GroupByItem.metric "traffic" ["customer"] ["customer"] ∈ query.mentioned ∧
    (∀ item ∈ query.mentioned, item.kind = .metric →
      ∀ metric, shopCatalog.metric? item.name = .some metric →
        query.LooksUp shopCatalog metric) ∧
    Dataflow.JoinsSubqueries shopCatalog query plan := by
  have checked : (((loyalRequest "yield").resolve shopCatalog .standard).run.run
      (.empty 4)).1.toOption.any (fun query => (Dataflow.ofQuery shopCatalog query).isOk &&
        query.mentioned.contains (.metric "traffic" ["customer"] ["customer"])) = true := by
    decide +kernel
  cases resolved : (((loyalRequest "yield").resolve shopCatalog .standard).run.run
      (.empty 4)).1 with
  | error error =>
      rw [resolved] at checked
      cases checked
  | ok query =>
      simp only [resolved, Except.toOption, Option.any_some, Bool.and_eq_true,
        List.contains_iff_mem] at checked
      obtain ⟨planned, mentioned⟩ := checked
      obtain ⟨plans_iff, joins⟩ := plans_iff_of_resolve isValid_shopCatalog
        isUnambiguous_shopCatalog isAcyclic_shopCatalog (List.cons_ne_nil _ _) (.empty 4) resolved
      cases ok : Dataflow.ofQuery shopCatalog query with
      | error error =>
          rw [ok] at planned
          cases planned
      | ok plan =>
          exact ⟨query, plan, rfl, ok, mentioned, plans_iff.mp ⟨plan, ok⟩, joins plan ok⟩

private theorem offers_region : shopCatalog.Offers "traffic" (.dimension "region" ["customer"])
    := by
  have offered : Scope.offers (shopCatalog.elementsOf "visits")
      (.dimension "region" ["customer"]) = true := by decide +kernel
  have isTraffic : shopCatalog.metric? "traffic" = .some trafficMetric := by decide
  intro measure feeds
  cases feeds with
  | own found among named =>
      obtain ⟨⟩ := isTraffic.symm.trans found
      rw [List.mem_singleton.mp among] at named
      exact named ▸ offered
  | input found among =>
      obtain ⟨⟩ := isTraffic.symm.trans found
      exact nomatch among

/-- The revenue from customers who visit often cannot be planned: it is not computed from their
visits, so that the filter on visits has not been looked up, although each measure of visits offers
what this filter refers to. -/
theorem not_plans_revenue : shopCatalog.manifest.IsValid ∧ shopCatalog.manifest.IsUnambiguous ∧
    shopCatalog.IsAcyclic ∧ shopCatalog.Offers "traffic" (.dimension "region" ["customer"]) ∧
    ∃ query,
      (((loyalRequest "revenue").resolve shopCatalog .standard).run.run (.empty 4)).1 =
        .ok query ∧
      GroupByItem.metric "traffic" ["customer"] ["customer"] ∈ query.mentioned ∧
      Dataflow.ofQuery shopCatalog query =
        .error (.noFilterItem "Dimension('customer__region')" (.metric "traffic")) := by
  refine ⟨isValid_shopCatalog, isUnambiguous_shopCatalog, isAcyclic_shopCatalog, offers_region, ?_⟩
  have checked : (((loyalRequest "revenue").resolve shopCatalog .standard).run.run
      (.empty 4)).1.toOption.any (fun query =>
        query.mentioned.contains (.metric "traffic" ["customer"] ["customer"]) &&
          match Dataflow.ofQuery shopCatalog query with
          | .ok _ => false
          | .error error =>
            error == .noFilterItem "Dimension('customer__region')" (.metric "traffic")) = true := by
    decide +kernel
  cases resolved : (((loyalRequest "revenue").resolve shopCatalog .standard).run.run
      (.empty 4)).1 with
  | error error =>
      rw [resolved] at checked
      cases checked
  | ok query =>
      simp only [resolved, Except.toOption, Option.any_some, Bool.and_eq_true,
        List.contains_iff_mem] at checked
      obtain ⟨mentioned, failed⟩ := checked
      refine ⟨query, rfl, mentioned, ?_⟩
      cases planned : Dataflow.ofQuery shopCatalog query with
      | ok plan =>
          rw [planned] at failed
          cases failed
      | error error =>
          rw [planned] at failed
          rw [beq_iff_eq.mp failed]

end Request

end MetricQuery
