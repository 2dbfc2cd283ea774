import MetricQuery.Proofs.Scope.Resolution

/-! # References without a grain

A time dimension that is asked for without a grain is matched at every grain at which some measure
offers it, and the finest of these is what the reference means. Measures that offer the dimension at
coarser grains only do not change this: the reference is found exactly if that grain is the finest
one for every measure, and each measure without it is reported otherwise (`Scope.resolve_finest`).
A coarser grain that all measures offer is not found in its place (`Scope.resolve_not_common`).
-/

namespace MetricQuery

/-- Whether a grain is the finest of those that meet a condition. -/
structure Grain.IsFinest (meets : Grain → Prop) (grain : Grain) : Prop where
  met : meets grain
  least : ∀ other, meets other → grain ≤ other

namespace Resolution

variable {pattern : ItemPattern} {items : List GroupByItem} {name : String} {links : List String}
  {part : Option DatePart}

/-- Among matches that are one time dimension at several grains there is one that is preferred. -/
theorem exists_isFinest (some : pattern.matching items ≠ [])
    (single : ∀ item ∈ pattern.matching items,
      ∃ grain, item = .timeDimension name links grain part) :
    ∃ grain, Grain.IsFinest (fun grain => .timeDimension name links grain part ∈
      pattern.matching items) grain := by
  cases matching : pattern.matching items with
  | nil => exact (some matching).elim
  | cons first rest =>
      rw [matching] at single
      obtain ⟨grain, rfl⟩ := single first List.mem_cons_self
      have same : ∀ other ∈ rest, sameTime (.timeDimension name links grain part) other = true := by
        intro other member
        obtain ⟨coarse, rfl⟩ := single other (List.mem_cons_of_mem _ member)
        exact sameTime_iff.mpr ⟨_, _, _, _, _, rfl, rfl⟩
      obtain ⟨member, stands⟩ := finest_standsFor same
      obtain ⟨finest, chosen⟩ := single _ member
      rw [chosen] at member stands
      exact ⟨finest, member, fun other among => (stands _ among).2.2.2⟩

private theorem isPreferred_iff_isFinest
    (single : ∀ item ∈ pattern.matching items, ∃ grain, item = .timeDimension name links grain part)
    {grain : Grain} : IsPreferred pattern items (.timeDimension name links grain part) ↔
      Grain.IsFinest (fun grain => .timeDimension name links grain part ∈ pattern.matching items)
        grain := by
  refine ⟨fun preferred => ⟨preferred.1, fun other among => (preferred.2 _ among).2.2.2⟩,
    fun finest => ⟨finest.met, fun other among => ?_⟩⟩
  obtain ⟨coarse, rfl⟩ := single other among
  exact ⟨rfl, rfl, rfl, finest.least coarse among⟩

end Resolution

/-- If no grain is required, a time dimension that matches at one grain matches at all grains. -/
theorem ItemPattern.mem_matching_of_grain {pattern : ItemPattern} {items : List GroupByItem}
    (free : pattern.grain = none) {name : String} {links : List String} {part : Option DatePart}
    {grain other : Grain} (matched : .timeDimension name links grain part ∈ pattern.matching items)
    (offered : .timeDimension name links other part ∈ items) :
    .timeDimension name links other part ∈ pattern.matching items := by
  obtain ⟨reached, agrees, least⟩ := mem_matching.mp matched
  obtain ⟨-, accepted⟩ := mem_reachable.mp reached
  refine mem_matching.mpr ⟨mem_reachable.mpr ⟨offered, accepted⟩, ?_, least⟩
  rw [ItemPattern.agrees, free] at agrees ⊢
  exact agrees

/-- Where an item is preferred among all matches, what matches besides it is the same time dimension
at another grain, and no grain is required. -/
theorem Resolution.IsPreferred.mem_matching_iff {pattern : ItemPattern}
    {items : List GroupByItem} {item other : GroupByItem}
    (preferred : IsPreferred pattern items item) (offered : other ∈ items) :
    other ∈ pattern.matching items ↔ other = item ∨
      pattern.grain = none ∧ sameTime item other = true := by
  constructor
  · intro matched
    refine or_iff_not_imp_left.mpr fun different => ?_
    have same := (StandsFor.refl item).sameTime (preferred.2 other matched) (Ne.symm different)
    obtain ⟨name, links, part, grain, coarse, rfl, rfl⟩ := sameTime_iff.mp same
    refine ⟨Option.eq_none_iff_forall_not_mem.mpr fun required demands => ?_, same⟩
    have grainOf : ∀ {another : GroupByItem}, another ∈ pattern.matching items →
        another.grain = some required := by
      intro another matched
      obtain ⟨_, agrees, _⟩ := ItemPattern.mem_matching.mp matched
      obtain ⟨-, -, same, -⟩ := ItemPattern.agrees_iff.mp agrees
      rw [Option.mem_def.mp demands] at same
      exact same (Option.some_ne_none required)
    have fine := grainOf preferred.1
    have also := grainOf matched
    rw [GroupByItem.grain] at fine also
    rw [Option.some.inj fine, Option.some.inj also] at different
    exact different rfl
  · rintro (rfl | ⟨free, same⟩)
    · exact preferred.1
    · obtain ⟨name, links, part, grain, coarse, rfl, rfl⟩ := sameTime_iff.mp same
      exact ItemPattern.mem_matching_of_grain free preferred.1 offered

namespace Scope

open Resolution

/-- Whether every measure below a node offers an item. -/
def IsOffered (scope : Scope) (item : GroupByItem) : Prop :=
  ∀ reached ∈ scope.measures, offers reached.elements item = true

instance (scope : Scope) (item : GroupByItem) : Decidable (scope.IsOffered item) :=
  inferInstanceAs (Decidable (∀ reached ∈ scope.measures, _))

/-- The measures that do not offer what is preferred are reported, one issue for each of them with
its path and what comes close among its own items. -/
theorem resolve_of_lacking {scope : Scope} {limit : Nat} {pattern : ItemPattern} {input : String}
    {item : GroupByItem} (preferred : IsPreferred pattern scope.items item)
    (lacks : ¬ scope.IsOffered item) :
    ∃ suggestions, scope.resolve limit pattern input = ⟨.unresolved suggestions, [],
      (scope.measures.filter fun reached => !offers reached.elements item).map fun reached =>
        .error input reached.path (.noMatchForMeasure reached.measure
          ((pattern.nearMisses (Element.items reached.elements) limit).map
            GroupByItem.written))⟩ := by
  have single : preferFinest (pattern.matching scope.items) = [item] :=
    (preferFinest_eq_singleton (ItemPattern.nodup_matching (nodup_sortedDistinct _))).mpr preferred
  have each : ((scope.measures.filter fun reached => !offers reached.elements item).map
      fun reached => Issue.error input reached.path (.noMatchForMeasure reached.measure
        ((pattern.nearMisses (Element.items reached.elements) limit).map GroupByItem.written))) =
      (scope.lacking pattern limit item).map fun missing =>
        .error input missing.1.path (.noMatchForMeasure missing.1.measure missing.2) := by
    rw [lacking, List.map_map]
    rfl
  rw [each]
  cases missing : scope.lacking pattern limit item with
  | nil =>
      rw [lacking, List.map_eq_nil_iff, List.filter_eq_nil_iff] at missing
      simp only [Bool.not_eq_true', Bool.not_eq_false] at missing
      exact (lacks missing).elim
  | cons first rest =>
      refine ⟨first.2, ?_⟩
      rw [resolve, single]
      simp only [missing]

/-- What a measure of a query offers, the query offers. -/
theorem mem_items_of_reached {catalog : Catalog} {metrics filters : List String} {scope : Scope}
    (ok : ofQuery catalog metrics filters = .ok scope) {item : GroupByItem} :
    ∀ reached ∈ scope.measures, offers reached.elements item = true → item ∈ scope.items := by
  by_cases none : metrics = []
  · subst none
    obtain ⟨⟩ := ok
    exact nofun
  · obtain ⟨id, inputs, rfl, created⟩ := of_ofQuery none ok
    have built : Built (node id (.query metrics filters) (union inputs) inputs) := by
      refine .inputs _ _ _ rfl fun input among => ?_
      obtain ⟨metric, _, start, finish, created⟩ := exists_left_of_forall₂ created among
      exact built_of_ofMetric created
    rw [measures, built.forall_measures_iff [] fun elements => offers elements item = true → _]
    intro leaf among offered
    obtain ⟨element, member, same⟩ := List.any_eq_true.mp offered
    rw [items, mem_items]
    exact List.any_eq_true.mpr ⟨element, built.mem_elements.mpr ⟨leaf, among, member⟩, same⟩

/-- A time dimension that is asked for without a grain is found at the finest grain at which any
measure offers it, exactly if this is the finest grain for every measure. Otherwise it is not found,
and there is one issue for each measure that does not offer it at this grain. -/
theorem resolve_finest {catalog : Catalog} {metrics filters : List String} {scope : Scope}
    (built : ofQuery catalog metrics filters = .ok scope) {pattern : ItemPattern}
    (free : pattern.grain = none) {name : String} {links : List String} {part : Option DatePart}
    (some : pattern.matching scope.items ≠ [])
    (single : ∀ item ∈ pattern.matching scope.items,
      ∃ grain, item = .timeDimension name links grain part) (limit : Nat) (input : String) :
    ∃ finest, Grain.IsFinest (fun grain => .timeDimension name links grain part ∈
        pattern.matching scope.items) finest ∧
      (scope.IsOffered (.timeDimension name links finest part) →
        scope.resolve limit pattern input = ⟨.resolved (.timeDimension name links finest part),
          scope.elements.filter (·.item == .timeDimension name links finest part), []⟩) ∧
      (¬ scope.IsOffered (.timeDimension name links finest part) →
        ∃ suggestions, scope.resolve limit pattern input = ⟨.unresolved suggestions, [],
          (scope.measures.filter fun reached =>
            !offers reached.elements (.timeDimension name links finest part)).map fun reached =>
              .error input reached.path (.noMatchForMeasure reached.measure
                ((pattern.nearMisses (Element.items reached.elements) limit).map
                  GroupByItem.written))⟩) ∧
      (scope.IsOffered (.timeDimension name links finest part) ↔
        ∀ reached ∈ scope.measures, Grain.IsFinest (fun grain =>
          offers reached.elements (.timeDimension name links grain part) = true) finest) := by
  obtain ⟨finest, isFinest⟩ := exists_isFinest some single
  have preferred := (isPreferred_iff_isFinest single).mpr isFinest
  refine ⟨finest, isFinest, fun everywhere => ?_, resolve_of_lacking preferred, ?_⟩
  · exact resolve_eq_of_resolved (resolve_eq_resolved_iff.mpr ⟨preferred, everywhere⟩)
  · refine ⟨fun everywhere reached among => ⟨everywhere reached among, fun grain offered => ?_⟩,
      fun each reached among => (each reached among).met⟩
    have inside := mem_items_of_reached built reached among offered
    exact isFinest.least grain (ItemPattern.mem_matching_of_grain free isFinest.met inside)

/-- Orders by day, and visits by the given grain. -/
def pacedCatalog (grain : Grain) : Catalog where
  maxHops := 2
  manifest :=
    ⟨[⟨"orders", "shop.orders", some "ds", [⟨"order", .primary, none⟩],
        [⟨"ds", .time, none, none⟩], [⟨"amount", .sum, none, none⟩], none⟩,
      ⟨"visits", "shop.visits", some "ds", [⟨"visit", .primary, none⟩],
        [⟨"ds", .time, none, some grain⟩], [⟨"visits", .count, none, none⟩], none⟩],
      [⟨"revenue", .simple, ⟨some ⟨"amount", none⟩, none, none, none, []⟩, none, none⟩,
        ⟨"traffic", .simple, ⟨some ⟨"visits", none⟩, none, none, none, []⟩, none, none⟩]⟩

/-- The time of the metric, at any grain. -/
def anyMetricTime : ItemPattern := .ofReference ⟨none, "metric_time", [], none, none, none, none⟩

/-- Where both measures have days, the time of the metric is found at days. -/
theorem resolve_finest_day : ∃ scope,
    ofQuery (pacedCatalog .day) ["revenue", "traffic"] [] = .ok scope ∧
    (scope.resolve 6 anyMetricTime "metric_time").outcome =
      .resolved (.timeDimension "metric_time" [] .day none) := by
  obtain ⟨scope, built, matched, offered⟩ : ∃ scope,
      ofQuery (pacedCatalog .day) ["revenue", "traffic"] [] = .ok scope ∧
      anyMetricTime.matching scope.items =
        [.day, .week, .month, .quarter, .year].map (.timeDimension "metric_time" [] · none) ∧
      scope.IsOffered (.timeDimension "metric_time" [] .day none) := ⟨_, rfl, rfl, by decide⟩
  have some : anyMetricTime.matching scope.items ≠ [] := matched ▸ List.cons_ne_nil _ _
  have single : ∀ item ∈ anyMetricTime.matching scope.items,
      ∃ grain, item = .timeDimension "metric_time" [] grain none := by
    rw [matched]
    intro item member
    obtain ⟨grain, _, same⟩ := List.mem_map.mp member
    exact ⟨grain, same.symm⟩
  obtain ⟨finest, isFinest, found, -, -⟩ := resolve_finest built rfl some single 6 "metric_time"
  have days : finest = .day := by
    have least := isFinest.least .day (matched ▸ List.mem_cons_self)
    have met := isFinest.met
    rw [matched] at met
    revert met least
    cases finest <;> decide
  rw [days] at found
  exact ⟨scope, built, congrArg Resolution.outcome (found offered)⟩

/-- Where one measure has days and the other one months, the time of the metric is not found, though
both have it by month. -/
theorem resolve_not_common : ∃ scope,
    ofQuery (pacedCatalog .month) ["revenue", "traffic"] [] = .ok scope ∧
    anyMetricTime.matching scope.items =
      [.day, .week, .month, .quarter, .year].map (.timeDimension "metric_time" [] · none) ∧
    scope.IsOffered (.timeDimension "metric_time" [] .month none) ∧
    (scope.resolve 6 anyMetricTime "metric_time").outcome.item? = none :=
  ⟨_, rfl, rfl, by decide, rfl⟩

end Scope

end MetricQuery
