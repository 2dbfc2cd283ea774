import Mathlib.Data.Prod.Lex
import Mathlib.Data.String.Basic
import MetricQuery.Proofs.Collection.Ties
import MetricQuery.Proofs.Scope.Matching
import MetricQuery.Proofs.Text.EditDistance

/-! # Near misses in order

Near misses are the first of a ranking of everything that can be offered
(`ItemPattern.nearMisses_ranked`). The ranking is by distance, then by name, and leaves items of one
rank in the order of the candidates (`ItemPattern.IsRanking`). What can be offered is said of each
item by itself: it is of an accepted kind, and, unless a grain was asked for, no candidate is the
same time at a finer grain (`ItemPattern.IsEligible`).
-/

namespace MetricQuery

namespace ItemPattern

/-- How far an item is from what was asked for: the least number of edits between the plain names,
one more for another grain than the one that was asked for, and one more for another date part. -/
def score (pattern : ItemPattern) (item : GroupByItem) : Nat :=
  Text.leastEdits pattern.plainName.toList item.plainName.toList +
    (if pattern.grain ≠ none ∧ item.grain ≠ pattern.grain then 1 else 0) +
    (if item.part ≠ pattern.part then 1 else 0)

/-- The place of an item among near misses: by its score, then by its qualified name. -/
def rank (pattern : ItemPattern) (item : GroupByItem) : ℕ ×ₗ String :=
  toLex (pattern.score item, item.qualifiedName)

/-- Whether an item can be offered as a near miss among some candidates. -/
structure IsEligible (pattern : ItemPattern) (items : List GroupByItem) (item : GroupByItem) :
    Prop where
  kind : item.kind ∈ pattern.kinds
  /-- If no grain was asked for, no candidate is the same time at a finer grain. -/
  finest : pattern.grain = none → ∀ other ∈ items, other.plainName = item.plainName →
    other.part = item.part → ∀ grain ∈ item.grain, ∀ finer ∈ other.grain, grain ≤ finer

instance {pattern : ItemPattern} {items : List GroupByItem} :
    DecidablePred (pattern.IsEligible items) := fun _ =>
  decidable_of_iff (_ ∧ _) ⟨fun ⟨kind, finest⟩ => ⟨kind, finest⟩,
    fun ⟨kind, finest⟩ => ⟨kind, finest⟩⟩

/-- Whether a list is the ranking of everything that can be offered among some candidates. -/
structure IsRanking (pattern : ItemPattern) (items ranking : List GroupByItem) : Prop where
  perm : ranking.Perm (items.filter fun item => decide (pattern.IsEligible items item))
  ordered : ranking.Pairwise fun item other => pattern.rank item ≤ pattern.rank other
  /-- Items of one rank stand in the order of the candidates. -/
  stable (rank : ℕ ×ₗ String) : ranking.filter (fun item => pattern.rank item = rank) =
    items.filter fun item => pattern.IsEligible items item ∧ pattern.rank item = rank

variable {pattern : ItemPattern} {items : List GroupByItem} {item other : GroupByItem}

/-- The distance the ranking sorts by is the score of the item. -/
theorem distance_eq_score (pattern : ItemPattern) (item : GroupByItem) :
    pattern.distance item = pattern.score item := by
  simp [distance, score, Text.editDistance_eq_leastEdits, Option.isSome_iff_ne_none]

private theorem finestGrain_eq_some_iff {times : List (String × Option DatePart × Grain)}
    {name : String}
    {part : Option DatePart} {grain : Grain} : finestGrain times name part = some grain ↔
      (name, part, grain) ∈ times ∧ ∀ finer, (name, part, finer) ∈ times → grain ≤ finer := by
  have mem_iff : ∀ grain, (grain ∈ times.filterMap fun time =>
      if time.1 == name && time.2.1 == part then some time.2.2 else none) ↔
        (name, part, grain) ∈ times := by
    intro grain
    rw [List.mem_filterMap]
    constructor
    · rintro ⟨⟨name', part', grain'⟩, among, same⟩
      simp only [Option.ite_none_right_eq_some, Bool.and_eq_true, beq_iff_eq,
        Option.some.injEq] at same
      obtain ⟨⟨rfl, rfl⟩, rfl⟩ := same
      exact among
    · exact fun among => ⟨_, among, by simp⟩
  simp only [finestGrain, List.min?_eq_some_iff, mem_iff]

/-- The eligible items are filtered from the candidates. -/
theorem eligible_eq_filter (pattern : ItemPattern) (items : List GroupByItem) :
    pattern.eligible items = items.filter fun item => decide (pattern.IsEligible items item) := by
  refine List.filter_congr fun item among => ?_
  have mem_times_iff : ∀ grain, ((item.plainName, item.part, grain) ∈ items.filterMap fun other =>
      other.grain.map fun grain => (other.plainName, other.part, grain)) ↔
        ∃ other ∈ items, other.plainName = item.plainName ∧ other.part = item.part ∧
          other.grain = some grain := by
    intro grain
    simp only [List.mem_filterMap, Option.map_eq_some_iff, Prod.mk.injEq]
    constructor
    · rintro ⟨other, inside, _, given, name, part, rfl⟩
      exact ⟨other, inside, name, part, given⟩
    · rintro ⟨other, inside, name, part, given⟩
      exact ⟨other, inside, grain, given, name, part, rfl⟩
  rw [Bool.eq_iff_iff, Bool.and_eq_true, decide_eq_true_iff, acceptsKind, List.contains_iff_mem]
  cases given : item.grain with
  | none =>
      refine ⟨fun accepted => ⟨accepted.1, ?_⟩, fun eligible => ⟨eligible.kind, rfl⟩⟩
      intro _ _ _ _ _ grain held
      exact (Option.some_ne_none grain (held.symm.trans given)).elim
  | some grain =>
      simp only [Bool.or_eq_true, beq_iff_eq, Option.isSome_iff_ne_none, finestGrain_eq_some_iff,
        mem_times_iff]
      constructor
      · rintro ⟨kind, asked⟩
        refine ⟨kind, fun unasked other inside name part => ?_⟩
        rintro _ held finer occurs
        obtain rfl := Option.some.inj (given.symm.trans held)
        exact (asked.resolve_left (· unasked)).2 finer ⟨other, inside, name, part, occurs⟩
      · intro eligible
        refine ⟨eligible.kind, or_iff_not_imp_left.mpr fun unasked => ?_⟩
        refine ⟨⟨item, among, rfl, rfl, given⟩, ?_⟩
        rintro finer ⟨other, inside, name, part, occurs⟩
        exact eligible.finest (not_not.mp unasked) other inside name part grain given finer occurs

private theorem ranksBefore_iff :
    (NearMiss.mk (pattern.distance item) item.qualifiedName item).ranksBefore
    ⟨pattern.distance other, other.qualifiedName, other⟩ = true ↔
      pattern.rank item ≤ pattern.rank other := by
  rw [distance_eq_score, distance_eq_score, rank, rank, Prod.Lex.toLex_le_toLex]
  change ((compare _ _).then ((compare _ _).then .eq)).isLE = true ↔ _
  rw [Ordering.then_eq, Ordering.isLE_then_iff_or, Nat.compare_eq_lt, Nat.compare_eq_eq,
    Std.LawfulBCmp.isLE_iff_le]

/-- All that can be offered, in the order in which it is offered. -/
def ranking (pattern : ItemPattern) (items : List GroupByItem) : List GroupByItem :=
  sortBy (fun item other => decide (pattern.rank item ≤ pattern.rank other))
    (pattern.eligible items)

/-- The near misses are the front of the ranking. -/
theorem nearMisses_eq_take (pattern : ItemPattern) (items : List GroupByItem) (count : Nat) :
    pattern.nearMisses items count = (pattern.ranking items).take count := by
  have order : (fun item other : GroupByItem =>
      (NearMiss.mk (pattern.distance item) item.qualifiedName item).ranksBefore
        ⟨pattern.distance other, other.qualifiedName, other⟩) =
      fun item other => decide (pattern.rank item ≤ pattern.rank other) := by
    funext item other
    rw [Bool.eq_iff_iff, ranksBefore_iff, decide_eq_true_iff]
  simp only [nearMisses]
  rw [sortBy_map, order, ← List.map_take, List.map_map]
  exact List.map_id _

/-- The ranking lists the eligible items, by score and then by name. -/
theorem isRanking_ranking (pattern : ItemPattern) (items : List GroupByItem) :
    pattern.IsRanking items (pattern.ranking items) := by
  have trans : ∀ item between other : GroupByItem,
      decide (pattern.rank item ≤ pattern.rank between) = true →
        decide (pattern.rank between ≤ pattern.rank other) = true →
          decide (pattern.rank item ≤ pattern.rank other) = true := by
    simp only [decide_eq_true_iff]
    exact fun _ _ _ => le_trans
  have total : ∀ item other : GroupByItem, (decide (pattern.rank item ≤ pattern.rank other) ||
      decide (pattern.rank other ≤ pattern.rank item)) = true := by
    simp only [Bool.or_eq_true, decide_eq_true_iff]
    exact fun item other => le_total _ _
  constructor
  case perm => exact eligible_eq_filter pattern items ▸ sortBy_perm _ _
  case ordered =>
    exact (pairwise_sortBy trans total _).imp of_decide_eq_true
  case stable =>
    intro rank
    have tied : ∀ item ∈ (pattern.eligible items).filter fun item => pattern.rank item = rank,
        pattern.rank item = rank := fun item among => of_decide_eq_true (List.mem_filter.mp among).2
    rw [ranking, filter_sortBy trans total, sortBy_of_pairwise, eligible_eq_filter,
      List.filter_filter]
    · exact List.filter_congr fun item _ => by rw [Bool.decide_and, Bool.and_comm]
    · refine List.pairwise_of_forall_mem_list fun item among other inside => ?_
      rw [tied item among, tied other inside]
      exact decide_eq_true le_rfl

namespace IsRanking

variable {ranking : List GroupByItem} (isRanking : pattern.IsRanking items ranking)

include isRanking

/-- Exactly the eligible items are ranked. -/
theorem mem_iff : item ∈ ranking ↔ item ∈ items ∧ pattern.IsEligible items item := by
  rw [isRanking.perm.mem_iff, List.mem_filter, decide_eq_true_iff]

end IsRanking

/-- What is offered was a candidate that can be offered. -/
theorem of_mem_nearMisses {count : Nat} (near : item ∈ pattern.nearMisses items count) :
    item ∈ items ∧ pattern.IsEligible items item := by
  rw [nearMisses_eq_take] at near
  exact (isRanking_ranking pattern items).mem_iff.mp (List.mem_of_mem_take near)

/-- A time is offered at its finest grain, in front of what takes more edits. -/
example : (ItemPattern.mk ItemKind.all "dss" ["booking"] none none none).nearMisses
    [.dimension "country" ["listing"], .timeDimension "ds" ["booking"] .week none,
      .timeDimension "ds" ["booking"] .day none,
      .timeDimension "ds" ["booking"] .day (some .day)] 2 =
    [.timeDimension "ds" ["booking"] .day none,
      .timeDimension "ds" ["booking"] .day (some .day)] := by decide +kernel

end ItemPattern

end MetricQuery
