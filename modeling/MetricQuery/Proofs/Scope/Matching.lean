import MetricQuery.Scope.Resolution

/-! # Matches as conditions on sets

Which items match a pattern, and which of several matches is preferred, said without the order in
which the items are listed. The items with the fewest links are those that no other one undercuts
(`ItemPattern.mem_matching`), and a single match is preferred exactly if it stands for all matches
(`Resolution.preferFinest_eq_singleton`). Said so, being preferred among several lists together is
the same as being preferred in each of them (`Resolution.isPreferred_iff_forall`).
-/

namespace MetricQuery

namespace ItemPattern

/-- The reachable items are the candidates whose kind and links the pattern accepts. -/
theorem mem_reachable {pattern : ItemPattern} {items : List GroupByItem} {item : GroupByItem} :
    item ∈ pattern.reachable items ↔
      item ∈ items ∧ pattern.acceptsKind item = true ∧ pattern.acceptsLinks item = true := by
  rw [reachable, List.mem_filter, Bool.and_eq_true]

/-- A candidate is reachable when it is of an accepted kind and its links end in the pattern's. -/
theorem mem_reachable_iff_links {pattern : ItemPattern} {items : List GroupByItem}
    {item : GroupByItem} : item ∈ pattern.reachable items ↔
      item ∈ items ∧ item.kind ∈ pattern.kinds ∧ pattern.links <:+ item.links := by
  rw [mem_reachable, acceptsKind, acceptsLinks, List.contains_iff_mem, List.isSuffixOf_iff_suffix]

/-- Agreeing with a pattern, field by field. -/
theorem agrees_iff {pattern : ItemPattern} {item : GroupByItem} :
    pattern.agrees item = true ↔ item.name = pattern.name ∧ item.part = pattern.part ∧
      (pattern.grain ≠ none → item.grain = pattern.grain) ∧
      (pattern.subqueryLinks ≠ none → item.subqueryLinks = pattern.subqueryLinks) := by
  simp only [agrees, Bool.and_eq_true, Bool.or_eq_true, beq_iff_eq, Option.isNone_iff_eq_none,
    Decidable.or_iff_not_imp_left, and_assoc]

/-- An item that agrees has the pattern's name. -/
theorem name_of_agrees {pattern : ItemPattern} {item : GroupByItem}
    (agrees : pattern.agrees item = true) : item.name = pattern.name := (agrees_iff.mp agrees).1

/-- An item matches if it agrees with the pattern and no item with matching links has fewer. -/
theorem mem_matching {pattern : ItemPattern} {items : List GroupByItem} {item : GroupByItem} :
    item ∈ pattern.matching items ↔ item ∈ pattern.reachable items ∧
      pattern.agrees item = true ∧
      ∀ other ∈ pattern.reachable items, item.links.length ≤ other.links.length := by
  simp only [matching, fewestLinks, List.mem_filter, Bool.and_eq_true, beq_iff_eq,
    List.min?_eq_some_iff, List.mem_map]
  constructor
  · intro fits
    obtain ⟨reached, ⟨-, least⟩, agrees⟩ := fits
    exact ⟨reached, agrees, fun other member => least _ ⟨other, member, rfl⟩⟩
  · intro fits
    obtain ⟨reached, agrees, least⟩ := fits
    refine ⟨reached, ⟨⟨item, reached, rfl⟩, ?_⟩, agrees⟩
    rintro _ ⟨other, member, rfl⟩
    exact least other member

/-- Among fewer items that include a match, those of the matches are left that are included. -/
theorem mem_matching_of_subset {pattern : ItemPattern} {items selected : List GroupByItem}
    {item other : GroupByItem} (subset : ∀ rival ∈ selected, rival ∈ items)
    (matched : item ∈ pattern.matching items) (included : item ∈ selected) :
    other ∈ pattern.matching selected ↔ other ∈ selected ∧ other ∈ pattern.matching items := by
  have mem_reachable_iff : ∀ {rival : GroupByItem}, rival ∈ pattern.reachable selected ↔
      rival ∈ selected ∧ rival ∈ pattern.reachable items := by
    intro rival
    rw [mem_reachable, mem_reachable]
    constructor
    · exact fun reached => ⟨reached.1, subset rival reached.1, reached.2⟩
    · exact fun reached => ⟨reached.1, reached.2.2⟩
  obtain ⟨reached, -, fewest⟩ := mem_matching.mp matched
  rw [mem_matching, mem_matching, mem_reachable_iff]
  constructor
  · intro given
    obtain ⟨⟨present, inside⟩, agrees, least⟩ := given
    have short := least item (mem_reachable_iff.mpr ⟨included, reached⟩)
    exact ⟨present, inside, agrees, fun rival among => Nat.le_trans short (fewest rival among)⟩
  · intro given
    obtain ⟨present, inside, agrees, least⟩ := given
    exact ⟨⟨present, inside⟩, agrees, fun rival among => least rival (mem_reachable_iff.mp among).2⟩

/-- Distinct candidates give distinct matches. -/
theorem nodup_matching {pattern : ItemPattern} {items : List GroupByItem}
    (distinct : items.Nodup) : (pattern.matching items).Nodup :=
  List.Pairwise.filter _ (List.Pairwise.filter _ distinct)

end ItemPattern

/-- Grains each within the other are the same. -/
theorem Grain.le_antisymm {left right : Grain} (before : left ≤ right) (after : right ≤ left) :
    left = right := by
  have same : left.rank = right.rank := Nat.le_antisymm before after
  cases left <;> cases right <;> first | rfl | exact nomatch same

instance : Std.IsLinearOrder Grain where
  le_refl grain := Nat.le_refl grain.rank
  le_trans _ _ _ := Nat.le_trans
  le_antisymm _ _ := Grain.le_antisymm
  le_total left right := Nat.le_total left.rank right.rank

instance : Std.LawfulOrderMin Grain where
  min_eq_or left right := by
    by_cases finer : left ≤ right
    · exact .inl (if_pos finer)
    · exact .inr (if_neg finer)
  le_min_iff grain left right := by
    by_cases finer : left ≤ right
    · rw [show min left right = left from if_pos finer]
      exact ⟨fun below => ⟨below, Std.le_trans below finer⟩, And.left⟩
    · rw [show min left right = right from if_neg finer]
      exact ⟨fun below => ⟨Std.le_trans below (Std.le_of_not_ge finer), below⟩, And.right⟩

namespace Resolution

/-- Whether an item stands for another one: they are equal, or one time dimension or date part of
which the second is no finer. -/
def StandsFor : GroupByItem → GroupByItem → Prop
  | .timeDimension name links grain part, .timeDimension name' links' grain' part' =>
    name = name' ∧ links = links' ∧ part = part' ∧ grain ≤ grain'
  | item, other => item = other

namespace StandsFor

/-- An item stands for itself. -/
theorem refl (item : GroupByItem) : StandsFor item item := by
  cases item with
  | timeDimension name links grain part => exact ⟨rfl, rfl, rfl, Nat.le_refl _⟩
  | _ => rfl

/-- Standing for is transitive. -/
theorem trans {item between other : GroupByItem} (left : StandsFor item between)
    (right : StandsFor between other) : StandsFor item other := by
  cases item with
  | timeDimension name links grain part =>
      cases between with
      | timeDimension =>
          obtain ⟨rfl, rfl, rfl, before⟩ := left
          cases other with
          | timeDimension =>
              obtain ⟨rfl, rfl, rfl, after⟩ := right
              exact ⟨rfl, rfl, rfl, Nat.le_trans before after⟩
          | _ => exact nomatch right
      | _ => exact nomatch left
  | _ => exact Eq.symm left ▸ right

/-- Two items that stand for each other are the same. -/
theorem antisymm {item other : GroupByItem} (left : StandsFor item other)
    (right : StandsFor other item) : item = other := by
  cases item with
  | timeDimension name links grain part =>
      cases other with
      | timeDimension name' links' grain' part' =>
          obtain ⟨rfl, rfl, rfl, before⟩ := left
          rw [Grain.le_antisymm before right.2.2.2]
      | _ => exact left
  | _ => exact left

/-- Two items for which one stands are equal or one time dimension. -/
theorem sameTime {item first second : GroupByItem} (left : StandsFor item first)
    (right : StandsFor item second) (different : first ≠ second) :
    Resolution.sameTime first second = true := by
  cases item with
  | timeDimension name links grain part =>
      cases first with
      | timeDimension =>
          cases second with
          | timeDimension =>
              obtain ⟨rfl, rfl, rfl, -⟩ := left
              obtain ⟨rfl, rfl, rfl, -⟩ := right
              simp [Resolution.sameTime]
          | _ => exact nomatch right
      | _ => exact nomatch left
  | _ => exact (different (Eq.trans (Eq.symm left) right)).elim

end StandsFor

/-- Two items are of the same time when they differ in the grain alone. -/
theorem sameTime_iff {first second : GroupByItem} :
    sameTime first second = true ↔ ∃ name links part grain grain',
      first = .timeDimension name links grain part ∧
        second = .timeDimension name links grain' part := by
  constructor
  · intro same
    cases first with
    | timeDimension name links grain part =>
        cases second with
        | timeDimension name' links' grain' part' =>
            simp only [sameTime, Bool.and_eq_true, beq_iff_eq] at same
            obtain ⟨⟨rfl, rfl⟩, rfl⟩ := same
            exact ⟨name, links, part, grain, grain', rfl, rfl⟩
        | _ => cases same
    | _ => cases same
  · intro given
    obtain ⟨name, links, part, grain, grain', rfl, rfl⟩ := given
    simp only [sameTime, beq_self_eq_true, Bool.and_self]

/-- The finest of one time dimension at several grains stands for all of them. -/
theorem finest_standsFor {first : GroupByItem} {rest : List GroupByItem}
    (same : ∀ other ∈ rest, sameTime first other = true) :
    finest first rest ∈ first :: rest ∧
      ∀ other ∈ first :: rest, StandsFor (finest first rest) other := by
  induction rest generalizing first with
  | nil =>
      refine ⟨List.mem_cons_self, fun other member => ?_⟩
      obtain rfl := List.mem_singleton.mp member
      exact .refl _
  | cons item rest ih =>
      obtain ⟨name, links, part, grain, grain', rfl, rfl⟩ :=
        sameTime_iff.mp (same item List.mem_cons_self)
      have others : ∀ chosen, ∀ other ∈ rest,
          sameTime (.timeDimension name links chosen part) other = true := by
        intro chosen other member
        obtain ⟨_, _, _, _, coarse, ⟨⟩, rfl⟩ :=
          sameTime_iff.mp (same other (List.mem_cons_of_mem _ member))
        exact sameTime_iff.mpr ⟨_, _, _, chosen, coarse, rfl, rfl⟩
      obtain ⟨kept, step, either, before, after⟩ : ∃ kept,
          finest (.timeDimension name links grain part)
              (.timeDimension name links grain' part :: rest) =
            finest (.timeDimension name links kept part) rest ∧
          (kept = grain ∨ kept = grain') ∧ kept ≤ grain ∧ kept ≤ grain' := by
        by_cases finer : grain ≤ grain'
        · refine ⟨grain, ?_, .inl rfl, Nat.le_refl _, finer⟩
          simp only [finest, GroupByItem.grain, finer, ↓reduceIte]
        · refine ⟨grain', ?_, .inr rfl, Nat.le_of_not_le finer, Nat.le_refl _⟩
          simp only [finest, GroupByItem.grain, finer, ↓reduceIte]
      obtain ⟨member, stands⟩ := ih (others kept)
      have keptStands := stands _ List.mem_cons_self
      rw [step]
      constructor
      · rcases List.mem_cons.mp member with same | later
        · rw [same]
          rcases either with rfl | rfl
          · exact List.mem_cons_self
          · exact List.mem_cons_of_mem _ List.mem_cons_self
        · exact List.mem_cons_of_mem _ (List.mem_cons_of_mem _ later)
      · intro other among
        rcases List.mem_cons.mp among with rfl | among
        · exact keptStands.trans ⟨rfl, rfl, rfl, before⟩
        · rcases List.mem_cons.mp among with rfl | among
          · exact keptStands.trans ⟨rfl, rfl, rfl, after⟩
          · exact stands other (List.mem_cons_of_mem _ among)

/-- A single match is preferred exactly if it stands for all matches. -/
theorem preferFinest_eq_singleton {items : List GroupByItem} {item : GroupByItem}
    (distinct : items.Nodup) :
    preferFinest items = [item] ↔ item ∈ items ∧ ∀ other ∈ items, StandsFor item other := by
  match items with
  | [] => simp [preferFinest]
  | [only] =>
      simp only [preferFinest, List.mem_singleton, forall_eq, List.cons.injEq, and_true]
      constructor
      · rintro rfl
        exact ⟨rfl, .refl _⟩
      · exact fun single => single.1.symm
  | first :: second :: rest =>
      by_cases same : (second :: rest).all (sameTime first) = true
      · rw [preferFinest, if_pos same]
        obtain ⟨member, stands⟩ := finest_standsFor (List.all_eq_true.mp same)
        constructor
        · rintro ⟨⟩
          exact ⟨member, stands⟩
        · intro present
          obtain ⟨among, standsForAll⟩ := present
          rw [(standsForAll _ member).antisymm (stands item among)]
      · rw [preferFinest, if_neg same]
        refine ⟨nofun, fun single => (same ?_).elim⟩
        apply List.all_eq_true.mpr
        intro other member
        have different : first ≠ other := fun repeated =>
          (List.nodup_cons.mp distinct).1 (repeated ▸ member)
        exact (single.2 first List.mem_cons_self).sameTime
          (single.2 other (List.mem_cons_of_mem _ member)) different

/-- Whether an item matches a pattern and stands for all matches among some items. -/
def IsPreferred (pattern : ItemPattern) (items : List GroupByItem) (item : GroupByItem) : Prop :=
  item ∈ pattern.matching items ∧ ∀ other ∈ pattern.matching items, StandsFor item other

/-- Neither the fewest links nor the finest grain depend on whether lists are searched together or
each alone, as long as the item is in every list. -/
theorem isPreferred_iff_forall {pattern : ItemPattern} {items : List GroupByItem}
    {parts : List (List GroupByItem)} {item : GroupByItem}
    (union : ∀ other, other ∈ items ↔ ∃ part ∈ parts, other ∈ part) (some : parts ≠ []) :
    (IsPreferred pattern items item ∧ ∀ part ∈ parts, item ∈ part) ↔
      ∀ part ∈ parts, IsPreferred pattern part item := by
  have widen : ∀ part ∈ parts, ∀ other ∈ pattern.reachable part,
      other ∈ pattern.reachable items := by
    intro part among other reached
    obtain ⟨inside, accepted⟩ := ItemPattern.mem_reachable.mp reached
    exact ItemPattern.mem_reachable.mpr ⟨(union other).mpr ⟨part, among, inside⟩, accepted⟩
  constructor
  · rintro ⟨⟨matched, stands⟩, everywhere⟩ part among
    obtain ⟨reached, agrees, least⟩ := ItemPattern.mem_matching.mp matched
    have reachedHere : item ∈ pattern.reachable part :=
      ItemPattern.mem_reachable.mpr
        ⟨everywhere part among, (ItemPattern.mem_reachable.mp reached).2⟩
    constructor
    · exact ItemPattern.mem_matching.mpr ⟨reachedHere, agrees, fun other inside =>
        least other (widen part among other inside)⟩
    · intro other matching
      obtain ⟨otherReached, otherAgrees, otherLeast⟩ := ItemPattern.mem_matching.mp matching
      refine stands other (ItemPattern.mem_matching.mpr
        ⟨widen part among other otherReached, otherAgrees, fun third inside => ?_⟩)
      exact Nat.le_trans (otherLeast item reachedHere) (least third inside)
  · intro each
    obtain ⟨first, among⟩ := List.exists_mem_of_ne_nil parts some
    have everywhere : ∀ part ∈ parts, item ∈ pattern.reachable part := fun part member =>
      (ItemPattern.mem_matching.mp (each part member).1).1
    obtain ⟨reached, agrees, -⟩ := ItemPattern.mem_matching.mp (each first among).1
    have least : ∀ other ∈ pattern.reachable items, item.links.length ≤ other.links.length := by
      intro other inside
      obtain ⟨member, accepted⟩ := ItemPattern.mem_reachable.mp inside
      obtain ⟨part, present, held⟩ := (union other).mp member
      exact (ItemPattern.mem_matching.mp (each part present).1).2.2 other
        (ItemPattern.mem_reachable.mpr ⟨held, accepted⟩)
    refine ⟨⟨ItemPattern.mem_matching.mpr ⟨widen first among item reached, agrees, least⟩, ?_⟩,
      fun part member => (ItemPattern.mem_reachable.mp (everywhere part member)).1⟩
    intro other matching
    obtain ⟨otherReached, otherAgrees, otherLeast⟩ := ItemPattern.mem_matching.mp matching
    obtain ⟨member, accepted⟩ := ItemPattern.mem_reachable.mp otherReached
    obtain ⟨part, present, held⟩ := (union other).mp member
    refine (each part present).2 other (ItemPattern.mem_matching.mpr
      ⟨ItemPattern.mem_reachable.mpr ⟨held, accepted⟩, otherAgrees, fun third inside => ?_⟩)
    exact otherLeast third (widen part present third inside)

end Resolution

end MetricQuery
