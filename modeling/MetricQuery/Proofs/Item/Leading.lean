import MetricQuery.Proofs.Item.Describing
import MetricQuery.Proofs.Scope.Matching

/-! # Items in writing among candidates

An item is offered to users in writing. Read again and matched against the candidates that the item
was among, it means this item, and besides it at most the same dimension at other grains
(`GroupByItem.IsNamed.leadsBack`).
-/

namespace MetricQuery

namespace GroupByItem

open DunderedName (IsPlain)

/-- Whether the names in an item are plain, and a metric is reached through the entity that it is
computed per value of. -/
structure IsNamed (item : GroupByItem) : Prop where
  name : IsPlain item.name
  links : ∀ link ∈ item.links, IsPlain link
  subquery : ∀ links, item.subqueryLinks = some links → ∃ entity,
    links = [entity] ∧ item.links = [entity]

/-- Whether two items are the same apart from the grain, or the same as a dimension and as a time
dimension. -/
structure SameButForGrain (item other : GroupByItem) : Prop where
  name : other.name = item.name
  links : other.links = item.links
  part : other.part = item.part
  subqueryLinks : other.subqueryLinks = item.subqueryLinks
  kind : other.kind = item.kind ∨ ItemDescription.isTimeLike other.kind = true ∧
    ItemDescription.isTimeLike item.kind = true

/-- Whether an item in writing is read as a reference that means the item among some candidates, and
nothing but the same item at other grains besides. -/
def LeadsBack (candidates : List GroupByItem) (item : GroupByItem) : Prop :=
  ∃ reference, ItemReference.read item.written = .ok reference ∧
    item ∈ (ItemPattern.ofReference reference).matching candidates ∧
    ∀ other ∈ (ItemPattern.ofReference reference).matching candidates, item.SameButForGrain other

/-- What an item is written from has the kind of the item. -/
theorem IsNamed.isPlainFor {item : GroupByItem} (named : item.IsNamed) :
    (ItemReference.ofItem item).IsPlainFor item.kind where
  ofKind := rfl
  name := named.name
  links := by
    cases item with
    | metric name links subqueryLinks => exact nofun
    | _ => exact named.links
  timed := by
    intro other
    cases item with
    | timeDimension name links grain part => exact (other rfl).elim
    | _ => exact ⟨rfl, rfl⟩
  grouped := by
    intro isMetric
    cases item with
    | metric name links subqueryLinks =>
        obtain ⟨entity, rfl, rfl⟩ := named.subquery subqueryLinks rfl
        exact ⟨rfl, [], entity, rfl, named.links entity List.mem_cons_self, nofun⟩
    | _ => exact nomatch isMetric
  ungrouped := by
    intro other
    cases item with
    | metric name links subqueryLinks => exact (other rfl).elim
    | _ => rfl
  undirected := rfl

/-- The pattern that an item in writing is read as. -/
def ownPattern (item : GroupByItem) : ItemPattern :=
  ItemPattern.ofReference (ItemReference.ofItem item)

private theorem kinds_ownPattern (item : GroupByItem) : item.ownPattern.kinds =
    if item.kind = .dimension then [.dimension, .timeDimension] else [item.kind] := by
  cases item <;> rfl

/-- An item's own pattern asks for its name and part, and for its grain and subquery links where it
has them. -/
theorem agrees_ownPattern_iff {item other : GroupByItem} :
    item.ownPattern.agrees other = true ↔ other.name = item.name ∧ other.part = item.part ∧
      (item.ownPattern.grain = none ∨ other.grain = item.ownPattern.grain) ∧
      (item.subqueryLinks = none ∨ other.subqueryLinks = item.subqueryLinks) := by
  have subquery : item.ownPattern.subqueryLinks = item.subqueryLinks := by cases item <;> rfl
  rw [ItemPattern.agrees_iff, subquery, ← Decidable.or_iff_not_imp_left,
    ← Decidable.or_iff_not_imp_left]
  exact Iff.rfl

/-- Exactly metric items have subquery links. -/
theorem subqueryLinks_eq_none_iff {item : GroupByItem} :
    item.subqueryLinks = none ↔ item.kind ≠ .metric := by
  cases item with
  | metric name links subqueryLinks => exact ⟨nofun, fun other => (other rfl).elim⟩
  | _ => exact ⟨nofun, fun _ => rfl⟩

section

variable {item : GroupByItem}

/-- A named item's pattern accepts the links that end in its own. -/
theorem IsNamed.acceptsLinks_ownPattern_iff (named : item.IsNamed) {other : GroupByItem} :
    item.ownPattern.acceptsLinks other = true ↔ item.links <:+ other.links := by
  have links : item.ownPattern.links = item.links := by
    cases item with
    | metric name links subqueryLinks =>
        obtain ⟨entity, rfl, rfl⟩ := named.subquery subqueryLinks rfl
        rfl
    | _ => rfl
  rw [ItemPattern.acceptsLinks, links, List.isSuffixOf_iff_suffix]

variable {candidates : List GroupByItem}

/-- A named item is among the matches of its own pattern. -/
theorem IsNamed.mem_matching (named : item.IsNamed) (among : item ∈ candidates) :
    item ∈ item.ownPattern.matching candidates := by
  have ofKind : item.ownPattern.acceptsKind item = true := by cases item <;> rfl
  have behind := named.acceptsLinks_ownPattern_iff.mpr List.suffix_rfl
  have given : item.ownPattern.grain = if item.part.isSome then none else item.grain := rfl
  have grain : item.ownPattern.grain = none ∨ item.grain = item.ownPattern.grain := by
    rw [given]
    split
    · exact .inl rfl
    · exact .inr rfl
  have agrees := agrees_ownPattern_iff.mpr ⟨rfl, rfl, grain, .inr rfl⟩
  -- Whatever ends in the links of the item has at least as many of them.
  exact ItemPattern.mem_matching.mpr
    ⟨ItemPattern.mem_reachable.mpr ⟨among, ofKind, behind⟩, agrees, fun other reached =>
      (named.acceptsLinks_ownPattern_iff.mp
        (ItemPattern.mem_reachable.mp reached).2.2).length_le⟩

private theorem IsNamed.sameButForGrain (named : item.IsNamed) (among : item ∈ candidates)
    {other : GroupByItem} (matched : other ∈ item.ownPattern.matching candidates) :
    item.SameButForGrain other := by
  obtain ⟨reached, agrees, least⟩ := ItemPattern.mem_matching.mp matched
  obtain ⟨-, ofKind, behind⟩ := ItemPattern.mem_reachable.mp reached
  have own := (ItemPattern.mem_matching.mp (named.mem_matching among)).1
  have suffix := named.acceptsLinks_ownPattern_iff.mp behind
  have kind : other.kind = item.kind ∨ ItemDescription.isTimeLike other.kind = true ∧
      ItemDescription.isTimeLike item.kind = true := by
    rw [ItemPattern.acceptsKind, kinds_ownPattern, List.contains_iff_mem] at ofKind
    split at ofKind
    · rename_i isDimension
      rw [isDimension]
      rcases List.mem_pair.mp ofKind with same | isTime
      · exact .inl same
      · exact .inr ⟨by rw [isTime]; rfl, rfl⟩
    · exact .inl (List.mem_singleton.mp ofKind)
  obtain ⟨name, part, -, subquery⟩ := agrees_ownPattern_iff.mp agrees
  refine ⟨name, (suffix.eq_of_length_le (least item own)).symm, part, ?_, kind⟩
  rcases subquery with none | same
  · rw [none, subqueryLinks_eq_none_iff]
    have other := subqueryLinks_eq_none_iff.mp none
    rcases kind with same | ⟨isTime, -⟩
    · rwa [same]
    · intro isMetric
      rw [isMetric] at isTime
      exact absurd isTime (by decide)
  · exact same

/-- An item in writing leads back to the item. -/
theorem IsNamed.leadsBack (named : item.IsNamed) (among : item ∈ candidates) :
    item.LeadsBack candidates :=
  ⟨ItemReference.ofItem item, ItemReference.read_written named.isPlainFor,
    named.mem_matching among, fun _ => named.sameButForGrain among⟩

end

end GroupByItem

end MetricQuery
