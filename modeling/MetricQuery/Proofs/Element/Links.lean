import MetricQuery.Proofs.Catalog
import MetricQuery.Proofs.Element.Offering
import MetricQuery.Sql.Lowering

/-! # Links of offered items

A table that is joined on an entity shows its items behind this entity, apart from those that lead
back through it. Every item that joins lead to is shown by each join on the way
(`Joins.isLinked`).
-/

namespace MetricQuery

namespace GroupByItem

/-- Whether every join on the way to an item passes it on: it is not the time of a metric, no entity
leads to it twice, and it is not the entity that its model is joined on. -/
structure IsLinked (item : GroupByItem) : Prop where
  timeless : item.isMetricTime = false
  distinct : item.links.Nodup
  other : ∀ entity, item.links.getLast? = some entity → item.withLinks [] ≠ .entity entity []

/-- Behind its first link, an item without this link is what it was. -/
theorem behind_afterFirstLink {entity : String} {item : GroupByItem}
    (first : item.links.head? = some entity) : item.afterFirstLink.behind entity = item := by
  obtain ⟨rest, links⟩ := List.head?_eq_some_iff.mp first
  rw [behind, afterFirstLink, links_withLinks, withLinks_withLinks, links, List.tail_cons, ← links,
    withLinks_links]

/-- An item behind an entity tells both apart. -/
theorem behind_inj {entity other : String} {left right : GroupByItem}
    (same : left.behind entity = right.behind other) : entity = other ∧ left = right := by
  have links : (left.behind entity).links = (right.behind other).links := congrArg _ same
  rw [links_behind, links_behind] at links
  exact ⟨(List.cons.inj links).1, by
    rw [← afterFirstLink_behind entity left, same, afterFirstLink_behind]⟩

/-- A join does not change the kind. -/
@[simp]
theorem kind_behind (entity : String) (item : GroupByItem) :
    (item.behind entity).kind = item.kind := kind_withLinks _ item

namespace IsLinked

variable {entity : String} {item : GroupByItem}

/-- What is passed on behind a join is passed on without it. -/
theorem of_behind (linked : (item.behind entity).IsLinked) : item.IsLinked where
  timeless := (isMetricTime_withLinks _ item).symm.trans linked.timeless
  distinct := (List.nodup_cons.mp (links_behind entity item ▸ linked.distinct)).2
  other := by
    intro last ends
    have endsBehind : (item.behind entity).links.getLast? = some last := by
      rw [links_behind, List.getLast?_cons, ends, Option.getD_some]
    have same := linked.other last endsBehind
    rwa [behind, withLinks_withLinks] at same

/-- A join passes such an item on. -/
theorem seenThrough (linked : (item.behind entity).IsLinked) :
    Sql.seenThrough entity (.item item) = some (.item (item.behind entity)) := by
  have timeless := linked.of_behind.timeless
  have distinct := List.nodup_cons.mp (links_behind entity item ▸ linked.distinct)
  have notFirst : item.links.head? ≠ some entity := fun first =>
    distinct.1 (List.mem_of_mem_head? first)
  have other : item ≠ .entity entity [] := by
    rintro rfl
    exact linked.other entity rfl rfl
  simp [Sql.seenThrough, timeless, notFirst, other]

end IsLinked

end GroupByItem

/-- No model offers the time of a metric, if that name is reserved. -/
theorem SemanticModel.Offers.timeless {manifest : Manifest} {model : SemanticModel}
    {item : GroupByItem} (reserved : manifest.IsTimeReserved) (known : model ∈ manifest.models)
    (offered : model.Offers item) : item.isMetricTime = false := by
  rcases offered with ⟨dimension, own, offered⟩ | ⟨entity, _, same⟩
  · cases item with
    | timeDimension name links grain part =>
        obtain ⟨rfl, -⟩ := offered
        exact beq_eq_false_iff_ne.mpr (reserved model known dimension own)
    | _ => rfl
  · rw [same]
    rfl

/-- No model offers a metric. -/
theorem SemanticModel.Offers.kind_ne_metric {model : SemanticModel} {item : GroupByItem}
    (offered : model.Offers item) : item.kind ≠ .metric := by
  cases item with
  | metric =>
      rcases offered with ⟨_, _, offered⟩ | ⟨_, _, same⟩
      · exact offered.elim
      · exact nomatch same
  | _ => exact nofun

/-- No join leads to a metric. -/
theorem Joins.kind_ne_metric {models : List SemanticModel} {source : SemanticModel}
    {path visited : List String} {item : GroupByItem}
    (joins : Joins models source path visited item) : item.kind ≠ .metric := by
  induction joins with
  | target _ _ _ _ _ _ _ _ offered =>
      rw [GroupByItem.kind_behind]
      exact offered.kind_ne_metric
  | further _ _ _ _ _ _ _ _ ih =>
      rw [GroupByItem.kind_behind]
      exact ih

/-- Joins lead to items that they pass on, over entities not used before. -/
theorem Joins.isLinked {manifest : Manifest} {source : SemanticModel} {path visited : List String}
    {item : GroupByItem} (reserved : manifest.IsTimeReserved)
    (joins : Joins manifest.models source path visited item) :
    item.IsLinked ∧ item.links ≠ [] ∧ ∀ link ∈ item.links, link ∉ path := by
  induction joins with
  | @target source path visited entity target item own unused known unvisited identified plain
      offered other =>
      refine ⟨⟨?_, ?_, ?_⟩, ?_, ?_⟩
      · exact (GroupByItem.isMetricTime_withLinks _ item).trans (offered.timeless reserved known)
      · rw [GroupByItem.links_behind, plain]
        exact List.pairwise_singleton _ _
      · intro last ends
        rw [GroupByItem.links_behind, plain] at ends
        obtain ⟨⟩ := ends
        rwa [GroupByItem.behind, GroupByItem.withLinks_withLinks, ← plain,
          GroupByItem.withLinks_links, plain]
      · rw [GroupByItem.links_behind]
        exact List.cons_ne_nil _ _
      · rw [GroupByItem.links_behind, plain]
        exact List.forall_mem_singleton.mpr unused
  | @further source path visited entity target item own unused known unvisited identified joins
      ih =>
      obtain ⟨linked, some, fresh⟩ := ih
      refine ⟨⟨?_, ?_, ?_⟩, ?_, ?_⟩
      · exact (GroupByItem.isMetricTime_withLinks _ item).trans linked.timeless
      · rw [GroupByItem.links_behind, List.nodup_cons]
        exact ⟨fun used => fresh _ used (List.mem_append_right _ List.mem_cons_self),
          linked.distinct⟩
      · intro last ends
        rw [GroupByItem.links_behind, List.getLast?_cons] at ends
        rw [GroupByItem.behind, GroupByItem.withLinks_withLinks]
        apply linked.other last
        cases inner : item.links.getLast? with
        | none => exact (some (List.getLast?_eq_none_iff.mp inner)).elim
        | some link => rwa [inner, Option.getD_some] at ends
      · rw [GroupByItem.links_behind]
        exact List.cons_ne_nil _ _
      · rw [GroupByItem.links_behind]
        intro link member used
        rcases List.mem_cons.mp member with rfl | member
        · exact unused used
        · exact fresh link member (List.mem_append_left _ used)

end MetricQuery
