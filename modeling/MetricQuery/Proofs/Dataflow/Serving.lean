import MetricQuery.Proofs.Dataflow.Joining
import MetricQuery.Proofs.Element.Defining

/-! # Manifests in which every offered item can be provided

If each entity identifies at most one model, then the model that is chosen for an entity is the one
that joins lead to. Everything that a measure offers can then be provided, in any combination
(`served_of_reached`).
-/

namespace MetricQuery

namespace Dataflow

/-- Whether an item is a metric or a time of the metric, or offered by a model alone, or joins lead
to it from there. -/
def IsReached (manifest : Manifest) (model : SemanticModel) (path visited : List String)
    (item : GroupByItem) : Prop :=
  item.kind = .metric ∨ item.isMetricTime = true ∨ model.OffersAlone item ∨
    Joins manifest.models model path visited item

/-- A model defines the element of what it offers. -/
theorem defines_of_offers {model : SemanticModel} {item : GroupByItem}
    (offered : model.Offers item) : defines model item = true := by
  rcases offered with ⟨dimension, own, offered⟩ | ⟨entity, own, same⟩
  · cases item with
    | dimension name links =>
        exact List.find?_isSome.mpr ⟨dimension, own, beq_iff_eq.mpr offered.1.symm⟩
    | timeDimension name links grain part =>
        exact List.find?_isSome.mpr ⟨dimension, own, beq_iff_eq.mpr offered.1.symm⟩
    | _ => exact offered.elim
  · rw [same]
    exact List.find?_isSome.mpr ⟨entity, own, beq_self_eq_true _⟩

/-- What a model offers alone it provides itself. -/
theorem isOwn_of_offersAlone {model : SemanticModel} {item : GroupByItem}
    (offered : model.OffersAlone item) : isOwn model item = true := by
  rcases offered with ⟨plain, offered⟩ | ⟨⟨entity, identifying, behind⟩, offered⟩
  · simp only [isOwn, defines_of_offers offered, plain, Bool.and_self, Bool.or_true]
  · have identified : model.isIdentifiedBy entity.name = true :=
      List.any_eq_true.mpr ⟨entity, identifying, beq_self_eq_true _⟩
    simp only [isOwn, defines_of_offers (.inl offered), behind, identified, Bool.and_self,
      Bool.or_true]

/-- No model provides a metric itself. -/
theorem kind_ne_metric_of_isOwn {model : SemanticModel} {item : GroupByItem}
    (own : isOwn model item = true) : item.kind ≠ .metric := by
  cases item with
  | metric => exact nomatch own
  | _ => exact nofun

section

variable {catalog : Catalog} {model : SemanticModel} {path visited : List String}
  {items : List GroupByItem} {item : GroupByItem}

/-- Behind the first entity of an item that joins lead to there is a model that looks able to
provide the item, and it is reached from there. -/
theorem exists_target_of_joins
    (joins : Joins catalog.manifest.models model path visited item) :
    ∃ inner entity target, item = inner.behind entity ∧
      (model.entity? entity).isSome = true ∧ target ∈ catalog.manifest.models ∧
      target.name ∉ visited ∧ target.isIdentifiedBy entity = true ∧
      canProvide target inner = true ∧
      IsReached catalog.manifest target (path ++ [entity]) (visited ++ [target.name]) inner := by
  cases joins with
  | @target _ _ _ entity target inner own _ known unvisited identified plain offered _ =>
      have alone : target.OffersAlone inner := .inl ⟨plain, offered⟩
      refine ⟨inner, entity.name, target, rfl, List.find?_isSome.mpr ⟨entity, own, by simp⟩,
        known, unvisited, identified, ?_, .inr (.inr (.inl alone))⟩
      rw [canProvide, isOwn_of_offersAlone alone, Bool.true_or]
  | @further _ _ _ entity target inner own _ known unvisited identified joins =>
      refine ⟨inner, entity.name, target, rfl, List.find?_isSome.mpr ⟨entity, own, by simp⟩,
        known, unvisited, identified, ?_, .inr (.inr (.inr joins))⟩
      have next : ∃ first ∈ target.entities, inner.links.head? = some first.name := by
        cases joins with
        | target first _ own => exact ⟨first, own, by rw [GroupByItem.links_behind]; rfl⟩
        | further first _ own => exact ⟨first, own, by rw [GroupByItem.links_behind]; rfl⟩
      obtain ⟨first, own, links⟩ := next
      obtain ⟨rest, links⟩ := List.head?_eq_some_iff.mp links
      rw [canProvide, links, Bool.or_eq_true]
      exact .inr (List.find?_isSome.mpr ⟨first, own, by simp⟩)

/-- If each entity identifies at most one model, then a model has what it provides itself among what
it offers alone. -/
theorem alone_of_isReached (unambiguous : catalog.manifest.IsUnambiguous)
    (known : model ∈ catalog.manifest.models) (isVisited : model.name ∈ visited)
    (reached : IsReached catalog.manifest model path visited item)
    (own : isOwn model item = true) (timeless : item.isMetricTime = false) :
    model.OffersAlone item := by
  rcases reached with kind | time | alone | joins
  · exact (kind_ne_metric_of_isOwn own kind).elim
  · exact absurd (time.symm.trans timeless) nofun
  · exact alone
  · obtain ⟨inner, entity, target, rfl, _, knownTarget, unvisited, identified, _⟩ :=
      exists_target_of_joins joins
    have itself : model.isIdentifiedBy entity = true := by
      simp only [isOwn, timeless, Bool.false_or, Bool.and_eq_true, GroupByItem.links_behind] at own
      cases links : inner.links with
      | nil => simpa only [links] using own.2
      | cons => simp [links] at own
    rw [unambiguous model known target knownTarget entity itself identified] at isVisited
    exact (unvisited isVisited).elim

/-- What is reached from a model that does not provide it is behind joins. -/
theorem joins_of_missing (reached : IsReached catalog.manifest model path visited item)
    (notOwn : isOwn model item = false) (kind : item.kind ≠ .metric) :
    Joins catalog.manifest.models model path visited item := by
  rcases reached with isMetric | time | alone | joins
  · exact (kind isMetric).elim
  · rw [isOwn, time, Bool.true_or] at notOwn
    cases notOwn
  · cases (isOwn_of_offersAlone alone).symm.trans notOwn
  · exact joins

/-- If each entity identifies at most one model, then the model that is chosen for an entity is the
one that joins lead to over it. -/
theorem exists_isFirstJoinTarget (unambiguous : catalog.manifest.IsUnambiguous)
    (reached : ∀ item ∈ items, IsReached catalog.manifest model path visited item)
    {entity : String} (needed : model.neededThrough entity items ≠ []) :
    ∃ target, catalog.manifest.IsFirstJoinTarget model visited entity
        (model.neededThrough entity items) target ∧
      ∀ item ∈ model.neededThrough entity items,
        IsReached catalog.manifest target (path ++ [entity]) (visited ++ [target.name]) item := by
  have each : ∀ item ∈ model.neededThrough entity items, ∃ target,
      (model.entity? entity).isSome = true ∧ target ∈ catalog.manifest.models ∧
      target.name ∉ visited ∧ target.isIdentifiedBy entity = true ∧
      canProvide target item = true ∧
      IsReached catalog.manifest target (path ++ [entity]) (visited ++ [target.name]) item := by
    intro item among
    obtain ⟨lacking, kind⟩ :=
      behind_mem_of_mem_linkGroups (mem_linkGroups_neededThrough needed) among
    obtain ⟨inside, notOwn⟩ := mem_missing.mp lacking
    obtain ⟨inner, first, target, same, rest⟩ := exists_target_of_joins
      (joins_of_missing (reached _ inside) notOwn (by rwa [GroupByItem.kind_behind]))
    obtain ⟨rfl, rfl⟩ := GroupByItem.behind_inj same
    exact ⟨target, rest⟩
  obtain ⟨first, among⟩ := List.exists_mem_of_ne_nil _ needed
  obtain ⟨target, shared, known, unvisited, identified, _⟩ := each first among
  have all : ∀ item ∈ model.neededThrough entity items, canProvide target item = true ∧
      IsReached catalog.manifest target (path ++ [entity]) (visited ++ [target.name]) item := by
    intro item among
    obtain ⟨other, _, knownOther, _, identifiedOther, able, reached⟩ := each item among
    rw [unambiguous target known other knownOther entity identified identifiedOther]
    exact ⟨able, reached⟩
  have suits : model.IsJoinTarget visited entity (model.neededThrough entity items) target :=
    ⟨SemanticModel.isSome_entity?_iff.mp shared, unvisited,
      SemanticModel.isIdentifiedBy_iff.mp identified,
      fun item among => canProvide_iff.mp (all item among).1⟩
  refine ⟨target, isFirstJoinTarget_of_only known suits ?_, fun item among => (all item among).2⟩
  exact fun other knownOther identifiedOther =>
    unambiguous other knownOther target known entity identifiedOther identified

/-- If each entity identifies at most one model, then everything that is reached from a model can be
provided from there on, in any combination. -/
theorem served_of_reached (unambiguous : catalog.manifest.IsUnambiguous) {hops : Nat}
    (within : IsWithin hops model items) (known : model ∈ catalog.manifest.models)
    (isVisited : model.name ∈ visited)
    (reached : ∀ item ∈ items, IsReached catalog.manifest model path visited item) :
    Served catalog SemanticModel.OffersAlone model visited items := by
  have own : ∀ item ∈ items, model.Provides item → item.isMetricTime = false →
      model.OffersAlone item := fun item member provides =>
    alone_of_isReached unambiguous known isVisited (reached item member) (isOwn_iff.mpr provides)
  induction hops generalizing model path visited items with
  | zero =>
      exact .intro (fun _ => model) own
        (fun entity needed => (needed (within.neededThrough_eq_nil entity)).elim)
        fun entity needed => (needed (within.neededThrough_eq_nil entity)).elim
  | succ hops ih =>
      have each : ∀ entity, ∃ target, model.neededThrough entity items ≠ [] →
          catalog.manifest.IsFirstJoinTarget model visited entity
            (model.neededThrough entity items) target ∧
          ∀ item ∈ model.neededThrough entity items,
            IsReached catalog.manifest target (path ++ [entity]) (visited ++ [target.name])
              item := by
        intro entity
        by_cases needed : model.neededThrough entity items = []
        · exact ⟨model, fun lacks => (lacks needed).elim⟩
        · obtain ⟨target, chosen⟩ := exists_isFirstJoinTarget unambiguous reached needed
          exact ⟨target, fun _ => chosen⟩
      choose target chosen using each
      refine .intro target own (fun entity needed => (chosen entity needed).1) ?_
      intro entity needed
      obtain ⟨first, reachedBehind⟩ := chosen entity needed
      have isVisited : (target entity).name ∈ visited ++ [(target entity).name] :=
        List.mem_append_right _ List.mem_cons_self
      exact ih (within.behind (mem_linkGroups_neededThrough needed)) first.mem isVisited
        reachedBehind fun item among provides =>
          alone_of_isReached unambiguous first.mem isVisited (reachedBehind item among)
            (isOwn_iff.mpr provides)

end

end Dataflow

end MetricQuery
