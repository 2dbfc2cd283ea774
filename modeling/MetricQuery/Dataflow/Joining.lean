import MetricQuery.Dataflow.Basic
import MetricQuery.Catalog

/-! # Joining what a model lacks

A model offers its own columns; every other item that is needed comes from a model behind one of
its entities, or from a subquery for a metric. For each entity one model is joined that serves all
items needed through it, and that model is completed in the same way before it is joined.
-/

namespace MetricQuery.Dataflow

/-- The plan that only reads a model. -/
def readModel (model : SemanticModel) : Dataflow := leaf (.read model.name)

/-- Whether a model defines the element of an item. -/
def defines (model : SemanticModel) : GroupByItem → Bool
  | .dimension name _ => (model.dimension? name).isSome
  | .timeDimension name _ _ _ => (model.dimension? name).isSome
  | .entity name _ => (model.entity? name).isSome
  | .metric _ _ _ => false

/-- Whether reading a model alone provides an item: one without links, or one behind a single
entity that identifies the rows of the model. The time of the metric is never joined. -/
def isOwn (model : SemanticModel) (item : GroupByItem) : Bool :=
  item.isMetricTime ||
    (defines model item &&
      match item.links with
      | [] => true
      | [entity] => model.isIdentifiedBy entity
      | _ => false)

/-- Whether a model can provide an item, itself or through a further join. -/
def canProvide (model : SemanticModel) (item : GroupByItem) : Bool :=
  isOwn model item ||
    match item.links with
    | [] => false
    | entity :: _ => (model.entity? entity).isSome

/-- The first model not yet visited that an entity identifies and that can provide all items. -/
def joinTarget? (catalog : Catalog) (source : SemanticModel) (entity : String)
    (items : List GroupByItem) (visited : List String) : Option SemanticModel :=
  if (source.entity? entity).isNone then none
  else catalog.manifest.models.find? fun target =>
    !visited.contains target.name && target.isIdentifiedBy entity && items.all (canProvide target)

/-- An input of a join, with the entity that it is joined on. -/
structure JoinedInput where
  entity : String
  plan : Dataflow

/-- Joins inputs to a plan, if there are any. -/
def joinTo (plan : Dataflow) (inputs : List JoinedInput) : Dataflow :=
  if inputs.isEmpty then plan
  else node (.join (inputs.map JoinedInput.entity)) (plan :: inputs.map JoinedInput.plan)

/-- Makes a plan that computes a metric per value of an entity. -/
abbrev SubqueryPlanner : Type := (metric entity : String) → Except QueryError Dataflow

/-- The items needed through one entity, as they are seen from behind it. -/
structure LinkGroup where
  entity : String
  items : List GroupByItem

/-- Groups items by their first links, in the order of first occurrence. -/
def linkGroups (items : List GroupByItem) : List LinkGroup :=
  let linked := items.filter fun item => item.kind != .metric && !item.links.isEmpty
  let entities := (linked.filterMap (·.links.head?)).eraseDups
  entities.map fun entity =>
    ⟨entity, (linked.filter (·.links.head? == some entity)).map GroupByItem.afterFirstLink⟩

/-- What is passed on to a join on an entity: the entity, and the items needed through it. -/
def passedThrough (group : LinkGroup) : List ColumnContent :=
  appendNew [.ownEntity group.entity] (group.items.map ColumnContent.item)

/-! Subqueries may be planned with more at hand than the manifest, so that planning can take place
in any monad in which it can fail. -/

section

variable {m : Type → Type} [Monad m] [MonadExcept QueryError m]

/-- The subquery for an item that is a metric. -/
def subqueryFor (subquery : (metric entity : String) → m Dataflow) (item : GroupByItem)
    (name : String) : List String → m JoinedInput
  | [] => throw (.noEntityLink item.qualifiedName)
  | entity :: _ => (⟨entity, ·⟩) <$> subquery name entity

/-- The subqueries for those items that are metrics, in their order. -/
def subqueriesFor (subquery : (metric entity : String) → m Dataflow) (items : List GroupByItem) :
    m (List JoinedInput) :=
  (items.filter (·.kind == .metric)).mapM fun item =>
    subqueryFor subquery item item.name (item.subqueryLinks.getD [])

/-- Completes the plan of a model by everything needed that the model does not provide itself.
Links get shorter from model to model, so `hops` need not exceed the greatest number of links. -/
def provide (catalog : Catalog) (subquery : (metric entity : String) → m Dataflow) :
    (hops : Nat) → (plan : Dataflow) → (model : SemanticModel) → (needed : List GroupByItem) →
      (visited : List String) → m Dataflow
  | 0, plan, model, needed, _ => do
    return joinTo plan (← subqueriesFor subquery (needed.filter (!isOwn model ·)))
  | hops + 1, plan, model, needed, visited => do
    let lacking := needed.filter (!isOwn model ·)
    let subqueries ← subqueriesFor subquery lacking
    let joined ← (linkGroups lacking).mapM fun group =>
      match joinTarget? catalog model group.entity group.items visited with
      | none =>
        throw (.noJoinTarget group.entity model.name (group.items.map GroupByItem.qualifiedName))
      | some target => do
        let right ← provide catalog subquery hops (readModel target) target group.items
          (visited ++ [target.name])
        return JoinedInput.mk group.entity (right.andThen (.pass (passedThrough group)))
    return joinTo plan (subqueries ++ joined)

/-- The greatest number of links in front of one of the items. -/
def mostLinks (items : List GroupByItem) : Nat := (items.map (·.links.length)).foldl max 0

/-- Completes the plan of the model of a measure. -/
def provideAll (catalog : Catalog) (subquery : (metric entity : String) → m Dataflow)
    (plan : Dataflow) (model : SemanticModel) (needed : List GroupByItem) : m Dataflow :=
  provide catalog subquery (mostLinks needed) plan model needed [model.name]

end

end MetricQuery.Dataflow
