import MetricQuery.Proofs.Dataflow.Places
import MetricQuery.Proofs.Element.Offering
import MetricQuery.Proofs.Manifest.Labels
import MetricQuery.Proofs.Sql.Carrying

/-! # Columns of plans that are told by their names

The columns of a model are told by their names, with the time of metrics among them as well
(`legible_modelContents_with_time`). Steps that choose, compute and bring together leave columns so,
and so does a join whose inputs give a model nothing but what it lacks
(`Dataflow.isLegible_joinTo`).
-/

namespace MetricQuery

open Sql

/-! ## Reading models -/

section

variable {manifest : Manifest} {model : SemanticModel} {item : GroupByItem}

/-- What a dimension of a manifest offers has an element of the manifest. -/
theorem Dimension.Offers.hasElement {dimension : Dimension} (offers : dimension.Offers item)
    (named : dimension.name ∈ manifest.dimensionNames) : item.HasElement manifest := by
  cases item with
  | dimension =>
      obtain ⟨rfl, _⟩ := offers
      exact named
  | timeDimension =>
      obtain ⟨rfl, _⟩ := offers
      exact .inl named
  | _ => exact offers.elim

/-- What a model of a manifest offers has an element of the manifest. -/
theorem SemanticModel.Offers.hasElement (offers : model.Offers item)
    (known : model ∈ manifest.models) : item.HasElement manifest := by
  rcases offers with ⟨dimension, own, offers⟩ | ⟨entity, own, same⟩
  · exact offers.hasElement (Manifest.mem_dimensionNames known own)
  · rw [same]
    exact Manifest.mem_entityNames known own

/-- What a model offers when it is read is an item of the manifest. -/
theorem SemanticModel.OffersAlone.isOf (offers : model.OffersAlone item)
    (known : model ∈ manifest.models) : item.IsOf manifest := by
  rcases offers with ⟨links, offers⟩ | ⟨⟨entity, identifying, links⟩, dimension, own, offers⟩
  · refine ⟨offers.hasElement known, ?_⟩
    rw [links]
    exact List.forall_mem_nil _
  · refine ⟨offers.hasElement (Manifest.mem_dimensionNames known own), ?_⟩
    rw [links]
    exact List.forall_mem_singleton.mpr
      (Manifest.mem_entityNames known (List.mem_filter.mp identifying).1)

/-- What a model offers when it is read is one of its dimensions, unless it is an entity. -/
theorem SemanticModel.OffersAlone.exists_dimension (offers : model.OffersAlone item)
    (other : item.kind ≠ .entity) : ∃ dimension ∈ model.dimensions, dimension.Offers item := by
  rcases offers with ⟨_, offers | ⟨_, _, same⟩⟩ | ⟨_, offers⟩
  · exact offers
  · exact (other (same ▸ rfl)).elim
  · exact offers

/-- An entity that a model offers when it is read is one of its own. -/
theorem SemanticModel.OffersAlone.exists_entity {name : String} {links : List String}
    (offers : model.OffersAlone (.entity name links)) :
    ∃ entity ∈ model.entities, entity.name = name := by
  rcases offers with ⟨_, ⟨_, _, absent⟩ | ⟨entity, own, same⟩⟩ | ⟨_, _, _, absent⟩
  · exact absent.elim
  · exact ⟨entity, own, (GroupByItem.entity.inj same).1.symm⟩
  · exact absent.elim

variable (apart : manifest.LabelsApart) (known : model ∈ manifest.models)

include apart known

private theorem Manifest.LabelsApart.dimension_eq {dimension other : Dimension}
    (own : dimension ∈ model.dimensions) (otherOwn : other ∈ model.dimensions)
    (same : dimension.name = other.name) : dimension = other := by
  have distinct := (List.nodup_append.mp (List.nodup_append.mp (apart.models model known)).1).2.1
  exact List.inj_on_of_nodup_map distinct own otherOwn same

/-- A model gives columns that are told by their names. -/
theorem legible_modelContents : Legible manifest (modelContents model) where
  isOf content held := by
    cases content with
    | measure name =>
        obtain ⟨measure, own, rfl⟩ := held
        exact Manifest.mem_measureNames known own
    | metric => exact held.elim
    | item value => exact held.isOf known
  grains name links grain otherGrain part otherPart held otherHeld := by
    obtain ⟨dimension, own, named, _, rfl, _⟩ := held.exists_dimension nofun
    obtain ⟨other, otherOwn, otherNamed, _, rfl, _⟩ := otherHeld.exists_dimension nofun
    rw [apart.dimension_eq known own otherOwn (named.symm.trans otherNamed)]
  measures name held := by
    obtain ⟨measure, own, rfl⟩ := held
    have distinct := (List.nodup_append.mp (apart.models model known)).2.2
    constructor
    · intro offers
      obtain ⟨dimension, isDimension, named, _⟩ := offers.exists_dimension nofun
      exact distinct _ (List.mem_append_right _ (List.mem_map_of_mem isDimension)) _
        (List.mem_map_of_mem own) named.symm
    · intro offers
      obtain ⟨entity, isEntity, named⟩ := offers.exists_entity
      exact distinct _ (List.mem_append_left _ (List.mem_map_of_mem isEntity)) _
        (List.mem_map_of_mem own) named
  outputs _ _ held := held.elim
  unmixed _ _ _ := id

/-- So it does together with the time of a metric that agrees with its own. -/
theorem legible_modelContents_with_time {stored : Grain}
    (agrees : ∀ dimension ∈ model.dimensions, dimension.isTime = true →
      dimension.name = metricTimeName → dimension.storedGrain = stored) :
    Legible manifest fun content => modelContents model content ∨
      ∃ grain part, stored.Offers grain part ∧
        content = .item (.timeDimension metricTimeName [] grain part) := by
  have legible := legible_modelContents apart known
  have agree : ∀ links grain part,
      modelContents model (.item (.timeDimension metricTimeName links grain (some part))) →
      grain = stored := by
    intro links grain part held
    obtain ⟨dimension, own, named, isTime, rfl, _⟩ :=
      SemanticModel.OffersAlone.exists_dimension held nofun
    exact agrees dimension own isTime named.symm
  constructor
  · rintro content (held | ⟨grain, part, _, rfl⟩)
    · exact legible.isOf content held
    · exact ⟨.inr rfl, List.forall_mem_nil _⟩
  · rintro name links grain otherGrain part otherPart (held | ⟨_, _, offered, same⟩)
      (otherHeld | ⟨_, _, otherOffered, otherSame⟩)
    · exact legible.grains _ _ _ _ _ _ held otherHeld
    · obtain ⟨⟩ := otherSame
      obtain ⟨rfl, _⟩ := otherOffered
      exact agree _ _ _ held
    · obtain ⟨⟩ := same
      obtain ⟨rfl, _⟩ := offered
      exact (agree _ _ _ otherHeld).symm
    · obtain ⟨⟩ := same
      obtain ⟨⟩ := otherSame
      exact offered.1.trans otherOffered.1.symm
  · rintro name (held | ⟨_, _, _, same⟩)
    · obtain ⟨noDimension, noEntity⟩ := legible.measures name held
      refine ⟨?_, ?_⟩
      · rintro (held | ⟨_, _, _, same⟩)
        · exact noDimension held
        · cases same
      · rintro (held | ⟨_, _, _, same⟩)
        · exact noEntity held
        · cases same
    · cases same
  · rintro output other (held | ⟨_, _, _, same⟩)
    · exact held.elim
    · cases same
  · rintro name output _ (held | ⟨_, _, _, same⟩)
    · exact held.elim
    · cases same

end

namespace Dataflow

variable {catalog : Catalog} {plan : Dataflow}

/-! ## Plans -/

/-- Whether the columns that a plan gives are told by their names. -/
def IsLegible (catalog : Catalog) (plan : Dataflow) : Prop :=
  Legible catalog.manifest (MayHold catalog plan)

/-- Whether the columns that any part of a plan gives are told by their names. -/
def HasLegibleParts (catalog : Catalog) (plan : Dataflow) : Prop :=
  plan.Everywhere fun step inputs => IsLegible catalog (.node step inputs)

/-- The parts of a plan are legible exactly if the plan and the parts of its inputs are. -/
theorem hasLegibleParts_node_iff {step : Step} {inputs : List Dataflow} :
    HasLegibleParts catalog (.node step inputs) ↔ IsLegible catalog (.node step inputs) ∧
      ∀ input ∈ inputs, HasLegibleParts catalog input := everywhere_node_iff

namespace HasLegibleParts

/-- A plan is one of its parts. -/
theorem isLegible (parts : HasLegibleParts catalog plan) : IsLegible catalog plan := by
  cases plan
  exact (hasLegibleParts_node_iff.mp parts).1

/-- A further step keeps parts legible if what it gives is. -/
theorem andThen (parts : HasLegibleParts catalog plan) {step : Step}
    (last : IsLegible catalog (plan.andThen step)) :
    HasLegibleParts catalog (plan.andThen step) :=
  hasLegibleParts_node_iff.mpr ⟨last, List.forall_mem_singleton.mpr parts⟩

/-- A step that only leaves columns out keeps parts legible. -/
theorem narrow (parts : HasLegibleParts catalog plan) {step : Step}
    (narrows : step.narrows = true) : HasLegibleParts catalog (plan.andThen step) :=
  parts.andThen (parts.isLegible.mono fun _ => MayHold.of_narrows narrows)

/-- Giving the result keeps parts legible. -/
theorem result (parts : HasLegibleParts catalog plan) :
    HasLegibleParts catalog (plan.andThen .result) :=
  parts.andThen (parts.isLegible.mono fun _ => MayHold.of_result)

/-- Conditions keep parts legible. -/
theorem constrained (parts : HasLegibleParts catalog plan) (conditions : List Condition) :
    HasLegibleParts catalog (constrained plan conditions) := by
  unfold Dataflow.constrained
  split
  · exact parts
  · exact parts.narrow rfl

/-- A metric that is computed takes the place of what is no item. -/
theorem compute (parts : HasLegibleParts catalog plan) {output : MetricOutput}
    (named : output.name ∈ catalog.manifest.outputNames) (formula : MetricFormula) :
    HasLegibleParts catalog (plan.andThen (.compute output formula)) := by
  have legible := parts.isLegible
  have noMeasure : ∀ name,
      ¬ MayHold catalog (plan.andThen (.compute output formula)) (.measure name) := by
    intro name held
    rcases held.of_compute with ⟨_, absent⟩ | absent
    · cases absent
    · cases absent
  have single : ∀ other, MayHold catalog (plan.andThen (.compute output formula)) (.metric other) →
      other = output := by
    intro other held
    rcases held.of_compute with ⟨_, absent⟩ | same
    · cases absent
    · exact ColumnContent.metric.inj same
  have item : ∀ item, MayHold catalog (plan.andThen (.compute output formula)) (.item item) →
      MayHold catalog plan (.item item) := by
    intro item held
    rcases held.of_compute with ⟨held, _⟩ | absent
    · exact held
    · cases absent
  refine parts.andThen ⟨fun content held => ?_, fun _ _ _ _ _ _ held otherHeld => ?_,
    fun name held => (noMeasure name held).elim, fun other another held otherHeld _ => ?_,
    fun name _ held => (noMeasure name held).elim⟩
  · cases content with
    | measure name => exact (noMeasure name held).elim
    | metric other => exact single other held ▸ named
    | item value => exact legible.isOf _ (item value held)
  · exact legible.grains _ _ _ _ _ _ (item _ held) (item _ otherHeld)
  · rw [single other held, single another otherHeld]

end HasLegibleParts

/-- Outputs without measures, whose metrics differ in name, are brought together legibly. -/
theorem isLegible_combined {plans : List Dataflow}
    (each : ∀ plan ∈ plans, IsLegible catalog plan)
    (noMeasure : ∀ plan ∈ plans, ∀ name, ¬ MayHold catalog plan (.measure name))
    (outputs : ∀ plan ∈ plans, ∀ other ∈ plans, ∀ output another,
      MayHold catalog plan (.metric output) → MayHold catalog other (.metric another) →
        output.name = another.name → output = another) :
    IsLegible catalog (combined plans) where
  isOf content held := by
    obtain ⟨plan, among, held, _⟩ := held.of_combined
    exact (each plan among).isOf content held
  grains name links grain otherGrain part otherPart held otherHeld := by
    obtain ⟨plan, among, held, first⟩ := held.of_combined
    obtain ⟨other, _, otherHeld, otherFirst⟩ := otherHeld.of_combined
    obtain rfl : plan = other := Option.some.inj ((first rfl).symm.trans (otherFirst rfl))
    exact (each plan among).grains _ _ _ _ _ _ held otherHeld
  measures name held := by
    obtain ⟨plan, among, held, _⟩ := held.of_combined
    exact (noMeasure plan among name held).elim
  outputs output other held otherHeld := by
    obtain ⟨plan, among, held, _⟩ := held.of_combined
    obtain ⟨another, otherAmong, otherHeld, _⟩ := otherHeld.of_combined
    exact outputs plan among another otherAmong _ _ held otherHeld
  unmixed name output held := by
    obtain ⟨plan, among, held, _⟩ := held.of_combined
    exact (noMeasure plan among name held).elim

/-- Plans with legible parts have legible parts together, if they are legible together. -/
theorem hasLegibleParts_combined {plans : List Dataflow}
    (each : ∀ plan ∈ plans, HasLegibleParts catalog plan)
    (legible : IsLegible catalog (combined plans)) : HasLegibleParts catalog (combined plans) := by
  match plans with
  | [plan] => exact each plan List.mem_cons_self
  | [] | _ :: _ :: _ => exact hasLegibleParts_node_iff.mpr ⟨legible, each⟩

/-! ## Joins -/

/-- Whether an input of a join gives what a model lacks: items from behind the entity, or a metric
for each of its values. -/
structure Supplements (catalog : Catalog) (model : SemanticModel) (input : JoinedInput) :
    Prop where
  parts : HasLegibleParts catalog input.plan
  items : ∀ item, MayHold catalog input.plan (.item item) → item = .entity input.entity [] ∨
    item.kind ≠ .metric ∧ isOwn model (item.behind input.entity) = false
  metrics : ∀ output, MayHold catalog input.plan (.metric output) →
    output.metric ∈ catalog.manifest.metricNames

/-- Whether a plan gives some time dimension. -/
def GivesTime (catalog : Catalog) (plan : Dataflow) : Prop :=
  ∃ name links grain part, MayHold catalog plan (.item (.timeDimension name links grain part))

/-- Whether what is seen through a join on an entity is a metric for each of its values, or an item
from behind the entity that a model lacks. -/
inductive Seen (catalog : Catalog) (model : SemanticModel) (input : JoinedInput) :
    GroupByItem → Prop where
  | metric {name : String} (known : name ∈ catalog.manifest.metricNames) :
      Seen catalog model input (.metric name [input.entity] [input.entity])
  | behind {item : GroupByItem} (held : MayHold catalog input.plan (.item item))
      (kind : item.kind ≠ .metric) (lacking : isOwn model (item.behind input.entity) = false) :
      Seen catalog model input (item.behind input.entity)

/-- What is seen of such an input is an item that the model lacks. -/
theorem Supplements.of_seenThrough {model : SemanticModel} {input : JoinedInput}
    (supplements : Supplements catalog model input) {inner content : ColumnContent}
    (held : MayHold catalog input.plan inner)
    (seen : seenThrough input.entity inner = some content) :
    ∃ item, content = .item item ∧ Seen catalog model input item := by
  cases inner with
  | measure => cases seen
  | metric output =>
      obtain rfl := Option.some.inj seen
      exact ⟨_, rfl, .metric (supplements.metrics output held)⟩
  | item item =>
      rw [seenThrough] at seen
      split at seen
      · cases seen
      · rename_i stays
        obtain rfl := Option.some.inj seen
        rcases supplements.items item held with rfl | ⟨kind, lacking⟩
        · exact (stays (by simp)).elim
        · exact ⟨_, rfl, .behind held kind lacking⟩

namespace Seen

variable {model : SemanticModel} {input : JoinedInput} {item : GroupByItem}

private theorem links_ne_nil (seen : Seen catalog model input item) : item.links ≠ [] := by
  cases seen with
  | metric => exact List.cons_ne_nil _ _
  | behind =>
      rw [GroupByItem.links_behind]
      exact List.cons_ne_nil _ _

/-- An item that is seen through a join is one of the manifest. -/
theorem isOf (seen : Seen catalog model input item) (legible : IsLegible catalog input.plan)
    (named : input.entity ∈ catalog.manifest.entityNames) : item.IsOf catalog.manifest := by
  cases seen with
  | metric known =>
      exact ⟨⟨known, rfl, List.cons_ne_nil _ _⟩, List.forall_mem_singleton.mpr named⟩
  | @behind item held kind _ =>
      obtain ⟨element, links⟩ := legible.isOf _ held
      refine ⟨?_, ?_⟩
      · cases item with
        | metric => exact (kind rfl).elim
        | _ => exact element
      · rw [GroupByItem.links_behind]
        exact List.forall_mem_cons.mpr ⟨named, links⟩

/-- A time dimension that is seen is one that is held behind the entity and lacking before it. -/
theorem of_time {name : String} {links : List String} {grain : Grain} {part : Option DatePart}
    (seen : Seen catalog model input (.timeDimension name links grain part)) :
    isOwn model (.timeDimension name links grain part) = false ∧
      ∃ inner, links = input.entity :: inner ∧
        MayHold catalog input.plan (.item (.timeDimension name inner grain part)) := by
  generalize same : GroupByItem.timeDimension name links grain part = item at seen
  cases seen with
  | metric => cases same
  | @behind item held _ lacking =>
      cases item with
      | timeDimension =>
          obtain ⟨⟩ := same
          exact ⟨lacking, _, rfl, held⟩
      | _ => cases same

end Seen

section

variable {model : SemanticModel} {inputs : List JoinedInput}
  (each : ∀ input ∈ inputs, Supplements catalog model input)

include each

/-- What a join may hold is held by the model or is seen through one of the inputs. -/
theorem of_joinTo {content : ColumnContent}
    (held : MayHold catalog (joinTo plan inputs) content) :
    MayHold catalog plan content ∨ ∃ item, content = .item item ∧ ∃ input ∈ inputs,
      MayHold catalog plan (.ownEntity input.entity) ∧ Seen catalog model input item := by
  refine held.of_joinTo.imp_right ?_
  rintro ⟨input, among, key, inner, held, through⟩
  obtain ⟨item, rfl, seen⟩ := (each input among).of_seenThrough held through
  exact ⟨item, rfl, input, among, key, seen⟩

/-- What completes a model by what it lacks, with times behind an entity from one plan, leaves its
columns legible. -/
theorem isLegible_joinTo (legible : IsLegible catalog plan)
    (own : ∀ item, MayHold catalog plan (.item item) → isOwn model item = true)
    (single : ∀ input ∈ inputs, ∀ other ∈ inputs, input.entity = other.entity →
      GivesTime catalog input.plan → GivesTime catalog other.plan → input.plan = other.plan) :
    IsLegible catalog (joinTo plan inputs) where
  isOf content held := by
    rcases of_joinTo each held with held | ⟨item, rfl, input, among, key, seen⟩
    · exact legible.isOf content held
    · exact seen.isOf (each input among).parts.isLegible (legible.isOf _ key).element
  grains name links grain otherGrain part otherPart held otherHeld := by
    -- What the model has itself it does not lack, whatever the grain, so that parts which are seen
    -- through a join only meet others which are seen through the same join.
    have alike : isOwn model (.timeDimension name links grain (some part)) =
        isOwn model (.timeDimension name links otherGrain (some otherPart)) := rfl
    rcases of_joinTo each held with here | ⟨_, ⟨⟩, input, among, _, seen⟩
    · rcases of_joinTo each otherHeld with there | ⟨_, ⟨⟩, _, _, _, otherSeen⟩
      · exact legible.grains _ _ _ _ _ _ here there
      · rw [own _ here, otherSeen.of_time.1] at alike
        cases alike
    · rcases of_joinTo each otherHeld with there | ⟨_, ⟨⟩, other, otherAmong, _, otherSeen⟩
      · rw [seen.of_time.1, own _ there] at alike
        cases alike
      · obtain ⟨_, inner, rfl, inside⟩ := seen.of_time
        obtain ⟨_, _, same, otherInside⟩ := otherSeen.of_time
        obtain ⟨entity, rfl⟩ := List.cons.inj same
        rw [← single input among other otherAmong entity ⟨_, _, _, _, inside⟩
          ⟨_, _, _, _, otherInside⟩] at otherInside
        exact (each input among).parts.isLegible.grains _ _ _ _ _ _ inside otherInside
  measures name held := by
    have unlinked : ∀ item : GroupByItem, item.links = [] →
        MayHold catalog (joinTo plan inputs) (.item item) →
        MayHold catalog plan (.item item) := by
      intro item none held
      rcases of_joinTo each held with held | ⟨_, ⟨⟩, input, _, _, seen⟩
      · exact held
      · exact (seen.links_ne_nil none).elim
    rcases of_joinTo each held with held | ⟨_, ⟨⟩, _⟩
    obtain ⟨noDimension, noEntity⟩ := legible.measures name held
    exact ⟨fun held => noDimension (unlinked _ rfl held),
      fun held => noEntity (unlinked _ rfl held)⟩
  outputs output other held otherHeld := by
    rcases of_joinTo each held with held | ⟨_, ⟨⟩, _⟩
    rcases of_joinTo each otherHeld with otherHeld | ⟨_, ⟨⟩, _⟩
    exact legible.outputs output other held otherHeld
  unmixed name output held otherHeld := by
    rcases of_joinTo each held with held | ⟨_, ⟨⟩, _⟩
    rcases of_joinTo each otherHeld with otherHeld | ⟨_, ⟨⟩, _⟩
    exact legible.unmixed name output held otherHeld

/-- Joined plans with legible parts have legible parts together, if the join is legible. -/
theorem hasLegibleParts_joinTo (parts : HasLegibleParts catalog plan)
    (legible : IsLegible catalog (joinTo plan inputs)) :
    HasLegibleParts catalog (joinTo plan inputs) := by
  unfold joinTo at legible ⊢
  split
  · exact parts
  · rename_i some
    rw [if_neg some] at legible
    exact hasLegibleParts_node_iff.mpr ⟨legible, List.forall_mem_cons.mpr
      ⟨parts, List.forall_mem_map.mpr fun input among => (each input among).parts⟩⟩

end

end Dataflow

end MetricQuery
