import Mathlib.Data.List.Nodup
import MetricQuery.Catalog

/-! # Names in a manifest

The names that a manifest gives to what it defines. Where they are distinct, everything is found
under its name.
-/

namespace MetricQuery

namespace Manifest

/-- The names of all models. -/
def modelNames (manifest : Manifest) : List String := manifest.models.map SemanticModel.name

/-- The names of the entities of all models. -/
def entityNames (manifest : Manifest) : List String :=
  manifest.models.flatMap fun model => model.entities.map Entity.name

/-- The names of the dimensions of all models. -/
def dimensionNames (manifest : Manifest) : List String :=
  manifest.models.flatMap fun model => model.dimensions.map Dimension.name

/-- The names of the measures of all models. -/
def measureNames (manifest : Manifest) : List String :=
  manifest.models.flatMap fun model => model.measures.map Measure.name

/-- The names of all metrics. -/
def metricNames (manifest : Manifest) : List String := manifest.metrics.map Metric.name

variable {manifest : Manifest} {model : SemanticModel}

/-- Every entity of a model is named. -/
theorem mem_entityNames (known : model ∈ manifest.models) {entity : Entity}
    (own : entity ∈ model.entities) : entity.name ∈ manifest.entityNames :=
  List.mem_flatMap.mpr ⟨model, known, List.mem_map_of_mem own⟩

/-- Every dimension of a model is named. -/
theorem mem_dimensionNames (known : model ∈ manifest.models) {dimension : Dimension}
    (own : dimension ∈ model.dimensions) : dimension.name ∈ manifest.dimensionNames :=
  List.mem_flatMap.mpr ⟨model, known, List.mem_map_of_mem own⟩

/-- Every measure of a model is named. -/
theorem mem_measureNames (known : model ∈ manifest.models) {measure : Measure}
    (own : measure ∈ model.measures) : measure.name ∈ manifest.measureNames :=
  List.mem_flatMap.mpr ⟨model, known, List.mem_map_of_mem own⟩

end Manifest

/-! ## Looking up by name -/

variable {α β : Type} [BEq β] [LawfulBEq β]

/-- Where names are distinct, a member is the first one of its name. -/
theorem find?_eq_some_of_mem {members : List α} {name : α → β} {member : α}
    (distinct : (members.map name).Nodup) (among : member ∈ members) :
    members.find? (name · == name member) = some member := by
  have some : (members.find? (name · == name member)).isSome = true :=
    List.find?_isSome.mpr ⟨member, among, beq_self_eq_true _⟩
  obtain ⟨found, ok⟩ := Option.isSome_iff_exists.mp some
  have same : name found = name member := by simpa using List.find?_some ok
  rw [ok, List.inj_on_of_nodup_map distinct (List.mem_of_find?_eq_some ok) among same]

/-- Where names are distinct, a member is the last one of its name. -/
theorem findRev?_eq_some_of_mem {members : List α} {name : α → β} {member : α}
    (distinct : (members.map name).Nodup) (among : member ∈ members) :
    members.findRev? (name · == name member) = some member := by
  rw [List.findRev?_eq_find?_reverse]
  refine find?_eq_some_of_mem ?_ (List.mem_reverse.mpr among)
  rwa [List.map_reverse, List.nodup_reverse]

/-- Where names are distinct, a member is the only one of its name. -/
theorem filter_eq_singleton_of_mem {members : List α} {name : α → β} {member : α}
    (distinct : (members.map name).Nodup) (among : member ∈ members) :
    (members.filter (name · == name member)) = [member] := by
  induction members with
  | nil => exact nomatch among
  | cons first rest ih =>
      obtain ⟨fresh, distinct⟩ := List.nodup_cons.mp distinct
      rcases List.mem_cons.mp among with rfl | among
      · have none : rest.filter (name · == name member) = [] :=
          List.filter_eq_nil_iff.mpr fun other inside same =>
            fresh (List.mem_map.mpr ⟨other, inside, beq_iff_eq.mp same⟩)
        rw [List.filter_cons, if_pos (beq_self_eq_true _), none]
      · have other : name first ≠ name member := fun same =>
          fresh (List.mem_map.mpr ⟨member, among, same.symm⟩)
        rw [List.filter_cons, if_neg (by simpa using other), ih distinct among]

/-- Whether a metric has the inputs that its kind needs. -/
def Metric.isComplete (metric : Metric) : Bool :=
  match metric.kind with
  | .simple | .cumulative => metric.inputs.measure.isSome
  | .ratio => metric.inputs.numerator.isSome && metric.inputs.denominator.isSome
  | .derived => metric.inputs.expr.isSome && !metric.inputs.metrics.isEmpty

namespace Manifest

/-- No dimension has the name of the time of metrics. -/
def IsTimeReserved (manifest : Manifest) : Prop :=
  ∀ model ∈ manifest.models, ∀ dimension ∈ model.dimensions, dimension.name ≠ metricTimeName

instance (manifest : Manifest) : Decidable manifest.IsTimeReserved :=
  inferInstanceAs (Decidable (∀ model ∈ manifest.models, ∀ dimension ∈ model.dimensions, _))

/-- Names of models, measures and metrics are distinct and tell no dimension from the time of
metrics apart, and metrics have the inputs that they need. -/
structure IsValid (manifest : Manifest) : Prop where
  models : (manifest.models.map SemanticModel.name).Nodup
  measures : ((manifest.models.flatMap SemanticModel.measures).map Measure.name).Nodup
  metrics : (manifest.metrics.map Metric.name).Nodup
  complete : ∀ metric ∈ manifest.metrics, metric.isComplete = true
  time : manifest.IsTimeReserved

end Manifest

namespace Catalog

variable {catalog : Catalog}

/-- Where the names of models are distinct, every model is found under its name. -/
theorem model?_of_mem {model : SemanticModel}
    (distinct : (catalog.manifest.models.map SemanticModel.name).Nodup)
    (known : model ∈ catalog.manifest.models) : catalog.model? model.name = some model :=
  findRev?_eq_some_of_mem distinct known

/-- Where the names of metrics are distinct, every metric is found under its name. -/
theorem metric?_of_mem {metric : Metric}
    (distinct : (catalog.manifest.metrics.map Metric.name).Nodup)
    (known : metric ∈ catalog.manifest.metrics) : catalog.metric? metric.name = some metric :=
  findRev?_eq_some_of_mem distinct known

/-- What is found under a name is a metric of this name. -/
theorem of_metric? {name : String} {metric : Metric} (found : catalog.metric? name = some metric) :
    metric ∈ catalog.manifest.metrics ∧ metric.name = name := by
  rw [metric?, List.findRev?_eq_find?_reverse] at found
  have same : (metric.name == name) = true := by simpa using List.find?_some found
  exact ⟨List.mem_reverse.mp (List.mem_of_find?_eq_some found), beq_iff_eq.mp same⟩

/-- What is found under a name is a measure of this name, with the model that defines it. -/
theorem of_measure? {name : String} {model : SemanticModel} {measure : Measure}
    (found : catalog.measure? name = some (model, measure)) :
    model ∈ catalog.manifest.models ∧ measure ∈ model.measures ∧ measure.name = name := by
  rw [measure?, List.findRev?_eq_find?_reverse] at found
  have same : (measure.name == name) = true := by simpa using List.find?_some found
  have member := List.mem_reverse.mp (List.mem_of_find?_eq_some found)
  obtain ⟨owner, known, own⟩ := List.mem_flatMap.mp member
  obtain ⟨_, own, ⟨⟩⟩ := List.mem_map.mp own
  exact ⟨known, own, beq_iff_eq.mp same⟩

end Catalog

end MetricQuery
