import MetricQuery.Proofs.Dataflow.Metrics
import MetricQuery.Proofs.Dataflow.Readiness

/-! # Planning metrics

A metric that is ready can be planned, grouped by and filtered on whatever all its measures offer
(`ofMetric_yields`), also deeper than it needs, which leaves room for the metrics among the items.
Which metrics can be items is left open here (`Answers`).
-/

namespace MetricQuery.Dataflow

open Sql

variable {catalog : Catalog} {lookup : FilterLookup} {depth : Nat}

/-- Whether an item is offered by every measure that a metric is computed from, and is answered for,
which counts for metrics among the items. -/
def Fits (catalog : Catalog) (answered : GroupByItem → Prop) (metric : String)
    (item : GroupByItem) : Prop := catalog.Offers metric item ∧ answered item

/-- An item that fits a metric fits its inputs. -/
theorem Fits.input {answered : GroupByItem → Prop} {name : String} {metric : Metric}
    {input : InputMetric} {item : GroupByItem} (fits : Fits catalog answered name item)
    (found : catalog.metric? name = some metric) (among : input ∈ metric.inputMetrics) :
    Fits catalog answered input.name item :=
  ⟨fun measure feeds => fits.1 measure (.input found among feeds), fits.2⟩

/-- Whether the metrics that are answered for can be computed as items, given some spare depth. -/
def Answers (catalog : Catalog) (lookup : FilterLookup) (spare : Nat)
    (answered : GroupByItem → Prop) : Prop :=
  ∀ depth model measure item, spare ≤ depth → Element.Offered catalog.manifest model measure item →
    item.kind = .metric → answered item →
    IsComputed catalog (subqueryAt catalog lookup depth) model item

/-! ## Inputs -/

/-- The inputs of a metric are computed under their own names. -/
theorem inputOutputs_alike (metric : Metric) :
    List.Forall₂ (fun (input : InputMetric) output => output.metric = input.name)
      metric.inputMetrics (inputOutputs metric) := by
  have behind : ∀ (inputs consumed : List InputMetric) (before : List MetricOutput),
      List.Forall₂ (fun (input : InputMetric) output => output.metric = input.name)
        consumed before →
      List.Forall₂ (fun (input : InputMetric) output => output.metric = input.name)
        (consumed ++ inputs) (inputs.foldl
          (fun before input => before ++ [inputOutput metric.kind before input]) before) := by
    intro inputs
    induction inputs with
    | nil =>
        intro consumed before alike
        rwa [List.append_nil]
    | cons input rest ih =>
        intro consumed before alike
        have named : (inputOutput metric.kind before input).metric = input.name := by
          simp only [inputOutput]
          split <;> rfl
        rw [List.foldl_cons, List.append_cons consumed]
        exact ih _ _ (List.rel_append alike (.cons named .nil))
  exact behind metric.inputMetrics [] [] .nil

/-- A complete metric has a measure, or else inputs and a formula over them. -/
theorem exists_input_or_formula {metric : Metric} (complete : metric.isComplete = true) :
    (∃ input, metric.inputMeasures = [input]) ∨
      (metric.kind = .ratio ∨ metric.kind = .derived) ∧ metric.inputMetrics ≠ [] ∧
        ∃ formula, (formulaOf metric (inputOutputs metric) : Except QueryError _) = .ok formula ∧
          ∀ content ∈ formulaReads formula, ∃ output ∈ inputOutputs metric,
            content = .metric output := by
  unfold Metric.isComplete at complete
  cases kind : metric.kind with
  | simple =>
      simp only [kind] at complete
      obtain ⟨input, measure⟩ := Option.isSome_iff_exists.mp complete
      exact .inl ⟨input, by simp [Metric.inputMeasures, kind, measure]⟩
  | cumulative =>
      simp only [kind] at complete
      obtain ⟨input, measure⟩ := Option.isSome_iff_exists.mp complete
      exact .inl ⟨input, by simp [Metric.inputMeasures, kind, measure]⟩
  | ratio =>
      simp only [kind, Bool.and_eq_true] at complete
      obtain ⟨numerator, dividend⟩ := Option.isSome_iff_exists.mp complete.1
      obtain ⟨denominator, divisor⟩ := Option.isSome_iff_exists.mp complete.2
      have inputs : metric.inputMetrics = [numerator, denominator] := by
        simp [Metric.inputMetrics, kind, dividend, divisor]
      obtain ⟨first, second, outputs⟩ : ∃ first second, inputOutputs metric = [first, second] :=
        ⟨_, _, by rw [inputOutputs, inputs]; rfl⟩
      refine .inr ⟨.inl rfl, by simp [inputs], .ratio first second, ?_, ?_⟩
      · simp only [formulaOf, outputs, kind]
        rfl
      · rw [outputs]
        rintro content (_ | ⟨_, _ | ⟨_, ⟨⟩⟩⟩)
        · exact ⟨first, List.mem_cons_self, rfl⟩
        · exact ⟨second, List.mem_cons_of_mem _ List.mem_cons_self, rfl⟩
  | derived =>
      simp only [kind, Bool.and_eq_true, Bool.not_eq_true', List.isEmpty_eq_false_iff] at complete
      obtain ⟨expr, isExpr⟩ := Option.isSome_iff_exists.mp complete.1
      refine .inr ⟨.inr rfl, by simpa [Metric.inputMetrics, kind] using complete.2,
        .derived expr, ?_, fun _ absent => (List.not_mem_nil absent).elim⟩
      simp only [formulaOf, kind, isExpr]
      rfl

/-- A metric over other metrics is computed from them, each under the conditions of both. -/
theorem ofMetric_of_metrics {task : MetricTask} {metric : Metric} {own : List Condition}
    (found : catalog.metric? task.output.metric = some metric)
    (kind : metric.kind = .ratio ∨ metric.kind = .derived)
    (ownRead : conditionsAt lookup (.metric metric.name) metric.filter = .ok own) :
    ofMetric catalog lookup (depth + 1) task = (do
      let inputs ← (metric.inputMetrics.zip (inputOutputs metric)).mapM fun pair => do
        let ofConsumer ← conditionsAt lookup (.inputMetric pair.1.name) pair.1.filter
        ofMetric catalog lookup depth ⟨pair.2, task.groupBy, task.conditions ++ own ++ ofConsumer,
          pair.1.offset.or task.offset⟩
      let formula ← formulaOf metric (inputOutputs metric)
      if inputs.isEmpty then throw (.noInputMetrics metric.name)
      return (combined inputs).andThen (.compute ⟨metric.name, task.output.newName⟩ formula)) := by
  rw [ofMetric, planMetric, found]
  simp only [ownRead]
  rcases kind with kind | kind
  · rw [kind]
    rfl
  · rw [kind]
    rfl

/-- Metrics that are grouped alike can be brought together. -/
theorem combined_yields {groupBy : List GroupByItem} {outputs : List MetricOutput}
    {plans : List Dataflow} (some : outputs ≠ [])
    (alike : List.Forall₂ (fun output plan =>
      Yields catalog plan (GroupedContents groupBy (.metric output))) outputs plans) :
    Yields catalog (combined plans) fun content =>
      (∃ item ∈ groupBy, content = .item item) ∨ ∃ output ∈ outputs, content = .metric output := by
  have nonempty : plans ≠ [] := by
    rintro rfl
    exact some (List.forall₂_nil_right_iff.mp alike)
  have each : ∀ plan ∈ plans, ∃ output ∈ outputs, ∀ content,
      Holds catalog plan content ↔ GroupedContents groupBy (.metric output) content := by
    intro plan member
    obtain ⟨output, among, yields⟩ := exists_left_of_forall₂ alike member
    exact ⟨output, among, yields.holds_iff⟩
  have held : ∀ plan ∈ plans, Yields catalog plan (Holds catalog plan) := by
    intro plan member
    obtain ⟨output, _, yields⟩ := exists_left_of_forall₂ alike member
    exact yields.held
  have shared : ∀ plan ∈ plans, ∀ item, Holds catalog plan (.item item) ↔ item ∈ groupBy := by
    intro plan member item
    obtain ⟨output, _, holds⟩ := each plan member
    exact (holds _).trans (GroupedContents.item_iff rfl item)
  have others : ∀ plan ∈ plans, ∀ content, Holds catalog plan content →
      content.item?.isSome = true ∨ ∃ output, content = .metric output := by
    intro plan member content present
    obtain ⟨output, _, holds⟩ := each plan member
    rcases (holds content).mp present with ⟨item, _, rfl⟩ | rfl
    · exact .inl rfl
    · exact .inr ⟨output, rfl⟩
  refine (Yields.combined nonempty held shared others).congr fun content => ⟨?_, ?_⟩
  · intro present
    obtain ⟨plan, member, present⟩ := present
    obtain ⟨output, among, holds⟩ := each plan member
    exact ((holds content).mp present).imp_right fun same => ⟨output, among, same⟩
  · intro present
    rcases present with grouped | ⟨output, among, rfl⟩
    · obtain ⟨plan, member⟩ := List.exists_mem_of_ne_nil plans nonempty
      obtain ⟨output, _, holds⟩ := each plan member
      exact ⟨plan, member, (holds content).mpr (.inl grouped)⟩
    · obtain ⟨plan, member, yields⟩ := exists_right_of_forall₂ alike among
      exact ⟨plan, member, (yields.holds_iff _).mpr (.inr rfl)⟩

/-- A metric over metrics that can be planned can be planned. -/
theorem ofMetric_of_metrics_yields {task : MetricTask} {metric : Metric} {own : List Condition}
    {formula : MetricFormula} (found : catalog.metric? task.output.metric = some metric)
    (kind : metric.kind = .ratio ∨ metric.kind = .derived)
    (ownRead : conditionsAt lookup (.metric metric.name) metric.filter = .ok own)
    (some : metric.inputMetrics ≠ [])
    (isFormula : (formulaOf metric (inputOutputs metric) : Except QueryError _) = .ok formula)
    (reads : ∀ content ∈ formulaReads formula, ∃ output ∈ inputOutputs metric,
      content = .metric output)
    (inputs : ∀ pair ∈ metric.inputMetrics.zip (inputOutputs metric), ∃ ofConsumer,
      conditionsAt lookup (.inputMetric pair.1.name) pair.1.filter = .ok ofConsumer ∧
      ∃ plan, ofMetric catalog lookup depth ⟨pair.2, task.groupBy,
          task.conditions ++ own ++ ofConsumer, pair.1.offset.or task.offset⟩ = .ok plan ∧
        Yields catalog plan (GroupedContents task.groupBy (.metric pair.2))) :
    ∃ plan, ofMetric catalog lookup (depth + 1) task = .ok plan ∧
      Yields catalog plan (GroupedContents task.groupBy (.metric task.output)) := by
  have each : ∀ pair ∈ metric.inputMetrics.zip (inputOutputs metric), ∃ plan, (do
      let ofConsumer ← conditionsAt lookup (.inputMetric pair.1.name) pair.1.filter
      ofMetric catalog lookup depth ⟨pair.2, task.groupBy, task.conditions ++ own ++ ofConsumer,
        pair.1.offset.or task.offset⟩) = .ok plan ∧
      Yields catalog plan (GroupedContents task.groupBy (.metric pair.2)) := by
    intro pair member
    obtain ⟨ofConsumer, read, plan, ok, yields⟩ := inputs pair member
    exact ⟨plan, bind_eq_ok.mpr ⟨ofConsumer, read, ok⟩, yields⟩
  obtain ⟨plans, planned, alike⟩ := exists_mapM_eq_ok each
  have even := (inputOutputs_alike metric).length_eq
  have outputs : (metric.inputMetrics.zip (inputOutputs metric)).map Prod.snd =
      inputOutputs metric := List.map_snd_zip even.ge
  replace alike : List.Forall₂ (fun output plan =>
      Yields catalog plan (GroupedContents task.groupBy (.metric output)))
      (inputOutputs metric) plans := by
    rw [← outputs, List.forall₂_map_left_iff]
    exact alike
  have someOutput : inputOutputs metric ≠ [] := by
    intro none
    rw [none] at even
    exact some (List.length_eq_zero_iff.mp even)
  have somePlan : plans.isEmpty = false := by
    rw [List.isEmpty_eq_false_iff]
    rintro rfl
    exact someOutput (List.forall₂_nil_right_iff.mp alike)
  have output : MetricOutput.mk metric.name task.output.newName = task.output := by
    rw [(Catalog.of_metric? found).2]
  rw [ofMetric_of_metrics found kind ownRead, output]
  refine ⟨(combined plans).andThen (.compute task.output formula), ?_,
    computed_yields (combined_yields someOutput alike) (fun item => ?_) fun content read => ?_⟩
  · refine bind_eq_ok.mpr ⟨plans, planned, bind_eq_ok.mpr ⟨formula, isFormula, ?_⟩⟩
    simp only [somePlan, Bool.false_eq_true, ↓reduceIte]
    rfl
  · constructor
    · intro present
      rcases present with ⟨_, member, ⟨⟩⟩ | ⟨_, _, ⟨⟩⟩
      exact member
    · exact fun member => .inl ⟨item, member, rfl⟩
  · exact .inr (reads content read)

/-! ## Metrics -/

section

variable (valid : catalog.manifest.IsValid) (unambiguous : catalog.manifest.IsUnambiguous)
  {answered : GroupByItem → Prop} {spare : Nat} (answers : Answers catalog lookup spare answered)

include valid unambiguous answers in
/-- The measure of a metric can be aggregated by and filtered on whatever fits the metric. -/
theorem ofMeasure_yields_of_fits {name : String} {metric : Metric} {input : InputMeasure}
    {groupBy : List GroupByItem} {conditions : List Condition} (offset : Option OffsetWindow)
    (deep : spare ≤ depth) (found : catalog.metric? name = some metric)
    (among : input ∈ metric.inputMeasures)
    (measured : (catalog.measure? input.name).isSome = true)
    (grouped : ∀ item ∈ groupBy, Fits catalog answered name item)
    (filtered : ∀ condition ∈ conditions, ∀ item ∈ condition.items,
      Fits catalog answered name item) :
    ∃ plan, ofMeasure catalog (subqueryAt catalog lookup depth) input.name groupBy conditions
        offset = .ok plan ∧
      Yields catalog plan (GroupedContents groupBy (.measure input.name)) := by
  obtain ⟨⟨model, measure⟩, foundMeasure⟩ := Option.isSome_iff_exists.mp measured
  have fits : ∀ item ∈ neededItems groupBy conditions, Fits catalog answered name item := by
    intro item needed
    rcases mem_neededItems.mp needed with member | ⟨condition, member, inside⟩
    · exact grouped item member
    · exact filtered condition member item inside
  have offered : ∀ item ∈ neededItems groupBy conditions,
      Element.Offered catalog.manifest model measure item := fun item needed =>
    Element.offered_of_offers foundMeasure ((fits item needed).1 input.name (.own found among rfl))
  refine ofMeasure_yields valid.models valid.time _ offset foundMeasure offered ?_ ?_
  · exact served_of_reached unambiguous (isWithin_mostLinks model _)
      (Catalog.of_measure? foundMeasure).1 List.mem_cons_self
      fun item needed => isReached_of_offered (offered item needed)
  · exact fun item needed kind =>
      answers _ _ _ item deep (offered item needed) kind (fits item needed).2

variable (settled : lookup.IsSettled catalog)
  (mentioned : ∀ location item, lookup.Means location item → answered item)

include settled mentioned in
/-- What a filter means fits the metrics that the filter is about. -/
theorem fits_of_means {location : FilterLocation} {item : GroupByItem} {name : String}
    (means : lookup.Means location item) (about : name ∈ location.metrics) :
    Fits catalog answered name item := by
  refine ⟨?_, mentioned location item means⟩
  obtain ⟨finding, member, rfl, isItem⟩ := means
  obtain ⟨other, isOther, offered⟩ := settled.offered finding member
  obtain ⟨⟩ := isItem.symm.trans isOther
  exact offered name about

include settled mentioned in
/-- Filters can be rendered where their references are known, and read what fits the metric. -/
theorem exists_fitting_conditionsAt {location : FilterLocation} {filter : Option (List String)}
    {name : String} (about : name ∈ location.metrics)
    (known : ∀ template ∈ filter.getD [], lookup.Knows location template) :
    ∃ conditions, conditionsAt lookup location filter = .ok conditions ∧
      ∀ condition ∈ conditions, ∀ item ∈ condition.items, Fits catalog answered name item := by
  obtain ⟨conditions, ok⟩ := exists_conditionsAt settled known
  exact ⟨conditions, ok, fun condition member item inside => fits_of_means settled mentioned
    (means_of_conditionsAt ok condition member item inside) about⟩

include valid unambiguous answers settled mentioned in
/-- A metric that is ready can be planned, grouped by and filtered on whatever fits it. -/
theorem ofMetric_yields {name : String} {most : Nat} {task : MetricTask}
    (ready : Ready catalog lookup depth name) (deep : depth + spare ≤ most)
    (asked : task.output.metric = name)
    (grouped : ∀ item ∈ task.groupBy, Fits catalog answered name item)
    (filtered : ∀ condition ∈ task.conditions, ∀ item ∈ condition.items,
      Fits catalog answered name item) :
    ∃ plan, ofMetric catalog lookup most task = .ok plan ∧
      Yields catalog plan (GroupedContents task.groupBy (.metric task.output)) := by
  induction ready generalizing most task with
  | @intro depth name metric found measured own ofConsumer inputs ih =>
      subst asked
      have positive : most ≠ 0 := by omega
      obtain ⟨most, rfl⟩ := Nat.exists_eq_add_one_of_ne_zero positive
      have deep : depth + spare ≤ most := by omega
      obtain ⟨known, named⟩ := Catalog.of_metric? found
      have ownKnown : ∀ template ∈ metric.filter.getD [],
          lookup.Knows (.metric metric.name) template := fun template declared =>
        named ▸ own template (List.mem_append_right _ declared)
      obtain ⟨ownConditions, ownRead, ownFit⟩ :=
        exists_fitting_conditionsAt settled mentioned List.mem_cons_self ownKnown
      rw [named] at ownFit
      rcases exists_input_or_formula (valid.complete metric known) with
        ⟨input, single⟩ | ⟨kind, some, formula, isFormula, reads⟩
      · have among : input ∈ metric.inputMeasures := single ▸ List.mem_cons_self
        have inputKnown : ∀ template ∈ input.filter.getD [],
            lookup.Knows (.metric metric.name) template := fun template declared =>
          named ▸ own template
            (List.mem_append_left _ (List.mem_flatMap.mpr ⟨input, among, declared⟩))
        obtain ⟨inputConditions, inputRead, inputFit⟩ :=
          exists_fitting_conditionsAt settled mentioned List.mem_cons_self inputKnown
        rw [named] at inputFit
        apply ofMetric_of_measure_yields found single ownRead inputRead (measured input among)
        have deepHere : spare ≤ most := by omega
        refine ofMeasure_yields_of_fits valid unambiguous answers task.offset deepHere found among
          (measured input among) grouped ?_
        intro condition member
        rcases List.mem_append.mp member with member | member
        · rcases List.mem_append.mp member with member | member
          · exact filtered condition member
          · exact ownFit condition member
        · exact inputFit condition member
      · apply ofMetric_of_metrics_yields found kind ownRead some isFormula reads
        rintro ⟨input, output⟩ member
        have among := (List.of_mem_zip member).1
        obtain ⟨conditions, read, fit⟩ := exists_fitting_conditionsAt settled mentioned
          List.mem_cons_self (ofConsumer input among)
        refine ⟨conditions, read, ih input among deep ?_ ?_ ?_⟩
        · exact List.forall₂_zip (inputOutputs_alike metric) member
        · exact fun item inside => (grouped item inside).input found among
        · intro condition member
          rcases List.mem_append.mp member with member | member
          · rcases List.mem_append.mp member with member | member
            · exact fun item inside => (filtered condition member item inside).input found among
            · exact fun item inside => (ownFit condition member item inside).input found among
          · exact fit condition member

end

end MetricQuery.Dataflow
