import Mathlib.Data.List.Induction
import MetricQuery.Proofs.Filter.Listing
import MetricQuery.Query.Resolution

/-! # What requests collect

The references of a request one by one, without the memo that they are read with: what each means,
and what is wrong with it. Resolving a request collects the meanings of all references in their
order, each once, with a warning for each reference that means what an earlier one means, and with
every error (`Request.meaning_collects`).
-/

namespace MetricQuery

open ReferenceMemo (Ensures)

/-! ## Repeats -/

section

variable {α β : Type} [DecidableEq β]

/-- The inputs that mean what an earlier input means, each with its meaning. -/
def repeats (meaning : α → Option β) (inputs : List α) : List (α × β) :=
  inputs.zipIdx.filterMap fun numbered => (meaning numbered.1).bind fun found =>
    if found ∈ (inputs.take numbered.2).filterMap meaning then some (numbered.1, found) else none

variable {meaning : α → Option β} {inputs : List α} {input : α} {found : β}

/-- One more input is a repeat when its meaning was found before. -/
theorem repeats_append_singleton (input : α) : repeats meaning (inputs ++ [input]) =
    repeats meaning inputs ++ ((meaning input).bind fun found =>
      if found ∈ inputs.filterMap meaning then some (input, found) else none).toList := by
  rw [repeats, List.zipIdx_append, List.filterMap_append]
  refine congrArg₂ _ (List.filterMap_congr ?_) ?_
  · rintro ⟨earlier, place⟩ among
    obtain ⟨bound, _⟩ := List.mem_zipIdx' among
    rw [List.take_append_of_le_length (Nat.le_of_lt bound)]
  · rw [List.zipIdx_singleton, Nat.zero_add, List.filterMap_cons, List.take_left]
    cases (meaning input).bind fun found =>
      if found ∈ inputs.filterMap meaning then some (input, found) else none <;> rfl

/-- An input without a meaning repeats nothing. -/
theorem repeats_concat_of_none (unknown : meaning input = none) :
    repeats meaning (inputs ++ [input]) = repeats meaning inputs := by
  rw [repeats_append_singleton, unknown, Option.bind_none, Option.toList_none, List.append_nil]

/-- One more input that means something is reported when that was found before. -/
theorem repeats_concat (means : meaning input = some found) :
    repeats meaning (inputs ++ [input]) = if found ∈ inputs.filterMap meaning then
      repeats meaning inputs ++ [(input, found)] else repeats meaning inputs := by
  rw [repeats_append_singleton, means, Option.bind_some]
  split
  · rfl
  · exact List.append_nil _

/-- The repeats depend on what the inputs mean alone. -/
theorem repeats_congr {other : α → Option β}
    (same : ∀ input ∈ inputs, meaning input = other input) :
    repeats meaning inputs = repeats other inputs := by
  refine List.filterMap_congr ?_
  rintro ⟨input, place⟩ among
  have before : (inputs.take place).filterMap meaning = (inputs.take place).filterMap other :=
    List.filterMap_congr fun earlier taken => same earlier (List.mem_of_mem_take taken)
  rw [before, same input (List.fst_mem_of_mem_zipIdx among)]

/-- One more member is kept unless it was there before. -/
theorem eraseDups_concat (members : List β) (member : β) :
    (members ++ [member]).eraseDups =
      if member ∈ members then members.eraseDups else members.eraseDups ++ [member] := by
  rw [List.eraseDups_append, List.removeAll, List.filter_cons]
  by_cases known : member ∈ members
  · simp [known]
  · simp [known, List.eraseDups_cons]

/-- Whatever means something is the first to mean it or a repeat. -/
theorem length_repeats (meaning : α → Option β) (inputs : List α) :
    (inputs.filterMap meaning).eraseDups.length + (repeats meaning inputs).length =
      (inputs.filterMap meaning).length := by
  induction inputs using List.reverseRecOn with
  | nil => rfl
  | append_singleton inputs input ih =>
      cases means : meaning input with
      | none =>
          rw [repeats_concat_of_none means]
          simpa [means] using ih
      | some found =>
          have single : [input].filterMap meaning = [found] := by simp [means]
          rw [repeats_concat means, List.filterMap_append, single, eraseDups_concat,
            List.length_append, List.length_singleton]
          split <;> rw [List.length_append, List.length_singleton] <;> omega

end

/-! ## Single references -/

/-- The metric that an input names, if there is one. -/
def Catalog.metricName? (catalog : Catalog) (input : String) : Option String :=
  if (catalog.metric? (Text.trim input)).isSome then some (Text.trim input) else none

namespace Scope

/-- The item that an input means at a node, if it means one. -/
def itemOf? (scope : Scope) (limit : Nat) (input : String) : Option GroupByItem :=
  match ItemReference.read input with
  | .error _ => none
  | .ok reference => (scope.resolve limit (.ofReference reference) input).outcome.item?

/-- What is wrong with an input that should mean an item. -/
def issuesOf (scope : Scope) (limit : Nat) (input : String) : Issues :=
  match ItemReference.read input with
  | .error error => [.error input [] (.badSyntax error.message)]
  | .ok reference => (scope.resolve limit (.ofReference reference) input).issues

variable {scope : Scope} {limit : Nat} {input : String}

/-- What a scope reports about an input is an error. -/
theorem isError_of_mem_issuesOf {issue : Issue} (reported : issue ∈ scope.issuesOf limit input) :
    issue.isError = true := by
  unfold issuesOf at reported
  split at reported
  · rw [List.mem_singleton.mp reported]
    rfl
  · exact isError_of_mem_resolve reported

/-- Something is wrong with an input exactly if it does not mean an item. -/
theorem issuesOf_eq_nil_iff : scope.issuesOf limit input = [] ↔
    ∃ item, scope.itemOf? limit input = some item := by
  rw [← Option.isSome_iff_exists, issuesOf, itemOf?]
  cases ItemReference.read input with
  | error error => exact ⟨nofun, nofun⟩
  | ok reference =>
      have fails := scope.hasErrors_resolve limit (.ofReference reference) input
      simp only
      constructor
      · intro fine
        rw [fine] at fails
        exact Option.isNone_eq_false_iff.mp fails.symm
      · intro found
        rw [Option.isNone_eq_false_iff.mpr found] at fails
        refine List.eq_nil_iff_forall_not_mem.mpr fun issue reported => ?_
        exact List.any_eq_false.mp fails issue reported (isError_of_mem_resolve reported)

end Scope

namespace Request

variable {catalog : Catalog} {scope : Scope} {limit : Nat} {inputs : List String}

/-! ## Metrics -/

/-- The metrics that some inputs name, each once. -/
def knownMetrics (catalog : Catalog) (inputs : List String) : List String :=
  (inputs.filterMap catalog.metricName?).eraseDups

/-- The warnings about metrics that are named again. -/
def repeatedMetrics (catalog : Catalog) (inputs : List String) : Issues :=
  (repeats catalog.metricName? inputs).map fun again => repeatedMetric again.1 again.2

/-- The errors about names that no metric has. -/
def unknownMetrics (catalog : Catalog) (limit : Nat) (inputs : List String) : Issues :=
  (inputs.filter fun input => (catalog.metricName? input).isNone).map (unknownMetric catalog limit)

/-- An input means the metric it names once trimmed. -/
theorem metricName?_eq_some {input : String}
    (known : (catalog.metric? (Text.trim input)).isSome = true) :
    catalog.metricName? input = some (Text.trim input) := if_pos known

/-- No metric is reported unknown exactly when every input names one. -/
theorem unknownMetrics_eq_nil_iff :
    unknownMetrics catalog limit inputs = [] ↔
      ∀ input ∈ inputs, (catalog.metric? (Text.trim input)).isSome = true := by
  rw [unknownMetrics, List.map_eq_nil_iff, List.filter_eq_nil_iff]
  refine forall₂_congr fun input _ => ?_
  rw [Catalog.metricName?]
  split <;> simp_all

/-- An unknown metric is an error. -/
theorem isError_of_mem_unknownMetrics {issue : Issue}
    (reported : issue ∈ unknownMetrics catalog limit inputs) : issue.isError = true := by
  obtain ⟨_, _, rfl⟩ := List.mem_map.mp reported
  rfl

/-- The known metrics are the catalog's. -/
theorem isSome_of_mem_knownMetrics {name : String}
    (asked : name ∈ knownMetrics catalog inputs) : (catalog.metric? name).isSome = true := by
  obtain ⟨input, _, named⟩ := List.mem_filterMap.mp (List.mem_eraseDups.mp asked)
  obtain ⟨known, same⟩ := Option.ite_none_right_eq_some.mp named
  obtain ⟨⟩ := same
  exact known

/-- Inputs that are all known mean their trimmed texts. -/
theorem filterMap_metricName?
    (known : ∀ input ∈ inputs, (catalog.metric? (Text.trim input)).isSome = true) :
    inputs.filterMap catalog.metricName? = inputs.map Text.trim := by
  rw [← List.filterMap_eq_map]
  exact List.filterMap_congr fun input asked => metricName?_eq_some (known input asked)

/-- A repeated metric is a warning. -/
theorem isError_of_mem_repeatedMetrics {issue : Issue}
    (reported : issue ∈ repeatedMetrics catalog inputs) : issue.isError = false := by
  obtain ⟨_, _, rfl⟩ := List.mem_map.mp reported
  rfl

private theorem addMetric_of_none {input : String} (unknown : catalog.metricName? input = none)
    (found : RequestedMetrics) : addMetric catalog limit found input =
      { found with errors := found.errors ++ [unknownMetric catalog limit input] } := by
  have absent : (catalog.metric? (Text.trim input)).isNone = true := by
    simpa [Catalog.metricName?] using unknown
  rw [addMetric, if_pos absent]

private theorem addMetric_of_some {input name : String}
    (named : catalog.metricName? input = some name)
    (found : RequestedMetrics) : addMetric catalog limit found input =
      if found.names.contains name then
        { found with warnings := found.warnings ++ [repeatedMetric input name] }
      else { found with names := found.names ++ [name] } := by
  obtain ⟨known, same⟩ := Option.ite_none_right_eq_some.mp named
  obtain ⟨⟩ := same
  rw [addMetric, if_neg (by simpa [Option.isSome_iff_ne_none] using known)]

/-- The metrics of a request are those that its inputs name, each once. -/
theorem requestedMetrics_eq (inputs : List String) : requestedMetrics catalog limit inputs =
    ⟨knownMetrics catalog inputs, repeatedMetrics catalog inputs,
      unknownMetrics catalog limit inputs⟩ := by
  -- What becomes of an input depends on those before it, so that the last one is split off.
  induction inputs using List.reverseRecOn with
  | nil => rfl
  | append_singleton inputs input ih =>
      rw [requestedMetrics, List.foldl_append, List.foldl_cons, List.foldl_nil, ← requestedMetrics,
        ih]
      cases named : catalog.metricName? input with
      | none =>
          rw [addMetric_of_none named, repeatedMetrics, repeatedMetrics,
            repeats_concat_of_none named]
          simp [knownMetrics, unknownMetrics, named]
      | some name =>
          have known : knownMetrics catalog (inputs ++ [input]) =
              if name ∈ inputs.filterMap catalog.metricName? then knownMetrics catalog inputs
              else knownMetrics catalog inputs ++ [name] := by
            simp only [knownMetrics, List.filterMap_append, List.filterMap_cons, named,
              List.filterMap_nil, eraseDups_concat]
          have errors : unknownMetrics catalog limit (inputs ++ [input]) =
              unknownMetrics catalog limit inputs := by simp [unknownMetrics, named]
          have held : (knownMetrics catalog inputs).contains name = true ↔
              name ∈ inputs.filterMap catalog.metricName? := by
            rw [List.contains_iff_mem, knownMetrics, List.mem_eraseDups]
          rw [addMetric_of_some named, known, errors, repeatedMetrics, repeatedMetrics,
            repeats_concat named]
          by_cases again : name ∈ inputs.filterMap catalog.metricName?
          · rw [if_pos again, if_pos again, List.map_append]
            exact if_pos (held.mpr again)
          · rw [if_neg again, if_neg again]
            exact if_neg (mt held.mp again)

/-! ## Items -/

/-- The warning about an item that is already selected. -/
def repeatedItem (scope : Scope) (input : String) (item : GroupByItem) : Issue :=
  .warning input [scope.step] (.repeated item.written)

/-- Whether the items and issues found are those of some inputs. -/
structure RequestedItems.Collects (scope : Scope) (limit : Nat) (inputs : List String)
    (found : RequestedItems) : Prop where
  items : found.items = (inputs.filterMap (scope.itemOf? limit)).eraseDups
  errors : found.issues.errors = inputs.flatMap (scope.issuesOf limit)
  warnings : found.issues.warnings =
    (repeats (scope.itemOf? limit) inputs).map fun again => repeatedItem scope again.1 again.2

/-- An input that means no item adds what is reported about it. -/
theorem RequestedItems.Collects.of_none {found : RequestedItems} {input : String}
    (collects : found.Collects scope limit inputs) (unknown : scope.itemOf? limit input = none) :
    RequestedItems.Collects scope limit (inputs ++ [input])
      ⟨found.items, found.issues ++ scope.issuesOf limit input⟩ := by
  refine ⟨?_, ?_, ?_⟩
  · simp [collects.items, unknown]
  · rw [Issues.errors_append, collects.errors, List.flatMap_append, List.flatMap_singleton,
      Issues.errors_eq_self fun _ => Scope.isError_of_mem_issuesOf]
  · rw [Issues.warnings_append, collects.warnings, repeats_concat_of_none unknown,
      Issues.warnings_eq_nil fun _ => Scope.isError_of_mem_issuesOf, List.append_nil]

private theorem RequestedItems.Collects.of_some {found : RequestedItems} {input : String}
    {item : GroupByItem} (collects : found.Collects scope limit inputs)
    (means : scope.itemOf? limit input = some item) :
    RequestedItems.Collects scope limit (inputs ++ [input])
      (if found.items.contains item then
        ⟨found.items, found.issues ++ scope.issuesOf limit input ++ [repeatedItem scope input item]⟩
      else ⟨found.items ++ [item], found.issues ++ scope.issuesOf limit input⟩) := by
  have single : [input].filterMap (scope.itemOf? limit) = [item] := by simp [means]
  have fine : scope.issuesOf limit input = [] := Scope.issuesOf_eq_nil_iff.mpr ⟨item, means⟩
  have errors : (inputs ++ [input]).flatMap (scope.issuesOf limit) = found.issues.errors := by
    simp [collects.errors, fine]
  by_cases again : item ∈ inputs.filterMap (scope.itemOf? limit)
  · have held : item ∈ found.items := collects.items ▸ List.mem_eraseDups.mpr again
    rw [if_pos (List.contains_iff_mem.mpr held), fine, List.append_nil]
    refine ⟨?_, ?_, ?_⟩
    · rw [List.filterMap_append, single, eraseDups_concat, if_pos again, collects.items]
    · rw [errors, Issues.errors_append]
      exact List.append_nil _
    · rw [repeats_concat means, if_pos again, List.map_append, ← collects.warnings,
        Issues.warnings_append]
      rfl
  · have fresh : item ∉ found.items := fun held =>
      again (List.mem_eraseDups.mp (collects.items ▸ held))
    rw [if_neg (mt List.contains_iff_mem.mp fresh), fine, List.append_nil]
    refine ⟨?_, errors.symm, ?_⟩
    · rw [List.filterMap_append, single, eraseDups_concat, if_neg again, collects.items]
    · rw [repeats_concat means, if_neg again, collects.warnings]

private theorem addItem_collects {found : RequestedItems}
    (collects : found.Collects scope limit inputs)
    (input : String) :
    Ensures (addItem scope limit found input) (·.Collects scope limit (inputs ++ [input])) := by
  unfold addItem
  apply (ReferenceMemo.read_ensures input).bind
  rintro _ rfl
  cases read : ItemReference.read input with
  | error error =>
      have unknown : scope.itemOf? limit input = none := by rw [Scope.itemOf?, read]
      have issues : scope.issuesOf limit input = [.error input [] (.badSyntax error.message)] := by
        rw [Scope.issuesOf, read]
      exact .pure (issues ▸ collects.of_none unknown)
  | ok reference =>
      have same : scope.itemOf? limit input =
          (scope.resolve limit (.ofReference reference) input).outcome.item? := by
        rw [Scope.itemOf?, read]
      have issues : scope.issuesOf limit input =
          (scope.resolve limit (.ofReference reference) input).issues := by
        rw [Scope.issuesOf, read]
      refine .pure ?_
      rw [RequestedItems.add, ← same, ← issues]
      cases means : scope.itemOf? limit input with
      | none => exact collects.of_none means
      | some item => exact collects.of_some means

/-- The items of a request are those that its inputs mean, each once. -/
theorem requestedItems_collects (inputs : List String) :
    Ensures (requestedItems scope limit inputs) (·.Collects scope limit inputs) := by
  induction inputs using List.reverseRecOn with
  | nil => exact .pure ⟨rfl, rfl, rfl⟩
  | append_singleton inputs input ih =>
      rw [requestedItems, List.foldlM_append]
      refine ih.bind fun found collects => ?_
      rw [List.foldlM_cons]
      exact (addItem_collects collects input).bind fun _ collected => .pure collected

/-! ## Order -/

/-- What an input sorts by, if it names something selected. -/
def order? (metrics : List MetricOutput) (selected : List GroupByItem) (input : String) :
    Option OrderItem :=
  match metrics.find? (·.metric == (cutMinus input).1) with
  | some metric => some ⟨.metric metric, (cutMinus input).2⟩
  | none =>
    match ItemReference.read (cutMinus input).1 with
    | .error _ => none
    | .ok reference => orderItem? selected (cutMinus input).2 reference

/-- The error about an input that names nothing selected. -/
def notSelected (scope : Scope) (metrics : List MetricOutput) (items : List GroupByItem)
    (input : String) : Issue := .error input [scope.step] (.notSelected (selection metrics items))

variable {metrics : List MetricOutput} {items : List GroupByItem}

/-- An order-by item that is not selected is an error. -/
theorem isError_of_mem_notSelected {issue : Issue}
    (reported : issue ∈ inputs.map (notSelected scope metrics items)) : issue.isError = true := by
  obtain ⟨_, _, rfl⟩ := List.mem_map.mp reported
  rfl

private theorem sortedBy_ensures (metrics : List MetricOutput) (selected : List GroupByItem)
    (input : String) :
    Ensures (sortedBy metrics selected input) (· = order? metrics selected input) := by
  unfold sortedBy order?
  simp only
  cases metrics.find? (·.metric == (cutMinus input).1) with
  | some metric => exact .pure rfl
  | none =>
      apply (ReferenceMemo.read_ensures _).bind
      rintro _ rfl
      cases ItemReference.read (cutMinus input).1 <;> exact .pure rfl

/-- A request sorts by what its inputs name; the others are reported. -/
theorem requestedOrder_ensures (inputs : List String) :
    Ensures (requestedOrder scope metrics items inputs) fun result =>
      result.1 = inputs.filterMap (order? metrics (GroupByItem.amongAllowed items scope.items)) ∧
        result.2 = (inputs.filter fun input =>
          (order? metrics (GroupByItem.amongAllowed items scope.items) input).isNone).map
            (notSelected scope metrics items) := by
  have each : ∀ input ∈ inputs, Ensures
      (sortedBy metrics (GroupByItem.amongAllowed items scope.items) input >>= fun result =>
        pure (input, result))
      (· = (input, order? metrics (GroupByItem.amongAllowed items scope.items) input)) :=
    fun input _ => (sortedBy_ensures metrics _ input).bind fun _ same => .pure (same ▸ rfl)
  unfold requestedOrder
  refine (Ensures.mapM each).bind fun results alike => .pure ?_
  have same : results.map id = inputs.map fun input =>
      (input, order? metrics (GroupByItem.amongAllowed items scope.items) input) :=
    map_eq_of_forall₂ alike
  rw [List.map_id] at same
  subst same
  refine ⟨List.filterMap_map .., ?_⟩
  change List.filterMap _ (List.map _ inputs) = _
  rw [List.filterMap_map, ← List.filterMap_eq_filter, List.map_filterMap]
  refine List.filterMap_congr fun input _ => ?_
  cases sorts : order? metrics (GroupByItem.amongAllowed items scope.items) input <;>
    simp [sorts, notSelected]

/-! ## Requests -/

/-- Whether a meaning tells of everything that a request refers to. -/
structure Meaning.Collects (catalog : Catalog) (limit : Nat) (scope : Scope)
    (metrics : List MetricOutput) (request : Request) (meaning : Meaning) : Prop where
  items : meaning.items = (request.groupBy.filterMap (scope.itemOf? limit)).eraseDups
  order : meaning.order = request.orderBy.filterMap
    (order? metrics (GroupByItem.amongAllowed meaning.items scope.items))
  errors : meaning.issues.errors = request.groupBy.flatMap (scope.issuesOf limit) ++
    meaning.lookup.issues ++ (request.orderBy.filter fun input =>
      (order? metrics (GroupByItem.amongAllowed meaning.items scope.items) input).isNone).map
        (notSelected scope metrics meaning.items)
  warnings : meaning.issues.warnings = (repeats (scope.itemOf? limit) request.groupBy).map
    fun again => repeatedItem scope again.1 again.2
  gathers : FilterLookup.Gathers catalog limit meaning.lookup scope.placed
  findings : meaning.lookup.findings.Nodup
  unreadable : meaning.lookup.unreadable.Nodup
  keys : meaning.lookup.hasErrors = false →
    (meaning.lookup.findings.map FilterFinding.key).Nodup

/-- Finding out what a request means collects everything that it refers to. -/
theorem meaning_collects {names filters : List String}
    (built : Scope.ofQuery catalog names filters = .ok scope) (metrics : List MetricOutput)
    (request : Request) : Ensures (meaning catalog limit scope metrics request)
      (·.Collects catalog limit scope metrics request) := by
  unfold meaning
  apply (requestedItems_collects request.groupBy).bind
  intro found collects
  apply (FilterLookup.ofQuery_listsOnce built limit).bind
  rintro lookup ⟨gathers, findings, unreadable, keys⟩
  apply (requestedOrder_ensures request.orderBy).bind
  rintro ⟨order, unselected⟩ ⟨rfl, rfl⟩
  refine .pure ⟨collects.items, rfl, ?_, ?_, gathers, findings, unreadable, keys⟩
  · rw [Issues.errors_append, Issues.errors_append, collects.errors,
      Issues.errors_eq_self fun _ => gathers.isError_of_mem_issues,
      Issues.errors_eq_self fun _ => isError_of_mem_notSelected]
  · rw [Issues.warnings_append, Issues.warnings_append, collects.warnings,
      Issues.warnings_eq_nil fun _ => gathers.isError_of_mem_issues,
      Issues.warnings_eq_nil fun _ => isError_of_mem_notSelected, List.append_nil, List.append_nil]

/-- Without errors, all references mean something. -/
theorem Meaning.Collects.of_hasErrors {request : Request} {meaning : Meaning}
    (collects : meaning.Collects catalog limit scope metrics request)
    (fine : meaning.issues.hasErrors = false) :
    (∀ input ∈ request.groupBy, ∃ item, scope.itemOf? limit input = some item) ∧
      meaning.lookup.hasErrors = false ∧ ∀ input ∈ request.orderBy, ∃ order,
        order? metrics (GroupByItem.amongAllowed meaning.items scope.items) input = some order := by
  rw [← Issues.errors_eq_nil_iff, collects.errors, List.append_eq_nil_iff,
    List.append_eq_nil_iff] at fine
  obtain ⟨⟨grouped, filtered⟩, ordered⟩ := fine
  refine ⟨fun input asked => ?_, ?_, fun input asked => ?_⟩
  · exact Scope.issuesOf_eq_nil_iff.mp (List.flatMap_eq_nil_iff.mp grouped input asked)
  · rw [← FilterLookup.hasErrors_issues, filtered]
    rfl
  · rw [← Option.isSome_iff_exists]
    have matched := List.filter_eq_nil_iff.mp (List.map_eq_nil_iff.mp ordered) input asked
    rwa [Bool.not_eq_true, Option.isNone_eq_false_iff] at matched

end Request

end MetricQuery
