import Mathlib.Data.List.Induction
import MetricQuery.Dataflow.Planning
import MetricQuery.Proofs.Catalog
import MetricQuery.Proofs.Filter.Coverage

/-! # Rendered filters

A filter whose references are settled can be rendered (`Dataflow.exists_conditionsAt`). It reads
what its references mean (`Dataflow.means_of_conditionsAt`), and it makes no difference whether they
are read with a memo (`Condition.ofTemplates_ensures`).
-/

namespace MetricQuery

open ReferenceMemo (Ensures)

namespace FilterLookup

variable {lookup : FilterLookup}

/-- Whether an item is what some reference at a location means. -/
def Means (lookup : FilterLookup) (location : FilterLocation) (item : GroupByItem) : Prop :=
  ∃ finding ∈ lookup.findings, finding.key.location = location ∧ finding.item = some item

/-- An item is read from a finding of the lookup for that very key. -/
theorem of_getItem {key : FilterKey} {item : GroupByItem} {finding : FilterFinding}
    (ok : lookup.getItem key = .ok (item, finding)) :
    finding ∈ lookup.findings ∧ finding.key = key ∧ finding.item = some item := by
  unfold getItem at ok
  split at ok
  · exact nomatch ok
  · rename_i only found
    have member : only ∈ lookup.get key := found ▸ List.mem_cons_self
    obtain ⟨member, same⟩ := List.mem_filter.mp member
    split at ok
    · rename_i isItem
      obtain ⟨⟩ := ok
      exact ⟨member, beq_iff_eq.mp same, isItem⟩
    · exact nomatch ok
  · exact nomatch ok

private theorem means_of_getItem {key : FilterKey} {item : GroupByItem} {finding : FilterFinding}
    (ok : lookup.getItem key = .ok (item, finding)) : lookup.Means key.location item := by
  obtain ⟨member, same, isItem⟩ := of_getItem ok
  exact ⟨finding, member, congrArg FilterKey.location same, isItem⟩

/-- Where everything is settled each reference has one meaning. -/
theorem IsSettled.exists_getItem {catalog : Catalog} (settled : lookup.IsSettled catalog)
    {key : FilterKey} (known : key ∈ lookup.findings.map FilterFinding.key) :
    ∃ item finding, lookup.getItem key = .ok (item, finding) := by
  obtain ⟨finding, member, rfl⟩ := List.mem_map.mp known
  obtain ⟨item, isItem, _⟩ := settled.offered finding member
  have single : lookup.get finding.key = [finding] :=
    filter_eq_singleton_of_mem settled.distinct member
  exact ⟨item, finding, by rw [getItem, single]; simp only [isItem]⟩

end FilterLookup

namespace Condition

variable {lookup : FilterLookup} {location : FilterLocation}

/-- Reads a callout without a memo. -/
abbrev readAlone (callout : String) : Id (Except ItemError ItemReference) :=
  pure (ItemReference.readCallout callout)

private theorem addPiece_ensures (rendered : Condition) (piece : TemplatePiece) :
    Ensures (addPiece ReferenceMemo.readCallout lookup location rendered piece).run
      (· = (addPiece readAlone lookup location rendered piece).run) := by
  cases piece with
  | text text => exact .pure rfl
  | callout callout =>
      unfold addPiece
      rw [run_bind_id]
      refine Ensures.run_bind ?_ fun result => ?_
      · change Ensures (ReferenceMemo.readCallout callout >>= fun result =>
          pure (Except.ok result)) _
        apply (ReferenceMemo.readCallout_ensures callout).bind
        rintro _ rfl
        exact .pure rfl
      · cases result with
        | error error => exact .pure rfl
        | ok reference =>
            simp only
            cases lookup.getItem ⟨location, reference⟩ with
            | error error => exact .pure rfl
            | ok value => exact .pure rfl

/-- It makes no difference whether the references of a template are read with a memo. -/
theorem ofTemplate_ensures (template : String) :
    Ensures (ofTemplate ReferenceMemo.readCallout lookup location template).run
      (· = (ofTemplate readAlone lookup location template).run) := by
  unfold ofTemplate
  split
  · exact .pure rfl
  · rw [run_foldlM_id]
    exact Ensures.run_foldlM addPiece_ensures _ blank

/-- The conditions of a location are rendered as they are without a memo. -/
theorem ofTemplates_ensures (templates : List String) :
    Ensures (ofTemplates ReferenceMemo.readCallout lookup location templates).run
      (· = Dataflow.conditionsAt lookup location (some templates)) := by
  change Ensures _ (· = (templates.mapM (ofTemplate readAlone lookup location)).run)
  rw [run_mapM_id]
  exact Ensures.run_mapM ofTemplate_ensures templates

/-- A callout is replaced by the column of the item its finding has, which is then listed. -/
theorem run_addPiece_callout {rendered : Condition} {callout : String}
    {reference : ItemReference} {item : GroupByItem} {finding : FilterFinding}
    (read : ItemReference.readCallout callout = .ok reference)
    (found : lookup.getItem ⟨location, reference⟩ = .ok (item, finding)) :
    (addPiece readAlone lookup location rendered (.callout callout)).run = .ok {
      sql := rendered.sql ++ item.qualifiedName
      items := appendNew rendered.items [item]
      elements := appendNew rendered.elements finding.elements } := by
  unfold addPiece
  rw [run_bind_id]
  refine bind_eq_ok.mpr ⟨.ok reference, congrArg Except.ok read, ?_⟩
  simp only [found]
  rfl

private theorem of_addPiece_callout {rendered next : Condition} {callout : String}
    (ok : (addPiece readAlone lookup location rendered (.callout callout)).run = .ok next) :
    ∃ reference item finding, ItemReference.readCallout callout = .ok reference ∧
      lookup.getItem ⟨location, reference⟩ = .ok (item, finding) ∧
      next.items = appendNew rendered.items [item] := by
  unfold addPiece at ok
  rw [run_bind_id] at ok
  obtain ⟨result, read, ok⟩ := bind_eq_ok.mp ok
  have isRead : ItemReference.readCallout callout = result := Except.ok.inj read
  cases result with
  | error error => exact nomatch ok
  | ok reference =>
      simp only at ok
      cases found : lookup.getItem ⟨location, reference⟩ with
      | error error =>
          rw [found] at ok
          exact nomatch ok
      | ok value =>
          rw [found] at ok
          obtain ⟨⟩ := ok
          exact ⟨reference, value.1, value.2, isRead, found, rfl⟩

/-- Pieces can only be rendered if their callouts refer to known items, and just these are read. -/
theorem of_foldlM_addPiece {pieces : List TemplatePiece} {rendered condition : Condition}
    (ok : (pieces.foldlM (addPiece readAlone lookup location) rendered).run = .ok condition) :
    ∃ references, (Template.callouts pieces).mapM ItemReference.readCallout = .ok references ∧
      (∀ reference ∈ references, ∃ item finding,
        lookup.getItem ⟨location, reference⟩ = .ok (item, finding)) ∧
      ∀ item, item ∈ condition.items ↔ item ∈ rendered.items ∨ ∃ reference ∈ references,
        ∃ finding, lookup.getItem ⟨location, reference⟩ = .ok (item, finding) := by
  rw [run_foldlM_id] at ok
  induction pieces generalizing rendered with
  | nil =>
      obtain ⟨⟩ := ok
      exact ⟨[], rfl, List.forall_mem_nil _, by simp⟩
  | cons piece rest ih =>
      obtain ⟨next, step, ok⟩ := bind_eq_ok.mp ok
      obtain ⟨references, read, known, items⟩ := ih ok
      cases piece with
      | text text =>
          obtain ⟨⟩ := step
          exact ⟨references, read, known, items⟩
      | callout callout =>
          obtain ⟨reference, item, finding, isReference, found, added⟩ := of_addPiece_callout step
          refine ⟨reference :: references, ?_, ?_, fun other => ?_⟩
          · exact mapM_eq_ok.mpr (.cons isReference (mapM_eq_ok.mp read))
          · exact List.forall_mem_cons.mpr ⟨⟨item, finding, found⟩, known⟩
          · have here : (∃ finding, lookup.getItem ⟨location, reference⟩ = .ok (other, finding)) ↔
                other = item := by
              rw [found]
              simp [eq_comm]
            simp only [items, added, mem_appendNew, List.mem_cons, List.not_mem_nil, or_false,
              or_assoc, exists_eq_or_imp, here]

/-- A filter can only be rendered where its references are known, and reads what they mean. -/
theorem of_ofTemplate {template : String} {condition : Condition}
    (ok : (ofTemplate readAlone lookup location template).run = .ok condition) :
    ∃ references, Template.references template = .ok references ∧
      (∀ reference ∈ references, ∃ item finding,
        lookup.getItem ⟨location, reference⟩ = .ok (item, finding)) ∧
      ∀ item, item ∈ condition.items ↔ ∃ reference ∈ references, ∃ finding,
        lookup.getItem ⟨location, reference⟩ = .ok (item, finding) := by
  unfold ofTemplate at ok
  split at ok
  · exact nomatch ok
  · rename_i pieces split
    obtain ⟨references, read, known, items⟩ := of_foldlM_addPiece ok
    refine ⟨references, bind_eq_ok.mpr ⟨pieces, split, read⟩, known, fun item => ?_⟩
    rw [items, blank]
    simp only [List.not_mem_nil, false_or]

private theorem exists_addPiece {catalog : Catalog} (settled : lookup.IsSettled catalog)
    {piece : TemplatePiece}
    (known : ∀ callout, piece = .callout callout → ∃ reference,
      ItemReference.readCallout callout = .ok reference ∧
        ⟨location, reference⟩ ∈ lookup.findings.map FilterFinding.key) (rendered : Condition) :
    ∃ next, (addPiece readAlone lookup location rendered piece).run = .ok next := by
  cases piece with
  | text text => exact ⟨_, rfl⟩
  | callout callout =>
      obtain ⟨reference, read, known⟩ := known callout rfl
      obtain ⟨item, finding, found⟩ := settled.exists_getItem known
      exact ⟨_, run_addPiece_callout read found⟩

/-- A rendered filter reads what its references were found to mean. -/
theorem mem_items_of_finding {catalog : Catalog} (settled : lookup.IsSettled catalog)
    {finding : FilterFinding} (member : finding ∈ lookup.findings) {item : GroupByItem}
    (isItem : finding.item = some item) {template : String} {condition : Condition}
    (ok : (ofTemplate readAlone lookup finding.key.location template).run = .ok condition)
    {references : List ItemReference} (read : Template.references template = .ok references)
    (among : finding.key.reference ∈ references) : item ∈ condition.items := by
  obtain ⟨_, same, known, items⟩ := of_ofTemplate ok
  obtain ⟨⟩ := read.symm.trans same
  obtain ⟨other, found, getItem⟩ := known _ among
  obtain ⟨also, key, isOther⟩ := FilterLookup.of_getItem getItem
  have equal := List.inj_on_of_nodup_map settled.distinct also member key
  rw [equal, isItem] at isOther
  obtain ⟨⟩ := isOther
  exact (items item).mpr ⟨_, among, found, getItem⟩

private theorem mem_items_foldl_and {first : Condition} {rest : List Condition}
    {item : GroupByItem} :
    item ∈ (rest.foldl Condition.and first).items ↔ ∃ condition ∈ first :: rest,
      item ∈ condition.items := by
  induction rest generalizing first with
  | nil => simp
  | cons second rest ih =>
      rw [List.foldl_cons, ih]
      simp only [List.mem_cons, exists_eq_or_imp, Condition.and, mem_appendNew, or_assoc]

/-- All conditions together read what each of them reads. -/
theorem mem_items_of_all {conditions : List Condition} {condition : Condition}
    (together : Condition.all conditions = some condition) {item : GroupByItem} :
    item ∈ condition.items ↔ ∃ part ∈ conditions, item ∈ part.items := by
  cases conditions with
  | nil => exact nomatch together
  | cons first rest =>
      obtain ⟨⟩ := together
      exact mem_items_foldl_and

/-- Whether a condition says of several conditions that they all hold: a single one stays as it is,
and a further one is joined to those before it by AND, both sides in parentheses. What the
conditions read is listed in the order of first use. -/
inductive IsConjunction : List Condition → Condition → Prop where
  | single (condition : Condition) : IsConjunction [condition] condition
  | and {conditions : List Condition} {left : Condition}
      (earlier : IsConjunction conditions left) (right : Condition) :
      IsConjunction (conditions ++ [right]) {
        sql := "(" ++ left.sql ++ ") AND (" ++ right.sql ++ ")"
        items := left.items ++ (right.items.filter (· ∉ left.items)).eraseDups
        elements := left.elements ++ (right.elements.filter (· ∉ left.elements)).eraseDups }

private theorem and_eq (left right : Condition) : left.and right = {
      sql := "(" ++ left.sql ++ ") AND (" ++ right.sql ++ ")"
      items := left.items ++ (right.items.filter (· ∉ left.items)).eraseDups
      elements := left.elements ++ (right.elements.filter (· ∉ left.elements)).eraseDups } := by
  simp only [Condition.and, appendNew_eq_append, List.contains_eq_mem, decide_not]

/-- All conditions together are their conjunction. -/
theorem isConjunction_of_all {conditions : List Condition} {condition : Condition}
    (together : Condition.all conditions = some condition) :
    IsConjunction conditions condition := by
  cases conditions with
  | nil => exact nomatch together
  | cons first rest =>
      obtain ⟨⟩ := together
      induction rest using List.reverseRecOn with
      | nil => exact .single first
      | append_singleton rest last ih =>
          rw [List.foldl_append, List.foldl_cons, List.foldl_nil, and_eq, ← List.cons_append]
          exact ih.and last

/-- Where there is a condition there is a conjunction. -/
theorem exists_all_of_mem {conditions : List Condition} {condition : Condition}
    (member : condition ∈ conditions) : ∃ whole, Condition.all conditions = some whole := by
  cases conditions with
  | nil => exact nomatch member
  | cons first rest => exact ⟨_, rfl⟩

end Condition

namespace Dataflow

variable {lookup : FilterLookup} {location : FilterLocation} {filter : Option (List String)}

theorem conditionsAt_eq_mapM :
    conditionsAt lookup location filter = (filter.getD []).mapM (m := Except QueryError)
      fun template => (Condition.ofTemplate Condition.readAlone lookup location template).run :=
  run_mapM_id _ _

/-- Rendered filters read what their references mean. -/
theorem means_of_conditionsAt {conditions : List Condition}
    (ok : conditionsAt lookup location filter = .ok conditions) :
    ∀ condition ∈ conditions, ∀ item ∈ condition.items, lookup.Means location item := by
  rw [conditionsAt_eq_mapM] at ok
  intro condition member item inside
  obtain ⟨template, _, ok⟩ := exists_of_mapM_eq_ok ok condition member
  obtain ⟨references, _, _, items⟩ := Condition.of_ofTemplate ok
  obtain ⟨reference, _, finding, found⟩ := (items item).mp inside
  exact FilterLookup.means_of_getItem found

/-- Filters can be rendered where it is settled what their references mean. -/
theorem exists_conditionsAt {catalog : Catalog} (settled : lookup.IsSettled catalog)
    (known : ∀ template ∈ filter.getD [], lookup.Knows location template) :
    ∃ conditions, conditionsAt lookup location filter = .ok conditions := by
  rw [conditionsAt_eq_mapM]
  apply exists_mapM_of_forall
  intro template member
  obtain ⟨references, read, found⟩ := known template member
  obtain ⟨pieces, split, read⟩ := bind_eq_ok.mp read
  have each : ∀ rendered, ∀ piece ∈ pieces, ∃ next,
      (Condition.addPiece Condition.readAlone lookup location rendered piece).run = .ok next := by
    intro rendered piece among
    refine Condition.exists_addPiece settled (fun callout isCallout => ?_) rendered
    have mentioned : callout ∈ Template.callouts pieces :=
      List.mem_filterMap.mpr ⟨_, among, by rw [isCallout]⟩
    obtain ⟨reference, inside, read⟩ := exists_right_of_forall₂ (mapM_eq_ok.mp read) mentioned
    exact ⟨reference, read, found reference inside⟩
  unfold Condition.ofTemplate
  rw [split, run_foldlM_id]
  exact exists_foldlM_eq_ok each Condition.blank

end Dataflow

end MetricQuery
