import MetricQuery.Proofs.Filter.Calling
import MetricQuery.Proofs.Filter.Rendering
import MetricQuery.Proofs.Scope.Resolution

/-! # Substituting in filters

If the filters of a query are looked up without an error, then each filter that is declared at some
node can be rendered: every callout in it has exactly one meaning, whose column name takes the place
of the callout, and the rest of the filter stays as it is (`FilterLookup.ofQuery_renders`).
-/

namespace MetricQuery

namespace Template

/-- How some pieces are written. Text goes on up to the next double braces, and what stands in
double braces is a callout, with blanks around it. -/
inductive Written : List TemplatePiece → List Char → Prop where
  | nil : Written [] []
  | text {text : String} {pieces : List TemplatePiece} {chars : List Char}
      (plain : ∀ before after, text.toList ++ chars = before ++ '{' :: '{' :: after →
        text.toList.length ≤ before.length)
      (rest : Written pieces chars) : Written (.text text :: pieces) (text.toList ++ chars)
  | callout {body chars : List Char} {pieces : List TemplatePiece}
      (closed : splitAtClose none (body ++ '}' :: '}' :: chars) = some (body, chars))
      (rest : Written pieces chars) :
      Written (.callout (String.ofList (Text.trimChars body)) :: pieces)
        ('{' :: '{' :: (body ++ '}' :: '}' :: chars))

/-- A plain character before a written text is written too. -/
theorem Written.consChar {c : Char} {pieces : List TemplatePiece} {chars : List Char}
    (written : Written pieces chars) (closed : ∀ after, c :: chars ≠ '{' :: '{' :: after) :
    Written (consChar c pieces) (c :: chars) := by
  have later : ∀ before after, c :: chars = before ++ '{' :: '{' :: after →
      ∃ inner, before = c :: inner ∧ chars = inner ++ '{' :: '{' :: after := by
    intro before after same
    cases before with
    | nil => exact (closed after same).elim
    | cons first inner =>
        obtain ⟨rfl, behind⟩ := List.cons.inj same
        exact ⟨inner, rfl, behind⟩
  have single : c.toString.toList = [c] := by simp
  have alone : Written (.text c.toString :: pieces) (c :: chars) := by
    have joined : Written (.text c.toString :: pieces) (c.toString.toList ++ chars) := by
      refine .text (fun before after same => ?_) written
      rw [single] at same ⊢
      obtain ⟨inner, rfl, _⟩ := later before after same
      exact Nat.le_add_left _ _
    rwa [single] at joined
  cases written with
  | nil => exact alone
  | callout => exact alone
  | @text text pieces chars plain rest =>
      have longer : (c.toString ++ text).toList = c :: text.toList := by simp
      have joined : Written (.text (c.toString ++ text) :: pieces)
          ((c.toString ++ text).toList ++ chars) := by
        refine .text (fun before after same => ?_) rest
        rw [longer, List.cons_append] at same
        obtain ⟨inner, rfl, behind⟩ := later before after same
        rw [longer, List.length_cons, List.length_cons]
        exact Nat.succ_le_succ (plain inner after behind)
      rwa [longer] at joined

private theorem written_of_splitFrom {place : Nat} {chars : List Char} {pieces : List TemplatePiece}
    (ok : splitFrom place chars = .ok pieces) : Written pieces chars := by
  fun_induction splitFrom place chars generalizing pieces with
  | case1 =>
      obtain ⟨⟩ := ok
      exact .nil
  | case2 => cases ok
  | case3 => cases ok
  | case4 => cases ok
  | case5 place rest body after found shorter callout some next =>
      rename_i ih
      obtain ⟨others, split, rfl⟩ := map_eq_ok.mp ok
      obtain ⟨rfl, _⟩ := splitAtClose_eq_some_iff.mp found
      exact .callout found (ih split)
  | case6 place c rest notStatement notCallout ih =>
      obtain ⟨others, split, rfl⟩ := map_eq_ok.mp ok
      refine (ih split).consChar fun after same => ?_
      obtain ⟨rfl, rfl⟩ := List.cons.inj same
      exact notCallout _ rfl rfl

private theorem written_of_split {template : String} {pieces : List TemplatePiece}
    (ok : split template = .ok pieces) : Written pieces template.toList := by
  unfold split at ok
  cases pieced : splitFrom 0 template.toList with
  | error fault =>
      rw [pieced] at ok
      cases ok
  | ok others =>
      rw [pieced] at ok
      obtain ⟨⟩ := ok
      exact written_of_splitFrom pieced

/-- Some pieces with a text in place of each callout. -/
def filled (substitute : String → String) (pieces : List TemplatePiece) : String :=
  render (m := Id) (fun callout => pure (substitute callout)) pieces

section

variable {substitute : String → String} {pieces : List TemplatePiece}

private theorem filled_text (text : String) :
    filled substitute (.text text :: pieces) = text ++ filled substitute pieces := by
  rw [filled, render_text]
  rfl

private theorem filled_callout (callout : String) :
    filled substitute (.callout callout :: pieces) =
      substitute callout ++ filled substitute pieces := by
  rw [filled, render_callout]
  rfl

end

end Template

namespace Condition

variable {lookup : FilterLookup} {location : FilterLocation}

/-- Pieces whose callouts have a meaning are rendered one after the other. -/
theorem foldlM_addPiece {meaning : String → GroupByItem} {pieces : List TemplatePiece}
    (known : ∀ callout ∈ Template.callouts pieces, ∃ reference finding,
      ItemReference.readCallout callout = .ok reference ∧
        lookup.getItem ⟨location, reference⟩ = .ok (meaning callout, finding))
    (rendered : Condition) : ∃ condition,
      (pieces.foldlM (addPiece readAlone lookup location) rendered).run = .ok condition ∧
      condition.sql = rendered.sql ++
        Template.filled (fun callout => (meaning callout).qualifiedName) pieces ∧
      condition.items = appendNew rendered.items ((Template.callouts pieces).map meaning) := by
  rw [run_foldlM_id]
  induction pieces generalizing rendered with
  | nil => exact ⟨rendered, rfl, (String.append_empty ..).symm, rfl⟩
  | cons piece rest ih =>
      rw [List.foldlM_cons]
      cases piece with
      | text text =>
          obtain ⟨condition, ok, sql, items⟩ :=
            ih known { rendered with sql := rendered.sql ++ text }
          refine ⟨condition, ok, ?_, items⟩
          rw [sql, Template.filled_text, String.append_assoc]
      | callout callout =>
          have among : callout ∈ Template.callouts (.callout callout :: rest) := List.mem_cons_self
          obtain ⟨reference, finding, read, found⟩ := known callout among
          rw [run_addPiece_callout read found]
          obtain ⟨condition, ok, sql, items⟩ :=
            ih (fun other later => known other (List.mem_cons_of_mem _ later)) {
              sql := rendered.sql ++ (meaning callout).qualifiedName
              items := appendNew rendered.items [meaning callout]
              elements := appendNew rendered.elements finding.elements }
          refine ⟨condition, ok, ?_, ?_⟩
          · rw [sql, Template.filled_callout, String.append_assoc]
          · exact items

end Condition

namespace FilterLookup

variable {catalog : Catalog} {scope : Scope} {limit : Nat} {lookup : FilterLookup}
  {location : FilterLocation} {template : String}

/-- Whether a filter can be rendered at a location: each callout in it means a single item, and the
names of the columns of these items take the place of the callouts. -/
def Renders (lookup : FilterLookup) (location : FilterLocation) (template : String) : Prop :=
  ∃ pieces, Template.split template = .ok pieces ∧ Template.Written pieces template.toList ∧
    ∃ meaning : String → GroupByItem,
      (∀ callout ∈ Template.callouts pieces, ∃ reference finding,
        ItemReference.readCallout callout = .ok reference ∧
        lookup.get ⟨location, reference⟩ = [finding] ∧ finding.item = some (meaning callout)) ∧
      ∀ memo : ReferenceMemo, memo.Filled → ∃ condition,
        ((Condition.ofTemplate ReferenceMemo.readCallout lookup location template).run.run memo).1 =
          .ok condition ∧
        condition.sql = Template.filled
          (fun callout => (ColumnContent.item (meaning callout)).columnName) pieces ∧
        condition.items = ((Template.callouts pieces).map meaning).eraseDups

/-- Where each reference is known once, and with an item, its filter can be rendered. -/
theorem Knows.renders (knows : lookup.Knows location template)
    (distinct : (lookup.findings.map FilterFinding.key).Nodup)
    (resolved : ∀ finding ∈ lookup.findings, ∃ item, finding.item = some item) :
    lookup.Renders location template := by
  obtain ⟨references, read, found⟩ := knows
  obtain ⟨pieces, split, read⟩ := bind_eq_ok.mp read
  have each : ∀ callout, ∃ item, callout ∈ Template.callouts pieces → ∃ reference finding,
      ItemReference.readCallout callout = .ok reference ∧
        lookup.get ⟨location, reference⟩ = [finding] ∧ finding.item = some item := by
    intro callout
    by_cases among : callout ∈ Template.callouts pieces
    · obtain ⟨reference, inside, read⟩ := exists_right_of_forall₂ (mapM_eq_ok.mp read) among
      obtain ⟨finding, member, key⟩ := List.mem_map.mp (found reference inside)
      obtain ⟨item, isItem⟩ := resolved finding member
      have single : lookup.get finding.key = [finding] := filter_eq_singleton_of_mem distinct member
      exact ⟨item, fun _ => ⟨reference, finding, read, key ▸ single, isItem⟩⟩
    · exact ⟨.entity callout [], fun absent => (among absent).elim⟩
  choose meaning means using each
  refine ⟨pieces, split, Template.written_of_split split, meaning, means, fun memo filled => ?_⟩
  have getItem : ∀ callout ∈ Template.callouts pieces, ∃ reference finding,
      ItemReference.readCallout callout = .ok reference ∧
        lookup.getItem ⟨location, reference⟩ = .ok (meaning callout, finding) := by
    intro callout among
    obtain ⟨reference, finding, read, single, isItem⟩ := means callout among
    exact ⟨reference, finding, read, by simp only [getItem, single, isItem]⟩
  obtain ⟨condition, ok, sql, items⟩ := Condition.foldlM_addPiece getItem .blank
  refine ⟨condition, ?_, ?_, ?_⟩
  · rw [(Condition.ofTemplate_ensures template memo filled).1, Condition.ofTemplate, split]
    exact ok
  · rw [sql]
    exact String.empty_append ..
  · rw [items, appendNew_eq_append]
    simp [Condition.blank]

/-- If nothing is wrong with the filters of a query, then all of them can be rendered. -/
theorem ofQuery_renders {metrics filters : List String}
    (built : Scope.ofQuery catalog metrics filters = .ok scope) {memo : ReferenceMemo}
    (filled : memo.Filled) (looked : ((ofQuery catalog limit scope).run memo).1 = lookup)
    (fine : lookup.hasErrors = false) {node : Scope} (among : node ∈ scope.nodes)
    (declared : node.kind.Declares catalog location template) :
    lookup.Renders location template := by
  have ended := Scope.ended_of_ofQuery built
  obtain ⟨gathers, distinct⟩ := (ofScope_ensures ended limit [] memo filled).1
  rw [← ofQuery, looked] at gathers distinct
  rw [← ended.map_node_placedBehind []] at among
  obtain ⟨placed, isPlaced, rfl⟩ := List.mem_map.mp among
  apply (gathers.knows fine isPlaced declared).renders (distinct fine)
  intro finding member
  obtain ⟨_, _, finds⟩ := gathers.exists_finds member
  have sound : finding.isFailure = false := by
    have noFailure := (Bool.or_eq_false_iff.mp fine).1
    exact Bool.not_eq_true _ ▸ List.any_eq_false.mp noFailure finding member
  rw [finds.isFailure_eq] at sound
  exact Option.isSome_iff_exists.mp (Option.isNone_eq_false_iff.mp sound)

/-- A filter on customers, one of its callouts used twice. -/
def northernFilter : String :=
  "\x7b\x7b Dimension('customer__region') \x7d\x7d = 'north' OR " ++
    "\x7b\x7bEntity('customer')\x7d\x7d = \x7b\x7b Dimension('customer__region') \x7d\x7d"

/-- Under a query for revenue this filter can be rendered. -/
theorem ofQuery_renders_northern : ∃ scope,
    Scope.ofQuery Scope.customersCatalog ["revenue"] [northernFilter] = .ok scope ∧
      ((ofQuery Scope.customersCatalog 6 scope).run (.empty 4)).1.hasErrors = false ∧
      ((ofQuery Scope.customersCatalog 6 scope).run (.empty 4)).1.Renders (.query ["revenue"])
        northernFilter := by
  obtain ⟨scope, built, kind, fine⟩ : ∃ scope,
      Scope.ofQuery Scope.customersCatalog ["revenue"] [northernFilter] = .ok scope ∧
        scope.kind = .query ["revenue"] [northernFilter] ∧
        ((ofQuery Scope.customersCatalog 6 scope).run (.empty 4)).1.hasErrors = false :=
    ⟨_, rfl, rfl, by decide +kernel⟩
  have declared : scope.kind.Declares Scope.customersCatalog (.query ["revenue"])
      northernFilter := kind ▸ .query List.mem_cons_self
  exact ⟨scope, built, fine,
    ofQuery_renders built (.empty 4) rfl fine scope.self_mem_nodes declared⟩

end FilterLookup

end MetricQuery
