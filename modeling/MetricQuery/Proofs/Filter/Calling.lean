import MetricQuery.Proofs.Filter.Layout

/-! # Rendering templates

What rendering a template asks for and gives (`Template.renders_layout`): one text for each callout,
in the order of the template and up to the first refusal, and then the template with these texts in
the places of the callouts.
-/

namespace MetricQuery

namespace Template

/-! ## Asking for callouts -/

section

variable {ε σ : Type}

/-- What a callback that may keep a state and refuse gives for some callouts, asked for each in turn
until it refuses one. -/
inductive Calls (substitute : String → ExceptT ε (StateM σ) String) :
    List String → σ → Except ε (List String) → σ → Prop where
  | done (state : σ) : Calls substitute [] state (.ok []) state
  | refused {callout : String} (rest : List String) {before after : σ} {error : ε}
      (answer : (substitute callout).run.run before = (.error error, after)) :
      Calls substitute (callout :: rest) before (.error error) after
  | replied {callout text : String} {rest : List String} {before middle after : σ}
      {result : Except ε (List String)}
      (answer : (substitute callout).run.run before = (.ok text, middle))
      (later : Calls substitute rest middle result after) :
      Calls substitute (callout :: rest) before (result.map (text :: ·)) after

private theorem exists_calls (substitute : String → ExceptT ε (StateM σ) String)
    (callouts : List String)
    (before : σ) : ∃ result after, Calls substitute callouts before result after := by
  induction callouts generalizing before with
  | nil => exact ⟨_, _, .done before⟩
  | cons callout rest ih =>
      obtain ⟨⟨answer, middle⟩, given⟩ :
          ∃ pair, (substitute callout).run.run before = pair := ⟨_, rfl⟩
      cases answer with
      | error error => exact ⟨_, _, .refused rest given⟩
      | ok text =>
          obtain ⟨result, after, later⟩ := ih middle
          exact ⟨_, _, .replied given later⟩

end

namespace Layout

/-- The template with texts in the places of its callouts. -/
def filled : Layout → List String → String
  | last text, _ => String.ofList text
  | next text _ rest, texts => String.ofList text ++ texts.headD "" ++ rest.filled texts.tail

private theorem callouts_pieces (layout : Layout) :
    Template.callouts layout.pieces = layout.callouts := by
  have texts : ∀ text pieces,
      Template.callouts (textPieces text ++ pieces) = Template.callouts pieces := by
    intro text pieces
    by_cases none : text = []
    · rw [textPieces, if_pos none, List.nil_append]
    · rw [textPieces, if_neg none]
      rfl
  induction layout with
  | last text =>
      rw [pieces, ← List.append_nil (textPieces text), texts]
      rfl
  | next text body rest ih =>
      rw [pieces, texts, callouts, ← ih]
      rfl

end Layout

/-! ## Putting a template together -/

section

variable {m : Type → Type} [Monad m] [LawfulMonad m] {substitute : String → m String}
  {pieces : List TemplatePiece}

/-- A text piece is put before the rest. -/
theorem render_text (text : String) :
    render substitute (.text text :: pieces) = (text ++ ·) <$> render substitute pieces := by
  simp only [render, List.mapM_cons, pure_bind, bind_assoc, map_bind, map_pure, String.join_cons]

/-- A callout is handed to the callback and what it gives is put before the rest. -/
theorem render_callout (callout : String) :
    render substitute (.callout callout :: pieces) =
      substitute callout >>= fun text => (text ++ ·) <$> render substitute pieces := by
  simp only [render, List.mapM_cons, pure_bind, bind_assoc, map_bind, map_pure, String.join_cons]

/-- The pieces of a text render to that text. -/
theorem render_textPieces (text : List Char) :
    render substitute (textPieces text ++ pieces) =
      (String.ofList text ++ ·) <$> render substitute pieces := by
  by_cases none : text = []
  · subst none
    simp [textPieces]
  · rw [textPieces, if_neg none]
    exact render_text _

end

section

variable {ε σ α β : Type} {before middle after : σ}

theorem run_map_of_run {computation : ExceptT ε (StateM σ) α} {result : Except ε α} (change : α → β)
    (run : computation.run.run before = (result, after)) :
    (change <$> computation).run.run before = (result.map change, after) := by
  rw [ExceptT.run_map, StateT.run_map, run]
  rfl

private theorem run_bind_of_ok {first : ExceptT ε (StateM σ) α} {value : α}
    (run : first.run.run before = (.ok value, middle)) (next : α → ExceptT ε (StateM σ) β) :
    (first >>= next).run.run before = (next value).run.run middle := by
  rw [ExceptT.run_bind, StateT.run_bind, run]
  rfl

private theorem run_bind_of_error {first : ExceptT ε (StateM σ) α} {error : ε}
    (run : first.run.run before = (.error error, after)) (next : α → ExceptT ε (StateM σ) β) :
    (first >>= next).run.run before = (.error error, after) := by
  rw [ExceptT.run_bind, StateT.run_bind, run]
  rfl

variable {substitute : String → ExceptT ε (StateM σ) String}

/-- What the callback gives is put in the places of the callouts. -/
theorem Layout.run_render {layout : Layout} {before after : σ} {result : Except ε (List String)}
    (calls : Calls substitute layout.callouts before result after) :
    (render substitute layout.pieces).run.run before = (result.map layout.filled, after) := by
  induction layout generalizing before result with
  | last text =>
      have run : (render substitute []).run.run before = (.ok "", before) := rfl
      rw [pieces, ← List.append_nil (textPieces text), render_textPieces, run_map_of_run _ run]
      cases calls
      exact congrArg (fun text => (Except.ok text, _)) (String.append_empty ..)
  | next text body rest ih =>
      rw [pieces, render_textPieces, render_callout]
      cases calls with
      | refused _ answer => rw [run_map_of_run _ (run_bind_of_error answer _)]; rfl
      | @replied _ value _ _ _ _ result answer later =>
          rw [run_map_of_run _ ((run_bind_of_ok answer _).trans (run_map_of_run _ (ih later)))]
          cases result with
          | error error => rfl
          | ok texts =>
              exact congrArg (fun text => (Except.ok text, after)) (String.append_assoc ..).symm

end

/-- A template is cut along its only layout, and rendered with what the callback gives for its
callouts; a template without a layout is refused for the first braces that offend, and nothing is
asked for. -/
theorem renders_layout (template : String) :
    (∀ pieces, split template = .ok pieces ↔
      ∃ layout : Layout, layout.IsLegal ∧ layout.source = template.toList ∧
        layout.pieces = pieces) ∧
    (∀ layout other : Layout, layout.IsLegal → other.IsLegal →
      layout.source = template.toList → other.source = template.toList → layout = other) ∧
    (∀ layout : Layout, layout.IsLegal → layout.source = template.toList →
      (split template).map callouts = .ok layout.callouts ∧
      ∀ {ε σ : Type} (malformed : ItemError → ε)
        (substitute : String → ExceptT ε (StateM σ) String) (before : σ), ∃ result after,
        Calls substitute layout.callouts before result after ∧
          (rendered malformed substitute template).run.run before =
            (result.map layout.filled, after)) ∧
    (∀ message, (split template).mapError ItemError.message = .error message ↔
      ∃ (ahead : Layout) (offence : List Char) (fault : TemplateFault), ahead.IsLegal ∧
        ahead.final.getLast? ≠ some '{' ∧ ahead.source ++ offence = template.toList ∧
        Offends (Text.byteLength ahead.source) offence fault ∧
        message = "query item syntax error: " ++ (fault.message ++ " in: " ++ template)) ∧
    ∀ error, split template = .error error →
      ∀ {ε σ : Type} (malformed : ItemError → ε)
        (substitute : String → ExceptT ε (StateM σ) String) (before : σ),
        (rendered malformed substitute template).run.run before =
          (.error (malformed error), before) := by
  refine ⟨fun pieces => split_eq_ok_iff, ?_, ?_, ?_, ?_⟩
  · intro layout other legal alsoLegal same again
    exact Layout.source_inj legal alsoLegal (same.trans again.symm)
  · intro layout legal same
    have ok := split_eq_ok_iff.mpr ⟨layout, legal, same, rfl⟩
    constructor
    · rw [ok]
      exact congrArg Except.ok layout.callouts_pieces
    · intro ε σ malformed substitute before
      obtain ⟨result, after, calls⟩ := exists_calls substitute layout.callouts before
      refine ⟨result, after, calls, ?_⟩
      rw [rendered, ok]
      exact Layout.run_render calls
  · intro message
    rw [mapError_eq_error]
    constructor
    · rintro ⟨error, failed, rfl⟩
      obtain ⟨ahead, offence, fault, legal, apart, whole, offends, rfl⟩ :=
        split_eq_error_iff.mp failed
      exact ⟨ahead, offence, fault, legal, apart, whole, offends, rfl⟩
    · rintro ⟨ahead, offence, fault, legal, apart, whole, offends, rfl⟩
      exact ⟨_, split_eq_error_iff.mpr ⟨ahead, offence, fault, legal, apart, whole, offends, rfl⟩,
        rfl⟩
  · intro error failed ε σ malformed substitute before
    rw [rendered, failed]
    rfl

/-- A callback that notes what it is asked for. -/
def noteCallout (callout : String) : ExceptT String (StateM (List String)) String := do
  modify (· ++ [callout])
  return "x"

/-- Closing braces in quotes do not end a callout, and places are counted in bytes. -/
theorem renders_layout_quoted :
    (split "é = \x7b\x7b f('\x7d\x7d') \x7d\x7d \x7b").map callouts = .ok ["f('\x7d\x7d')"] ∧
    (rendered ItemError.message noteCallout "é = \x7b\x7b f('\x7d\x7d') \x7d\x7d \x7b").run.run [] =
      (.ok "é = x \x7b", ["f('\x7d\x7d')"]) ∧
    (split "é\x7b% if").mapError ItemError.message = .error
      "query item syntax error: template statements are not supported (offset 2) in: é\x7b% if" := by
  have found : splitAtClose none " f('\x7d\x7d') \x7d\x7d \x7b".toList =
      some (" f('\x7d\x7d') ".toList, " \x7b".toList) := by decide
  have legal : (Layout.next "é = ".toList " f('\x7d\x7d') ".toList
      (.last " \x7b".toList)).IsLegal :=
    .next ⟨by decide, by decide⟩ (by decide) (splitAtClose_eq_some_iff.mp found).2
      ⟨'f', by decide, by decide⟩ (.last ⟨by decide, by decide⟩)
  obtain ⟨items, renders⟩ := (renders_layout
    "é = \x7b\x7b f('\x7d\x7d') \x7d\x7d \x7b").2.2.1 _ legal (by decide)
  obtain ⟨result, after, calls, run⟩ := renders ItemError.message noteCallout []
  refine ⟨items.trans (by decide), run.trans ?_, ?_⟩
  · cases calls with
    | refused _ answer => exact nomatch answer
    | replied answer later =>
        cases answer
        cases later
        exact congrArg₂ (fun text asked => (Except.ok text, asked)) (by decide) (by decide)
  · refine ((renders_layout "é\x7b% if").2.2.2.1 _).mpr ⟨.last ['é'], "\x7b% if".toList,
      .statement 2, .last ⟨by decide, by decide⟩, by decide, by decide, .statement _, by decide⟩

end Template

end MetricQuery
