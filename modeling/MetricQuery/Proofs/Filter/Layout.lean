import Mathlib.Data.List.DropRight
import Mathlib.Data.List.Infix
import MetricQuery.Filter.Template
import MetricQuery.Proofs.Failing

/-! # The layout of templates

A template is text, a callout, text, and so on, where each callout ends at the first closing braces
outside quotes. A template is cut into the pieces of its layout, and there is one layout at most
(`Template.splitFrom_eq_ok_iff`, `Template.Layout.source_inj`). Any other template goes wrong at the
first braces behind a layout (`Template.splitFrom_eq_error_iff`).
-/

namespace MetricQuery

namespace Template

/-! ## The end of a callout -/

/-- The quote that stands open behind a character. -/
def quoteBehind : Option Char → Char → Option Char
  | none, c => if isQuote c then some c else none
  | some quote, c => if c = quote then none else some quote

/-- The quote that stands open behind some characters; `quote` is the one in front of them. -/
def openQuote (quote : Option Char) (chars : List Char) : Option Char :=
  chars.foldl quoteBehind quote

/-- Whether the closing braces behind some characters are the first outside quotes; `quote` is the
quote that stands open in front. -/
structure EndsAtClose (quote : Option Char) (body : List Char) : Prop where
  closed : openQuote quote body = none
  /-- The last character in front may make a pair with the first closing brace. -/
  first : ∀ before after, body ++ ['}'] = before ++ '}' :: '}' :: after →
    openQuote quote before ≠ none

/-- With nothing in front of them the closing braces are the first exactly if no quote is open. -/
theorem endsAtClose_nil {quote : Option Char} : EndsAtClose quote [] ↔ quote = none := by
  refine ⟨EndsAtClose.closed, fun closed => ⟨closed, fun before after same => ?_⟩⟩
  have length := congrArg List.length same
  simp only [List.nil_append, List.length_append, List.length_cons, List.length_nil] at length
  omega

/-- Whether a closing brace is the first of two outside quotes. -/
def Closes (quote : Option Char) (c : Char) (rest : List Char) : Prop :=
  quote = none ∧ c = '}' ∧ rest.head? = some '}'

/-- Behind one more character the closing braces stay the first unless it closes itself. -/
theorem endsAtClose_cons {quote : Option Char} {c : Char} {body : List Char} :
    EndsAtClose quote (c :: body) ↔
      ¬ Closes quote c (body ++ ['}']) ∧ EndsAtClose (quoteBehind quote c) body := by
  constructor
  · rintro ⟨closed, first⟩
    refine ⟨?_, closed, fun before after same => first (c :: before) after ?_⟩
    · rintro ⟨outside, rfl, second⟩
      obtain ⟨after, same⟩ := List.head?_eq_some_iff.mp second
      exact first [] after (congrArg (List.cons _) same) outside
    · exact congrArg (List.cons c) same
  · rintro ⟨goesOn, closed, first⟩
    refine ⟨closed, fun before after same => ?_⟩
    cases before with
    | nil =>
        intro outside
        obtain ⟨rfl, behind⟩ := List.cons.inj same
        exact goesOn ⟨outside, rfl, congrArg List.head? behind⟩
    | cons d before =>
        obtain ⟨rfl, behind⟩ := List.cons.inj same
        exact first before after behind

/-- A character that does not close belongs to the body. -/
theorem splitAtClose_cons {quote : Option Char} {c : Char} {rest : List Char}
    (goesOn : ¬ Closes quote c rest) : splitAtClose quote (c :: rest) =
      (splitAtClose (quoteBehind quote c) rest).map fun parts => (c :: parts.1, parts.2) := by
  cases quote with
  | some quote => rw [splitAtClose]; rfl
  | none =>
      rw [splitAtClose]
      · rfl
      · rintro after rfl rfl
        exact goesOn ⟨rfl, rfl, rfl⟩

/-- A callout ends at the first closing braces outside quotes. -/
theorem splitAtClose_eq_some_iff {quote : Option Char} {chars body rest : List Char} :
    splitAtClose quote chars = some (body, rest) ↔
      chars = body ++ '}' :: '}' :: rest ∧ EndsAtClose quote body := by
  constructor
  · intro found
    induction chars generalizing quote body with
    | nil => exact nomatch found
    | cons c chars ih =>
        by_cases closes : Closes quote c chars
        · obtain ⟨rfl, rfl, second⟩ := closes
          obtain ⟨after, rfl⟩ := List.head?_eq_some_iff.mp second
          rw [splitAtClose] at found
          obtain ⟨⟩ := found
          exact ⟨rfl, endsAtClose_nil.mpr rfl⟩
        · rw [splitAtClose_cons closes] at found
          obtain ⟨⟨inside, after⟩, later, ⟨⟩⟩ := Option.map_eq_some_iff.mp found
          obtain ⟨rfl, ends⟩ := ih later
          refine ⟨rfl, endsAtClose_cons.mpr ⟨fun early => closes ?_, ends⟩⟩
          refine ⟨early.1, early.2.1, ?_⟩
          have second := early.2.2
          cases inside <;> exact second
  · rintro ⟨rfl, ends⟩
    induction body generalizing quote with
    | nil =>
        obtain rfl := endsAtClose_nil.mp ends
        rw [List.nil_append, splitAtClose]
    | cons c body ih =>
        obtain ⟨goesOn, ends⟩ := endsAtClose_cons.mp ends
        have goesOn : ¬ Closes quote c (body ++ '}' :: '}' :: rest) := by
          cases body <;> exact goesOn
        rw [List.cons_append, splitAtClose_cons goesOn, ih ends]
        rfl

/-- No close is found exactly when no way of writing the rest has one. -/
theorem splitAtClose_eq_none_iff {quote : Option Char} {chars : List Char} :
    splitAtClose quote chars = none ↔
      ∀ body rest, EndsAtClose quote body → chars ≠ body ++ '}' :: '}' :: rest := by
  rw [Option.eq_none_iff_forall_ne_some]
  constructor
  · exact fun none body rest ends same => none _ (splitAtClose_eq_some_iff.mpr ⟨same, ends⟩)
  · rintro none ⟨body, rest⟩ found
    obtain ⟨same, ends⟩ := splitAtClose_eq_some_iff.mp found
    exact none body rest ends same

/-! ## Layouts -/

/-- Text and callouts in turn. -/
inductive Layout where
  /-- The text behind the last callout. -/
  | last (text : List Char)
  /-- Text, the body of the callout behind it, and what follows. -/
  | next (text body : List Char) (rest : Layout)

/-- Whether text is free of braces that mean something in it. -/
structure IsText (text : List Char) : Prop where
  noCallout : ¬ ['{', '{'] <:+: text
  noStatement : ¬ ['{', '%'] <:+: text

/-- The text piece that some characters make, if there are any. -/
def textPieces (text : List Char) : List TemplatePiece :=
  if text = [] then [] else [.text (String.ofList text)]

namespace Layout

/-- The template of a layout. -/
def source : Layout → List Char
  | last text => text
  | next text body rest => text ++ '{' :: '{' :: (body ++ '}' :: '}' :: rest.source)

/-- The text behind the last callout. -/
def final : Layout → List Char
  | last text => text
  | next _ _ rest => rest.final

/-- The callouts of a layout without blanks around them. -/
def callouts : Layout → List String
  | last _ => []
  | next _ body rest => String.ofList (Text.trimChars body) :: rest.callouts

/-- The pieces of a layout in order, without the comments. -/
def pieces : Layout → List TemplatePiece
  | last text => textPieces text
  | next text body rest =>
    textPieces text ++ .callout (String.ofList (Text.trimChars body)) :: rest.pieces

/-- Whether the parts of a layout can be told apart in its template. -/
inductive IsLegal : Layout → Prop where
  | last {text : List Char} (isText : IsText text) : IsLegal (last text)
  | next {text body : List Char} {rest : Layout} (isText : IsText text)
      (apart : text.getLast? ≠ some '{') (ends : EndsAtClose none body)
      (filled : ∃ c ∈ body, Text.isBlank c = false) (legal : rest.IsLegal) :
      IsLegal (next text body rest)

end Layout

/-- What is wrong with the braces that some characters begin with, at a place in the template. -/
inductive Offends (place : Nat) : List Char → TemplateFault → Prop where
  | statement (rest : List Char) : Offends place ('{' :: '%' :: rest) (.statement place)
  | unterminated {rest : List Char}
      (endless : ∀ body after, EndsAtClose none body → rest ≠ body ++ '}' :: '}' :: after) :
      Offends place ('{' :: '{' :: rest) (.unterminated place)
  | emptyCallout {body rest : List Char} (ends : EndsAtClose none body)
      (blank : ∀ c ∈ body, Text.isBlank c = true) :
      Offends place ('{' :: '{' :: (body ++ '}' :: '}' :: rest)) (.emptyCallout place)

/-! ## Cutting along a layout -/

/-- Trimming leaves nothing exactly of blanks. -/
theorem trimChars_eq_nil_iff {chars : List Char} :
    Text.trimChars chars = [] ↔ ∀ c ∈ chars, Text.isBlank c = true := by
  change List.rdropWhile Text.isBlank (chars.dropWhile Text.isBlank) = [] ↔ _
  rw [List.rdropWhile_eq_nil_iff]
  constructor
  · intro blank c member
    rw [← List.takeWhile_append_dropWhile (p := Text.isBlank) (l := chars)] at member
    exact (List.mem_append.mp member).elim List.mem_takeWhile_imp (blank c)
  · exact fun blank c member => blank c ((List.dropWhile_suffix _).subset member)

private theorem byteLength_append (chars others : List Char) :
    Text.byteLength (chars ++ others) = Text.byteLength chars + Text.byteLength others := by
  induction chars with
  | nil => exact (Nat.zero_add _).symm
  | cons c chars ih =>
      rw [List.cons_append, Text.byteLength, Text.byteLength, ih, Nat.add_assoc]

private theorem splitFrom_cons {c : Char} {rest : List Char}
    (plain : c = '{' → rest.head? ≠ some '{' ∧ rest.head? ≠ some '%') (place : Nat) :
    splitFrom place (c :: rest) = (splitFrom (place + c.utf8Size) rest).map (consChar c) := by
  rw [splitFrom]
  · rintro after rfl rfl
    exact (plain rfl).2 rfl
  · rintro after rfl rfl
    exact (plain rfl).1 rfl

/-- A callout is cut off where it ends. -/
theorem splitFrom_callout {body : List Char} (ends : EndsAtClose none body) (rest : List Char)
    (place : Nat) : splitFrom place ('{' :: '{' :: (body ++ '}' :: '}' :: rest)) =
      if (Text.trimChars body).isEmpty then .error (.emptyCallout place)
      else (splitFrom (place + 4 + Text.byteLength body) rest).map
        (.callout (String.ofList (Text.trimChars body)) :: ·) := by
  have closes : splitAtClose none (body ++ '}' :: '}' :: rest) = some (body, rest) :=
    splitAtClose_eq_some_iff.mpr ⟨rfl, ends⟩
  rw [splitFrom]
  split
  · rename_i none
    cases none.symm.trans closes
  · rename_i found
    obtain ⟨⟩ := found.symm.trans closes
    rfl

/-- Braces that offend are refused where they stand. -/
theorem Offends.splitFrom {place : Nat} {chars : List Char} {fault : TemplateFault}
    (offends : Offends place chars fault) : Template.splitFrom place chars = .error fault := by
  cases offends with
  | statement rest => rw [Template.splitFrom]
  | unterminated endless =>
      rw [Template.splitFrom]
      split
      · rfl
      · rename_i found
        cases found.symm.trans (splitAtClose_eq_none_iff.mpr endless)
  | emptyCallout ends blank =>
      rw [splitFrom_callout ends, trimChars_eq_nil_iff.mpr blank]
      rfl

/-- What follows the first character of a text is a text. -/
theorem IsText.tail {c : Char} {text : List Char} (isText : IsText (c :: text)) : IsText text :=
  ⟨fun inside => isText.noCallout (List.infix_cons inside),
    fun inside => isText.noStatement (List.infix_cons inside)⟩

/-- A character before a text gives a text unless the two open something. -/
theorem IsText.cons {c : Char} {text rest : List Char} (isText : IsText text)
    (plain : c = '{' → (text ++ rest).head? ≠ some '{' ∧ (text ++ rest).head? ≠ some '%') :
    IsText (c :: text) := by
  constructor
  · rw [List.infix_cons_iff]
    rintro (first | later)
    · obtain ⟨brace, second⟩ := List.cons_prefix_cons.mp first
      obtain ⟨after, rfl⟩ := second
      exact (plain brace.symm).1 rfl
    · exact isText.noCallout later
  · rw [List.infix_cons_iff]
    rintro (first | later)
    · obtain ⟨brace, second⟩ := List.cons_prefix_cons.mp first
      obtain ⟨after, rfl⟩ := second
      exact (plain brace.symm).2 rfl
    · exact isText.noStatement later

/-- A text that does not end in a brace does not with one more character in front. -/
theorem getLast?_cons_ne {c : Char} {text : List Char} (apart : text.getLast? ≠ some '{')
    (some : c = '{' → text ≠ []) : (c :: text).getLast? ≠ Option.some '{' := by
  cases text with
  | nil => exact fun same => some (Option.some.inj same) rfl
  | cons d text => rwa [List.getLast?_cons_cons]

/-- Text is cut off up to braces that it does not touch. -/
theorem splitFrom_text {text rest : List Char} (isText : IsText text)
    (apart : text.getLast? = some '{' → rest.head? ≠ some '{' ∧ rest.head? ≠ some '%')
    (place : Nat) : splitFrom place (text ++ rest) =
      (splitFrom (place + Text.byteLength text) rest).map (text.foldr consChar) := by
  induction text generalizing place with
  | nil =>
      rw [List.nil_append, Text.byteLength, Nat.add_zero]
      cases splitFrom place rest <;> rfl
  | cons c text ih =>
      have plain : c = '{' → (text ++ rest).head? ≠ some '{' ∧ (text ++ rest).head? ≠ some '%' := by
        rintro rfl
        cases text with
        | nil => exact apart rfl
        | cons d text =>
            refine ⟨fun same => isText.noCallout ?_, fun same => isText.noStatement ?_⟩
            · obtain rfl := Option.some.inj same
              exact ⟨[], text, rfl⟩
            · obtain rfl := Option.some.inj same
              exact ⟨[], text, rfl⟩
      have apart : text.getLast? = some '{' →
          rest.head? ≠ some '{' ∧ rest.head? ≠ some '%' := by
        intro last
        cases text with
        | nil => exact nomatch last
        | cons d text => exact apart last
      rw [List.cons_append, splitFrom_cons plain, ih isText.tail apart, Text.byteLength,
        ← Nat.add_assoc]
      cases splitFrom (place + c.utf8Size + Text.byteLength text) rest <;> rfl

/-- Characters make one text piece in front of a callout or the end. -/
theorem foldr_consChar {text : List Char} {pieces : List TemplatePiece}
    (front : ∀ other rest, pieces ≠ .text other :: rest) :
    text.foldr consChar pieces = textPieces text ++ pieces := by
  induction text with
  | nil => rfl
  | cons c text ih =>
      rw [List.foldr_cons, ih]
      cases text with
      | nil =>
          match pieces with
          | [] => rfl
          | .callout _ :: _ => rfl
          | .text other :: rest => exact (front other rest rfl).elim
      | cons d text =>
          have joined : c.toString ++ String.ofList (d :: text) = String.ofList (c :: d :: text) :=
            (String.ofList_append : String.ofList ([c] ++ d :: text) = _).symm
          rw [textPieces, textPieces, if_neg (List.cons_ne_nil _ _), if_neg (List.cons_ne_nil _ _),
            ← joined]
          rfl

namespace Layout

private theorem byteLength_source_next {text body : List Char} {rest : Layout} :
    Text.byteLength (next text body rest).source = Text.byteLength text + 4 + Text.byteLength body +
      Text.byteLength rest.source := by
  have opening : '{'.utf8Size = 1 := by decide
  have closing : '}'.utf8Size = 1 := by decide
  simp only [source, byteLength_append, Text.byteLength, opening, closing]
  omega

/-- A template is cut along its layout, in front of whatever does not touch its last text. -/
theorem IsLegal.splitFrom_source {layout : Layout} (legal : layout.IsLegal) (rest : List Char)
    (apart : layout.final.getLast? = some '{' → rest.head? ≠ some '{' ∧ rest.head? ≠ some '%')
    (place : Nat) : ∃ change, change [] = layout.pieces ∧
      splitFrom place (layout.source ++ rest) =
        (splitFrom (place + Text.byteLength layout.source) rest).map change := by
  induction legal generalizing place with
  | @last text isText =>
      refine ⟨_, ?_, splitFrom_text isText apart place⟩
      rw [pieces, ← List.append_nil (textPieces text)]
      exact foldr_consChar fun _ _ => nofun
  | @next text body later isText closed ends filled legal ih =>
      obtain ⟨change, same, split⟩ := ih apart
        (place + Text.byteLength text + 4 + Text.byteLength body)
      have shown : (Text.trimChars body).isEmpty = false := by
        refine Bool.eq_false_iff.mpr fun empty => ?_
        obtain ⟨c, member, shown⟩ := filled
        have blank := trimChars_eq_nil_iff.mp (List.isEmpty_iff.mp empty) c member
        exact nomatch shown.symm.trans blank
      refine ⟨fun others => text.foldr consChar
        (.callout (String.ofList (Text.trimChars body)) :: change others), ?_, ?_⟩
      · rw [pieces, ← same]
        exact foldr_consChar fun _ _ => nofun
      · rw [byteLength_source_next, source, List.append_assoc, List.cons_append, List.cons_append,
          List.append_assoc, List.cons_append, List.cons_append,
          splitFrom_text isText (fun touches => (closed touches).elim), splitFrom_callout ends,
          shown, split]
        simp only [← Nat.add_assoc]
        cases splitFrom (place + Text.byteLength text + 4 + Text.byteLength body +
          Text.byteLength later.source) rest <;> rfl

/-- A character in front of a layout goes into its first text. -/
theorem IsLegal.exists_cons {layout : Layout} (legal : layout.IsLegal) {c : Char} {rest : List Char}
    (plain : c = '{' → (layout.source ++ rest).head? ≠ some '{' ∧
      (layout.source ++ rest).head? ≠ some '%') :
    ∃ longer : Layout, longer.IsLegal ∧ longer.source = c :: layout.source ∧
      (rest.head? = some '{' → layout.final.getLast? ≠ some '{' →
        longer.final.getLast? ≠ some '{') := by
  cases legal with
  | @last text isText =>
      refine ⟨.last (c :: text), .last (isText.cons plain), rfl, fun opens apart => ?_⟩
      exact getLast?_cons_ne apart fun brace empty => (plain brace).1 (by rw [empty]; exact opens)
  | @next text body later isText apart ends filled legal =>
      rw [source, List.append_assoc] at plain
      refine ⟨.next (c :: text) body later, .next (isText.cons plain) ?_ ends filled legal, rfl,
        fun _ apart => apart⟩
      exact getLast?_cons_ne apart fun brace empty => (plain brace).1 (by rw [empty]; rfl)

end Layout

/-- A fault is found at an opening brace. -/
theorem Offends.head? {place : Nat} {chars : List Char} {fault : TemplateFault}
    (offends : Offends place chars fault) : chars.head? = some '{' := by
  cases offends <;> rfl

/-- A template either has a layout or goes wrong at braces behind one. -/
theorem exists_layout (chars : List Char) :
    (∃ layout : Layout, layout.IsLegal ∧ layout.source = chars) ∨
      ∃ (before : Layout) (offence : List Char), before.IsLegal ∧
        before.final.getLast? ≠ some '{' ∧ before.source ++ offence = chars ∧
        ∀ place, ∃ fault, Offends place offence fault := by
  have isText : IsText [] := ⟨by decide, by decide⟩
  obtain ⟨place⟩ : Nonempty Nat := ⟨0⟩
  fun_induction splitFrom place chars with
  | case1 => exact .inl ⟨.last [], .last isText, rfl⟩
  | case2 place rest =>
      exact .inr ⟨.last [], _, .last isText, nofun, rfl, fun place => ⟨_, .statement rest⟩⟩
  | case3 place rest endless =>
      exact .inr ⟨.last [], _, .last isText, nofun, rfl, fun place =>
        ⟨_, .unterminated (splitAtClose_eq_none_iff.mp endless)⟩⟩
  | case4 place rest body after found shorter callout empty =>
      obtain ⟨rfl, ends⟩ := splitAtClose_eq_some_iff.mp found
      exact .inr ⟨.last [], _, .last isText, nofun, rfl, fun place =>
        ⟨_, .emptyCallout ends (trimChars_eq_nil_iff.mp (List.isEmpty_iff.mp empty))⟩⟩
  | case5 place rest body after found shorter callout filled next =>
      rename_i ih
      obtain ⟨rfl, ends⟩ := splitAtClose_eq_some_iff.mp found
      have filled : ∃ c ∈ body, Text.isBlank c = false := by
        by_contra blank
        refine filled (List.isEmpty_iff.mpr (trimChars_eq_nil_iff.mpr fun c member => ?_))
        exact Bool.not_eq_false _ ▸ fun shown => blank ⟨c, member, shown⟩
      rcases ih with ⟨layout, legal, rfl⟩ | ⟨before, offence, legal, apart, rfl, offends⟩
      · exact .inl ⟨.next [] body layout, .next isText nofun ends filled legal, rfl⟩
      · exact .inr ⟨.next [] body before, offence, .next isText nofun ends filled legal, apart,
          by simp [Layout.source], offends⟩
  | case6 place c rest noStatement noCallout ih =>
      have plain : c = '{' → rest.head? ≠ some '{' ∧ rest.head? ≠ some '%' := by
        rintro rfl
        refine ⟨fun second => ?_, fun second => ?_⟩
        · obtain ⟨after, same⟩ := List.head?_eq_some_iff.mp second
          exact noCallout after rfl same
        · obtain ⟨after, same⟩ := List.head?_eq_some_iff.mp second
          exact noStatement after rfl same
      rcases ih with ⟨layout, legal, rfl⟩ | ⟨before, offence, legal, apart, rfl, offends⟩
      · rw [← List.append_nil layout.source] at plain
        obtain ⟨longer, isLegal, same, -⟩ := legal.exists_cons plain
        exact .inl ⟨longer, isLegal, same⟩
      · obtain ⟨longer, isLegal, same, stays⟩ := legal.exists_cons plain
        obtain ⟨_, offence⟩ := offends 0
        exact .inr ⟨longer, _, isLegal, stays offence.head? apart, by rw [same]; rfl, offends⟩

/-- A template is cut into the pieces of its layout, and a template without one is not cut. -/
theorem splitFrom_eq_ok_iff {place : Nat} {chars : List Char} {pieces : List TemplatePiece} :
    splitFrom place chars = .ok pieces ↔
      ∃ layout : Layout, layout.IsLegal ∧ layout.source = chars ∧ layout.pieces = pieces := by
  have cut : ∀ {layout : Layout}, layout.IsLegal →
      splitFrom place layout.source = .ok layout.pieces := by
    intro layout legal
    obtain ⟨change, same, split⟩ := legal.splitFrom_source []
      (fun _ => ⟨by rintro ⟨⟩, by rintro ⟨⟩⟩) place
    rw [List.append_nil] at split
    rw [split, splitFrom, ← same]
    rfl
  constructor
  · intro ok
    rcases exists_layout chars with ⟨layout, legal, rfl⟩ |
      ⟨before, offence, legal, apart, rfl, offends⟩
    · exact ⟨layout, legal, rfl, Except.ok.inj ((cut legal).symm.trans ok)⟩
    · obtain ⟨fault, offends⟩ := offends (place + Text.byteLength before.source)
      obtain ⟨change, _, split⟩ := legal.splitFrom_source offence
        (fun touches => (apart touches).elim) place
      rw [split, offends.splitFrom] at ok
      cases ok
  · rintro ⟨layout, legal, rfl, rfl⟩
    exact cut legal

/-- What a template is refused for are the first braces that offend, behind the layout of what
stands in front of them. -/
theorem splitFrom_eq_error_iff {place : Nat} {chars : List Char} {fault : TemplateFault} :
    splitFrom place chars = .error fault ↔
      ∃ (before : Layout) (offence : List Char), before.IsLegal ∧
        before.final.getLast? ≠ some '{' ∧ before.source ++ offence = chars ∧
        Offends (place + Text.byteLength before.source) offence fault := by
  have refused : ∀ {before : Layout} {offence : List Char} {fault : TemplateFault},
      before.IsLegal → before.final.getLast? ≠ some '{' →
      Offends (place + Text.byteLength before.source) offence fault →
      splitFrom place (before.source ++ offence) = .error fault := by
    intro before offence fault legal apart offends
    obtain ⟨change, _, split⟩ := legal.splitFrom_source offence
      (fun touches => (apart touches).elim) place
    rw [split, offends.splitFrom]
    rfl
  constructor
  · intro failed
    rcases exists_layout chars with layout | ⟨before, offence, legal, apart, rfl, offends⟩
    · obtain ⟨layout, legal, same⟩ := layout
      exact nomatch failed.symm.trans (splitFrom_eq_ok_iff.mpr ⟨layout, legal, same, rfl⟩)
    · obtain ⟨other, offends⟩ := offends (place + Text.byteLength before.source)
      obtain rfl := Except.error.inj ((refused legal apart offends).symm.trans failed)
      exact ⟨before, offence, legal, apart, rfl, offends⟩
  · rintro ⟨before, offence, legal, apart, rfl, offends⟩
    exact refused legal apart offends

/-- Splitting gives exactly the pieces of the legal layouts of the template. -/
theorem split_eq_ok_iff {template : String} {pieces : List TemplatePiece} :
    split template = .ok pieces ↔
      ∃ layout : Layout, layout.IsLegal ∧ layout.source = template.toList ∧
        layout.pieces = pieces := by
  rw [split, mapError_eq_ok, splitFrom_eq_ok_iff]

/-- The place in an error counts the bytes in front of the braces that offend. -/
theorem split_eq_error_iff {template : String} {error : ItemError} :
    split template = .error error ↔
      ∃ (ahead : Layout) (offence : List Char) (fault : TemplateFault), ahead.IsLegal ∧
        ahead.final.getLast? ≠ some '{' ∧ ahead.source ++ offence = template.toList ∧
        Offends (Text.byteLength ahead.source) offence fault ∧ .template template fault = error := by
  rw [split, mapError_eq_error]
  constructor
  · rintro ⟨fault, failed, same⟩
    obtain ⟨ahead, offence, legal, apart, whole, offends⟩ := splitFrom_eq_error_iff.mp failed
    rw [Nat.zero_add] at offends
    exact ⟨ahead, offence, fault, legal, apart, whole, offends, same⟩
  · rintro ⟨ahead, offence, fault, legal, apart, whole, offends, same⟩
    rw [← Nat.zero_add (Text.byteLength ahead.source)] at offends
    exact ⟨fault, splitFrom_eq_error_iff.mpr ⟨ahead, offence, legal, apart, whole, offends⟩, same⟩

/-! ## One layout at most -/

/-- Whether text ends in front of some characters: they are none, or open a callout that the text
does not touch. -/
def EndsBefore (text rest : List Char) : Prop :=
  rest = [] ∨ text.getLast? ≠ some '{' ∧ ['{', '{'] <+: rest

/-- A text that ends before the rest cannot be continued as a text into it. -/
theorem EndsBefore.eq_nil {text more rest : List Char} (isText : IsText (text ++ more))
    (ends : EndsBefore text (more ++ rest)) (endsLater : EndsBefore (text ++ more) rest) :
    more = [] := by
  cases more with
  | nil => rfl
  | cons c more =>
      rcases ends with none | ⟨-, opens⟩
      · exact nomatch none
      · obtain ⟨rfl, second⟩ := List.cons_prefix_cons.mp opens
        cases more with
        | nil =>
            rcases endsLater with rfl | ⟨apart, -⟩
            · exact nomatch List.prefix_nil.mp second
            · exact (apart List.getLast?_concat).elim
        | cons d more =>
            obtain ⟨rfl, -⟩ := List.cons_prefix_cons.mp second
            exact (isText.noCallout ⟨text, more, by simp⟩).elim

/-- Text is determined by where it ends. -/
theorem IsText.append_inj {text other rest others : List Char} (isText : IsText text)
    (isOther : IsText other) (same : text ++ rest = other ++ others)
    (ends : EndsBefore text rest) (otherEnds : EndsBefore other others) :
    text = other ∧ rest = others := by
  rcases List.append_eq_append_iff.mp same with ⟨more, rfl, rfl⟩ | ⟨more, rfl, rfl⟩
  · obtain rfl := ends.eq_nil isOther otherEnds
    exact ⟨(List.append_nil text).symm, rfl⟩
  · obtain rfl := otherEnds.eq_nil isText ends
    exact ⟨List.append_nil other, rfl⟩

/-- The body of a callout is fixed by the text: it ends at its first close. -/
theorem EndsAtClose.append_inj {body other rest others : List Char}
    (ends : EndsAtClose none body) (otherEnds : EndsAtClose none other)
    (same : body ++ '}' :: '}' :: rest = other ++ '}' :: '}' :: others) :
    body = other ∧ rest = others := by
  have found := splitAtClose_eq_some_iff.mpr ⟨same, otherEnds⟩
  have again : splitAtClose none (body ++ '}' :: '}' :: rest) = some (body, rest) :=
    splitAtClose_eq_some_iff.mpr ⟨rfl, ends⟩
  obtain ⟨⟩ := again.symm.trans found
  exact ⟨rfl, rfl⟩

/-- A template has one layout at most. -/
theorem Layout.source_inj {layout other : Layout} (legal : layout.IsLegal)
    (alsoLegal : other.IsLegal) (same : layout.source = other.source) : layout = other := by
  have opens : ∀ rest : List Char, ['{', '{'] <+: '{' :: '{' :: rest := fun rest => ⟨rest, rfl⟩
  induction legal generalizing other with
  | @last text isText =>
      cases alsoLegal with
      | @last final isFinal => exact congrArg last same
      | @next front body later isFront apart ends _ _ =>
          have touches : text ++ [] = front ++ _ := (List.append_nil text).trans same
          have whole := isText.append_inj isFront touches (.inl rfl) (.inr ⟨apart, opens _⟩)
          exact nomatch whole.2
  | @next text body rest isText apart ends _ legal ih =>
      cases alsoLegal with
      | @last final isFinal =>
          have touches : text ++ _ = final ++ [] := same.trans (List.append_nil final).symm
          have whole := isText.append_inj isFinal touches (.inr ⟨apart, opens _⟩) (.inl rfl)
          exact nomatch whole.2
      | @next front other later isFront alsoApart alsoEnds _ alsoLegal =>
          obtain ⟨rfl, behind⟩ := isText.append_inj isFront same (.inr ⟨apart, opens _⟩)
            (.inr ⟨alsoApart, opens _⟩)
          obtain ⟨rfl, sources⟩ := ends.append_inj alsoEnds
            (List.cons.inj (List.cons.inj behind).2).2
          rw [ih alsoLegal sources]

end Template

end MetricQuery
