import MetricQuery.Item.Error

/-! # Filter templates

A filter is SQL with callouts between double braces, each naming a group-by item. Reading a
template cuts it into text and callouts. A callout ends at the first closing braces that stand
outside quotes; statements, which open with a brace and a percent sign, are refused.
-/

namespace MetricQuery

/-- A piece of a template. -/
inductive TemplatePiece where
  /-- SQL that stays as it is. -/
  | text (text : String)
  /-- The reference to an item, without blanks around it. -/
  | callout (callout : String)
  deriving DecidableEq

namespace Template

/-- Whether a character opens and closes quoted text. -/
def isQuote (c : Char) : Bool := c == '\'' || c == '"'

/-- Splits at the first closing braces outside quotes; `quote` is the one that stands open. -/
def splitAtClose : (quote : Option Char) → List Char → Option (List Char × List Char)
  | _, [] => none
  | none, '}' :: '}' :: rest => some ([], rest)
  | none, c :: rest =>
    (splitAtClose (if isQuote c then some c else none) rest).map fun parts =>
      (c :: parts.1, parts.2)
  | some quote, c :: rest =>
    (splitAtClose (if c = quote then none else some quote) rest).map fun parts =>
      (c :: parts.1, parts.2)

/-- What follows closing braces is shorter than what was searched. -/
theorem splitAtClose_length {quote : Option Char} {chars body rest : List Char}
    (found : splitAtClose quote chars = some (body, rest)) : rest.length < chars.length := by
  fun_induction splitAtClose quote chars generalizing body with
  | case1 => simp at found
  | case2 =>
    simp only [Option.some.injEq, Prod.mk.injEq] at found
    simp only [← found.2, List.length_cons]
    omega
  | case3 c tail _ ih =>
    obtain ⟨parts, inner, same⟩ := Option.map_eq_some_iff.mp found
    simp only [Prod.mk.injEq] at same
    have := @ih parts.1 (by rw [inner, ← same.2])
    simp only [List.length_cons]
    omega
  | case4 quote c tail ih =>
    obtain ⟨parts, inner, same⟩ := Option.map_eq_some_iff.mp found
    simp only [Prod.mk.injEq] at same
    have := @ih parts.1 (by rw [inner, ← same.2])
    simp only [List.length_cons]
    omega

/-- Puts a character in front of pieces, into the text that they begin with. -/
def consChar (c : Char) : List TemplatePiece → List TemplatePiece
  | .text text :: rest => .text (c.toString ++ text) :: rest
  | pieces => .text c.toString :: pieces

/-- Cuts characters into pieces; `place` is the number of bytes before them. -/
def splitFrom (place : Nat) (chars : List Char) : Except TemplateFault (List TemplatePiece) :=
  match chars with
  | [] => .ok []
  | '{' :: '%' :: _ => .error (.statement place)
  | '{' :: '{' :: rest =>
    match found : splitAtClose none rest with
    | none => .error (.unterminated place)
    | some (body, after) =>
      have : after.length < rest.length := splitAtClose_length found
      let callout := Text.trimChars body
      if callout.isEmpty then .error (.emptyCallout place)
      else
        let next := place + 4 + Text.byteLength body
        (splitFrom next after).map (.callout (String.ofList callout) :: ·)
  | c :: rest => (splitFrom (place + c.utf8Size) rest).map (consChar c)
termination_by chars.length

/-- Cuts a template into pieces. -/
def split (template : String) : Except ItemError (List TemplatePiece) :=
  (splitFrom 0 template.toList).mapError (ItemError.template template)

/-- The callouts among some pieces, in order. -/
def callouts (pieces : List TemplatePiece) : List String :=
  pieces.filterMap fun
    | .callout callout => some callout
    | .text _ => none

/-- The pieces put together, with what stands for each callout in its place. -/
def render {m : Type → Type} [Monad m] (substitute : String → m String)
    (pieces : List TemplatePiece) : m String := do
  let texts ← pieces.mapM fun
    | .text text => pure text
    | .callout callout => substitute callout
  return String.join texts

/-- Reads a template and puts it together again with what `substitute` gives for its callouts; it
may keep a state and refuse. -/
def rendered {ε σ : Type} (malformed : ItemError → ε)
    (substitute : String → ExceptT ε (StateM σ) String) (template : String) :
    ExceptT ε (StateM σ) String := do
  let pieces ← ExceptT.mk (pure ((split template).mapError malformed))
  render substitute pieces

end Template

end MetricQuery
