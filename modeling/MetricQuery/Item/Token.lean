import MetricQuery.Text.Basic
import MetricQuery.Text.Record

/-! # Tokens of item calls

A call such as `TimeDimension('metric_time', 'day')` is cut into words, quoted texts and
punctuation. Blanks separate tokens and mean nothing else; a text ends at the next quote of the
sort that opened it.
-/

namespace MetricQuery

/-- A piece of an item call. -/
inductive Token where
  /-- ASCII letters, digits and underscores. -/
  | word (word : String)
  /-- What stands between two quotes of one sort. -/
  | text (text : String)
  | leftParen
  | rightParen
  | leftBracket
  | rightBracket
  | comma
  | equals
  | dot
  deriving DecidableEq

instance : Text.Record Token where
  text
    | .word word => Text.variantOf "Ident" [Text.Record.text word]
    | .text text => Text.variantOf "Str" [Text.Record.text text]
    | .leftParen => "LParen"
    | .rightParen => "RParen"
    | .leftBracket => "LBracket"
    | .rightBracket => "RBracket"
    | .comma => "Comma"
    | .equals => "Equals"
    | .dot => "Dot"

namespace Token

/-- Why a text cannot be cut into tokens; places are counted in bytes. -/
inductive Fault where
  /-- The text that opens at this place does not end. -/
  | unterminatedText (place : Nat)
  /-- No token begins with the character at this place. -/
  | unexpectedChar (c : Char) (place : Nat)
  deriving DecidableEq

/-- What is wrong with a text, as messages say it. -/
def Fault.message : Fault → String
  | unterminatedText place => "unterminated string starting at offset " ++ Text.Record.text place
  | unexpectedChar c place =>
    "unexpected character " ++ Text.named c.toString ++ " at offset " ++ Text.Record.text place

/-- The characters of words. -/
def isWordChar (c : Char) : Bool := c.isAlphanum || c == '_'

/-- The tokens of one character. -/
def punctuation? : Char → Option Token
  | '(' => some leftParen
  | ')' => some rightParen
  | '[' => some leftBracket
  | ']' => some rightBracket
  | ',' => some comma
  | '=' => some equals
  | '.' => some dot
  | _ => none

/-- Whether a character opens and closes texts. -/
def isQuote (c : Char) : Bool := c == '\'' || c == '"'

/-- Splits at the first closing quote, which belongs to neither part. -/
def splitAtQuote (quote : Char) : List Char → Option (List Char × List Char)
  | [] => none
  | c :: rest =>
    if c = quote then some ([], rest)
    else (splitAtQuote quote rest).map fun parts => (c :: parts.1, parts.2)

/-- What follows a closing quote is shorter than what was searched. -/
theorem splitAtQuote_length {quote : Char} {chars inside rest : List Char}
    (found : splitAtQuote quote chars = some (inside, rest)) : rest.length < chars.length := by
  induction chars generalizing inside with
  | nil => simp [splitAtQuote] at found
  | cons c tail ih =>
    unfold splitAtQuote at found
    split at found
    · simp only [Option.some.injEq, Prod.mk.injEq] at found
      simp [found.2]
    · obtain ⟨⟨first, second⟩, inner, same⟩ := Option.map_eq_some_iff.mp found
      simp only [Prod.mk.injEq] at same
      obtain ⟨-, rfl⟩ := same
      have := ih inner
      simp only [List.length_cons]
      omega

/-- Cuts characters into tokens; `place` is the number of bytes before them. -/
def scanFrom (place : Nat) (chars : List Char) : Except Fault (List Token) :=
  match chars with
  | [] => .ok []
  | c :: rest =>
    if Text.isBlank c then scanFrom (place + c.utf8Size) rest
    else match punctuation? c with
    | some token => (scanFrom (place + c.utf8Size) rest).map (token :: ·)
    | none =>
      if isQuote c then
        match found : splitAtQuote c rest with
        | none => .error (.unterminatedText place)
        | some (inside, after) =>
          have : after.length < rest.length := splitAtQuote_length found
          let next := place + 2 * c.utf8Size + Text.byteLength inside
          (scanFrom next after).map (text (String.ofList inside) :: ·)
      else if isWordChar c then
        let tail := rest.takeWhile isWordChar
        have : (rest.dropWhile isWordChar).length ≤ rest.length :=
          (List.dropWhile_suffix _).length_le
        let next := place + c.utf8Size + Text.byteLength tail
        (scanFrom next (rest.dropWhile isWordChar)).map (word (String.ofList (c :: tail)) :: ·)
      else .error (.unexpectedChar c place)
termination_by chars.length

/-- The tokens of a text. -/
def scan (source : String) : Except Fault (List Token) := scanFrom 0 source.toList

end Token

end MetricQuery
