import MetricQuery.Yaml.Basic

/-! # Reading YAML

A reader for YAML texts in flow style, the style that contains JSON: mappings in braces, sequences
in brackets, scalars with or without quotes, comments from a number sign to the end of the line.
Line breaks inside a scalar are folded. Anchors, tags and block style are refused.
-/

namespace MetricQuery.Yaml

/-- The blanks inside a line. -/
def isBlank (c : Char) : Bool := c == ' ' || c == '\t'

/-- The characters that end a line. -/
def isBreak (c : Char) : Bool :=
  c == '\n' || c == '\r' || c == '\u0085' || c == '\u2028' || c == '\u2029'

/-- The characters that may stand in a text: no controls, no surrogates, and no code points that
are set aside. -/
def isAdmitted (c : Char) : Bool :=
  let code := c.toNat
  c == '\t' || c == '\n' || c == '\r' || (0x20 ≤ code && code ≤ 0x7e) || code == 0x85 ||
    (0xa0 ≤ code && code ≤ 0xfffd) || 0x10000 ≤ code

/-- The line break that a break character stands for: a line feed, except that the two separators
stand for themselves. -/
def settledBreak (c : Char) : Char := if c == '\u2028' || c == '\u2029' then c else '\n'

/-- Whether a line that starts with these characters marks the start or the end of a document. -/
def isMarker (chars : List Char) : Bool :=
  let marked := chars.take 3 == ['-', '-', '-'] || chars.take 3 == ['.', '.', '.']
  match chars.drop 3 with
  | [] => marked
  | c :: _ => marked && (isBlank c || isBreak c)

/-! ## Between tokens -/

/-- Drops blanks, line breaks and comments. The flag says whether a comment is being read. -/
def skipSpace (inComment : Bool) : List Char → List Char
  | [] => []
  | c :: rest =>
    if isBreak c then skipSpace false rest
    else if inComment || isBlank c then skipSpace inComment rest
    else if c == '#' then skipSpace true rest
    else c :: rest

/-- Drops what may stand outside the braces of a document. At the start of a line a tab must not
stand there; the flag `atStart` says whether the line has had nothing but spaces. -/
def skipOutside (atStart inComment : Bool) : List Char → List Char
  | [] => []
  | c :: rest =>
    if isBreak c then skipOutside true false rest
    else if inComment then skipOutside atStart true rest
    else if c == ' ' || (c == '\t' && !atStart) then skipOutside atStart false rest
    else if c == '#' then skipOutside atStart true rest
    else c :: rest

/-! ## Scalars -/

/-- What a scalar has shown since its last character that is neither a blank nor a line break. -/
structure Gap where
  /-- The blanks before the first line break, the last one first. -/
  blanks : List Char
  /-- The line breaks, the last one first. -/
  breaks : List Char
  /-- Whether a backslash stood before the first line break. -/
  isEscaped : Bool
  /-- Whether the last line break ended the gap. -/
  atStart : Bool

namespace Gap

/-- No gap. -/
def none : Gap := ⟨[], [], false, false⟩

/-- The gap that a backslash before a line break opens. -/
def escaped : Gap := ⟨[], [], true, true⟩

/-- Whether nothing is between. -/
def isNone (gap : Gap) : Bool := gap.blanks.isEmpty && gap.breaks.isEmpty && !gap.isEscaped

/-- A gap with one more blank; blanks behind a line break do not count. -/
def addBlank (gap : Gap) (c : Char) : Gap :=
  if gap.breaks.isEmpty && !gap.isEscaped then { gap with blanks := c :: gap.blanks }
  else { gap with atStart := false }

/-- A gap with one more line break. -/
def addBreak (gap : Gap) (c : Char) : Gap :=
  { gap with blanks := [], breaks := settledBreak c :: gap.breaks, atStart := true }

/-- The text of a gap. A single line feed becomes a space, and of several breaks of which the first
is a line feed that one is dropped; behind a backslash only the further breaks count. -/
def text (gap : Gap) : List Char :=
  if gap.isEscaped then gap.breaks.reverse
  else match gap.breaks.reverse with
    | [] => gap.blanks.reverse
    | ['\n'] => [' ']
    | '\n' :: further => further
    | breaks => breaks

end Gap

/-- The characters that have a one-letter escape. -/
def shortEscape? : Char → Option Char
  | '0' => some '\x00'
  | 'a' => some '\x07'
  | 'b' => some '\x08'
  | 't' => some '\t'
  | '\t' => some '\t'
  | 'n' => some '\n'
  | 'v' => some '\x0b'
  | 'f' => some '\x0c'
  | 'r' => some '\r'
  | 'e' => some '\x1b'
  | ' ' => some ' '
  | '"' => some '"'
  | '/' => some '/'
  | '\\' => some '\\'
  | 'N' => some '\u0085'
  | '_' => some '\u00a0'
  | 'L' => some '\u2028'
  | 'P' => some '\u2029'
  | _ => none

/-- Puts a gap and a character in front of what was read behind them. -/
def prepend (gap : Gap) (c : Char) (read : Option (List Char × List Char)) :
    Option (List Char × List Char) :=
  read.map fun read => (gap.text ++ c :: read.1, read.2)

/-- Reads a scalar from behind its opening double quote, and what follows the closing one. -/
def readDoubleQuoted (gap : Gap) : List Char → Option (List Char × List Char)
  | [] => none
  | '"' :: rest => some (gap.text, rest)
  | '\r' :: '\n' :: rest => readDoubleQuoted (gap.addBreak '\n') rest
  | '\\' :: '\r' :: '\n' :: rest =>
    (readDoubleQuoted .escaped rest).map fun read => (gap.text ++ read.1, read.2)
  | '\\' :: 'x' :: a :: b :: rest =>
    match Text.charOfHex? [a, b] with
    | none => none
    | some c => prepend gap c (readDoubleQuoted .none rest)
  | '\\' :: 'u' :: a :: b :: c :: d :: rest =>
    match Text.charOfHex? [a, b, c, d] with
    | none => none
    | some char => prepend gap char (readDoubleQuoted .none rest)
  | '\\' :: 'U' :: a :: b :: c :: d :: e :: f :: g :: h :: rest =>
    match Text.charOfHex? [a, b, c, d, e, f, g, h] with
    | none => none
    | some char => prepend gap char (readDoubleQuoted .none rest)
  | '\\' :: letter :: rest =>
    if isBreak letter then
      (readDoubleQuoted .escaped rest).map fun read => (gap.text ++ read.1, read.2)
    else match shortEscape? letter with
      | none => none
      | some c => prepend gap c (readDoubleQuoted .none rest)
  | c :: rest =>
    if isBlank c then readDoubleQuoted (gap.addBlank c) rest
    else if isBreak c then readDoubleQuoted (gap.addBreak c) rest
    else if gap.atStart && isMarker (c :: rest) then none
    else prepend gap c (readDoubleQuoted .none rest)

/-- Reads a scalar from behind its opening single quote, and what follows the closing one. -/
def readSingleQuoted (gap : Gap) : List Char → Option (List Char × List Char)
  | [] => none
  | '\'' :: '\'' :: rest => prepend gap '\'' (readSingleQuoted .none rest)
  | '\'' :: rest => some (gap.text, rest)
  | '\r' :: '\n' :: rest => readSingleQuoted (gap.addBreak '\n') rest
  | c :: rest =>
    if isBlank c then readSingleQuoted (gap.addBlank c) rest
    else if isBreak c then readSingleQuoted (gap.addBreak c) rest
    else if gap.atStart && isMarker (c :: rest) then none
    else prepend gap c (readSingleQuoted .none rest)

/-- The characters that structure a collection. -/
def isFlowMark (c : Char) : Bool :=
  c == ',' || c == '[' || c == ']' || c == '{' || c == '}'

/-- The characters at which a plain scalar cannot start. -/
def cannotStartPlain (c : Char) : Bool :=
  isFlowMark c || c == '?' || c == ':' || c == '#' || c == '&' || c == '*' || c == '!' || c == '|' ||
    c == '>' || c == '\'' || c == '"' || c == '%' || c == '@' || c == '\u0060'

/-- Whether a plain scalar can start with these characters. -/
def startsPlain : List Char → Bool
  | '-' :: c :: _ => !isBlank c && !isBreak c
  | ['-'] => false
  | c :: _ => !cannotStartPlain c
  | [] => false

/-- Whether a colon before these characters ends a plain scalar; `none` if it must not stand
there. -/
def colonEnds : List Char → Option Bool
  | [] => some true
  | c :: _ =>
    if isBlank c || isBreak c then some true
    else if isFlowMark c || c == '?' then none
    else some false

/-- Reads a plain scalar, and what follows it. A gap at its end does not belong to it. -/
def readPlain (gap : Gap) : List Char → Option (List Char × List Char)
  | [] => some ([], [])
  | '\r' :: '\n' :: rest => readPlain (gap.addBreak '\n') rest
  | c :: rest =>
    if isBlank c then readPlain (gap.addBlank c) rest
    else if isBreak c then readPlain (gap.addBreak c) rest
    else if isFlowMark c || (c == '#' && !gap.isNone) then some ([], c :: rest)
    else if gap.atStart && isMarker (c :: rest) then none
    else if c == ':' then
      match colonEnds rest with
      | none => none
      | some true => some ([], c :: rest)
      | some false => prepend gap c (readPlain .none rest)
    else prepend gap c (readPlain .none rest)

/-- Reads a scalar: whether it is plain, its text, and what follows it. -/
def readScalar : List Char → Option (Bool × String × List Char)
  | '"' :: rest =>
    (readDoubleQuoted .none rest).map fun read => (false, String.ofList read.1, read.2)
  | '\'' :: rest =>
    (readSingleQuoted .none rest).map fun read => (false, String.ofList read.1, read.2)
  | chars =>
    if startsPlain chars then
      (readPlain .none chars).map fun read => (true, String.ofList read.1, read.2)
    else none

/-! ## Collections -/

/-- How many characters at most the name of a member takes, up to its colon. -/
def nameLimit : Nat := 1024

/-- Whether the characters from the start of a name to its colon can stand there: in one line, and
not too many. -/
def isName (chars : List Char) : Bool := chars.length ≤ nameLimit && !chars.any isBreak

/-- How deep collections may be nested. -/
def nestingLimit : Nat := 128

mutual

/-- Reads one node, in at most `bound` steps and with at most `levels` levels of nesting, and what
follows it. -/
def readNode : Nat → Nat → List Char → Option (Yaml × List Char)
  | 0, _, _ => none
  | bound + 1, levels, chars =>
    match skipSpace false chars with
    | '[' :: rest =>
      match levels with
      | 0 => none
      | levels + 1 => (readItems bound levels rest).map fun read => (sequence read.1, read.2)
    | '{' :: rest =>
      match levels with
      | 0 => none
      | levels + 1 => (readMembers bound levels rest).map fun read => (mapping read.1, read.2)
    | rest => (readScalar rest).map fun read => (scalar read.1 read.2.1, read.2.2)

/-- Reads the items of a sequence, with the closing bracket; a comma may stand before it. -/
def readItems : Nat → Nat → List Char → Option (List Yaml × List Char)
  | 0, _, _ => none
  | bound + 1, levels, chars =>
    match skipSpace false chars with
    | ']' :: rest => some ([], rest)
    | chars =>
      match readNode bound levels chars with
      | none => none
      | some (item, rest) =>
        match skipSpace false rest with
        | ',' :: rest => (readItems bound levels rest).map fun read => (item :: read.1, read.2)
        | ']' :: rest => some ([item], rest)
        | _ => none

/-- Reads what follows the name of a member: a colon and the value. -/
def readMemberValue : Nat → Nat → List Char → Option (Yaml × List Char)
  | 0, _, _ => none
  | bound + 1, levels, chars =>
    match skipSpace false chars with
    | ',' :: rest => some (empty, ',' :: rest)
    | '}' :: rest => some (empty, '}' :: rest)
    | chars => readNode bound levels chars

/-- Reads the members of a mapping, with the closing brace; a comma may stand before it. -/
def readMembers : Nat → Nat → List Char → Option (List (String × Yaml) × List Char)
  | 0, _, _ => none
  | bound + 1, levels, chars =>
    match skipSpace false chars with
    | '}' :: rest => some ([], rest)
    | chars =>
      match readScalar chars with
      | none => none
      | some (_, name, rest) =>
        let value := match skipSpace false rest with
          | ':' :: behind =>
            if isName (chars.take (chars.length - behind.length - 1)) then
              readMemberValue bound levels behind
            else none
          | rest => some (empty, rest)
        match value with
        | none => none
        | some (value, rest) =>
          match skipSpace false rest with
          | ',' :: rest =>
            (readMembers bound levels rest).map fun read => ((name, value) :: read.1, read.2)
          | '}' :: rest => some ([(name, value)], rest)
          | _ => none

end

/-- Drops a byte order mark in front. -/
def dropMark : List Char → List Char
  | '\ufeff' :: rest => rest
  | chars => chars

/-- Reads a text that holds at most one collection. Every step of the reader takes at least one
character or is followed by one that does, so thrice the length of the text bounds the steps. -/
def read (source : String) : Option Yaml :=
  let chars := source.toList
  let document := skipOutside true false (dropMark chars)
  if !chars.all isAdmitted then none
  else match document with
    | [] => some empty
    | c :: _ =>
      if c == '{' || c == '[' then
        match readNode (3 * chars.length + 3) nestingLimit document with
        | some (node, rest) => if (skipOutside false false rest).isEmpty then some node else none
        | none => none
      else none

end MetricQuery.Yaml
