import MetricQuery.Toml.Definition
import MetricQuery.Toml.Scalar
import MetricQuery.Toml.Text

/-! # Reading TOML

A reader for TOML texts: comments, headers in brackets, and entries of the form `key = value`, each
of them in a line of its own. Keys have a bounded number of parts, and arrays and tables in braces
are nested up to a fixed depth.
-/

namespace MetricQuery.Toml

/-- What follows the end of a line, before which blanks and a comment may stand. -/
def cutLineEnd (chars : List Char) : Option (List Char) :=
  let rest := match skipBlanks chars with
    | '#' :: rest => rest.dropWhile (!isControl ·)
    | rest => rest
  match rest with
  | [] => some []
  | rest => cutBreak rest

/-- Drops blanks, line breaks and comments. The flag says whether a comment is being read. -/
def skipSpace (inComment : Bool) : List Char → List Char
  | '\r' :: '\n' :: rest => skipSpace false rest
  | c :: rest =>
    if c == '\n' then skipSpace false rest
    else if inComment && !isControl c then skipSpace true rest
    else if !inComment && isBlank c then skipSpace false rest
    else if !inComment && c == '#' then skipSpace true rest
    else c :: rest
  | [] => []

/-! ## Keys -/

/-- The characters of a bare key. -/
def isKeyChar (c : Char) : Bool := c.isAlphanum || c == '_' || c == '-'

/-- Reads one part of a key: a bare word or a quoted text of one line. -/
def readKeyPart : List Char → Option (String × List Char)
  | '"' :: rest => (readBasic rest).map fun read => (String.ofList read.1, read.2)
  | '\'' :: rest => (readLiteral rest).map fun read => (String.ofList read.1, read.2)
  | chars =>
    let word := chars.takeWhile isKeyChar
    if word.isEmpty then none else some (String.ofList word, chars.dropWhile isKeyChar)

/-- Reads at most `bound` parts of a key, which points separate; blanks may stand around them. -/
def readKeyParts : Nat → List Char → Option (List String × List Char)
  | 0, _ => none
  | bound + 1, chars =>
    match readKeyPart (skipBlanks chars) with
    | none => none
    | some (part, rest) =>
      match skipBlanks rest with
      | '.' :: rest => (readKeyParts bound rest).map fun read => (part :: read.1, read.2)
      | rest => some ([part], rest)

/-- How many parts a key has at most. -/
def keyLimit : Nat := 79

/-- Reads a key, with its parts. -/
def readKey (chars : List Char) : Option (List String × List Char) := readKeyParts keyLimit chars

/-! ## Values -/

/-- How deep arrays and tables in braces may be nested. -/
def nestingLimit : Nat := 79

mutual

/-- Reads one value, in at most `bound` steps and with at most `levels` levels of nesting, and what
follows it. -/
def readValue : Nat → Nat → List Char → Option (Toml × List Char)
  | 0, _, _ => none
  | bound + 1, levels, chars =>
    match chars with
    | '"' :: _ => (readText chars).map fun read => (text (String.ofList read.1), read.2)
    | '\'' :: _ => (readText chars).map fun read => (text (String.ofList read.1), read.2)
    | '[' :: rest =>
      match levels with
      | 0 => none
      | levels + 1 => (readItems bound levels rest).map fun read => (array read.1, read.2)
    | '{' :: rest =>
      match levels, skipBlanks rest with
      | 0, _ => none
      | _ + 1, '}' :: rest => some (table .inline [], rest)
      | levels + 1, rest =>
        match readEntries bound levels rest with
        | none => none
        | some (entries, rest) => (inlineTable? entries).map (·, rest)
    | chars => readWord chars

/-- Reads the items of an array, with the closing bracket; a comma may stand before it. -/
def readItems : Nat → Nat → List Char → Option (List Toml × List Char)
  | 0, _, _ => none
  | bound + 1, levels, chars =>
    match skipSpace false chars with
    | ']' :: rest => some ([], rest)
    | chars =>
      match readValue bound levels chars with
      | none => none
      | some (item, rest) =>
        match skipSpace false rest with
        | ',' :: rest => (readItems bound levels rest).map fun read => (item :: read.1, read.2)
        | ']' :: rest => some ([item], rest)
        | _ => none

/-- Reads the entries of a table in braces that holds at least one, with the closing brace. -/
def readEntries : Nat → Nat → List Char → Option (List (List String × Toml) × List Char)
  | 0, _, _ => none
  | bound + 1, levels, chars =>
    match readKey chars with
    | some (path, '=' :: rest) =>
      match readValue bound levels (skipBlanks rest) with
      | none => none
      | some (value, rest) =>
        match skipBlanks rest with
        | ',' :: rest =>
          (readEntries bound levels rest).map fun read => ((path, value) :: read.1, read.2)
        | '}' :: rest => some ([(path, value)], rest)
        | _ => none
    | _ => none

end

/-! ## Documents -/

/-- Reads a header from behind its opening brackets, of which there are as many as closing ones. -/
def readHeader (closing : List Char) (chars : List Char) : Option (List String × List Char) :=
  match readKey chars with
  | none => none
  | some (path, rest) =>
    if rest.take closing.length == closing then
      (cutLineEnd (rest.drop closing.length)).map (path, ·)
    else none

/-- Reads one statement and the end of its line. A value takes at most as many steps as it has
characters, and twice as many for those in brackets. -/
def readStatement (chars : List Char) : Option (Statement × List Char) :=
  match chars with
  | '[' :: '[' :: rest =>
    (readHeader [']', ']'] rest).map fun read => (.elementHeader read.1, read.2)
  | '[' :: rest => (readHeader [']'] rest).map fun read => (.header read.1, read.2)
  | chars =>
    match readKey chars with
    | some (path, '=' :: rest) =>
      match readValue (2 * rest.length + 2) nestingLimit (skipBlanks rest) with
      | none => none
      | some (value, rest) => (cutLineEnd rest).map (.entry path value, ·)
    | _ => none

/-- Reads the statements of a text. Every line takes at least one character, so the length of the
text bounds their number. -/
def readStatements : Nat → List Char → Option (List Statement)
  | 0, _ => none
  | bound + 1, chars =>
    match skipBlanks chars with
    | [] => some []
    | '#' :: rest =>
      match cutLineEnd ('#' :: rest) with
      | none => none
      | some rest => readStatements bound rest
    | '\n' :: rest => readStatements bound rest
    | '\r' :: '\n' :: rest => readStatements bound rest
    | chars =>
      match readStatement chars with
      | none => none
      | some (statement, rest) => (readStatements bound rest).map (statement :: ·)

/-- Reads a text into its table. A byte order mark may stand in front. -/
def read (source : String) : Option Members :=
  let chars := match source.toList with
    | '\ufeff' :: rest => rest
    | chars => chars
  (readStatements (chars.length + 1) chars).bind (carryOut [] [])

end MetricQuery.Toml
