import MetricQuery.Item.Token

/-! # Item calls

The grammar of calls: a name, arguments in parentheses, and further calls behind points. Arguments
are texts, truth values and lists of texts; positional ones stand before named ones, and one comma
may close a list of arguments or of texts.
-/

namespace MetricQuery

/-- An argument of a call. -/
inductive Argument where
  | text (text : String)
  | list (texts : List String)
  | flag (flag : Bool)
  deriving DecidableEq

instance : Text.Record Argument where
  text
    | .text text => Text.variantOf "Str" [Text.Record.text text]
    | .list texts => Text.variantOf "List" [Text.Record.text texts]
    | .flag flag => Text.variantOf "Bool" [Text.Record.text flag]

/-- A call with its arguments. -/
structure Call where
  name : String
  /-- The arguments without a name. -/
  positional : List Argument
  /-- The arguments with their names, in the order of the text. -/
  keyword : List (String × Argument)
  deriving DecidableEq

/-- A call and the calls chained to it. -/
structure CallChain where
  head : Call
  /-- The calls behind points. -/
  tail : List Call
  deriving DecidableEq

namespace Call

/-- Why tokens are no chain of calls. What was found is `none` at the end of the text. -/
inductive Fault where
  /-- Something else stands where a token is prescribed. -/
  | expected (token : Token) (found : Option Token)
  /-- A chain is complete, but something follows. -/
  | trailing (found : Token)
  /-- A call does not begin with a name. -/
  | noName (found : Option Token)
  /-- An argument is followed by neither a comma nor the end of the arguments. -/
  | noSeparator (found : Option Token)
  /-- A text in a list is followed by neither a comma nor the end of the list. -/
  | noListSeparator (found : Option Token)
  /-- A list holds something that is no text. -/
  | noListText (found : Option Token)
  /-- An argument is no value. -/
  | noArgument (found : Option Token)
  /-- A positional argument stands behind a named one. -/
  | positionalAfterKeyword
  deriving DecidableEq

/-- What is wrong with a call, as messages say it. -/
def Fault.message : Fault → String
  | expected token none => "expected " ++ Text.Record.text token ++ ", found end of input"
  | expected token (some found) =>
    "expected " ++ Text.Record.text token ++ ", found " ++ Text.Record.text found
  | trailing found => "unexpected trailing " ++ Text.Record.text found
  | noName found => "expected a function name, found " ++ Text.Record.text found
  | noSeparator found => "expected ',' or ')', found " ++ Text.Record.text found
  | noListSeparator found => "expected ',' or ']', found " ++ Text.Record.text found
  | noListText found => "expected a string in list, found " ++ Text.Record.text found
  | noArgument found => "expected a value, found " ++ Text.Record.text found
  | positionalAfterKeyword => "positional argument follows keyword argument"

/-- Reads the texts of a list and its closing bracket. -/
def readList : List Token → Except Fault (List String × List Token)
  | .rightBracket :: rest => .ok ([], rest)
  | .text text :: .comma :: rest => (readList rest).map fun read => (text :: read.1, read.2)
  | .text text :: .rightBracket :: rest => .ok ([text], rest)
  | .text _ :: rest => .error (.noListSeparator rest.head?)
  | tokens => .error (.noListText tokens.head?)

/-- Reads an argument: a text, a word, or a list of texts. -/
def readArgument : List Token → Except Fault (Argument × List Token)
  | .text text :: rest => .ok (.text text, rest)
  | .word "True" :: rest => .ok (.flag true, rest)
  | .word "False" :: rest => .ok (.flag false, rest)
  | .leftBracket :: rest => (readList rest).map fun read => (.list read.1, read.2)
  | tokens => .error (.noArgument tokens.head?)

/-- A list takes at least its closing bracket. -/
theorem readList_length {tokens rest : List Token} {texts : List String}
    (read : readList tokens = .ok (texts, rest)) : rest.length < tokens.length := by
  fun_induction readList tokens generalizing texts with
  | case1 => simp_all
  | case2 text tail ih =>
    cases inner : readList tail with
    | error fault => simp [inner, Except.map] at read
    | ok found =>
      simp only [inner, Except.map, Except.ok.injEq, Prod.mk.injEq] at read
      have := @ih found.1 (by rw [inner, ← read.2])
      simp only [List.length_cons]
      omega
  | case3 =>
    simp only [Except.ok.injEq, Prod.mk.injEq] at read
    simp only [List.length_cons, ← read.2]
    omega
  | case4 => simp at read
  | case5 => simp at read

/-- An argument takes at least one token. -/
theorem readArgument_length {tokens rest : List Token} {argument : Argument}
    (read : readArgument tokens = .ok (argument, rest)) : rest.length < tokens.length := by
  unfold readArgument at read
  split at read
  · simp_all
  · simp_all
  · simp_all
  · rename_i tail
    cases inner : readList tail with
    | error fault => simp [inner, Except.map] at read
    | ok found =>
      simp only [inner, Except.map, Except.ok.injEq, Prod.mk.injEq] at read
      have := readList_length (inner : _ = Except.ok (found.1, found.2))
      simp only [List.length_cons, ← read.2]
      omega
  · simp at read

/-- Reads one argument, with its name if it has one, and adds it to a call. -/
def readInto (call : Call) : List Token → Except Fault (Call × List Token)
  | .word name :: .equals :: rest =>
    (readArgument rest).map fun read =>
      ({ call with keyword := call.keyword ++ [(name, read.1)] }, read.2)
  | tokens =>
    if call.keyword.isEmpty then
      (readArgument tokens).map fun read =>
        ({ call with positional := call.positional ++ [read.1] }, read.2)
    else .error .positionalAfterKeyword

/-- An argument with its name takes at least one token. -/
theorem readInto_length {call done : Call} {tokens rest : List Token}
    (read : readInto call tokens = .ok (done, rest)) : rest.length < tokens.length := by
  unfold readInto at read
  split at read
  · rename_i name tail
    cases inner : readArgument tail with
    | error fault => simp [inner, Except.map] at read
    | ok found =>
      simp only [inner, Except.map, Except.ok.injEq, Prod.mk.injEq] at read
      have := readArgument_length (inner : _ = Except.ok (found.1, found.2))
      simp only [List.length_cons, ← read.2]
      omega
  · split at read
    · cases inner : readArgument tokens with
      | error fault => simp [inner, Except.map] at read
      | ok found =>
        simp only [inner, Except.map, Except.ok.injEq, Prod.mk.injEq] at read
        rw [← read.2]
        exact readArgument_length (inner : _ = Except.ok (found.1, found.2))
    · simp at read

/-- Reads the arguments of a call and its closing parenthesis, behind those read so far. -/
def readArguments (call : Call) (tokens : List Token) : Except Fault (Call × List Token) :=
  match tokens with
  | .rightParen :: rest => .ok (call, rest)
  | tokens =>
    match read : readInto call tokens with
    | .error fault => .error fault
    | .ok (call, .comma :: after) =>
      have : after.length < tokens.length :=
        Nat.lt_of_succ_lt (readInto_length read)
      readArguments call after
    | .ok (call, .rightParen :: after) => .ok (call, after)
    | .ok (_, after) => .error (.noSeparator after.head?)
termination_by tokens.length

/-- Reads a call with its arguments. -/
def readCall : List Token → Except Fault (Call × List Token)
  | .word name :: .leftParen :: rest => readArguments ⟨name, [], []⟩ rest
  | .word _ :: rest => .error (.expected .leftParen rest.head?)
  | tokens => .error (.noName tokens.head?)

/-- The arguments of a call take at least its closing parenthesis. -/
theorem readArguments_length {call done : Call} {tokens rest : List Token}
    (read : readArguments call tokens = .ok (done, rest)) : rest.length < tokens.length := by
  fun_induction readArguments call tokens with
  | case1 => simp_all
  | case2 => simp at read
  | case3 call tokens notClosed argued after step shorter ih =>
    have := ih read
    omega
  | case4 call tokens notClosed argued after step =>
    have := readInto_length step
    simp_all
    omega
  | case5 => simp at read

/-- A call takes at least one token. -/
theorem readCall_length {call : Call} {tokens rest : List Token}
    (read : readCall tokens = .ok (call, rest)) : rest.length < tokens.length := by
  unfold readCall at read
  split at read
  · have := readArguments_length read
    simp only [List.length_cons]
    omega
  · simp at read
  · simp at read

/-- Reads the calls chained behind points, up to the end of the tokens. -/
def readTail (tokens : List Token) : Except Fault (List Call) :=
  match tokens with
  | [] => .ok []
  | .dot :: rest =>
    match read : readCall rest with
    | .error fault => .error fault
    | .ok (call, after) =>
      have : after.length < rest.length := readCall_length read
      (readTail after).map (call :: ·)
  | token :: _ => .error (.trailing token)
termination_by tokens.length

/-- Reads a chain of calls that takes all tokens. -/
def readChain (tokens : List Token) : Except Fault CallChain :=
  match readCall tokens with
  | .error fault => .error fault
  | .ok (head, rest) => (readTail rest).map (⟨head, ·⟩)

end Call

end MetricQuery
