import Mathlib.Data.List.Chain
import MetricQuery.Sql.Lexing
import MetricQuery.Sql.Printing

/-! # Reading generated text

What the lexer makes of the parts that statements are written with: fixed phrases, names and texts
in quotes, numbers and lists. Where a part ends, the lexer stands between tokens if what follows is
kept apart from the part (`Reads`, `IsApart`). So parts put together are read one after another
(`Spells.append`), and what stands in quotes makes no difference to anything else.
-/

namespace MetricQuery.Sql

namespace Lexer

/-! ## Steps -/

/-- A character that goes on with a token is taken into it. -/
theorem read_cons_of_goOn {lexer : Lexer} {c : Char} (next : Lexer)
    (goes : lexer.goOn c = some next) (rest : List Char) :
    lexer.read (c :: rest) = next.read rest := by
  rw [read, step, goes]
  simp

/-- Whether the token in front of characters ends there. -/
def EndsBefore (lexer : Lexer) (rest : List Char) : Prop :=
  ∀ c ∈ rest.head?, lexer.goOn c = none ∧ lexer.refuses c = false

/-- Between tokens a character starts one. -/
theorem step_between (c : Char) : between.step c = start c := by
  simp [step, goOn, refuses, finish]

/-- Where a token ends, reading continues as between tokens. -/
theorem read_of_endsBefore (lexer : Lexer) {ended : List Token}
    (finished : lexer.finish = some ended) {rest : List Char} (ends : lexer.EndsBefore rest) :
    lexer.read rest = (between.read rest).map (ended ++ ·) := by
  cases rest with
  | nil =>
      rw [read, finished, read, finish, Option.map_some, List.append_nil]
  | cons c rest =>
      obtain ⟨stops, accepted⟩ := ends c rfl
      rw [read, read, step_between, step, stops, accepted, finished]
      cases start c with
      | none => rfl
      | some begun => simp [Function.comp_def]

/-- Goes through characters, with the tokens that end in front of the last one. -/
def advance : Lexer → List Char → Option (Lexer × List Token)
  | lexer, [] => some (lexer, [])
  | lexer, c :: rest => (lexer.step c).bind fun next =>
    (advance next.1 rest).map fun last => (last.1, next.2 ++ last.2)

/-- What a lexer has passed it reads before what follows. -/
theorem read_append_of_advance {lexer next : Lexer} {chars : List Char} {tokens : List Token}
    (passed : lexer.advance chars = some (next, tokens)) (rest : List Char) :
    lexer.read (chars ++ rest) = (next.read rest).map (tokens ++ ·) := by
  induction chars generalizing lexer tokens with
  | nil =>
      obtain ⟨⟩ := passed
      simp
  | cons c chars ih =>
      obtain ⟨after, stepped, passed⟩ := Option.bind_eq_some_iff.mp passed
      obtain ⟨last, further, ⟨⟩⟩ := Option.map_eq_some_iff.mp passed
      rw [List.cons_append, read, stepped, Option.bind_some, ih further]
      simp [Function.comp_def]

/-! ## Tokens -/

private theorem read_word {read : List Char} {chars rest : List Char}
    (word : ∀ c ∈ chars, continuesWord c = true)
    (ends : ∀ read, (Lexer.word read).EndsBefore rest) :
    (Lexer.word read).read (chars ++ rest) =
      (between.read rest).map (.word (String.ofList (read.reverse ++ chars)) :: ·) := by
  induction chars generalizing read with
  | nil =>
      rw [List.append_nil]
      exact read_of_endsBefore _ rfl (ends read)
  | cons c chars ih =>
      obtain ⟨continues, word⟩ := List.forall_mem_cons.mp word
      rw [List.cons_append, read_cons_of_goOn (.word (c :: read)) (by simp [goOn, continues]),
        ih word]
      simp

private theorem read_number {last : Char} {before chars rest : List Char}
    (number : List.IsChain (fun last c => continuesNumber last c = true) (last :: chars))
    (ends : ∀ last before, (Lexer.number last before).EndsBefore rest) :
    (Lexer.number last before).read (chars ++ rest) = (between.read rest).map
      (.number (String.ofList (before.reverse ++ last :: chars)) :: ·) := by
  induction chars generalizing last before with
  | nil =>
      have read := read_of_endsBefore (.number last before) rfl (ends last before)
      rwa [List.reverse_cons] at read
  | cons c chars ih =>
      obtain ⟨continues, number⟩ := List.isChain_cons_cons.mp number
      rw [List.cons_append,
        read_cons_of_goOn (.number c (last :: before)) (by simp [goOn, continues]), ih number]
      simp

/-- What stands in quotes ends at a quote that is not doubled. -/
theorem read_quoted {quote : Char} (inside chars : List Char) {rest : List Char}
    (ends : quote ∉ rest.head?) :
    (Lexer.quoted quote inside).read
        ((chars.flatMap fun c => if c = quote then [c, c] else [c]) ++ quote :: rest) =
      (between.read rest).map
        (.inQuotes quote (String.ofList (inside.reverse ++ chars)) :: ·) := by
  induction chars generalizing inside with
  | nil =>
      rw [List.flatMap_nil, List.nil_append, List.append_nil,
        read_cons_of_goOn (.closing quote inside) (by simp [goOn])]
      refine read_of_endsBefore (.closing quote inside) rfl fun c first => ⟨?_, rfl⟩
      have other : c ≠ quote := fun same => ends (same ▸ first)
      simp [goOn, other]
  | cons c chars ih =>
      by_cases same : c = quote
      · subst same
        rw [List.flatMap_cons, if_pos rfl, List.append_assoc, List.cons_append, List.cons_append,
          List.nil_append, read_cons_of_goOn (.closing c inside) (by simp [goOn]),
          read_cons_of_goOn (.quoted c (c :: inside)) (by simp [goOn]), ih]
        simp
      · rw [List.flatMap_cons, if_neg same, List.append_assoc, List.cons_append, List.nil_append,
          read_cons_of_goOn (.quoted quote (c :: inside)) (by simp [goOn, same]), ih]
        simp

end Lexer

/-! ## What may follow -/

/-- Whether characters are kept apart from a word, a number or quotes in front of them. -/
def IsApart (rest : List Char) : Prop := ∀ c ∈ rest.head?, c = ' ' ∨ c = ',' ∨ c = ')'

private theorem isApart_nil : IsApart [] := nofun

/-- A blank, a comma and a closing parenthesis keep apart. -/
theorem isApart_cons {c : Char} (apart : c = ' ' ∨ c = ',' ∨ c = ')') (rest : List Char) :
    IsApart (c :: rest) := by
  rintro _ ⟨⟩
  exact apart

namespace IsApart

variable {rest : List Char}

/-- What is kept apart begins with no quote. -/
theorem not_mem_head? (apart : IsApart rest) {quote : Char} (isQuote : isQuote quote = true) :
    quote ∉ rest.head? := by
  intro first
  rcases apart quote first with rfl | rfl | rfl
  · exact nomatch isQuote
  · exact nomatch isQuote
  · exact nomatch isQuote

/-- A word ends before what is kept apart. -/
theorem endsBefore_word (apart : IsApart rest) (read : List Char) :
    (Lexer.word read).EndsBefore rest := by
  intro c first
  rcases apart c first with rfl | rfl | rfl <;> exact ⟨rfl, rfl⟩

/-- A number ends before what is kept apart. -/
theorem endsBefore_number (apart : IsApart rest) (last : Char) (before : List Char) :
    (Lexer.number last before).EndsBefore rest := by
  intro c first
  rcases apart c first with rfl | rfl | rfl <;>
    exact ⟨by simp [Lexer.goOn, continuesNumber, Char.isDigit], rfl⟩

private theorem endsBefore_mark (apart : IsApart rest) (c : Char) :
    (Lexer.mark c).EndsBefore rest := by
  intro next first
  rcases apart next first with rfl | rfl | rfl <;> exact ⟨rfl, by simp [Lexer.refuses]⟩

end IsApart

/-! ## Parts of a text -/

/-- Whether a text is read as some tokens as long as what follows it is allowed to. -/
def Reads (follows : List Char → Prop) (text : String) (tokens : List Token) : Prop :=
  ∀ rest, follows rest → Lexer.between.read (text.toList ++ rest) =
    (Lexer.between.read rest).map (tokens ++ ·)

/-- Texts read one after the other are read together where the second may follow the first. -/
theorem Reads.append {follows further : List Char → Prop} {text other : String}
    {tokens others : List Token} (first : Reads follows text tokens)
    (second : Reads further other others)
    (meets : ∀ rest, further rest → follows (other.toList ++ rest)) :
    Reads further (text ++ other) (tokens ++ others) := by
  intro rest allowed
  rw [String.toList_append, List.append_assoc, first _ (meets rest allowed), second rest allowed]
  simp [Function.comp_def]

/-- A text that needs something apart behind it is read when it stands alone. -/
theorem Reads.tokensOf {text : String} {tokens : List Token} (reads : Reads IsApart text tokens) :
    tokensOf text = some tokens := by
  have whole := reads [] isApart_nil
  simpa [Sql.tokensOf, Lexer.read, Lexer.finish] using whole

/-- Whether a text is read as tokens of which some given ones stand in quotes, and another text as
the same tokens but for what stands in the quotes. -/
def Spells (follows : List Char → Prop) (text blank : String) (quoted : List Token) : Prop :=
  ∃ tokens others, Reads follows text tokens ∧ Reads follows blank others ∧
    tokens.filter Token.isQuoted = quoted ∧ others.map Token.emptied = tokens.map Token.emptied

/-- What may be followed by anything. -/
abbrev SpellsAll : String → String → List Token → Prop := Spells fun _ => True

namespace Spells

variable {follows further : List Char → Prop} {text blank other otherBlank : String}
  {quoted others : List Token}

/-- What may be followed by more may be followed by less. -/
theorem imp (spells : Spells follows text blank quoted)
    (weaker : ∀ rest, further rest → follows rest) : Spells further text blank quoted := by
  obtain ⟨tokens, others, reads, readsBlank, same⟩ := spells
  exact ⟨tokens, others, fun rest allowed => reads rest (weaker rest allowed),
    fun rest allowed => readsBlank rest (weaker rest allowed), same⟩

/-- Texts spelled one after the other are spelled together where the second may follow the first. -/
theorem append (first : Spells follows text blank quoted)
    (second : Spells further other otherBlank others)
    (meets : ∀ rest, further rest →
      follows (other.toList ++ rest) ∧ follows (otherBlank.toList ++ rest)) :
    Spells further (text ++ other) (blank ++ otherBlank) (quoted ++ others) := by
  obtain ⟨tokens, blanks, reads, readsBlank, rfl, same⟩ := first
  obtain ⟨tokens', blanks', reads', readsBlank', rfl, same'⟩ := second
  refine ⟨tokens ++ tokens', blanks ++ blanks',
    reads.append reads' fun rest allowed => (meets rest allowed).1,
    readsBlank.append readsBlank' fun rest allowed => (meets rest allowed).2,
    List.filter_append .., ?_⟩
  rw [List.map_append, List.map_append, same, same']

/-- Anything may follow what anything may follow. -/
theorem andThen (first : SpellsAll text blank quoted)
    (second : Spells further other otherBlank others) :
    Spells further (text ++ other) (blank ++ otherBlank) (quoted ++ others) :=
  first.append second fun _ _ => ⟨trivial, trivial⟩

/-- A text without quotes is its own blank. -/
theorem same (tokens : List Token) (reads : Reads follows text tokens)
    (unquoted : tokens.any Token.isQuoted = false) : Spells follows text text [] := by
  refine ⟨tokens, tokens, reads, reads, ?_, rfl⟩
  exact List.filter_eq_nil_iff.mpr fun token member isQuoted =>
    absurd (List.any_eq_false.mp unquoted token member) (not_not_intro isQuoted)

/-- Nothing spells nothing. -/
theorem empty : Spells follows "" "" [] := same [] (fun rest _ => by simp) rfl

/-- Members of a list, with a separator between them that may follow each. -/
theorem intercalate {α : Type} (separator : String) (closed : SpellsAll separator separator [])
    (separates : ∀ rest, follows (separator.toList ++ rest)) {members : List α}
    {text blank : α → String} {quoted : α → List Token}
    (each : ∀ member ∈ members, Spells follows (text member) (blank member) (quoted member)) :
    Spells follows (separator.intercalate (members.map text))
      (separator.intercalate (members.map blank)) (members.flatMap quoted) := by
  induction members with
  | nil => exact empty
  | cons member rest ih =>
      obtain ⟨first, others⟩ := List.forall_mem_cons.mp each
      have further := ih others
      cases rest with
      | nil =>
          rw [List.flatMap_singleton]
          exact first
      | cons next rest =>
          have separated := first.append closed fun rest _ => ⟨separates rest, separates rest⟩
          rw [List.append_nil] at separated
          simp only [List.map_cons, String.intercalate_cons_cons, List.flatMap_cons] at further ⊢
          exact separated.andThen further

end Spells

/-! ## Fixed phrases -/

namespace Lexer

/-- Whether a lexer does not stand within quotes or behind them. -/
def isOutside : Lexer → Bool
  | quoted _ _ => false
  | closing _ _ => false
  | _ => true

private theorem endsBefore_of_isOutside {lexer : Lexer} (outside : lexer.isOutside = true)
    {rest : List Char} (apart : IsApart rest) : lexer.EndsBefore rest := by
  cases lexer with
  | between => exact fun _ _ => ⟨rfl, rfl⟩
  | word read => exact apart.endsBefore_word read
  | number last before => exact apart.endsBefore_number last before
  | mark c => exact apart.endsBefore_mark c
  | quoted quote inside => exact nomatch outside
  | closing quote inside => exact nomatch outside

private theorem exists_finish_of_isOutside {lexer : Lexer} (outside : lexer.isOutside = true) :
    ∃ ended, lexer.finish = some ended ∧ ended.any Token.isQuoted = false := by
  cases lexer with
  | quoted quote inside => exact nomatch outside
  | closing quote inside => exact nomatch outside
  | _ => exact ⟨_, rfl, rfl⟩

end Lexer

/-- Whether a text is made of words, numbers and symbols. -/
def isPhrase (text : String) : Bool :=
  (Lexer.between.advance text.toList).any fun last =>
    last.1.isOutside && !last.2.any Token.isQuoted

/-- Whether a text is made of words, numbers and symbols, and ends behind a symbol or a space. -/
def isClosedPhrase (text : String) : Bool :=
  (Lexer.between.advance text.toList).any fun last =>
    last.1 == .between && !last.2.any Token.isQuoted

namespace Spells

/-- A phrase of words quotes nothing. -/
theorem phrase {text : String} (isPhrase : isPhrase text = true) : Spells IsApart text text [] := by
  obtain ⟨⟨lexer, tokens⟩, passed, checked⟩ := (Option.any_eq_true ..).mp isPhrase
  obtain ⟨outside, unquoted⟩ := Bool.and_eq_true_iff.mp checked
  obtain ⟨ended, finished, further⟩ := Lexer.exists_finish_of_isOutside outside
  refine same (tokens ++ ended) (fun rest apart => ?_) ?_
  · rw [Lexer.read_append_of_advance passed,
      Lexer.read_of_endsBefore _ finished (Lexer.endsBefore_of_isOutside outside apart)]
    simp [Function.comp_def]
  · rw [List.any_append, (Bool.not_eq_true' _).mp unquoted, further]
    rfl

/-- A phrase that ends behind a symbol or a space may be followed by anything. -/
theorem closed (text : String) (isClosed : isClosedPhrase text = true) :
    SpellsAll text text [] := by
  obtain ⟨⟨lexer, tokens⟩, passed, checked⟩ := (Option.any_eq_true ..).mp isClosed
  obtain ⟨between, unquoted⟩ := Bool.and_eq_true_iff.mp checked
  obtain rfl := beq_iff_eq.mp between
  refine same tokens (fun rest _ => ?_) ((Bool.not_eq_true' _).mp unquoted)
  rw [Lexer.read_append_of_advance passed]

end Spells

/-- Whether a phrase keeps itself apart from what stands in front. -/
def beginsApart (phrase : String) : Bool :=
  phrase.toList.head?.any fun c => c == ' ' || c == ',' || c == ')'

/-- A phrase that begins apart keeps apart. -/
theorem isApart_of_beginsApart {phrase : String} (begins : beginsApart phrase = true)
    (rest : List Char) : IsApart (phrase.toList ++ rest) := by
  obtain ⟨first, isFirst, apart⟩ := (Option.any_eq_true ..).mp begins
  obtain ⟨others, chars⟩ := List.head?_eq_some_iff.mp isFirst
  rw [chars]
  exact isApart_cons (by simpa [or_assoc] using apart) _

namespace Spells

variable {follows : List Char → Prop} {text blank : String} {quoted : List Token}

/-- A text behind a phrase. -/
theorem behind (spells : Spells follows text blank quoted) (phrase : String)
    (isClosed : isClosedPhrase phrase = true) :
    Spells follows (phrase ++ text) (phrase ++ blank) quoted :=
  (closed phrase isClosed).andThen spells

/-- A text in front of a phrase. -/
theorem before (spells : Spells IsApart text blank quoted) (phrase : String)
    (begins : beginsApart phrase = true) (isClosed : isClosedPhrase phrase = true) :
    Spells follows (text ++ phrase) (blank ++ phrase) quoted := by
  have apart := isApart_of_beginsApart begins
  have spells := spells.append (closed phrase isClosed) fun rest _ => ⟨apart rest, apart rest⟩
  rw [List.append_nil] at spells
  exact spells.imp fun _ _ => trivial

/-- A text in front of a phrase that ends with a word. -/
theorem beforeWord (spells : Spells IsApart text blank quoted) (word : String)
    (begins : beginsApart word = true) (isPhrase : isPhrase word = true) :
    Spells IsApart (text ++ word) (blank ++ word) quoted := by
  have apart := isApart_of_beginsApart begins
  have spells := spells.append (phrase isPhrase) fun rest _ => ⟨apart rest, apart rest⟩
  rwa [List.append_nil] at spells

/-- A text between two phrases. -/
theorem within (spells : Spells IsApart text blank quoted) (first last : String)
    (isClosed : isClosedPhrase first = true) (begins : beginsApart last = true)
    (ends : isClosedPhrase last = true) :
    Spells follows (first ++ text ++ last) (first ++ blank ++ last) quoted :=
  (spells.behind first isClosed).before last begins ends

end Spells

/-! ## Names and texts -/

/-- A text in quotes is read as one token, unless another quote follows. -/
theorem reads_enclose {quote : Char} (marks : isQuote quote = true) (text : String) :
    Reads (quote ∉ ·.head?) (enclose quote text) [.inQuotes quote text] := by
  intro rest ends
  have opens : Lexer.start quote = some (.quoted quote [], []) := by
    rcases Bool.or_eq_true_iff.mp marks with double | single
    · rw [beq_iff_eq.mp double]
      rfl
    · rw [beq_iff_eq.mp single]
      rfl
  have inside := Lexer.read_quoted [] text.toList ends
  rw [enclose, String.toList_ofList, List.append_assoc, List.append_assoc, List.singleton_append,
    List.singleton_append, Lexer.read, Lexer.step_between, opens, Option.bind_some, inside]
  simp [Function.comp_def]

private theorem splitOn_filter_self {α : Type} [BEq α] [LawfulBEq α] (separator : α)
    (members : List α) :
    (members.filter (· == separator)).splitOn separator =
      (members.splitOn separator).map fun _ => [] := by
  induction members with
  | nil => rfl
  | cons member rest ih =>
      simp only [List.splitOn] at ih ⊢
      rw [List.splitOnP_cons_eq_if_modifyHead, List.filter_cons]
      cases same : member == separator with
      | true =>
          simp only [if_true]
          rw [List.splitOnP_cons_eq_if_modifyHead, if_pos same, ih, List.map_cons]
      | false =>
          simp only [Bool.false_eq_true, if_false]
          rw [ih]
          cases rest.splitOnP (· == separator) <;> rfl

namespace Spells

/-- A name, whatever another one stands in its place. -/
theorem identifier (name other : String) :
    Spells ('"' ∉ ·.head?) (identifier name) (identifier other) [.identifier name] :=
  ⟨[.identifier name], [.identifier other], reads_enclose rfl name, reads_enclose rfl other, rfl,
    rfl⟩

/-- An identifier spells its name in quotes. -/
theorem identifier_apart (name other : String) :
    Spells IsApart (Sql.identifier name) (Sql.identifier other) [.identifier name] :=
  (identifier name other).imp fun _ apart => apart.not_mem_head? rfl

/-- A text constant spells its text in quotes. -/
theorem textConstant (text other : String) :
    Spells IsApart (textConstant text) (textConstant other) [.text text] :=
  ⟨[.text text], [.text other],
    fun rest apart => reads_enclose rfl text rest (apart.not_mem_head? rfl),
    fun rest apart => reads_enclose rfl other rest (apart.not_mem_head? rfl), rfl, rfl⟩

/-- A table name spells its parts in quotes. -/
theorem tableName (name : String) : Spells IsApart (tableName name) (tableName (emptiedTable name))
    ((tableParts name).map Token.identifier) := by
  have parts := intercalate "." (.closed "." rfl) (fun rest => by simp)
    fun part (_ : part ∈ tableParts name) => identifier part ""
  have blank : (tableParts (emptiedTable name)).map Sql.identifier =
      (tableParts name).map fun _ => Sql.identifier "" := by
    rw [tableParts, emptiedTable, String.toList_ofList, splitOn_filter_self, tableParts]
    simp [Function.comp_def]
  rw [← blank, ← List.map_eq_flatMap] at parts
  exact parts.imp fun _ apart => apart.not_mem_head? rfl

end Spells

/-! ## Words and numbers -/

private theorem isDigit_eq_false {c : Char} (begins : beginsWord c = true) : c.isDigit = false := by
  rw [← Bool.not_eq_true]
  intro digit
  have last : c.val ≤ '9'.val := of_decide_eq_true (Bool.and_eq_true_iff.mp digit).2
  rcases Bool.or_eq_true_iff.mp begins with letter | line
  · rcases Bool.or_eq_true_iff.mp letter with upper | lower
    · have first : 'A'.val ≤ c.val := (of_decide_eq_true upper).1
      exact absurd (UInt32.le_trans first last) (by decide)
    · have first : 'a'.val ≤ c.val := of_decide_eq_true (Bool.and_eq_true_iff.mp lower).1
      exact absurd (UInt32.le_trans first last) (by decide)
  · rw [beq_iff_eq.mp line] at digit
    exact absurd digit (by decide)

/-- What words are made of is neither blank nor a quote. -/
theorem isWhitespace_eq_false {c : Char} (continues : continuesWord c = true) :
    c.isWhitespace = false ∧ isQuote c = false := by
  rw [← Bool.not_eq_true, ← Bool.not_eq_true]
  constructor
  · intro blank
    simp only [Char.isWhitespace, Bool.or_eq_true, decide_eq_true_eq] at blank
    rcases blank with ((rfl | rfl) | rfl) | rfl <;> exact nomatch continues
  · intro quote
    rcases Bool.or_eq_true_iff.mp quote with same | same <;>
      exact nomatch beq_iff_eq.mp same ▸ continues

namespace Lexer

private theorem start_of_beginsWord {c : Char} (begins : beginsWord c = true) :
    start c = some (.word [c], []) := by
  have continues : continuesWord c = true := by rw [continuesWord, begins, Bool.true_or]
  obtain ⟨blank, quote⟩ := isWhitespace_eq_false continues
  rw [start, blank, quote, begins]
  rfl

private theorem start_of_isDigit {c : Char} (digit : c.isDigit = true) :
    start c = some (.number c [], []) := by
  have continues : continuesWord c = true := by rw [continuesWord, digit, Bool.or_true]
  obtain ⟨blank, quote⟩ := isWhitespace_eq_false continues
  have word : beginsWord c = false := by
    rw [← Bool.not_eq_true]
    exact fun begins => nomatch (isDigit_eq_false begins).symm.trans digit
  rw [start, blank, quote, word, digit]
  rfl

end Lexer

namespace Spells

/-- A word quotes nothing. -/
theorem word {first : Char} {chars : List Char} (begins : beginsWord first = true)
    (continues : ∀ c ∈ chars, continuesWord c = true) :
    Spells IsApart (String.ofList (first :: chars)) (String.ofList (first :: chars)) [] := by
  refine same [.word (String.ofList (first :: chars))] (fun rest apart => ?_) rfl
  rw [String.toList_ofList, List.cons_append, Lexer.read, Lexer.step_between,
    Lexer.start_of_beginsWord begins, Option.bind_some,
    Lexer.read_word continues apart.endsBefore_word]
  simp [Function.comp_def]

/-- A plain type quotes nothing. -/
theorem plainType {type : String} (plain : isPlainType type = true) :
    Spells IsApart type type [] := by
  have words : ∀ chars ∈ type.toList.splitOn ' ',
      Spells IsApart (String.ofList chars) (String.ofList chars) [] := by
    intro chars member
    have isWord := List.all_eq_true.mp plain chars member
    cases chars with
    | nil => exact nomatch isWord
    | cons first rest =>
        obtain ⟨begins, continues⟩ := Bool.and_eq_true_iff.mp isWord
        exact word begins (List.all_eq_true.mp continues)
  have together := intercalate " " (.closed " " rfl)
    (fun rest => isApart_cons (.inl rfl) rest) words
  have whole : " ".intercalate ((type.toList.splitOn ' ').map String.ofList) = type := by
    rw [← String.toList_inj, String.toList_intercalate, List.map_map]
    simp [Function.comp_def]
  rw [whole] at together
  have none : ((type.toList.splitOn ' ').flatMap fun _ => ([] : List Token)) = [] := by simp
  rwa [none] at together

end Spells

/-! ## Numbers -/

/-- Whether characters are read as one number. -/
structure IsNumeral (chars : List Char) : Prop where
  begins : ∃ c ∈ chars.head?, c.isDigit = true
  continues : chars.IsChain fun last c => continuesNumber last c = true

/-- A numeral quotes nothing. -/
theorem Spells.numeral {chars : List Char} (numeral : IsNumeral chars) :
    Spells IsApart (String.ofList chars) (String.ofList chars) [] := by
  obtain ⟨⟨first, begins, digit⟩, continues⟩ := numeral
  obtain ⟨rest, rfl⟩ : ∃ rest, chars = first :: rest := List.head?_eq_some_iff.mp begins
  refine same [.number (String.ofList (first :: rest))] (fun behind apart => ?_) rfl
  rw [String.toList_ofList, List.cons_append, Lexer.read, Lexer.step_between,
    Lexer.start_of_isDigit digit, Option.bind_some,
    Lexer.read_number continues apart.endsBefore_number]
  simp [Function.comp_def]

/-- Digits and points go on with a number. -/
theorem isChain_cons_of_forall {chars : List Char}
    (each : ∀ c ∈ chars, c.isDigit = true ∨ c = '.') (first : Char) :
    (first :: chars).IsChain fun last c => continuesNumber last c = true := by
  induction chars generalizing first with
  | nil => exact .singleton first
  | cons next chars ih =>
      obtain ⟨here, others⟩ := List.forall_mem_cons.mp each
      refine .cons_cons ?_ (ih others next)
      rcases here with digit | rfl
      · simp [continuesNumber, digit]
      · simp [continuesNumber]

/-- Digits and points behind a digit are a numeral. -/
theorem isNumeral_cons {first : Char} {chars : List Char} (digit : first.isDigit = true)
    (each : ∀ c ∈ chars, c.isDigit = true ∨ c = '.') : IsNumeral (first :: chars) :=
  ⟨⟨first, rfl, digit⟩, isChain_cons_of_forall each first⟩

/-- A number is written in digits, at least one. -/
theorem exists_toDigits (number : Nat) : ∃ first rest, Nat.toDigits 10 number = first :: rest ∧
    first.isDigit = true ∧ ∀ c ∈ rest, c.isDigit = true := by
  obtain ⟨first, rest, digits⟩ := List.exists_cons_of_ne_nil (Nat.toDigits_ne_nil (n := number))
  have digit : ∀ c ∈ first :: rest, c.isDigit = true := fun c member =>
    Nat.isDigit_of_mem_toDigits (b := 10) (by decide) (by decide) (digits ▸ member)
  exact ⟨first, rest, digits, List.forall_mem_cons.mp digit⟩

/-- Zeros are digits. -/
theorem isDigit_of_mem_zeros {count : Nat} {c : Char} (member : c ∈ Number.zeros count) :
    c.isDigit = true := List.eq_of_mem_replicate member ▸ rfl

private theorem isNumeral_positional {first : Char} {rest : List Char}
    (digit : first.isDigit = true)
    (digits : ∀ c ∈ rest, c.isDigit = true) (leading : Int) :
    IsNumeral (Number.positional (first :: rest) leading) := by
  unfold Number.positional
  split
  · rw [List.cons_append, List.cons_append]
    refine isNumeral_cons rfl fun c member => ?_
    simp only [List.mem_cons, List.mem_append] at member
    rcases member with rfl | zero | rfl | later
    · exact .inr rfl
    · exact .inl (isDigit_of_mem_zeros zero)
    · exact .inl digit
    · exact .inl (digits c later)
  · dsimp only
    rw [List.take_succ_cons, List.cons_append, List.cons_append]
    refine isNumeral_cons digit fun c member => ?_
    simp only [List.mem_cons, List.mem_append] at member
    rcases member with (front | zero) | rfl | behind
    · exact .inl (digits c (List.mem_of_mem_take front))
    · exact .inl (isDigit_of_mem_zeros zero)
    · exact .inr rfl
    · split at behind
      · rw [List.mem_singleton.mp behind]
        exact .inl rfl
      · rw [List.drop_succ_cons] at behind
        exact .inl (digits c (List.mem_of_mem_drop behind))

private theorem isNumeral_scientific {first : Char} {rest : List Char}
    (digit : first.isDigit = true)
    (digits : ∀ c ∈ rest, c.isDigit = true) (leading : Int) :
    IsNumeral (Number.scientific (first :: rest) leading) := by
  obtain ⟨least, others, exponent, isDigit, areDigits⟩ := exists_toDigits leading.natAbs
  have behind : ∀ c ∈ (if rest.isEmpty then [] else '.' :: rest), c.isDigit = true ∨ c = '.' := by
    intro c member
    split at member
    · exact nomatch member
    · rcases List.mem_cons.mp member with rfl | later
      · exact .inr rfl
      · exact .inl (digits c later)
  have signed : ∀ sign, continuesNumber 'e' sign = true →
      ('e' :: sign :: least :: others).IsChain fun last c => continuesNumber last c = true := by
    intro sign goesOn
    refine .cons_cons goesOn (isChain_cons_of_forall (fun c member => .inl ?_) sign)
    rcases List.mem_cons.mp member with rfl | later
    · exact isDigit
    · exact areDigits c later
  unfold Number.scientific
  rw [exponent]
  refine ⟨⟨first, rfl, digit⟩, List.isChain_append.mpr ⟨?_, signed _ ?_, ?_⟩⟩
  · exact isChain_cons_of_forall behind first
  · split <;> rfl
  · rintro last _ _ ⟨⟩
    simp [continuesNumber]

private theorem isNumeral_magnitudeText (magnitude : Binary64) :
    IsNumeral (Number.magnitudeText magnitude) := by
  unfold Number.magnitudeText
  split
  · refine isNumeral_cons rfl (List.forall_mem_cons.mpr ⟨.inr rfl, ?_⟩)
    exact List.forall_mem_singleton.mpr (.inl rfl)
  · obtain ⟨first, rest, digits, digit, others⟩ := exists_toDigits magnitude.shortest.digits
    simp only [digits]
    split
    · exact isNumeral_positional digit others _
    · exact isNumeral_scientific digit others _

namespace Spells

/-- A number in decimals quotes nothing. -/
theorem decimal (number : Nat) :
    Spells IsApart (Text.decimal number) (Text.decimal number) [] := by
  obtain ⟨first, rest, digits, digit, others⟩ := exists_toDigits number
  refine numeral ?_
  rw [digits]
  exact isNumeral_cons digit fun c member => .inl (others c member)

/-- A minus in front of a digit is a symbol. -/
theorem minus : Spells (∃ c ∈ ·.head?, c.isDigit = true) "-" "-" [] := by
  refine same [.symbol '-'] (fun rest first => ?_) rfl
  obtain ⟨digit, first, isDigit⟩ := first
  have passed : Lexer.between.advance "-".toList = some (.mark '-', []) := by decide
  rw [Lexer.read_append_of_advance passed, Lexer.read_of_endsBefore (.mark '-') rfl]
  · simp [Function.comp_def]
  · intro c here
    obtain rfl := Option.mem_unique here first
    refine ⟨rfl, ?_⟩
    have other : c ≠ '-' := by
      rintro rfl
      exact nomatch isDigit
    simp [Lexer.refuses, other]

/-- A number that may have a minus in front. -/
theorem signed {chars : List Char} (isNumeral : IsNumeral chars) (isNegative : Bool) :
    Spells IsApart ((if isNegative then "-" else "") ++ String.ofList chars)
      ((if isNegative then "-" else "") ++ String.ofList chars) [] := by
  cases isNegative with
  | false =>
      rw [if_neg Bool.false_ne_true, String.empty_append]
      exact numeral isNumeral
  | true =>
      obtain ⟨c, first, digit⟩ := isNumeral.begins
      have begins : ∀ rest, ∃ c ∈ ((String.ofList chars).toList ++ rest).head?,
          c.isDigit = true := by
        intro rest
        refine ⟨c, ?_, digit⟩
        rw [String.toList_ofList, List.head?_append, Option.mem_def.mp first]
        rfl
      exact minus.append (numeral isNumeral) fun rest _ => ⟨begins rest, begins rest⟩

/-- A number quotes nothing. -/
theorem numberText (number : Number) : Spells IsApart number.text number.text [] := by
  cases number with
  | integer value =>
      obtain ⟨first, rest, digits, digit, others⟩ := exists_toDigits value.natAbs
      have spells := signed (digits ▸ isNumeral_cons digit fun c member => .inl (others c member))
        (decide (value < 0))
      simpa [Number.text, Text.decimal] using spells
  | float isNegative magnitude => exact signed (isNumeral_magnitudeText magnitude) isNegative

end Spells

end MetricQuery.Sql
