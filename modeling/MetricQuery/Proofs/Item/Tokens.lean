import Mathlib.Data.List.Chain
import Mathlib.Data.List.Forall2
import Mathlib.Data.List.TakeWhile
import MetricQuery.Item.Token
import MetricQuery.Proofs.Failing

/-! # Tokens in writing

What texts a text is cut into tokens from: tokens are written one behind the other, quoted texts in
either sort of quotes that does not occur in them, with any blanks around
(`Token.renders_of_scanFrom`). Such a text is cut into the tokens again unless two words would run
together (`Token.scanFrom_of_renders`).
-/

namespace MetricQuery

namespace Token

private theorem isBlank_of_punctuation? {c : Char} {token : Token}
    (isMark : punctuation? c = some token) :
    Text.isBlank c = false := by
  unfold punctuation? at isMark
  split at isMark <;> first | decide | exact nomatch isMark

private theorem isBlank_of_isQuote {c : Char} (isQuote : isQuote c = true) :
    Text.isBlank c = false ∧ punctuation? c = none := by
  rcases (Bool.or_eq_true _ _).mp isQuote with same | same
  · obtain rfl := beq_iff_eq.mp same
    decide
  · obtain rfl := beq_iff_eq.mp same
    decide

/-- Characters of words have no other meaning. -/
theorem of_isWordChar {c : Char} (isChar : isWordChar c = true) :
    Text.isBlank c = false ∧ punctuation? c = none ∧ isQuote c = false := by
  have bounds : 48 ≤ c.toNat ∧ c.toNat ≤ 122 := by
    have isChar : (decide (c.val ≥ 'A'.val ∧ c.val ≤ 'Z'.val) ||
        decide (c.val ≥ 'a'.val) && decide (c.val ≤ 'z'.val) ||
        decide (c.val ≥ '0'.val) && decide (c.val ≤ '9'.val) || c == '_') = true := isChar
    simp only [Bool.or_eq_true, Bool.and_eq_true, decide_eq_true_eq, beq_iff_eq,
      UInt32.le_iff_toNat_le, ge_iff_le] at isChar
    rcases isChar with ((⟨least, most⟩ | ⟨least, most⟩) | ⟨least, most⟩) | rfl
    · exact ⟨Nat.le_trans (by decide) least, Nat.le_trans most (by decide)⟩
    · exact ⟨Nat.le_trans (by decide) least, Nat.le_trans most (by decide)⟩
    · exact ⟨Nat.le_trans (by decide) least, Nat.le_trans most (by decide)⟩
    · decide
  refine ⟨?_, ?_, ?_⟩
  · simp only [Text.isBlank, Bool.or_eq_false_iff, Bool.and_eq_false_iff, decide_eq_false_iff_not,
      beq_eq_false_iff_ne]
    omega
  · cases isMark : punctuation? c with
    | none => rfl
    | some token =>
        unfold punctuation? at isMark
        split at isMark <;> first | exact absurd isChar (by decide) | cases isMark
  · refine Bool.eq_false_iff.mpr fun isQuote => ?_
    rcases (Bool.or_eq_true _ _).mp isQuote with same | same
    · obtain rfl := beq_iff_eq.mp same
      exact absurd isChar (by decide)
    · obtain rfl := beq_iff_eq.mp same
      exact absurd isChar (by decide)

/-- A quoted text ends at the first quote of its sort. -/
theorem splitAtQuote_eq_some_iff {quote : Char} {chars inside rest : List Char} :
    splitAtQuote quote chars = some (inside, rest) ↔
      chars = inside ++ quote :: rest ∧ quote ∉ inside := by
  induction chars generalizing inside with
  | nil => exact ⟨by rintro ⟨⟩, fun found => by simp at found⟩
  | cons c chars ih =>
      rw [splitAtQuote]
      by_cases closes : c = quote
      · subst closes
        rw [if_pos rfl, Option.some.injEq, Prod.mk.injEq]
        constructor
        · rintro ⟨rfl, rfl⟩
          exact ⟨rfl, List.not_mem_nil⟩
        · rintro ⟨same, absent⟩
          cases inside with
          | nil => exact ⟨rfl, (List.cons.inj same).2⟩
          | cons d inside =>
              obtain ⟨rfl, _⟩ := List.cons.inj same
              exact (absent List.mem_cons_self).elim
      · rw [if_neg closes, Option.map_eq_some_iff]
        constructor
        · rintro ⟨⟨front, behind⟩, found, ⟨⟩⟩
          obtain ⟨rfl, absent⟩ := ih.mp found
          exact ⟨rfl, List.not_mem_cons_of_ne_of_not_mem (Ne.symm closes) absent⟩
        · rintro ⟨same, absent⟩
          cases inside with
          | nil => exact (closes (List.cons.inj same).1).elim
          | cons d inside =>
              obtain ⟨rfl, behind⟩ := List.cons.inj same
              exact ⟨(inside, rest), ih.mpr ⟨behind, List.not_mem_of_not_mem_cons absent⟩, rfl⟩

/-- Whether a name is a word. -/
def IsWord (name : String) : Prop := name ≠ "" ∧ name.toList.all isWordChar = true

instance (name : String) : Decidable (IsWord name) := inferInstanceAs (Decidable (_ ∧ _))

/-- Whether characters are tokens one behind the other, with any blanks around. -/
inductive Renders : List Token → List Char → Prop where
  | nil : Renders [] []
  | blank {c : Char} {tokens : List Token} {chars : List Char} (isBlank : Text.isBlank c = true)
      (rest : Renders tokens chars) : Renders tokens (c :: chars)
  | mark {c : Char} {token : Token} {tokens : List Token} {chars : List Char}
      (isMark : punctuation? c = some token) (rest : Renders tokens chars) :
      Renders (token :: tokens) (c :: chars)
  /-- A text stands in quotes of a sort that does not occur in it. -/
  | text {quote : Char} {text : String} {tokens : List Token} {chars : List Char}
      (isQuote : isQuote quote = true) (absent : quote ∉ text.toList)
      (rest : Renders tokens chars) :
      Renders (.text text :: tokens) (quote :: (text.toList ++ quote :: chars))
  | word {name : String} {tokens : List Token} {chars : List Char} (isWord : IsWord name)
      (rest : Renders tokens chars) : Renders (.word name :: tokens) (name.toList ++ chars)

namespace Renders

variable {tokens others : List Token} {chars later : List Char}

/-- Two renderings, one after the other, render both. -/
theorem append (renders : Renders tokens chars) (further : Renders others later) :
    Renders (tokens ++ others) (chars ++ later) := by
  induction renders with
  | nil => exact further
  | blank isBlank _ ih => exact .blank isBlank ih
  | mark isMark _ ih => exact .mark isMark ih
  | text isQuote absent _ ih =>
      rw [List.cons_append, List.cons_append, List.append_assoc, List.cons_append]
      exact .text isQuote absent ih
  | word isWord _ ih =>
      rw [List.cons_append, List.append_assoc]
      exact .word isWord ih

/-- A text in single quotes. -/
theorem named {inside : String} (unquoted : '\'' ∉ inside.toList) :
    Renders [.text inside] (Text.named inside).toList := by
  rw [Text.named, String.toList_append, String.toList_append, List.append_assoc]
  exact .text rfl unquoted .nil

/-- A word is rendered as itself. -/
theorem ofWord {name : String} (isWord : IsWord name) : Renders [.word name] name.toList := by
  have renders := Renders.word isWord .nil
  rwa [List.append_nil] at renders

/-- Pieces with commas between them render their tokens with commas between them. -/
theorem intercalate {pieces : List String} {parts : List (List Token)}
    (each : List.Forall₂ (fun piece part => Renders part (String.toList piece)) pieces parts) :
    Renders ([Token.comma].intercalate parts) (String.intercalate ", " pieces).toList := by
  induction each with
  | nil => exact .nil
  | @cons piece part pieces parts first rest ih =>
      cases rest with
      | nil => rwa [String.intercalate_singleton, List.intercalate_singleton]
      | cons second rest =>
          rw [String.intercalate_cons_cons, List.intercalate_cons_cons, String.toList_append,
            String.toList_append, List.append_assoc, List.append_assoc]
          exact first.append (.mark rfl (.blank rfl ih))

end Renders

/-- Whatever is cut into tokens renders them. -/
theorem renders_of_scanFrom {place : Nat} {chars : List Char} {tokens : List Token}
    (ok : scanFrom place chars = .ok tokens) : Renders tokens chars := by
  fun_induction scanFrom place chars generalizing tokens with
  | case1 =>
      obtain rfl := Except.ok.inj ok
      exact .nil
  | case2 place c rest isBlank ih => exact .blank isBlank (ih ok)
  | case3 place c rest shown token isMark ih =>
      obtain ⟨others, scanned, rfl⟩ := map_eq_ok.mp ok
      exact .mark isMark (ih scanned)
  | case4 => exact nomatch ok
  | case5 place c rest shown noMark isQuote inside after found =>
      rename_i ih
      obtain ⟨others, scanned, rfl⟩ := map_eq_ok.mp ok
      obtain ⟨rfl, absent⟩ := splitAtQuote_eq_some_iff.mp found
      have absent : c ∉ (String.ofList inside).toList := by rwa [String.toList_ofList]
      have renders := Renders.text isQuote absent (ih scanned)
      rwa [String.toList_ofList] at renders
  | case6 place c rest shown noMark noQuote isChar tail =>
      rename_i ih
      obtain ⟨others, scanned, rfl⟩ := map_eq_ok.mp ok
      have isWord : IsWord (String.ofList (c :: tail)) := by
        refine ⟨fun empty => ?_, ?_⟩
        · have none := congrArg String.toList empty
          rw [String.toList_ofList] at none
          exact nomatch none
        · rw [String.toList_ofList, List.all_cons, isChar]
          exact List.all_takeWhile
      have renders := Renders.word isWord (ih scanned)
      rwa [String.toList_ofList, List.cons_append, List.takeWhile_append_dropWhile] at renders
  | case7 => exact nomatch ok

/-- Whether a token is a word or a number, which needs something between it and the next one. -/
def isWord : Token → Bool
  | word _ => true
  | _ => false

/-- Whether no two words stand side by side. -/
def IsDivided (tokens : List Token) : Prop :=
  tokens.IsChain fun first second => first.isWord = true → second.isWord = false

/-- What renders tokens begins like a word only where the tokens begin with one. -/
theorem isWordChar_of_renders {tokens : List Token} {chars : List Char}
    (renders : Renders tokens chars) (other : ∀ token ∈ tokens.head?, token.isWord = false) :
    ∀ c ∈ chars.head?, isWordChar c = false := by
  intro c first
  refine Bool.eq_false_iff.mpr fun isChar => ?_
  obtain ⟨shown, noMark, noQuote⟩ := of_isWordChar isChar
  cases renders with
  | nil => exact nomatch first
  | blank isBlank _ =>
      obtain rfl := Option.some.inj first
      exact nomatch shown.symm.trans isBlank
  | mark isMark _ =>
      obtain rfl := Option.some.inj first
      exact nomatch noMark.symm.trans isMark
  | text isQuote _ _ =>
      obtain rfl := Option.some.inj first
      exact nomatch noQuote.symm.trans isQuote
  | word _ _ => exact nomatch other _ rfl

private theorem takeWhile_isWordChar {name rest : List Char} (chars : name.all isWordChar = true)
    (ends : ∀ c ∈ rest.head?, isWordChar c = false) :
    (name ++ rest).takeWhile isWordChar = name ∧ (name ++ rest).dropWhile isWordChar = rest := by
  have isChar := List.all_eq_true.mp chars
  rw [List.takeWhile_append_of_pos isChar, List.dropWhile_append_of_pos isChar]
  cases rest with
  | nil => exact ⟨List.append_nil name, rfl⟩
  | cons c rest =>
      have ends : ¬ isWordChar c = true := Bool.eq_false_iff.mp (ends c rfl)
      rw [List.takeWhile_cons_of_neg ends, List.dropWhile_cons_of_neg ends, List.append_nil]
      exact ⟨rfl, rfl⟩

/-- What renders tokens is cut into them if no words run together. -/
theorem scanFrom_of_renders {tokens : List Token} {chars : List Char}
    (renders : Renders tokens chars) (divided : IsDivided tokens) (place : Nat) :
    scanFrom place chars = .ok tokens := by
  induction renders generalizing place with
  | nil => rw [scanFrom.eq_def]
  | blank isBlank _ ih =>
      rw [scanFrom.eq_def]
      exact (if_pos isBlank).trans (ih divided _)
  | mark isMark _ ih =>
      rw [scanFrom.eq_def]
      simp only [isBlank_of_punctuation? isMark, isMark, ih (List.IsChain.tail divided),
        Bool.false_eq_true, if_false]
      rfl
  | @text quote inside tokens chars isQuote absent _ ih =>
      obtain ⟨shown, noMark⟩ := isBlank_of_isQuote isQuote
      have closes : splitAtQuote quote (inside.toList ++ quote :: chars) =
          some (inside.toList, chars) := splitAtQuote_eq_some_iff.mpr ⟨rfl, absent⟩
      rw [scanFrom.eq_def]
      simp only [shown, noMark, isQuote, Bool.false_eq_true, if_false, if_true]
      split
      · rename_i none
        cases none.symm.trans closes
      · rename_i found
        obtain ⟨⟩ := found.symm.trans closes
        rw [ih (List.IsChain.tail divided), String.ofList_toList]
        rfl
  | @word name tokens chars isWord renders ih =>
      have ends := isWordChar_of_renders renders fun other first =>
        (List.isChain_cons.mp divided).1 other first rfl
      obtain ⟨nonempty, letters⟩ := isWord
      obtain ⟨first, later, same⟩ := List.exists_cons_of_ne_nil fun none =>
        nonempty (String.toList_eq_nil_iff.mp none)
      have back : String.ofList (first :: later) = name := by rw [← same, String.ofList_toList]
      rw [same] at letters
      obtain ⟨isFirst, letters⟩ := (Bool.and_eq_true _ _).mp (List.all_cons ▸ letters)
      obtain ⟨shown, noMark, noQuote⟩ := of_isWordChar isFirst
      obtain ⟨inside, after⟩ := takeWhile_isWordChar letters ends
      rw [same, List.cons_append, scanFrom.eq_def]
      simp only [shown, noMark, noQuote, isFirst, Bool.false_eq_true, if_false, if_true, inside,
        after, ih (List.IsChain.tail divided), back]
      rfl

end Token

end MetricQuery
