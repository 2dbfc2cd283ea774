import MetricQuery.Proofs.Item.Grammar

/-! # Calls in writing

A call is written in the grammar of calls (`Call.renders_written`), if its names are words and its
texts do without the quote that they are written with.
-/

namespace MetricQuery

open Token (IsWord Listed)

/-- Pieces with commas between them are a list. -/
theorem Token.listed_intercalate (pieces : List (List Token)) :
    Listed pieces ([Token.comma].intercalate pieces) := by
  induction pieces with
  | nil => exact .nil
  | cons piece pieces ih =>
      cases pieces with
      | nil =>
          rw [List.intercalate_singleton]
          exact .last piece
      | cons second pieces =>
          rw [List.intercalate_cons_cons, List.append_assoc]
          exact .cons piece ih

/-! ## Arguments -/

namespace Argument

/-- An argument as users write it. -/
def written : Argument → String
  | .text inside => Text.named inside
  | .list texts => Text.listOf (texts.map Text.named)
  | .flag true => "True"
  | .flag false => "False"

/-- The tokens an argument is written in. -/
def tokens : Argument → List Token
  | .text inside => [.text inside]
  | .list texts =>
    .leftBracket :: ([Token.comma].intercalate (texts.map fun inside => [.text inside]) ++
      [.rightBracket])
  | .flag true => [.word "True"]
  | .flag false => [.word "False"]

/-- Whether the texts of an argument do without the quote that they are written with. -/
def IsUnquoted : Argument → Prop
  | .text inside => '\'' ∉ inside.toList
  | .list texts => ∀ inside ∈ texts, '\'' ∉ inside.toList
  | .flag _ => True

/-- The tokens an argument is written in show it. -/
theorem shows_tokens (argument : Argument) : argument.Shows argument.tokens := by
  match argument with
  | .text inside => exact .text inside
  | .list texts => exact .list (Token.listed_intercalate _)
  | .flag true => exact .true
  | .flag false => exact .false

/-- An argument without quotes is written as its tokens render. -/
theorem renders_written {argument : Argument} (unquoted : argument.IsUnquoted) :
    Token.Renders argument.tokens argument.written.toList := by
  match argument with
  | .text inside => exact .named unquoted
  | .list texts =>
      have each : List.Forall₂ (fun piece part => Token.Renders part (String.toList piece))
          (texts.map Text.named) (texts.map fun inside => [Token.text inside]) := by
        rw [List.forall₂_map_left_iff, List.forall₂_map_right_iff, List.forall₂_same]
        exact fun inside member => .named (unquoted inside member)
      rw [written, tokens, Text.listOf, String.toList_append, String.toList_append]
      exact .mark rfl ((Token.Renders.intercalate each).append (.mark rfl .nil))
  | .flag true => exact .ofWord (by decide)
  | .flag false => exact .ofWord (by decide)

end Argument

/-! ## Calls -/

namespace Call

/-- A named argument as users write it. -/
def writtenKeyword (keyword : String × Argument) : String := keyword.1 ++ "=" ++ keyword.2.written

/-- A call as users write it. -/
def written (call : Call) : String :=
  call.name ++ "(" ++ String.intercalate ", "
    (call.positional.map Argument.written ++ call.keyword.map writtenKeyword) ++ ")"

/-- The tokens a keyword argument is written in. -/
def keywordTokens (keyword : String × Argument) : List Token :=
  .word keyword.1 :: .equals :: keyword.2.tokens

/-- The tokens a call is written in. -/
def tokens (call : Call) : List Token :=
  .word call.name :: .leftParen :: ([Token.comma].intercalate
    (call.positional.map Argument.tokens ++ call.keyword.map keywordTokens) ++ [.rightParen])

/-- Whether the names in a call are words, and its texts do without the quote that they are written
with. -/
structure IsPlain (call : Call) : Prop where
  name : IsWord call.name
  positional : ∀ argument ∈ call.positional, argument.IsUnquoted
  keyword : ∀ keyword ∈ call.keyword, IsWord keyword.1 ∧ keyword.2.IsUnquoted

/-- The tokens a call is written in show it. -/
theorem shows_tokens (call : Call) : call.Shows call.tokens := by
  refine .mk call.name ⟨call.positional.map Argument.tokens, call.keyword.map keywordTokens, ?_, ?_,
    Token.listed_intercalate _⟩
  · rw [List.forall₂_map_right_iff, List.forall₂_same]
    exact fun argument _ => argument.shows_tokens
  · rw [List.forall₂_map_right_iff, List.forall₂_same]
    exact fun keyword _ => .mk keyword.1 keyword.2.shows_tokens

private theorem renders_tokens {call : Call} (plain : call.IsPlain) :
    Token.Renders call.tokens call.written.toList := by
  have each : List.Forall₂ (fun piece part => Token.Renders part (String.toList piece))
      (call.positional.map Argument.written ++ call.keyword.map writtenKeyword)
      (call.positional.map Argument.tokens ++ call.keyword.map keywordTokens) := by
    refine List.rel_append ?_ ?_
    · rw [List.forall₂_map_left_iff, List.forall₂_map_right_iff, List.forall₂_same]
      exact fun argument member => Argument.renders_written (plain.positional argument member)
    · rw [List.forall₂_map_left_iff, List.forall₂_map_right_iff, List.forall₂_same]
      intro keyword member
      obtain ⟨isWord, unquoted⟩ := plain.keyword keyword member
      rw [writtenKeyword, String.toList_append, String.toList_append, List.append_assoc]
      exact .word isWord (.mark rfl (Argument.renders_written unquoted))
  rw [written, String.toList_append, String.toList_append, String.toList_append, List.append_assoc,
    List.append_assoc]
  exact .word plain.name (.mark rfl ((Token.Renders.intercalate each).append (.mark rfl .nil)))

/-- A call in writing is the chain of this one call. -/
theorem renders_written {call : Call} (plain : call.IsPlain) :
    CallChain.Renders ⟨call, []⟩ call.written := by
  have shows : CallChain.Shows ⟨call, []⟩ (call.tokens ++ [].flatMap (Token.dot :: ·)) :=
    .mk call.shows_tokens .nil
  rw [List.flatMap_nil, List.append_nil] at shows
  exact ⟨call.tokens, shows, renders_tokens plain⟩

end Call

end MetricQuery
