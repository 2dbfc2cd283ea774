import Mathlib.Data.List.DropRight
import Mathlib.Data.List.Infix
import MetricQuery.Item.DunderedName
import MetricQuery.Proofs.Item.Tokens

/-! # Plain names

Names that can be told from what stands around them in a dundered name: joined by separators, such
names are found again (`DunderedName.read_joinSegments`).
-/

namespace MetricQuery

/-- A grain is found by its own name. -/
@[simp]
theorem Grain.ofName?_name (grain : Grain) : ofName? grain.name = some grain := by
  cases grain <;> decide

/-- A date part is found by its own name. -/
@[simp]
theorem DatePart.ofName?_name (part : DatePart) : ofName? part.name = some part := by
  cases part <;> decide

private theorem Text.trim_of_visible {text : String}
    (visible : ∀ c ∈ text.toList, Text.isBlank c = false) : Text.trim text = text := by
  have keeps : ∀ {chars : List Char}, (∀ c ∈ chars, Text.isBlank c = false) →
      chars.dropWhile Text.isBlank = chars := by
    intro chars visible
    cases chars with
    | nil => rfl
    | cons c rest =>
        exact List.dropWhile_cons_of_neg (Bool.eq_false_iff.mp (visible c List.mem_cons_self))
  rw [trim, trimChars, keeps visible, keeps fun c member => visible c (List.mem_reverse.mp member),
    List.reverse_reverse, String.ofList_toList]

/-- Trimming twice is trimming once. -/
theorem Text.trim_trim (text : String) : Text.trim (Text.trim text) = Text.trim text := by
  have twice : ∀ chars, Text.trimChars (Text.trimChars chars) = Text.trimChars chars := by
    intro chars
    have visible : (List.rdropWhile isBlank (chars.dropWhile isBlank)).dropWhile isBlank =
        List.rdropWhile isBlank (chars.dropWhile isBlank) := by
      refine List.dropWhile_eq_self_iff.mpr fun some => ?_
      have kept := List.rdropWhile_prefix isBlank (chars.dropWhile isBlank)
      rw [kept.getElem some]
      exact List.dropWhile_get_zero_not isBlank chars (some.trans_le kept.length_le)
    exact (congrArg (List.rdropWhile isBlank) visible).trans (List.rdropWhile_idempotent ..)
  rw [trim, trim, String.toList_ofList, twice]

namespace DunderedName

/-- Whether a name stays a segment of its own between separators. It may begin with an underscore,
since names are cut from the left. -/
structure IsSegment (name : String) : Prop where
  nonempty : name ≠ ""
  chars : name.toList.all isSegmentChar = true
  undivided : ¬ ['_', '_'] <:+: name.toList
  ends : name.toList.getLast? ≠ some '_'

/-- Whether separators keep a name apart from what stands around it, whatever its characters. -/
structure IsApart (name : String) : Prop where
  undivided : ¬ ['_', '_'] <:+: name.toList
  ends : name.toList.getLast? ≠ some '_'

/-- A segment is kept apart from its neighbours by the separator. -/
theorem IsSegment.isApart {name : String} (isSegment : IsSegment name) : IsApart name :=
  ⟨isSegment.undivided, isSegment.ends⟩

/-- Whether a name can stand at the end of a dundered name. It may end in an underscore. -/
structure IsLast (name : String) : Prop where
  nonempty : name ≠ ""
  chars : name.toList.all isSegmentChar = true
  undivided : ¬ ['_', '_'] <:+: name.toList

/-- A segment may be the last one. -/
theorem IsSegment.isLast {name : String} (isSegment : IsSegment name) : IsLast name :=
  ⟨isSegment.nonempty, isSegment.chars, isSegment.undivided⟩

/-- The characters of segments are no quotes. -/
theorem unquoted_of_chars {name : String} (chars : name.toList.all isSegmentChar = true) :
    '\'' ∉ name.toList := fun member =>
  absurd (List.all_eq_true.mp chars '\'' member) (by decide)

/-- Whether a name stays the name of an element behind links: it is neither a grain nor a date
part. -/
structure IsPlain (name : String) : Prop extends IsSegment name where
  noGrain : Grain.ofName? name = none
  noPart : partOf? name = none

instance (name : String) : Decidable (IsSegment name) :=
  decidable_of_iff (name ≠ "" ∧ name.toList.all isSegmentChar = true ∧
      ¬ ['_', '_'] <:+: name.toList ∧ name.toList.getLast? ≠ some '_')
    ⟨fun ⟨nonempty, chars, undivided, ends⟩ => ⟨nonempty, chars, undivided, ends⟩,
      fun ⟨nonempty, chars, undivided, ends⟩ => ⟨nonempty, chars, undivided, ends⟩⟩

instance (name : String) : Decidable (IsPlain name) :=
  decidable_of_iff (IsSegment name ∧ Grain.ofName? name = none ∧ partOf? name = none)
    ⟨fun ⟨isSegment, noGrain, noPart⟩ => ⟨isSegment, noGrain, noPart⟩,
      fun plain => ⟨plain.toIsSegment, plain.noGrain, plain.noPart⟩⟩

/-! ## Cutting names -/

/-- A character that begins no separator belongs to the first segment. -/
theorem splitChars_cons {c : Char} {rest segment : List Char} {segments : List (List Char)}
    (apart : c = '_' → rest.head? ≠ some '_') (split : splitChars rest = segment :: segments) :
    splitChars (c :: rest) = (c :: segment) :: segments := by
  rw [splitChars, split]
  rintro others rfl rfl
  exact apart rfl rfl

private theorem splitChars_of_undivided {segment : List Char}
    (undivided : ¬ ['_', '_'] <:+: segment) :
    splitChars segment = [segment] := by
  induction segment with
  | nil => rfl
  | cons c segment ih =>
      refine splitChars_cons ?_ (ih fun inside => undivided (List.infix_cons inside))
      rintro rfl again
      obtain ⟨rest, rfl⟩ := List.head?_eq_some_iff.mp again
      exact undivided ⟨[], rest, rfl⟩

/-- A segment ends at the first separator. -/
theorem splitChars_append {segment : List Char} (undivided : ¬ ['_', '_'] <:+: segment)
    (ends : segment.getLast? ≠ some '_') (rest : List Char) :
    splitChars (segment ++ '_' :: '_' :: rest) = segment :: splitChars rest := by
  induction segment with
  | nil => rfl
  | cons c segment ih =>
      refine splitChars_cons ?_ ?_
      · rintro rfl again
        cases segment with
        | nil => exact ends rfl
        | cons d segment =>
            obtain rfl := Option.some.inj again
            exact undivided ⟨[], segment, rfl⟩
      · refine ih (fun inside => undivided (List.infix_cons inside)) ?_
        cases segment with
        | nil => nofun
        | cons d segment => rwa [List.getLast?_cons_cons] at ends

/-- Names that separators keep apart are found again in front of a last one, which may end in an
underscore. -/
theorem segments_joinSegments_concat {names : List String} {last : String}
    (each : ∀ name ∈ names, IsApart name) (undivided : ¬ ['_', '_'] <:+: last.toList) :
    segments (joinSegments (names ++ [last])) = names ++ [last] := by
  have split : splitChars (joinSegments (names ++ [last])).toList =
      (names ++ [last]).map String.toList := by
    induction names with
    | nil =>
        rw [List.nil_append, joinSegments, String.intercalate_singleton]
        exact splitChars_of_undivided undivided
    | cons name names ih =>
        have isApart := each name List.mem_cons_self
        have ih := ih fun other among => each other (.tail _ among)
        obtain ⟨second, rest, same⟩ := List.exists_cons_of_ne_nil (List.concat_ne_nil last names)
        rw [same] at ih
        rw [List.cons_append, same]
        rw [joinSegments, String.intercalate_cons_cons, String.toList_append,
          String.toList_append, List.append_assoc]
        exact (splitChars_append isApart.undivided isApart.ends _).trans (congrArg (_ :: ·) ih)
  rw [segments, split, List.map_map]
  exact (List.map_congr_left fun name _ => String.ofList_toList).trans (List.map_id _)

/-- Names that separators keep apart are found again between them. -/
theorem segments_joinSegments_of_isApart {names : List String} (some : names ≠ [])
    (each : ∀ name ∈ names, IsApart name) : segments (joinSegments names) = names := by
  rw [← List.dropLast_concat_getLast some]
  exact segments_joinSegments_concat
    (fun name among => each name (List.dropLast_subset _ among))
    (each _ (List.getLast_mem some)).undivided

/-- A text is joined from names that separators keep apart in one way. -/
theorem joinSegments_inj {names others : List String} (some : names ≠ []) (somewhat : others ≠ [])
    (each : ∀ name ∈ names, IsApart name) (every : ∀ name ∈ others, IsApart name)
    (same : joinSegments names = joinSegments others) : names = others := by
  rw [← segments_joinSegments_of_isApart some each, same,
    segments_joinSegments_of_isApart somewhat every]

/-- Joined segments hold characters of segments only. -/
theorem all_isSegmentChar_joinSegments {names : List String}
    (each : ∀ name ∈ names, name.toList.all isSegmentChar = true) :
    (joinSegments names).toList.all isSegmentChar = true := by
  induction names with
  | nil => rfl
  | cons name names ih =>
      have chars := each name List.mem_cons_self
      have ih := ih fun other among => each other (.tail _ among)
      cases names with
      | nil => rwa [joinSegments, String.intercalate_singleton]
      | cons second names =>
          rw [joinSegments, String.intercalate_cons_cons, String.toList_append,
            String.toList_append, List.all_append, List.all_append, chars]
          exact ih

/-- A name of segments is read as what the segments say. -/
theorem read_joinSegments {names : List String} {last : String}
    (each : ∀ name ∈ names, IsSegment name) (isLast : IsLast last) :
    read (joinSegments (names ++ [last])) = .ok (ofSegments (names ++ [last])) := by
  have every : ∀ name ∈ names ++ [last], IsLast name := List.forall_mem_append.mpr
    ⟨fun name among => (each name among).isLast, List.forall_mem_singleton.mpr isLast⟩
  have chars : (joinSegments (names ++ [last])).toList.all isSegmentChar = true :=
    all_isSegmentChar_joinSegments fun name among => (every name among).chars
  have found : segments (joinSegments (names ++ [last])) = names ++ [last] :=
    segments_joinSegments_concat (fun name among => (each name among).isApart) isLast.undivided
  have trimmed : Text.trim (joinSegments (names ++ [last])) = joinSegments (names ++ [last]) :=
    Text.trim_of_visible fun c member =>
      (Token.of_isWordChar (List.all_eq_true.mp chars c member)).1
  have nonempty : (joinSegments (names ++ [last])).isEmpty = false := by
    refine Bool.eq_false_iff.mpr fun empty => ?_
    have single : segments "" = names ++ [last] := String.isEmpty_iff.mp empty ▸ found
    exact (every "" (single ▸ List.mem_singleton_self "")).nonempty rfl
  have full : (names ++ [last]).any (·.isEmpty) = false :=
    List.any_eq_false.mpr fun name among => by simpa using (every name among).nonempty
  have good : (names ++ [last]).find? (!·.toList.all isSegmentChar) = none :=
    List.find?_eq_none.mpr fun name among => by simpa using (every name among).chars
  rw [read, trimmed, found, nonempty, full, good]
  rfl

end DunderedName

end MetricQuery
