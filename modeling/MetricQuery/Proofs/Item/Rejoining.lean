import MetricQuery.Proofs.Item.Segments

/-! # Names read and written

A dundered name is read from the texts that are its segments with separators between them, and from
no others (`DunderedName.read_eq_ok_iff`). Reading therefore undoes writing: the name of an item is
read as its links, its element and what stands behind, and a name that was read is written as the
text that it was read from, up to the case of letters in the grain and the date part
(`DunderedName.read_rejoined`).
-/

namespace MetricQuery

/-- A grain is found by its name, in any case of letters. -/
theorem Grain.ofName?_eq_some_iff {text : String} {grain : Grain} :
    ofName? text = some grain ↔ Text.lower text = grain.name := by
  constructor
  · intro found
    have matched := List.find?_some (p := fun grain : Grain => grain.name == Text.lower text) found
    exact (beq_iff_eq.mp matched).symm
  · intro same
    rw [ofName?, same]
    cases grain <;> decide

/-- A date part is found by its name, in any case of letters. -/
theorem DatePart.ofName?_eq_some_iff {text : String} {part : DatePart} :
    ofName? text = some part ↔ Text.lower text = part.name := by
  constructor
  · intro found
    have matched := List.find?_some (p := fun part : DatePart => part.name == Text.lower text) found
    exact (beq_iff_eq.mp matched).symm
  · intro same
    rw [ofName?, same]
    cases part <;> decide

namespace DunderedName

/-- Whether a text is the segment of a date part, in any case of the letters of the part. -/
def IsPartSegment (part : DatePart) (text : String) : Prop :=
  ∃ name, text = partMark ++ name ∧ Text.lower name = part.name

/-- A segment means the date part that it is written for. -/
theorem partOf?_eq_some_iff {text : String} {part : DatePart} :
    partOf? text = some part ↔ IsPartSegment part text := by
  unfold partOf?
  constructor
  · intro found
    split at found
    · rename_i marked
      obtain ⟨name, same⟩ := List.isPrefixOf_iff_prefix.mp marked
      have behind : text.toList.drop partMark.length = name := by
        rw [← same, ← String.length_toList, List.drop_left]
      rw [behind] at found
      refine ⟨String.ofList name, ?_, DatePart.ofName?_eq_some_iff.mp found⟩
      rw [← String.toList_inj, String.toList_append, String.toList_ofList, same]
    · exact nomatch found
  · rintro ⟨name, rfl, same⟩
    have marked : partMark.toList.isPrefixOf (partMark ++ name).toList = true := by
      rw [String.toList_append]
      exact List.isPrefixOf_iff_prefix.mpr (List.prefix_append _ _)
    rw [if_pos marked, String.toList_append, ← String.length_toList, List.drop_left,
      String.ofList_toList]
    exact DatePart.ofName?_eq_some_iff.mpr same

/-- Whether a name means nothing behind other segments: it is neither a grain nor a date part, in
any case of its letters. -/
structure IsUnreserved (name : String) : Prop where
  noGrain : ∀ grain : Grain, Text.lower name ≠ grain.name
  noPart : ∀ part, ¬ IsPartSegment part name

/-- A name is unreserved when it means neither a grain nor a date part. -/
theorem isUnreserved_iff {name : String} :
    IsUnreserved name ↔ Grain.ofName? name = none ∧ partOf? name = none := by
  rw [Option.eq_none_iff_forall_ne_some, Option.eq_none_iff_forall_ne_some]
  simp only [ne_eq, Grain.ofName?_eq_some_iff, partOf?_eq_some_iff]
  exact ⟨fun free => ⟨free.noGrain, free.noPart⟩, fun free => ⟨free.1, free.2⟩⟩

instance (name : String) : Decidable (IsUnreserved name) := decidable_of_iff' _ isUnreserved_iff

/-! ## Cutting -/

/-- Within a stretch that begins no separator none is hidden. -/
theorem not_infix_cons {c : Char} {part rest : List Char}
    (noSeparator : ∀ after, c = '_' → rest = '_' :: after → False) (begins : part <+: rest)
    (undivided : ¬ ['_', '_'] <:+: part) : ¬ ['_', '_'] <:+: c :: part := by
  rw [List.infix_cons_iff]
  rintro (first | later)
  · obtain ⟨rfl, second⟩ := List.cons_prefix_cons.mp first
    obtain ⟨after, same⟩ := second.trans begins
    exact noSeparator after rfl same.symm
  · exact undivided later

/-- No separator is lost in cutting, and each part but the last ends where the first separator
begins. -/
theorem exists_splitChars (chars : List Char) : ∃ parts last,
    splitChars chars = parts ++ [last] ∧ ['_', '_'].intercalate (parts ++ [last]) = chars ∧
      (∀ part ∈ parts, ¬ ['_', '_'] <:+: part ∧ part.getLast? ≠ some '_') ∧
      ¬ ['_', '_'] <:+: last := by
  fun_induction splitChars chars with
  | case1 => exact ⟨[], [], rfl, rfl, nofun, by decide⟩
  | case2 rest ih =>
      obtain ⟨parts, last, split, joined, apart, undivided⟩ := ih
      refine ⟨[] :: parts, last, congrArg ([] :: ·) split, ?_, ?_, undivided⟩
      · rw [List.cons_append, List.intercalate_cons_of_ne_nil (by simp), joined]
        rfl
      · exact List.forall_mem_cons.mpr ⟨⟨by decide, nofun⟩, apart⟩
  | case3 c rest noSeparator none ih =>
      obtain ⟨parts, last, split, _⟩ := ih
      have some : parts ++ [last] ≠ [] := by simp
      exact (some (split.symm.trans none)).elim
  | case4 c rest noSeparator segment segments split ih =>
      obtain ⟨parts, last, same, joined, apart, undivided⟩ := ih
      cases parts with
      | nil =>
          obtain ⟨rfl, rfl⟩ := List.cons.inj (split.symm.trans same)
          rw [List.nil_append, List.intercalate_singleton] at joined
          subst joined
          exact ⟨[], c :: segment, rfl, List.intercalate_singleton, nofun,
            not_infix_cons noSeparator (List.prefix_refl _) undivided⟩
      | cons part parts =>
          obtain ⟨rfl, rfl⟩ := List.cons.inj (split.symm.trans same)
          rw [List.cons_append, List.intercalate_cons_of_ne_nil (by simp)] at joined
          obtain ⟨⟨whole, ends⟩, apart⟩ := List.forall_mem_cons.mp apart
          have begins : segment <+: rest := by
            rw [← joined, List.append_assoc]
            exact List.prefix_append _ _
          refine ⟨(c :: segment) :: parts, last, rfl, ?_, ?_, undivided⟩
          · rw [List.cons_append, List.intercalate_cons_of_ne_nil (by simp), ← joined]
            rfl
          · refine List.forall_mem_cons.mpr ⟨⟨not_infix_cons noSeparator begins whole, ?_⟩, apart⟩
            cases segment with
            | nil =>
                rintro ⟨⟩
                exact noSeparator _ rfl joined.symm
            | cons d segment => rwa [List.getLast?_cons_cons]

/-- The segments of a text, joined again, are the text. -/
theorem exists_segments (text : String) : ∃ names last,
    segments text = names ++ [last] ∧ joinSegments (names ++ [last]) = text ∧
      (∀ name ∈ names, IsApart name) ∧ ¬ ['_', '_'] <:+: last.toList := by
  obtain ⟨parts, last, split, joined, apart, undivided⟩ := exists_splitChars text.toList
  have back : ((parts ++ [last]).map String.ofList).map String.toList = parts ++ [last] := by
    rw [List.map_map]
    exact (List.map_congr_left fun part _ => String.toList_ofList).trans (List.map_id _)
  refine ⟨parts.map String.ofList, String.ofList last, ?_, ?_, ?_, ?_⟩
  · rw [segments, split, List.map_append, List.map_singleton]
  · rw [← List.map_singleton, ← List.map_append, ← String.toList_inj, joinSegments,
      String.toList_intercalate, back]
    exact joined
  · intro name among
    obtain ⟨part, inside, rfl⟩ := List.mem_map.mp among
    obtain ⟨whole, ends⟩ := apart part inside
    exact ⟨by rwa [String.toList_ofList], by rwa [String.toList_ofList]⟩
  · rwa [String.toList_ofList]

/-- Names are read from the texts that their segments make up with separators between them, with
blanks around allowed. -/
theorem read_eq_ok_iff {text : String} {name : DunderedName} : read text = .ok name ↔
    ∃ names last, (∀ segment ∈ names, IsSegment segment) ∧ IsLast last ∧
      Text.trim text = joinSegments (names ++ [last]) ∧ ofSegments (names ++ [last]) = name := by
  constructor
  · intro ok
    obtain ⟨names, last, split, joined, apart, undivided⟩ := exists_segments (Text.trim text)
    unfold read at ok
    simp only at ok
    split at ok
    · exact nomatch ok
    · split at ok
      · exact nomatch ok
      · rename_i full
        split at ok
        · exact nomatch ok
        · rename_i good
          rw [split] at full good ok
          have full := List.any_eq_false.mp (Bool.eq_false_iff.mpr full)
          have nonempty : ∀ segment ∈ names ++ [last], segment ≠ "" := fun segment among empty =>
            full segment among (String.isEmpty_iff.mpr empty)
          have chars : ∀ segment ∈ names ++ [last], segment.toList.all isSegmentChar = true :=
            fun segment among => by simpa using List.find?_eq_none.mp good segment among
          refine ⟨names, last, fun segment among => ?_, ?_, joined.symm, Except.ok.inj ok⟩
          · have inside := List.mem_append_left [last] among
            exact ⟨nonempty segment inside, chars segment inside, (apart segment among).undivided,
              (apart segment among).ends⟩
          · have inside : last ∈ names ++ [last] := by simp
            exact ⟨nonempty last inside, chars last inside, undivided⟩
  · rintro ⟨names, last, each, isLast, same, rfl⟩
    have ok := read_joinSegments each isLast
    have trimmed : Text.trim (joinSegments (names ++ [last])) = Text.trim text := by
      rw [← same, Text.trim_trim]
    rw [← ok, read, read, trimmed]

/-! ## What stands behind the element -/

/-- A last segment without a meaning stays. -/
theorem takeSuffix_of_none {α : Type} {meaning : String → Option α} {last : String}
    (none : meaning last = none) (rest : List String) :
    takeSuffix meaning (last :: rest) = (Option.none, last :: rest) := by
  cases rest with
  | nil => rfl
  | cons before rest => rw [takeSuffix, none]

/-- A suffix is taken off where there is one with a meaning, and never the only segment. -/
theorem exists_takeSuffix {α : Type} (meaning : String → Option α) {segments : List String}
    (some : segments ≠ []) : ∃ value text first rest,
      takeSuffix meaning segments = (value, first :: rest) ∧
      segments = Option.toList text ++ first :: rest ∧
      Option.Rel (fun value text => meaning text = Option.some value) value text ∧
      (value = none → rest ≠ [] → meaning first = none) := by
  match segments with
  | [] => exact (some rfl).elim
  | [only] => exact ⟨none, none, only, [], rfl, rfl, .none, fun _ further => (further rfl).elim⟩
  | last :: before :: rest =>
      cases means : meaning last with
      | none =>
          exact ⟨none, none, last, before :: rest, takeSuffix_of_none means _, rfl, .none,
            fun _ _ => means⟩
      | some value =>
          exact ⟨value, last, before, rest, by rw [takeSuffix, means], rfl, .some means, nofun⟩

/-- A last segment with a meaning is taken when another is before it. -/
theorem takeSuffix_of_some {α : Type} {meaning : String → Option α} {last : String} {value : α}
    (means : meaning last = some value) (before : String) (rest : List String) :
    takeSuffix meaning (last :: before :: rest) = (some value, before :: rest) := by
  rw [takeSuffix, means]

/-- Nothing is taken from a single segment, nor from one without a meaning. -/
theorem takeSuffix_of_unmeant {α : Type} {meaning : String → Option α} {first : String}
    {rest : List String} (unmeant : rest ≠ [] → meaning first = none) :
    takeSuffix meaning (first :: rest) = (none, first :: rest) := by
  cases rest with
  | nil => rfl
  | cons before rest => exact takeSuffix_of_none (unmeant (List.cons_ne_nil _ _)) _

/-- The segment written for a date part means that part. -/
@[simp]
theorem partOf?_partSegment (part : DatePart) : partOf? (partSegment part) = some part :=
  partOf?_eq_some_iff.mpr ⟨part.name, rfl, DatePart.ofName?_eq_some_iff.mp part.ofName?_name⟩

/-- No grain's name means a date part. -/
@[simp]
theorem partOf?_grainName (grain : Grain) : partOf? grain.name = none := by
  cases grain <;> decide

/-- The segments that a name is written with. -/
def writtenSegments (name : DunderedName) : List String :=
  name.links ++ [name.element] ++ (name.grain.map Grain.name).toList ++
    (name.part.map partSegment).toList

/-- A name in writing. -/
def written (name : DunderedName) : String := joinSegments name.writtenSegments

/-- Whether segments spell a name: grain and date part stand behind links and element, in any case
of their letters. -/
def IsSpelledBy (name : DunderedName) (segments : List String) : Prop :=
  ∃ grainText partText,
    Option.Rel (fun grain text => Text.lower text = Grain.name grain) name.grain grainText ∧
    Option.Rel IsPartSegment name.part partText ∧
    segments = name.links ++ [name.element] ++ grainText.toList ++ partText.toList

/-- Whether the element of a name is not taken for what stands behind elements. Only behind links
could that happen, and only if nothing stands behind the element that would be taken first. -/
structure IsUnambiguous (name : DunderedName) : Prop where
  noGrain : name.links ≠ [] → name.grain = none → Grain.ofName? name.element = none
  noPart : name.links ≠ [] → name.grain = none → name.part = none → partOf? name.element = none

/-- Nothing is lost in the interpretation of segments. -/
theorem ofSegments_spells {segments : List String} (some : segments ≠ []) :
    (ofSegments segments).IsSpelledBy segments ∧ (ofSegments segments).IsUnambiguous := by
  have some : segments.reverse ≠ [] := List.reverse_ne_nil_iff.mpr some
  obtain ⟨part, partText, before, rest, taken, whole, means, unmeant⟩ :=
    exists_takeSuffix partOf? some
  obtain ⟨grain, grainText, element, links, takenGrain, wholeGrain, meansGrain, unmeantGrain⟩ :=
    exists_takeSuffix Grain.ofName? (List.cons_ne_nil before rest)
  have read : ofSegments segments = ⟨links.reverse, element, grain, part⟩ := by
    simp only [ofSegments, taken, takenGrain, List.tail_cons, List.headD_cons]
  rw [read]
  constructor
  · refine ⟨grainText, partText, ?_, ?_, ?_⟩
    · cases meansGrain with
      | none => exact .none
      | some means => exact .some (Grain.ofName?_eq_some_iff.mp means)
    · cases means with
      | none => exact .none
      | some means => exact .some (partOf?_eq_some_iff.mp means)
    · rw [← List.reverse_reverse segments, whole, wholeGrain]
      cases partText <;> cases grainText <;> simp
  · have further : links.reverse ≠ [] → links ≠ [] := List.reverse_ne_nil_iff.mp
    refine ⟨fun linked timeless => unmeantGrain timeless (further linked), ?_⟩
    intro linked timeless partless
    have timeless : grain = none := timeless
    subst timeless
    cases meansGrain
    obtain ⟨rfl, rfl⟩ := List.cons.inj wholeGrain
    exact unmeant partless (further linked)

/-- What a name is written with says what the name says. -/
theorem ofSegments_writtenSegments {name : DunderedName} (unambiguous : name.IsUnambiguous) :
    ofSegments name.writtenSegments = name := by
  obtain ⟨links, element, grain, part⟩ := name
  have linked : links.reverse ≠ [] → links ≠ [] := List.reverse_ne_nil_iff.mp
  have takenGrain : takeSuffix Grain.ofName?
      ((grain.map Grain.name).toList ++ element :: links.reverse) =
        (grain, element :: links.reverse) := by
    cases grain with
    | none => exact takeSuffix_of_unmeant fun further => unambiguous.noGrain (linked further) rfl
    | some grain => exact takeSuffix_of_some grain.ofName?_name _ _
  have taken : takeSuffix partOf? ((part.map partSegment).toList ++
      ((grain.map Grain.name).toList ++ element :: links.reverse)) =
        (part, (grain.map Grain.name).toList ++ element :: links.reverse) := by
    cases part with
    | none =>
        cases grain with
        | none =>
            exact takeSuffix_of_unmeant fun further => unambiguous.noPart (linked further) rfl rfl
        | some grain => exact takeSuffix_of_none (partOf?_grainName grain) _
    | some part => cases grain <;> exact takeSuffix_of_some (partOf?_partSegment part) _ _
  have reversed : (writtenSegments ⟨links, element, grain, part⟩).reverse =
      (part.map partSegment).toList ++
        ((grain.map Grain.name).toList ++ element :: links.reverse) := by
    rw [writtenSegments]
    cases grain <;> cases part <;> simp
  rw [ofSegments, reversed, taken]
  simp only [takenGrain, List.tail_cons, List.headD_cons, List.reverse_reverse]

/-- Segments ending in an unreserved name are its links and the name. -/
theorem ofSegments_concat {names : List String} {last : String}
    (unreserved : names ≠ [] → IsUnreserved last) :
    ofSegments (names ++ [last]) = ⟨names, last, none, none⟩ := by
  have same : writtenSegments ⟨names, last, none, none⟩ = names ++ [last] :=
    (List.append_nil _).trans (List.append_nil _)
  rw [← same]
  exact ofSegments_writtenSegments ⟨fun linked _ => (isUnreserved_iff.mp (unreserved linked)).1,
    fun linked _ _ => (isUnreserved_iff.mp (unreserved linked)).2⟩

/-- Segments are links and an element exactly if the last of them means nothing or stands alone. -/
theorem ofSegments_concat_iff {names : List String} {last : String} :
    (ofSegments (names ++ [last])).links ++ [(ofSegments (names ++ [last])).element] =
      names ++ [last] ↔ (names ≠ [] → IsUnreserved last) := by
  constructor
  · intro same linked
    have some : names ++ [last] ≠ [] := by simp
    obtain ⟨⟨grainText, partText, grains, parts, whole⟩, unambiguous⟩ := ofSegments_spells some
    generalize ofSegments (names ++ [last]) = name at *
    obtain ⟨links, element, grain, part⟩ := name
    obtain ⟨rfl, only⟩ := List.append_inj' same rfl
    obtain ⟨rfl, _⟩ := List.cons.inj only
    rw [List.append_assoc, List.self_eq_append_right, List.append_eq_nil_iff,
      Option.toList_eq_nil_iff, Option.toList_eq_nil_iff] at whole
    obtain ⟨rfl, rfl⟩ := whole
    cases grains
    cases parts
    exact isUnreserved_iff.mpr ⟨unambiguous.noGrain linked rfl, unambiguous.noPart linked rfl rfl⟩
  · intro unreserved
    rw [ofSegments_concat unreserved]

/-! ## Names in writing -/

/-- The name of a grain is a segment. -/
theorem isSegment_grainName (grain : Grain) : IsSegment grain.name := by
  cases grain <;> decide

/-- What is written for a date part is a segment. -/
theorem isSegment_partSegment (part : DatePart) : IsSegment (partSegment part) := by
  cases part <;> decide

/-- A name is written in characters of segments. -/
theorem all_isSegmentChar_written {name : DunderedName}
    (links : ∀ link ∈ name.links, IsSegment link) (isLast : IsLast name.element) :
    name.written.toList.all isSegmentChar = true := by
  refine all_isSegmentChar_joinSegments (List.forall_mem_append.mpr ⟨List.forall_mem_append.mpr
    ⟨List.forall_mem_append.mpr ⟨fun link among => (links link among).chars,
      List.forall_mem_singleton.mpr isLast.chars⟩, fun segment among => ?_⟩,
    fun segment among => ?_⟩)
  · rw [Option.mem_toList, Option.map_eq_some_iff] at among
    obtain ⟨grain, _, rfl⟩ := among
    exact (isSegment_grainName grain).chars
  · rw [Option.mem_toList, Option.map_eq_some_iff] at among
    obtain ⟨part, _, rfl⟩ := among
    exact (isSegment_partSegment part).chars

/-- A name in writing is read as the name if its segments stay apart. -/
theorem read_written {name : DunderedName} (links : ∀ link ∈ name.links, IsSegment link)
    (isLast : IsLast name.element)
    (isSegment : name.grain ≠ none ∨ name.part ≠ none → IsSegment name.element)
    (unambiguous : name.IsUnambiguous) : read name.written = .ok name := by
  have settled := ofSegments_writtenSegments unambiguous
  obtain ⟨before, element, grain, part⟩ := name
  have front : grain ≠ none ∨ part ≠ none → ∀ segment ∈ before ++ [element], IsSegment segment :=
    fun behind => List.forall_mem_append.mpr
      ⟨links, List.forall_mem_singleton.mpr (isSegment behind)⟩
  cases part with
  | some part =>
      have inner : ∀ segment ∈ before ++ [element] ++ (grain.map Grain.name).toList,
          IsSegment segment := by
        refine List.forall_mem_append.mpr ⟨front (.inr nofun), ?_⟩
        cases grain with
        | none => exact nofun
        | some grain => exact List.forall_mem_singleton.mpr (isSegment_grainName grain)
      exact (read_joinSegments inner (isSegment_partSegment part).isLast).trans
        (congrArg _ settled)
  | none =>
      cases grain with
      | some grain =>
          have same : writtenSegments ⟨before, element, some grain, none⟩ =
              before ++ [element] ++ [grain.name] := List.append_nil _
          rw [written, same,
            read_joinSegments (front (.inl nofun)) (isSegment_grainName grain).isLast, ← same, settled]
      | none =>
          have same : writtenSegments ⟨before, element, none, none⟩ = before ++ [element] :=
            (List.append_nil _).trans (List.append_nil _)
          rw [written, same, read_joinSegments links isLast, ← same, settled]

/-- What spells a name tells which segments of the name stay apart. -/
theorem isSegment_of_isSpelledBy {name : DunderedName} {names : List String} {last : String}
    (each : ∀ segment ∈ names, IsSegment segment) (isLast : IsLast last)
    (spelled : name.IsSpelledBy (names ++ [last])) :
    (∀ link ∈ name.links, IsSegment link) ∧ IsLast name.element ∧
      (name.grain ≠ none ∨ name.part ≠ none → IsSegment name.element) := by
  obtain ⟨before, element, grain, part⟩ := name
  obtain ⟨grainText, partText, grains, parts, same⟩ := spelled
  have inner : ∀ {further}, names = before ++ [element] ++ further →
      (∀ link ∈ before, IsSegment link) ∧ IsSegment element := by
    rintro further rfl
    have front := (List.forall_mem_append.mp each).1
    exact ⟨(List.forall_mem_append.mp front).1,
      List.forall_mem_singleton.mp (List.forall_mem_append.mp front).2⟩
  cases partText with
  | some partText =>
      obtain ⟨links, isSegment⟩ := inner (List.append_inj' same rfl).1
      exact ⟨links, isSegment.isLast, fun _ => isSegment⟩
  | none =>
      rw [Option.toList_none, List.append_nil] at same
      cases grainText with
      | some grainText =>
          have front := (List.append_inj' same rfl).1
          obtain ⟨links, isSegment⟩ := inner (front.trans (List.append_nil _).symm)
          exact ⟨links, isSegment.isLast, fun _ => isSegment⟩
      | none =>
          rw [Option.toList_none, List.append_nil] at same
          obtain ⟨rfl, only⟩ := List.append_inj' same rfl
          obtain ⟨rfl, _⟩ := List.cons.inj only
          cases grains
          cases parts
          exact ⟨each, isLast, fun behind => (behind.elim (· rfl) (· rfl)).elim⟩

/-- What reading a name gives: the segments of the text spell it, and it is not mistaken when it is
written again. -/
theorem spells_of_read {text : String} {name : DunderedName} (ok : read text = .ok name) :
    (∃ segments, name.IsSpelledBy segments ∧ Text.trim text = joinSegments segments) ∧
      (∀ link ∈ name.links, IsSegment link) ∧ IsLast name.element ∧
      (name.grain ≠ none ∨ name.part ≠ none → IsSegment name.element) ∧ name.IsUnambiguous := by
  obtain ⟨names, last, each, isLast, same, rfl⟩ := read_eq_ok_iff.mp ok
  have some : names ++ [last] ≠ [] := by simp
  obtain ⟨spelled, unambiguous⟩ := ofSegments_spells some
  obtain ⟨links, element, isSegment⟩ := isSegment_of_isSpelledBy each isLast spelled
  exact ⟨⟨_, spelled, same⟩, links, element, isSegment, unambiguous⟩

/-- A name that was read is read again from what is written for it. -/
theorem read_written_of_read {text : String} {name : DunderedName} (ok : read text = .ok name) :
    read name.written = .ok name := by
  obtain ⟨_, links, isLast, isSegment, unambiguous⟩ := spells_of_read ok
  exact read_written links isLast isSegment unambiguous

/-- Whether a name keeps its place in a dundered name: it is a segment of its own, and neither a
grain nor a date part. A leading underscore does no harm, since names are cut from the left. -/
structure IsProper (name : String) : Prop extends IsSegment name, IsUnreserved name

instance (name : String) : Decidable (IsProper name) :=
  decidable_of_iff (IsSegment name ∧ IsUnreserved name)
    ⟨fun proper => ⟨proper.1, proper.2⟩, fun proper => ⟨proper.toIsSegment, proper.toIsUnreserved⟩⟩

private theorem IsUnreserved.isUnambiguous {name : DunderedName}
    (unreserved : IsUnreserved name.element) :
    name.IsUnambiguous :=
  ⟨fun _ _ => (isUnreserved_iff.mp unreserved).1, fun _ _ _ => (isUnreserved_iff.mp unreserved).2⟩

end DunderedName

open DunderedName (IsProper joinSegments)

/-- What the name of an item says of it: a date part takes the place of the grain. -/
def GroupByItem.dunderedName (item : GroupByItem) : DunderedName where
  links := item.links
  element := item.name
  grain := if item.part.isSome then none else item.grain
  part := item.part

private theorem GroupByItem.written_dunderedName (item : GroupByItem) :
    item.dunderedName.written = item.qualifiedName := by
  have same : item.dunderedName.writtenSegments = item.segments := by
    cases item with
    | timeDimension name links grain part =>
        cases part with
        | none => exact (List.append_nil _).trans (List.append_assoc ..)
        | some part =>
            rw [DunderedName.writtenSegments, segments, dunderedName]
            simp only [GroupByItem.part, Option.isSome_some, if_true, Option.map_none,
              Option.toList_none, List.append_nil]
            exact List.append_assoc ..
    | _ => exact (List.append_nil _).trans (List.append_nil _)
  rw [qualifiedName_eq, DunderedName.written, same]

namespace DunderedName

/-- Reading undoes writing and writing undoes reading. -/
theorem read_rejoined :
    (∀ item : GroupByItem, (∀ name ∈ item.name :: item.links, IsProper name) →
      read item.qualifiedName = .ok item.dunderedName) ∧
    ∀ text name, read text = .ok name →
      (∃ segments, name.IsSpelledBy segments ∧ Text.trim text = joinSegments segments) ∧
        read name.written = .ok name := by
  constructor
  · intro item proper
    obtain ⟨element, links⟩ := List.forall_mem_cons.mp proper
    rw [← item.written_dunderedName]
    exact read_written (fun link among => (links link among).toIsSegment)
      element.isLast (fun _ => element.toIsSegment) element.toIsUnreserved.isUnambiguous
  · intro text name ok
    exact ⟨(spells_of_read ok).1, read_written_of_read ok⟩

/-- Two links lead to the day of the week of a creation, and a text in mixed case names a month and
a year behind one. -/
theorem read_rejoined_createdAt :
    (∀ name ∈ ["created_at", "listing", "user"], IsProper name) ∧
    read "listing__user__created_at__extract_dow" =
      .ok ⟨["listing", "user"], "created_at", none, some .dayOfWeek⟩ ∧
    read " listing__created_at__MONTH__extract_Year " =
      .ok ⟨["listing"], "created_at", some .month, some .year⟩ ∧
    read "listing__created_at__month__extract_year" =
      .ok ⟨["listing"], "created_at", some .month, some .year⟩ := by
  have proper : ∀ name ∈ ["created_at", "listing", "user"], IsProper name := by decide
  have named := read_rejoined.1
    (.timeDimension "created_at" ["listing", "user"] .day (some .dayOfWeek)) proper
  have ok : read " listing__created_at__MONTH__extract_Year " =
      .ok ⟨["listing"], "created_at", some .month, some .year⟩ := by decide +kernel
  exact ⟨proper, named, ok, (read_rejoined.2 _ _ ok).2⟩

end DunderedName

end MetricQuery
