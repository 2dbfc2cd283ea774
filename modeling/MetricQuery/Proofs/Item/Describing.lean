import MetricQuery.Proofs.Item.Rejoining
import MetricQuery.Proofs.Item.Writing

/-! # References in writing

A reference with a kind is written as a call. The call is read as the reference again exactly if
what it folds into one name can be told apart (`ItemReference.read_written_iff_of_isLegible`), as it
can where all names are plain (`ItemReference.read_written`).
-/

namespace MetricQuery

/-- No grain's name holds a quote. -/
theorem Grain.unquoted_name (grain : Grain) : '\'' ∉ grain.name.toList := by
  cases grain <;> decide

/-- No date part's name holds a quote. -/
theorem DatePart.unquoted_name (part : DatePart) : '\'' ∉ part.name.toList := by
  cases part <;> decide

private theorem ItemKind.isWord_name (kind : ItemKind) : Token.IsWord kind.name := by
  cases kind <;> decide

namespace ItemReference

open DunderedName (IsApart IsLast IsPlain IsSegment IsUnreserved isSegmentChar joinSegments)

/-- The last link and the name, which are written as one. -/
def tailName (reference : ItemReference) : String :=
  DunderedName.joined reference.links.getLast?.toList reference.name

/-- The call that a reference to an item of a kind is written as. -/
def call (reference : ItemReference) (kind : ItemKind) : Call where
  name :=
    (if kind = .dimension ∧ reference.grain.isSome then ItemKind.timeDimension else kind).name
  positional := [.text reference.tailName] ++
    (reference.grain.map fun grain => .text grain.name).toList
  keyword := (reference.part.map fun part => ("date_part_name", .text part.name)).toList ++
    (if reference.links.dropLast.isEmpty then []
      else [("entity_path", .list reference.links.dropLast)]) ++
    (reference.groupByLinks.map fun links => ("group_by", .list [joinSegments links])).toList

/-- What the call says about the item. -/
def description (reference : ItemReference) (kind : ItemKind) : ItemDescription where
  kind := kind
  name := reference.tailName
  entityPath := reference.links.dropLast
  grainName := reference.grain.map Grain.name
  partName := reference.part.map DatePart.name
  groupBy := reference.groupByLinks.map fun links => [joinSegments links]
  descending := none

/-- Whether the names of a reference to an item of a kind can be read, each by itself, and the
reference says what can be said of the kind. -/
structure IsLegible (reference : ItemReference) (kind : ItemKind) : Prop where
  ofKind : reference.kind = some kind
  name : IsLast reference.name
  links : ∀ link ∈ reference.links, link ≠ "" ∧ link.toList.all isSegmentChar = true
  timed : kind ≠ .timeDimension → reference.grain = none ∧ reference.part = none
  grouped : kind = .metric → ∃ links element, reference.groupByLinks = some (links ++ [element]) ∧
    (∀ link ∈ links, IsSegment link) ∧ IsLast element
  ungrouped : kind ≠ .metric → reference.groupByLinks = none

/-- Whether what is written as one name can be told apart: the last link stays a segment of its own
in front of the name, and neither the name behind it nor the item that a metric is grouped by is
taken for a grain or a date part. A metric has one link at most, since its call takes no path. -/
structure IsRestated (reference : ItemReference) : Prop where
  link : ∀ link ∈ reference.links.getLast?, IsApart link ∧ IsUnreserved reference.name
  path : reference.kind = some .metric → reference.links.length ≤ 1
  grouped : ∀ links element, reference.groupByLinks = some (links ++ [element]) → links ≠ [] →
    IsUnreserved element

/-- Whether a reference to an item of a kind has plain names and says what can be said of the
kind. -/
structure IsPlainFor (reference : ItemReference) (kind : ItemKind) : Prop where
  ofKind : reference.kind = some kind
  name : IsPlain reference.name
  links : ∀ link ∈ reference.links, IsPlain link
  timed : kind ≠ .timeDimension → reference.grain = none ∧ reference.part = none
  grouped : kind = .metric → reference.links = [] ∧ ∃ links element,
    reference.groupByLinks = some (links ++ [element]) ∧ IsPlain element ∧
      ∀ link ∈ links, IsPlain link
  ungrouped : kind ≠ .metric → reference.groupByLinks = none
  undirected : reference.descending = none

variable {reference : ItemReference} {kind : ItemKind}

private theorem written_of_kind (ofKind : reference.kind = some kind) :
    reference.written = (reference.call kind).written := by
  have same : reference.arguments = (reference.call kind).positional.map Argument.written ++
      (reference.call kind).keyword.map Call.writtenKeyword := by
    simp only [arguments, call, List.map_append, List.append_assoc]
    refine congrArg₂ (· ++ ·) rfl (congrArg₂ (· ++ ·) ?_ (congrArg₂ (· ++ ·) ?_
      (congrArg₂ (· ++ ·) ?_ ?_)))
    · cases reference.grain <;> rfl
    · cases reference.part <;> rfl
    · split <;> rfl
    · cases reference.groupByLinks <;> rfl
  rw [written, ofKind, Call.written, ← same]
  rfl

/-- A name that is written from a value is found again. -/
theorem resolveName_map {α : Type} {find : String → Option α} {fault : String → ItemFault}
    {name : α → String} (found : ∀ value, find (name value) = some value) (given : Option α) :
    resolveName find fault (given.map name) = .ok given := by
  cases given with
  | none => rfl
  | some value => rw [Option.map_some, resolveName, found]

private theorem settleKind_of_timed
    (timed : kind ≠ .timeDimension → reference.grain = none ∧ reference.part = none) :
    settleKind kind (reference.grain.isSome || reference.part.isSome) = .ok kind := by
  by_cases isTime : kind = .timeDimension
  · rw [isTime, settleKind]
  · rw [(timed isTime).1, (timed isTime).2]
    cases kind <;> rfl

private theorem looksLikeCall_written (call : Call) : looksLikeCall call.written = true := by
  have opening : '(' ∈ "(".toList := by decide
  rw [looksLikeCall, List.contains_iff_mem, Call.written]
  simp only [String.toList_append, List.mem_append]
  exact .inl (.inl (.inr opening))

/-- A list is its front and its last member. -/
theorem dropLast_append_toList {links : List String} :
    links.dropLast ++ links.getLast?.toList = links := by
  cases last : links.getLast? with
  | none => rw [List.getLast?_eq_none_iff.mp last]; rfl
  | some link => exact List.dropLast_append_getLast? _ last

/-- What a description is read as, step by step. -/
theorem ofDescription_eq_ok {input : String} {description : ItemDescription} :
    ofDescription input description = .ok reference ↔
      ∃ name given grain givenPart kind groupByLinks,
        DunderedName.read description.name = .ok name ∧
        resolveName Grain.ofName? .unknownGrain description.grainName = .ok given ∧
        settleGrain given name.grain = .ok grain ∧
        resolveName DatePart.ofName? .unknownPart description.partName = .ok givenPart ∧
        settleKind description.kind (grain.isSome || (givenPart.or name.part).isSome) = .ok kind ∧
        (if kind = .metric then (groupByLinksOf input (description.groupBy.getD [])).map some
          else .ok none) = .ok groupByLinks ∧
        { kind := some kind, name := name.element, links := description.entityPath ++ name.links,
          grain, part := givenPart.or name.part, groupByLinks,
          descending := description.descending } = reference := by
  unfold ofDescription
  constructor
  · intro ok
    obtain ⟨name, read, ok⟩ := bind_eq_ok.mp ok
    obtain ⟨given, resolved, ok⟩ := bind_eq_ok.mp ok
    obtain ⟨grain, settled, ok⟩ := bind_eq_ok.mp ok
    obtain ⟨givenPart, resolvedPart, ok⟩ := bind_eq_ok.mp ok
    obtain ⟨kind, ofKind, ok⟩ := bind_eq_ok.mp ok
    refine ⟨name, given, grain, givenPart, kind, ?_⟩
    simp only [mapError_eq_ok.mp read, mapError_eq_ok.mp resolved, mapError_eq_ok.mp settled,
      mapError_eq_ok.mp resolvedPart, mapError_eq_ok.mp ofKind, true_and]
    split at ok
    · rename_i isMetric
      obtain ⟨groupByLinks, grouped, ok⟩ := bind_eq_ok.mp ok
      exact ⟨groupByLinks, (if_pos isMetric).trans grouped, Except.ok.inj ok⟩
    · rename_i other
      obtain ⟨groupByLinks, grouped, ok⟩ := bind_eq_ok.mp ok
      exact ⟨groupByLinks, (if_neg other).trans grouped, Except.ok.inj ok⟩
  · rintro ⟨name, given, grain, givenPart, kind, groupByLinks, read, resolved, settled,
      resolvedPart, ofKind, grouped, rfl⟩
    refine bind_eq_ok.mpr ⟨name, mapError_eq_ok.mpr read, bind_eq_ok.mpr ⟨given,
      mapError_eq_ok.mpr resolved, bind_eq_ok.mpr ⟨grain, mapError_eq_ok.mpr settled,
      bind_eq_ok.mpr ⟨givenPart, mapError_eq_ok.mpr resolvedPart, bind_eq_ok.mpr ⟨kind,
      mapError_eq_ok.mpr ofKind, ?_⟩⟩⟩⟩⟩
    split at grouped
    · rename_i isMetric
      rw [if_pos isMetric]
      exact bind_eq_ok.mpr ⟨groupByLinks, grouped, rfl⟩
    · rename_i other
      rw [if_neg other]
      exact bind_eq_ok.mpr ⟨groupByLinks, grouped, rfl⟩

namespace IsLegible

private theorem chars_tailName (legible : reference.IsLegible kind) :
    ∀ name ∈ reference.links.getLast?.toList ++ [reference.name],
      name.toList.all isSegmentChar = true := by
  refine List.forall_mem_append.mpr ⟨fun link member => ?_,
    List.forall_mem_singleton.mpr legible.name.chars⟩
  rw [Option.mem_toList] at member
  exact (legible.links link (List.mem_of_getLast? member)).2

private theorem chars_groupByLinks (legible : reference.IsLegible kind) {links : List String}
    (grouped : reference.groupByLinks = some links) :
    ∀ link ∈ links, link.toList.all isSegmentChar = true := by
  by_cases isMetric : kind = .metric
  · obtain ⟨outer, element, same, linked, isLast⟩ := legible.grouped isMetric
    obtain rfl := Option.some.inj (grouped.symm.trans same)
    exact List.forall_mem_append.mpr ⟨fun link among => (linked link among).chars,
      List.forall_mem_singleton.mpr isLast.chars⟩
  · exact nomatch grouped.symm.trans (legible.ungrouped isMetric)

private theorem isPlain_call (legible : reference.IsLegible kind) :
    (reference.call kind).IsPlain := by
  refine ⟨?_, ?_, ?_⟩
  · exact ItemKind.isWord_name _
  · refine List.forall_mem_append.mpr ⟨List.forall_mem_singleton.mpr ?_, fun argument member => ?_⟩
    · exact DunderedName.unquoted_of_chars
        (DunderedName.all_isSegmentChar_joinSegments legible.chars_tailName)
    · rw [Option.mem_toList, Option.map_eq_some_iff] at member
      obtain ⟨grain, _, rfl⟩ := member
      exact grain.unquoted_name
  · refine List.forall_mem_append.mpr ⟨List.forall_mem_append.mpr ⟨?_, ?_⟩, ?_⟩
    · intro keyword member
      rw [Option.mem_toList, Option.map_eq_some_iff] at member
      obtain ⟨part, _, rfl⟩ := member
      have isWord : Token.IsWord "date_part_name" := by decide
      exact ⟨isWord, part.unquoted_name⟩
    · split
      · exact nofun
      · have isWord : Token.IsWord "entity_path" := by decide
        refine List.forall_mem_singleton.mpr ⟨isWord, fun link member => ?_⟩
        exact DunderedName.unquoted_of_chars
          (legible.links link (List.dropLast_subset _ member)).2
    · intro keyword member
      rw [Option.mem_toList, Option.map_eq_some_iff] at member
      obtain ⟨links, grouped, rfl⟩ := member
      have isWord : Token.IsWord "group_by" := by decide
      refine ⟨isWord, List.forall_mem_singleton.mpr ?_⟩
      exact DunderedName.unquoted_of_chars
        (DunderedName.all_isSegmentChar_joinSegments (legible.chars_groupByLinks grouped))

/-- The positional arguments of a legible reference's call give back what they say. -/
theorem ofPositional_call (legible : reference.IsLegible kind) :
    ItemDescription.ofPositional kind (reference.call kind).positional =
      .ok { reference.description kind with
        entityPath := [], partName := none, groupBy := none } := by
  rw [call, description]
  by_cases isTime : kind = .timeDimension
  · subst isTime
    cases reference.grain <;> rfl
  · rw [(legible.timed isTime).1]
    cases kind <;> rfl

private theorem name_call (legible : reference.IsLegible kind) :
    (reference.call kind).name = kind.name := by
  refine congrArg ItemKind.name (if_neg fun given => ?_)
  have timeless := (legible.timed (given.1 ▸ nofun)).1
  rw [timeless] at given
  exact nomatch given.2

/-- The date part is read back from its keyword. -/
theorem addKeyword_part (legible : reference.IsLegible kind) :
    (reference.part.map fun part => ("date_part_name", Argument.text part.name)).toList.foldlM
      ItemDescription.addKeyword { reference.description kind with
        entityPath := [], partName := none, groupBy := none } =
    .ok { reference.description kind with entityPath := [], groupBy := none } := by
  rw [description]
  by_cases isTime : kind = .timeDimension
  · subst isTime
    cases reference.part <;> rfl
  · rw [(legible.timed isTime).2]
    rfl

/-- The group-by links are read back from their keyword. -/
theorem addKeyword_groupBy (legible : reference.IsLegible kind) :
    (reference.groupByLinks.map fun links =>
      ("group_by", Argument.list [joinSegments links])).toList.foldlM
      ItemDescription.addKeyword { reference.description kind with groupBy := none } =
    .ok (reference.description kind) := by
  rw [description]
  by_cases isMetric : kind = .metric
  · subst isMetric
    cases reference.groupByLinks <;> rfl
  · rw [legible.ungrouped isMetric]
    rfl

/-- The call of a metric takes no path, the others do. -/
theorem addKeyword_path {described : ItemDescription} :
    (if reference.links.dropLast.isEmpty then []
      else [("entity_path", Argument.list reference.links.dropLast)]).foldlM
      ItemDescription.addKeyword { reference.description kind with
        entityPath := [], groupBy := none } = .ok described ↔
      (kind = .metric → reference.links.length ≤ 1) ∧
        { reference.description kind with groupBy := none } = described := by
  rw [description]
  have length := reference.links.length_dropLast
  cases outer : reference.links.dropLast with
  | nil =>
      rw [outer, List.length_nil] at length
      have short : reference.links.length ≤ 1 := by omega
      exact ⟨fun ok => ⟨fun _ => short, Except.ok.inj ok⟩, fun same => congrArg _ same.2⟩
  | cons link links =>
      rw [outer, List.length_cons] at length
      have long : ¬ reference.links.length ≤ 1 := by omega
      cases kind with
      | metric => exact ⟨nofun, fun same => (long (same.1 rfl)).elim⟩
      | _ => exact ⟨fun ok => ⟨nofun, Except.ok.inj ok⟩, fun same => congrArg _ same.2⟩

/-- The call says what the description says, if its kind takes all arguments. -/
theorem ofChain_call (legible : reference.IsLegible kind) {described : ItemDescription} :
    ItemDescription.ofChain ⟨reference.call kind, []⟩ = .ok described ↔
      (kind = .metric → reference.links.length ≤ 1) ∧
        reference.description kind = described := by
  rw [ItemDescription.ofChain, legible.name_call, ItemKind.ofName?_name]
  constructor
  · intro ok
    obtain ⟨_, positional, ok⟩ := bind_eq_ok.mp ok
    obtain rfl := Except.ok.inj (legible.ofPositional_call.symm.trans positional)
    obtain ⟨_, keywords, ⟨⟩⟩ := bind_eq_ok.mp ok
    rw [call, List.foldlM_append, List.foldlM_append] at keywords
    obtain ⟨_, keywords, grouped⟩ := bind_eq_ok.mp keywords
    obtain ⟨_, part, path⟩ := bind_eq_ok.mp keywords
    obtain rfl := Except.ok.inj (legible.addKeyword_part.symm.trans part)
    obtain ⟨pathless, rfl⟩ := addKeyword_path.mp path
    exact ⟨pathless, Except.ok.inj (legible.addKeyword_groupBy.symm.trans grouped)⟩
  · rintro ⟨pathless, rfl⟩
    refine bind_eq_ok.mpr ⟨_, legible.ofPositional_call, bind_eq_ok.mpr ⟨_, ?_, rfl⟩⟩
    rw [call, List.foldlM_append, List.foldlM_append]
    exact bind_eq_ok.mpr ⟨_, bind_eq_ok.mpr ⟨_, legible.addKeyword_part,
      addKeyword_path.mpr ⟨pathless, rfl⟩⟩, legible.addKeyword_groupBy⟩

/-- A call in writing describes what its chain of calls describes. -/
theorem readDescription_call (legible : reference.IsLegible kind) (description) :
    readDescription (reference.call kind).written = .ok description ↔
      ItemDescription.ofChain ⟨reference.call kind, []⟩ = .ok description := by
  rw [(Call.renders_written legible.isPlain_call).readDescription, mapError_eq_ok]

/-- The last link and the name are told apart if they stay what they are. -/
theorem read_tailName (legible : reference.IsLegible kind)
    (apart : ∀ link ∈ reference.links.getLast?, IsApart link ∧ IsUnreserved reference.name) :
    DunderedName.read reference.tailName =
      .ok ⟨reference.links.getLast?.toList, reference.name, none, none⟩ := by
  have linked : ∀ link ∈ reference.links.getLast?.toList, IsSegment link := by
    intro link member
    rw [Option.mem_toList] at member
    obtain ⟨nonempty, chars⟩ := legible.links link (List.mem_of_getLast? member)
    exact ⟨nonempty, chars, (apart link member).1.undivided, (apart link member).1.ends⟩
  have unreserved : reference.links.getLast?.toList ≠ [] → IsUnreserved reference.name := by
    cases last : reference.links.getLast? with
    | none => exact fun some => (some rfl).elim
    | some link => exact fun _ => (apart link last).2
  rw [tailName, DunderedName.joined, DunderedName.read_joinSegments linked legible.name,
    DunderedName.ofSegments_concat unreserved]

/-- The last link and the name are read as themselves only if they are told apart. -/
theorem isApart_of_read_tailName (legible : reference.IsLegible kind) {name : DunderedName}
    (ok : DunderedName.read reference.tailName = .ok name)
    (links : name.links = reference.links.getLast?.toList)
    (element : name.element = reference.name) :
    ∀ link ∈ reference.links.getLast?, IsApart link ∧ IsUnreserved reference.name := by
  intro link last
  have isSegment : ∀ link ∈ reference.links.getLast?.toList, IsSegment link :=
    links ▸ (DunderedName.spells_of_read ok).2.1
  rw [tailName, DunderedName.joined, DunderedName.read_joinSegments isSegment legible.name] at ok
  obtain rfl := Except.ok.inj ok
  have unreserved := DunderedName.ofSegments_concat_iff.mp
    (congrArg₂ (fun links element => links ++ [element]) links element)
  rw [last] at isSegment unreserved
  exact ⟨(isSegment link List.mem_cons_self).isApart, unreserved (List.cons_ne_nil _ _)⟩

/-- The item that a metric is grouped by is read as itself exactly if it is not mistaken. -/
theorem map_groupByLinksOf {input element : String} {links : List String}
    (linked : ∀ link ∈ links, IsSegment link) (isLast : IsLast element) :
    (groupByLinksOf input [joinSegments (links ++ [element])]).map some =
      .ok (some (links ++ [element])) ↔ (links ≠ [] → IsUnreserved element) := by
  rw [groupByLinksOf, DunderedName.read_joinSegments linked isLast,
    ← DunderedName.ofSegments_concat_iff]
  simp only [Except.map, Except.ok.injEq, Option.some.injEq]

/-- The description is read as the reference, without a direction, exactly if nothing in it is
mistaken. -/
theorem ofDescription_description (legible : reference.IsLegible kind) (input : String) :
    ofDescription input (reference.description kind) = .ok { reference with descending := none } ↔
      (∀ link ∈ reference.links.getLast?, IsApart link ∧ IsUnreserved reference.name) ∧
        ∀ links element, reference.groupByLinks = some (links ++ [element]) → links ≠ [] →
          IsUnreserved element := by
  rw [ofDescription_eq_ok]
  constructor
  · rintro ⟨name, given, grain, givenPart, found, groupByLinks, read, -, -, -, -, grouped, same⟩
    simp only [mk.injEq, description] at same
    obtain ⟨ofKind, element, links, -, -, rfl, -⟩ := same
    obtain rfl := Option.some.inj (ofKind.trans legible.ofKind)
    constructor
    · refine legible.isApart_of_read_tailName read ?_ element
      exact List.append_cancel_left (links.trans dropLast_append_toList.symm)
    · intro outer last isSome
      by_cases isMetric : found = .metric
      · obtain ⟨front, target, same, linked, isLast⟩ := legible.grouped isMetric
        obtain ⟨rfl, only⟩ := List.append_inj' (Option.some.inj (isSome.symm.trans same)) rfl
        obtain ⟨rfl, _⟩ := List.cons.inj only
        rw [if_pos isMetric, description, isSome] at grouped
        exact (map_groupByLinksOf linked isLast).mp grouped
      · exact nomatch isSome.symm.trans (legible.ungrouped isMetric)
  · rintro ⟨apart, unreserved⟩
    have settled : settleGrain reference.grain none = .ok reference.grain := by
      cases reference.grain <;> rfl
    have grouped : (if kind = .metric then (groupByLinksOf input
        ((reference.description kind).groupBy.getD [])).map some else .ok none) =
          .ok reference.groupByLinks := by
      split
      · rename_i isMetric
        obtain ⟨links, element, same, linked, isLast⟩ := legible.grouped isMetric
        rw [description, same]
        exact (map_groupByLinksOf linked isLast).mpr (unreserved links element same)
      · rename_i other
        rw [legible.ungrouped other]
    refine ⟨_, _, _, _, kind, _, legible.read_tailName apart, resolveName_map Grain.ofName?_name _,
      settled, resolveName_map DatePart.ofName?_name _, ?_, grouped, ?_⟩
    · rw [Option.or_none]
      exact settleKind_of_timed legible.timed
    · rw [description, ← legible.ofKind]
      simp only [dropLast_append_toList, Option.or_none]

end IsLegible

/-- A reference that was read and is written is read again as it was, without its direction, exactly
if nothing in the call is mistaken. -/
theorem read_written_iff_of_isLegible (legible : reference.IsLegible kind) :
    read reference.written = .ok { reference with descending := none } ↔
      reference.IsRestated := by
  rw [written_of_kind legible.ofKind, read, if_pos (looksLikeCall_written _)]
  constructor
  · intro ok
    obtain ⟨described, chain, ok⟩ := bind_eq_ok.mp ok
    obtain ⟨path, rfl⟩ := legible.ofChain_call.mp ((legible.readDescription_call _).mp chain)
    obtain ⟨link, grouped⟩ := (legible.ofDescription_description _).mp ok
    exact ⟨link, fun isMetric => path (Option.some.inj (legible.ofKind.symm.trans isMetric)),
      grouped⟩
  · intro restated
    have path : kind = .metric → reference.links.length ≤ 1 := fun isMetric =>
      restated.path (legible.ofKind.trans (congrArg some isMetric))
    have chain := (legible.readDescription_call _).mpr (legible.ofChain_call.mpr ⟨path, rfl⟩)
    exact bind_eq_ok.mpr ⟨_, chain,
      (legible.ofDescription_description _).mpr ⟨restated.link, restated.grouped⟩⟩

namespace IsPlainFor

/-- A plain reference is legible. -/
theorem isLegible (plain : reference.IsPlainFor kind) : reference.IsLegible kind where
  ofKind := plain.ofKind
  name := plain.name.isLast
  links := fun link among => ⟨(plain.links link among).nonempty, (plain.links link among).chars⟩
  timed := plain.timed
  ungrouped := plain.ungrouped
  grouped := by
    intro isMetric
    obtain ⟨_, links, element, same, isPlain, linked⟩ := plain.grouped isMetric
    exact ⟨links, element, same, fun link among => (linked link among).toIsSegment, isPlain.isLast⟩

private theorem isRestated (plain : reference.IsPlainFor kind) : reference.IsRestated where
  link := fun link last => ⟨(plain.links link (List.mem_of_getLast? last)).isApart,
    DunderedName.isUnreserved_iff.mpr ⟨plain.name.noGrain, plain.name.noPart⟩⟩
  path := by
    intro isMetric
    have isMetric := Option.some.inj (plain.ofKind.symm.trans isMetric)
    rw [(plain.grouped isMetric).1]
    exact Nat.zero_le _
  grouped := by
    intro outer last isSome _
    by_cases isMetric : kind = .metric
    · obtain ⟨_, links, element, same, isPlain, _⟩ := plain.grouped isMetric
      obtain ⟨rfl, only⟩ := List.append_inj' (Option.some.inj (isSome.symm.trans same)) rfl
      obtain ⟨rfl, _⟩ := List.cons.inj only
      exact DunderedName.isUnreserved_iff.mpr ⟨isPlain.noGrain, isPlain.noPart⟩
    · exact nomatch isSome.symm.trans (plain.ungrouped isMetric)

end IsPlainFor

/-- A reference with plain names is read again as it is written. -/
theorem read_written (plain : reference.IsPlainFor kind) :
    read reference.written = .ok reference := by
  have ok := (read_written_iff_of_isLegible plain.isLegible).mpr plain.isRestated
  rwa [← plain.undirected] at ok

end ItemReference

end MetricQuery
