import MetricQuery.Item.Memo
import MetricQuery.Proofs.Failing

/-! # Reading with a memo

A memo only comes about by reading, so it holds what reading gives (`Filled.of_lookup`). Whatever is
computed with its help can therefore be described without it: `Ensures` says what holds of a result
with every memo that can come about.
-/

namespace MetricQuery.ReferenceMemo

/-- A memo that came about by reading references, without results in the beginning. -/
inductive Filled : ReferenceMemo → Prop where
  | empty (capacity : Nat) : Filled (.empty capacity)
  | read {memo : ReferenceMemo} (input : String) (filled : Filled memo) :
      Filled ((ReferenceMemo.read input).run memo).2

/-- A remembered text is answered from the entries, any other is read and entered. -/
theorem run_read (input : String) (memo : ReferenceMemo) :
    (ReferenceMemo.read input).run memo = match memo.entries.lookup input with
      | some result => (result, { memo with hits := memo.hits + 1 })
      | none => (ItemReference.read input, memo.insert input (ItemReference.read input)) := by
  change ReferenceMemo.read input memo = _
  unfold ReferenceMemo.read
  cases memo.entries.lookup input <;> rfl

private theorem entries_dropOldest_subset (memo : ReferenceMemo) :
    memo.dropOldest.entries ⊆ memo.entries := by
  unfold dropOldest
  split
  · exact fun _ member => member
  · exact List.filter_subset_self _

private theorem mem_entries_insert {memo : ReferenceMemo} {input : String}
    {result : Except ItemError ItemReference} {entry : String × Except ItemError ItemReference}
    (member : entry ∈ (memo.insert input result).entries) :
    entry ∈ memo.entries ∨ entry = (input, result) := by
  rcases List.mem_cons.mp member with new | kept
  · exact .inr new
  · refine .inl ?_
    have kept := List.mem_of_mem_filter kept
    split at kept
    · exact memo.entries_dropOldest_subset kept
    · exact kept

/-- Every entry is what its text reads as. -/
theorem Filled.of_mem {memo : ReferenceMemo} (filled : memo.Filled) :
    ∀ entry ∈ memo.entries, entry.2 = ItemReference.read entry.1 := by
  induction filled with
  | empty capacity => exact fun _ absent => (List.not_mem_nil absent).elim
  | @read memo input filled ih =>
      rw [run_read]
      cases memo.entries.lookup input with
      | some result => exact ih
      | none =>
          intro entry member
          rcases mem_entries_insert member with kept | rfl
          · exact ih entry kept
          · rfl

private theorem Filled.of_lookup {memo : ReferenceMemo} (filled : memo.Filled) {input : String}
    {result : Except ItemError ItemReference} (found : memo.entries.lookup input = some result) :
    result = ItemReference.read input := by
  obtain ⟨before, after, entries, _⟩ := List.lookup_eq_some_iff.mp found
  apply filled.of_mem (input, result)
  rw [entries]
  exact List.mem_append_right _ List.mem_cons_self

section

variable {α β : Type}

/-- Whether the result of a computation has some property, whatever memo it starts with. -/
def Ensures (computation : StateM ReferenceMemo α) (holds : α → Prop) : Prop :=
  ∀ memo : ReferenceMemo, memo.Filled →
    holds (computation.run memo).1 ∧ (computation.run memo).2.Filled

namespace Ensures

/-- A plain value ensures what holds of it. -/
theorem pure {value : α} {holds : α → Prop} (held : holds value) :
    Ensures (Pure.pure value) holds := fun _ filled => ⟨held, filled⟩

/-- What a sequence ensures is what its steps ensure one after the other. -/
theorem bind {first : StateM ReferenceMemo α} {next : α → StateM ReferenceMemo β}
    {between : α → Prop} {holds : β → Prop} (ensured : Ensures first between)
    (continued : ∀ value, between value → Ensures (next value) holds) :
    Ensures (first >>= next) holds := by
  intro memo filled
  obtain ⟨held, filled⟩ := ensured memo filled
  exact continued _ held _ filled

/-- Whatever follows from what a computation ensures it ensures too. -/
theorem imp {computation : StateM ReferenceMemo α} {holds others : α → Prop}
    (ensured : Ensures computation holds) (weaker : ∀ value, holds value → others value) :
    Ensures computation others :=
  fun memo filled => (ensured memo filled).imp_left (weaker _)

/-- A computation ensures two things together. -/
theorem and {computation : StateM ReferenceMemo α} {holds others : α → Prop}
    (ensured : Ensures computation holds) (also : Ensures computation others) :
    Ensures computation fun value => holds value ∧ others value :=
  fun memo filled => ⟨⟨(ensured memo filled).1, (also memo filled).1⟩, (ensured memo filled).2⟩

/-- Over a list each result is related to its member. -/
theorem mapM {compute : α → StateM ReferenceMemo β} {related : α → β → Prop} {members : List α}
    (each : ∀ member ∈ members, Ensures (compute member) (related member)) :
    Ensures (members.mapM compute) (List.Forall₂ related members) := by
  induction members with
  | nil => exact .pure .nil
  | cons member rest ih =>
      rw [List.mapM_cons]
      apply (each member List.mem_cons_self).bind
      intro first head
      refine (ih fun other among => each other (List.mem_cons_of_mem _ among)).bind ?_
      exact fun later tail => .pure (.cons head tail)

section

variable {ε : Type} {first : ExceptT ε (StateM ReferenceMemo) α}

/-- A computation that may fail ensures what its failure and its continuation ensure. -/
theorem bind_run {next : α → ExceptT ε (StateM ReferenceMemo) β} {between : Except ε α → Prop}
    {holds : Except ε β → Prop} (ensured : Ensures first.run between)
    (failed : ∀ error, between (.error error) → holds (.error error))
    (continued : ∀ value, between (.ok value) → Ensures (next value).run holds) :
    Ensures (first >>= next).run holds := by
  rw [ExceptT.run_bind]
  apply ensured.bind
  intro result held
  cases result with
  | error error => exact .pure (failed error held)
  | ok value => exact continued value held

/-- A computation that cannot fail ensures a success of what it ensures. -/
theorem lift {computation : StateM ReferenceMemo α} {holds : α → Prop}
    (ensured : Ensures computation holds) :
    Ensures (ExceptT.lift computation : ExceptT ε (StateM ReferenceMemo) α).run
      fun result => ∃ value, result = .ok value ∧ holds value := by
  change Ensures (computation >>= fun value => Pure.pure (Except.ok value)) _
  exact ensured.bind fun value held => .pure ⟨value, rfl, held⟩

/-! Some computations that can fail give with a memo what they give without one. -/

/-- A sequence that may fail does what the sequence without a memo does. -/
theorem run_bind {next : α → ExceptT ε (StateM ReferenceMemo) β} {alone : Except ε α}
    {nextAlone : α → Except ε β} (ensured : Ensures first.run (· = alone))
    (continued : ∀ value, Ensures (next value).run (· = nextAlone value)) :
    Ensures (first >>= next).run (· = alone >>= nextAlone) := by
  refine ensured.bind_run ?_ ?_
  · rintro error rfl
    rfl
  · rintro value rfl
    exact continued value

/-- A computation that may fail does over a list what it does without a memo. -/
theorem run_mapM {compute : α → ExceptT ε (StateM ReferenceMemo) β}
    {computeAlone : α → Except ε β}
    (each : ∀ member, Ensures (compute member).run (· = computeAlone member))
    (members : List α) : Ensures (members.mapM compute).run (· = members.mapM computeAlone) := by
  induction members with
  | nil => exact .pure rfl
  | cons member rest ih =>
      rw [List.mapM_cons, List.mapM_cons]
      exact (each member).run_bind fun head => ih.run_bind fun tail => .pure rfl

/-- A fold that may fail does what the fold without a memo does. -/
theorem run_foldlM {step : β → α → ExceptT ε (StateM ReferenceMemo) β}
    {stepAlone : β → α → Except ε β}
    (each : ∀ value member, Ensures (step value member).run (· = stepAlone value member))
    (members : List α) (start : β) :
    Ensures (members.foldlM step start).run (· = members.foldlM stepAlone start) := by
  induction members generalizing start with
  | nil => exact .pure rfl
  | cons member rest ih =>
      rw [List.foldlM_cons, List.foldlM_cons]
      exact (each start member).run_bind ih

end

end Ensures

/-- Whether a computation gives the same whatever memo it starts with. -/
def IsSteady (computation : StateM ReferenceMemo α) : Prop :=
  ∃ result, Ensures computation (· = result)

namespace IsSteady

/-- A plain value is steady. -/
theorem pure (value : α) : IsSteady (Pure.pure value) := ⟨value, .pure rfl⟩

/-- A sequence of steady computations is steady. -/
theorem bind {first : StateM ReferenceMemo α} {next : α → StateM ReferenceMemo β}
    (steady : IsSteady first) (continued : ∀ value, IsSteady (next value)) :
    IsSteady (first >>= next) := by
  obtain ⟨value, ensured⟩ := steady
  obtain ⟨result, goesOn⟩ := continued value
  exact ⟨result, ensured.bind fun _ same => same ▸ goesOn⟩

/-- A steady computation stays steady over a list. -/
theorem mapM {compute : α → StateM ReferenceMemo β} (each : ∀ member, IsSteady (compute member))
    (members : List α) : IsSteady (members.mapM compute) := by
  induction members with
  | nil => exact .pure []
  | cons member rest ih =>
      rw [List.mapM_cons]
      exact (each member).bind fun first => ih.bind fun later => .pure _

/-- A steady step stays steady when folded. -/
theorem foldlM {step : β → α → StateM ReferenceMemo β}
    (each : ∀ value member, IsSteady (step value member)) (start : β) (members : List α) :
    IsSteady (members.foldlM step start) := by
  induction members generalizing start with
  | nil => exact .pure start
  | cons member rest ih =>
      rw [List.foldlM_cons]
      exact (each start member).bind ih

/-- A sequence that may fail is steady where its steps are. -/
theorem run_bind {ε : Type} {first : ExceptT ε (StateM ReferenceMemo) α}
    {next : α → ExceptT ε (StateM ReferenceMemo) β} (steady : IsSteady first.run)
    (continued : ∀ value, IsSteady (next value).run) : IsSteady (first >>= next).run := by
  rw [ExceptT.run_bind]
  refine steady.bind fun result => ?_
  cases result with
  | error error => exact .pure _
  | ok value => exact continued value

/-- A steady computation stays steady among those that may fail. -/
theorem run_lift {ε : Type} {computation : StateM ReferenceMemo α} (steady : IsSteady computation) :
    IsSteady (ExceptT.lift computation : ExceptT ε (StateM ReferenceMemo) α).run :=
  steady.bind fun value => .pure (Except.ok value)

end IsSteady

end

/-- Reading with a memo gives what reading gives. -/
theorem read_ensures (input : String) :
    Ensures (ReferenceMemo.read input) (· = ItemReference.read input) := by
  intro memo filled
  refine ⟨?_, filled.read input⟩
  rw [run_read]
  cases found : memo.entries.lookup input with
  | none => rfl
  | some result => exact filled.of_lookup found

/-- A callout is read as it is without a memo. -/
theorem readCallout_ensures (input : String) :
    Ensures (ReferenceMemo.readCallout input) (· = ItemReference.readCallout input) := by
  unfold ReferenceMemo.readCallout ItemReference.readCallout
  split
  · exact read_ensures input
  · exact .pure rfl

end MetricQuery.ReferenceMemo
