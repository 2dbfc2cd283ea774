import MetricQuery.Proofs.Item.Memo
import Mathlib.Data.List.DropRight

/-! # What a memo holds

A memo holds the results of the texts that it most recently did not hold, as many as it has room
for, once each (`Holds`); reading one more reference keeps this (`Holds.read`), so it is so after
any readings (`holds_runs`). Every text that reaches the memo is either found there or missed.
-/

namespace MetricQuery.ReferenceMemo

/-- A reference to be read: one of a request, or a callout of a template. -/
inductive Reading where
  | reference (input : String)
  | callout (input : String)

namespace Reading

/-- Reads a reference with the help of a memo. -/
def remembering : Reading → StateM ReferenceMemo (Except ItemError ItemReference)
  | reference input => ReferenceMemo.read input
  | callout input => ReferenceMemo.readCallout input

/-- Reads a reference without a memo. -/
def alone : Reading → Except ItemError ItemReference
  | reference input => ItemReference.read input
  | callout input => ItemReference.readCallout input

/-- The text that a memo is asked for; a callout that does not look like a call is refused
before. -/
def text? : Reading → Option String
  | reference input => some input
  | callout input => if ItemReference.looksLikeCall input then some input else none

private theorem ensures (reading : Reading) : Ensures reading.remembering (· = reading.alone) := by
  cases reading with
  | reference input => exact read_ensures input
  | callout input => exact readCallout_ensures input

/-- A reading that asks for a text reads that text. -/
theorem run_of_text {reading : Reading} {text : String} (asked : reading.text? = some text) :
    reading.remembering = ReferenceMemo.read text := by
  cases reading with
  | reference input =>
      obtain ⟨⟩ := asked
      rfl
  | callout input =>
      obtain ⟨call, rfl⟩ : ItemReference.looksLikeCall input = true ∧ input = text := by
        simpa [text?] using asked
      exact if_pos call

/-- A reading that asks for no text leaves the memo as it was. -/
theorem run_of_no_text {reading : Reading} (unasked : reading.text? = none) (memo : ReferenceMemo) :
    (reading.remembering.run memo).2 = memo := by
  cases reading with
  | reference input => exact nomatch unasked
  | callout input =>
      have noCall : ¬ItemReference.looksLikeCall input = true := by simpa [text?] using unasked
      rw [remembering, readCallout, if_neg noCall]
      rfl

end Reading

/-- The text that a memo is asked for and does not hold, if there is one. -/
def missedBy (memo : ReferenceMemo) (reading : Reading) : Option String :=
  reading.text?.filter fun text => (memo.entries.lookup text).isNone

/-- The texts that are missed while references are read one after the other. -/
def missed (memo : ReferenceMemo) : List Reading → List String
  | [] => []
  | reading :: rest =>
    (memo.missedBy reading).toList ++ missed (reading.remembering.run memo).2 rest

/-- A memo holds the results of the last texts that were missed, in order and without repeats, and
of nothing else. -/
structure Holds (memo : ReferenceMemo) (missed : List String) : Prop where
  some : 0 < memo.capacity
  order : memo.order = missed.rtake memo.capacity
  distinct : memo.order.Nodup
  keys : (memo.entries.map Prod.fst).Perm memo.order

/-- An empty memo holds what no misses leave. -/
theorem holds_empty (capacity : Nat) : (empty capacity).Holds [] :=
  ⟨Nat.lt_of_lt_of_le Nat.one_pos (Nat.le_max_right ..), (List.rtake_nil _).symm, List.nodup_nil,
    .nil⟩

/-- Adding a result leaves the room of a memo and its count as they are. -/
theorem insert_keeps (memo : ReferenceMemo) (input : String)
    (result : Except ItemError ItemReference) :
    (memo.insert input result).capacity = memo.capacity ∧
      (memo.insert input result).hits = memo.hits := by
  unfold insert dropOldest
  simp only
  split
  · split <;> exact ⟨rfl, rfl⟩
  · exact ⟨rfl, rfl⟩

namespace Holds

variable {memo : ReferenceMemo} {before : List String}

private theorem length_entries (holds : memo.Holds before) :
    memo.entries.length = memo.order.length := by
  rw [← holds.keys.length_eq, List.length_map]

/-- What is not held is not in the queue either. -/
theorem not_mem_of_lookup (holds : memo.Holds before) {input : String}
    (absent : memo.entries.lookup input = none) : input ∉ memo.order := by
  intro queued
  obtain ⟨entry, member, rfl⟩ := List.mem_map.mp (holds.keys.mem_iff.mpr queued)
  have differs := List.lookup_eq_none_iff.mp absent entry member
  simp at differs

/-- If a memo is full, then dropping the oldest result makes room for one more. -/
theorem room (holds : memo.Holds before) :
    let kept := if memo.capacity ≤ memo.entries.length then memo.dropOldest else memo
    kept.order = before.rtake (memo.capacity - 1) ∧ kept.order.Sublist memo.order ∧
      (kept.entries.map Prod.fst).Perm kept.order := by
  have some := holds.some
  have keys := holds.keys
  have length := congrArg List.length holds.order
  rw [List.rtake, List.length_drop] at length
  rw [holds.length_entries]
  split
  · rename_i full
    cases order : memo.order with
    | nil =>
        rw [order, List.length_nil] at full
        omega
    | cons oldest rest =>
        have behind : rest = before.rtake (memo.capacity - 1) := by
          have tail := congrArg List.tail holds.order
          rw [order, List.tail_cons, List.rtake, List.tail_drop] at tail
          rw [tail, List.rtake]
          congr 1
          omega
        have once : oldest ∉ rest := (List.nodup_cons.mp (order ▸ holds.distinct)).1
        have others : rest.filter (· != oldest) = rest := by
          refine List.filter_eq_self.mpr fun text member => ?_
          simpa using ne_of_mem_of_not_mem member once
        have left := (order ▸ keys).filter (· != oldest)
        rw [List.filter_map, List.filter_cons_of_neg (by simp), others] at left
        simp only [dropOldest, order]
        exact ⟨behind, List.sublist_cons_self .., left⟩
  · refine ⟨?_, List.Sublist.refl _, keys⟩
    rw [holds.order, List.rtake, List.rtake]
    congr 1
    omega

/-- Adding a result that is not held makes it the latest one. -/
theorem insert (holds : memo.Holds before) {input : String}
    (absent : memo.entries.lookup input = none) (result : Except ItemError ItemReference) :
    (memo.insert input result).Holds (before ++ [input]) := by
  obtain ⟨order, kept, keys⟩ := holds.room
  have unqueued := fun member => holds.not_mem_of_lookup absent (kept.subset member)
  constructor
  · rw [(memo.insert_keeps input result).1]
    exact holds.some
  · rw [(memo.insert_keeps input result).1, ← Nat.sub_add_cancel holds.some, List.rtake_concat_succ]
    exact congrArg (· ++ [input]) order
  · refine List.nodup_append.mpr ⟨holds.distinct.sublist kept, List.pairwise_singleton .., ?_⟩
    rintro text member _ (_ | ⟨_, ⟨⟩⟩) rfl
    exact unqueued member
  · refine List.Perm.trans (.cons input ?_) (List.perm_append_singleton ..).symm
    rw [List.filter_eq_self.mpr fun entry member => ?_]
    · exact keys
    · have other : entry.1 ≠ input := by
        rintro rfl
        exact unqueued (keys.mem_iff.mp (List.mem_map_of_mem member))
      simpa using other

/-- Reading one more reference keeps what a memo holds up to date. -/
theorem read (holds : memo.Holds before) (reading : Reading) :
    (reading.remembering.run memo).2.Holds (before ++ (memo.missedBy reading).toList) := by
  unfold missedBy
  cases asked : reading.text? with
  | none =>
      rw [reading.run_of_no_text asked, Option.filter_none, Option.toList_none, List.append_nil]
      exact holds
  | some text =>
      rw [reading.run_of_text asked, run_read]
      rw [Option.filter_some]
      cases found : memo.entries.lookup text with
      | none => exact holds.insert found _
      | some result =>
          rw [if_neg (by simp), Option.toList_none, List.append_nil]
          exact ⟨holds.some, holds.order, holds.distinct, holds.keys⟩

end Holds

/-! ## Runs -/

/-- The memo after references are read one after the other. -/
def after (memo : ReferenceMemo) (readings : List Reading) : ReferenceMemo :=
  ((readings.mapM Reading.remembering).run memo).2

/-- A sequence of readings is its first one and then the others. -/
theorem after_cons (memo : ReferenceMemo) (reading : Reading) (rest : List Reading) :
    memo.after (reading :: rest) = (reading.remembering.run memo).2.after rest := by
  unfold after
  rw [List.mapM_cons]
  rfl

private theorem capacity_remembering (reading : Reading) (memo : ReferenceMemo) :
    (reading.remembering.run memo).2.capacity = memo.capacity := by
  cases asked : reading.text? with
  | none => rw [reading.run_of_no_text asked]
  | some text =>
      rw [reading.run_of_text asked, run_read]
      cases memo.entries.lookup text with
      | none => exact (memo.insert_keeps text _).1
      | some result => rfl

/-- No reading changes the capacity. -/
theorem capacity_after (memo : ReferenceMemo) (readings : List Reading) :
    (memo.after readings).capacity = memo.capacity := by
  induction readings generalizing memo with
  | nil => rfl
  | cons reading rest ih => rw [after_cons, ih, capacity_remembering]

/-- The memo holds the last texts missed, after any sequence of readings. -/
theorem Holds.after {memo : ReferenceMemo} {before : List String} (holds : memo.Holds before)
    (readings : List Reading) :
    (memo.after readings).Holds (before ++ memo.missed readings) := by
  induction readings generalizing memo before with
  | nil => exact (List.append_nil before).symm ▸ holds
  | cons reading rest ih =>
      rw [after_cons, missed, ← List.append_assoc]
      exact ih (holds.read reading)

/-- A text that reaches a memo is either found or missed. -/
theorem hits_remembering (reading : Reading) (memo : ReferenceMemo) :
    (reading.remembering.run memo).2.hits + (memo.missedBy reading).toList.length =
      memo.hits + reading.text?.toList.length := by
  unfold missedBy
  cases asked : reading.text? with
  | none =>
      rw [reading.run_of_no_text asked]
      rfl
  | some text =>
      rw [reading.run_of_text asked, run_read, Option.filter_some]
      cases memo.entries.lookup text with
      | none => exact congrArg (· + 1) (memo.insert_keeps text _).2
      | some result => rfl

/-- Hits and misses together count the texts asked for. -/
theorem hits_after (memo : ReferenceMemo) (readings : List Reading) :
    (memo.after readings).hits + (memo.missed readings).length =
      memo.hits + (readings.filterMap Reading.text?).length := by
  induction readings generalizing memo with
  | nil => rfl
  | cons reading rest ih =>
      have here := hits_remembering reading memo
      have later := ih (reading.remembering.run memo).2
      rw [after_cons, missed, List.length_append, List.filterMap_cons]
      cases asked : reading.text? with
      | none =>
          simp only [asked, Option.toList_none, List.length_nil] at here ⊢
          omega
      | some text =>
          simp only [asked, Option.toList_some, List.length_cons, List.length_nil] at here ⊢
          omega

/-- Whatever is remembered, a sequence of readings gives what each gives alone. -/
theorem mapM_remembering_ensures (readings : List Reading) :
    Ensures (readings.mapM Reading.remembering) (· = readings.map Reading.alone) := by
  refine (Ensures.mapM fun reading _ => reading.ensures).imp fun results alike => ?_
  rw [← List.forall₂_eq_eq_eq, List.forall₂_map_right_iff]
  exact alike.flip

end MetricQuery.ReferenceMemo
