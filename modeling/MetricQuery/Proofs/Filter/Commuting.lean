import MetricQuery.Filter.Coverage
import MetricQuery.Proofs.Filter.Regrouping
import MetricQuery.Proofs.Scope.Resolution

/-! # Merging in another order

The order of what is merged shows where findings or unreadable filters have the same sort text: the
sort leaves them in the order in which they came. `FilterLookup.merge_comm_iff` says exactly when
two lookups merge alike in both orders. Two queries for one metric may not
(`FilterLookup.not_merge_comm`).
-/

namespace MetricQuery

namespace FilterFinding

/-- The failures among findings that are sorted by a text. -/
def failuresAt (findings : List FilterFinding) (text : String) : List FilterFinding :=
  (findings.filter isFailure).filter fun finding => finding.sortText == text

private theorem ties_sortText (finding other : FilterFinding) :
    ties (fun left right : FilterFinding => left.sortText ≤ right.sortText) finding other =
      (other.sortText == finding.sortText) := by
  rw [ties, Bool.eq_iff_iff, Bool.and_eq_true, decide_eq_true_iff, decide_eq_true_iff, beq_iff_eq]
  constructor
  · rintro ⟨before, after⟩
    exact String.le_antisymm after before
  · intro same
    rw [same]
    exact ⟨String.le_refl _, String.le_refl _⟩

/-- Failures are sorted alike exactly if for each text those with this text come in one order. -/
theorem settle_eq_settle_iff {left right : List FilterFinding}
    (leftFails : left.any isFailure = true) (rightFails : right.any isFailure = true) :
    settle left = settle right ↔ ∀ text, failuresAt left text = failuresAt right text := by
  rw [settle_of_failure leftFails, settle_of_failure rightFails]
  exact sortBy_eq_sortBy_iff_of_key sortText_trans sortText_total sortText ties_sortText

/-- Whether a finding comes first by its text: no other has a lesser one, and none of those before
it has the same. -/
def IsFirstByText (findings : List FilterFinding) (finding : FilterFinding) : Prop :=
  ∃ before after, findings = before ++ finding :: after ∧
    (∀ earlier ∈ before, finding.sortText < earlier.sortText) ∧
    ∀ later ∈ after, finding.sortText ≤ later.sortText

/-- Of successes the first one by its text stays. -/
theorem mem_settle_iff_of_fine {findings : List FilterFinding} {finding : FilterFinding}
    (fine : findings.any isFailure = false) :
    finding ∈ settle findings ↔ IsFirstByText findings finding := by
  rw [settle_of_fine fine, inOrder, mem_take_sortBy_iff sortText_trans sortText_total]
  simp only [decide_eq_false_iff_not, decide_eq_true_iff, String.not_le, IsFirstByText]

/-- The success that stays of two sides is the one with the lesser text, at a tie the left one. -/
theorem settle_append_of_fine {left right : List FilterFinding} {first second : FilterFinding}
    (fine : (left ++ right).any isFailure = false) (ofLeft : settle left = [first])
    (ofRight : settle right = [second]) :
    settle (left ++ right) = [if first.sortText ≤ second.sortText then first else second] := by
  have parts := fine
  rw [List.any_append, Bool.or_eq_false_iff] at parts
  rw [settle_of_fine parts.1] at ofLeft
  rw [settle_of_fine parts.2] at ofRight
  have settled : (inOrder ([first] ++ [second])).take 1 = (inOrder (left ++ right)).take 1 := by
    rw [← ofLeft, ← ofRight]
    exact (take_sortBy_append_take _ right).trans
      (take_sortBy_take_append sortText_trans sortText_total left right)
  rw [settle_of_fine fine, ← settled]
  refine (take_sortBy_cons_cons sortText_trans sortText_total first second []).trans ?_
  simp only [decide_eq_true_iff]
  rfl

/-- Successes settle alike in both orders exactly if those left on the two sides do not tie. -/
theorem settle_append_comm_iff_of_fine {left right : List FilterFinding}
    (fine : (left ++ right).any isFailure = false) :
    settle (left ++ right) = settle (right ++ left) ↔
      ∀ first ∈ settle left, ∀ second ∈ settle right,
        first.sortText = second.sortText → first = second := by
  have swapped := fine
  rw [List.any_append, Bool.or_comm, ← List.any_append] at swapped
  have parts := fine
  rw [List.any_append, Bool.or_eq_false_iff] at parts
  rcases eq_or_ne left [] with rfl | some
  · rw [List.nil_append, List.append_nil]
    exact iff_of_true rfl fun _ member => nomatch member
  rcases eq_or_ne right [] with rfl | others
  · rw [List.nil_append, List.append_nil]
    exact iff_of_true rfl fun _ _ _ member => nomatch member
  obtain ⟨first, ofLeft⟩ := exists_settle_eq_singleton some parts.1
  obtain ⟨second, ofRight⟩ := exists_settle_eq_singleton others parts.2
  rw [settle_append_of_fine fine ofLeft ofRight, settle_append_of_fine swapped ofRight ofLeft,
    ofLeft, ofRight]
  simp only [List.cons.injEq, and_true, List.mem_singleton, forall_eq]
  rcases String.le_total first.sortText second.sortText with before | after
  · by_cases back : second.sortText ≤ first.sortText
    · rw [if_pos before, if_pos back]
      exact ⟨fun same _ => same, fun same => same (String.le_antisymm before back)⟩
    · rw [if_pos before, if_neg back]
      exact iff_of_true rfl fun same => (back (same ▸ String.le_refl _)).elim
  · by_cases forth : first.sortText ≤ second.sortText
    · rw [if_pos forth, if_pos after]
      exact ⟨fun same _ => same, fun same => same (String.le_antisymm forth after)⟩
    · rw [if_neg forth, if_pos after]
      exact iff_of_true rfl fun same => (forth (same ▸ String.le_refl _)).elim

end FilterFinding

namespace UnreadableFilter

/-- The unreadable filters that are sorted by a pair of texts. -/
def listedAt (filters : List UnreadableFilter) (texts : String × String) : List UnreadableFilter :=
  filters.filter fun filter => filter.sortTexts == texts

private theorem ties_listedBefore (filter other : UnreadableFilter) :
    ties listedBefore filter other = (other.sortTexts == filter.sortTexts) := by
  rw [Bool.eq_iff_iff, ties, Bool.and_eq_true, beq_iff_eq]
  constructor
  · rintro ⟨before, after⟩
    have equal : compareLex (compareOn Prod.fst) (compareOn Prod.snd) other.sortTexts
        filter.sortTexts = .eq := Std.OrientedCmp.isLE_antisymm after before
    obtain ⟨paths, filters⟩ := Ordering.then_eq_eq.mp equal
    exact Prod.ext (Std.LawfulEqOrd.eq_of_compare paths) (Std.LawfulEqOrd.eq_of_compare filters)
  · intro same
    rw [listedBefore, listedBefore, same]
    exact ⟨Std.ReflCmp.isLE_rfl, Std.ReflCmp.isLE_rfl⟩

end UnreadableFilter

namespace FilterLookup

open FilterFinding UnreadableFilter

/-- Two lookups merge alike in both orders exactly if, for each key, failures with the same text come
in one order from both sides, or without failures the successes that come first by their texts on
both sides do not have the same text unless they are equal, and unreadable filters with the same
texts come in one order. -/
theorem merge_comm_iff (left right : FilterLookup) :
    left.merge right = right.merge left ↔
      (∀ key, if (left.get key ++ right.get key).any isFailure = true then
          ∀ text, failuresAt (left.get key) text ++ failuresAt (right.get key) text =
            failuresAt (right.get key) text ++ failuresAt (left.get key) text
        else ∀ first, IsFirstByText (left.get key) first → ∀ second,
          IsFirstByText (right.get key) second →
            first.sortText = second.sortText → first = second) ∧
      ∀ texts, appendNew (listedAt left.unreadable texts) (listedAt right.unreadable texts) =
        appendNew (listedAt right.unreadable texts) (listedAt left.unreadable texts) := by
  have parts : left.merge right = right.merge left ↔
      settleAll (left.findings ++ right.findings) = settleAll (right.findings ++ left.findings) ∧
      sortBy listedBefore (appendNew left.unreadable right.unreadable) =
        sortBy listedBefore (appendNew right.unreadable left.unreadable) :=
    FilterLookup.mk.injEq _ _ _ _ ▸ Iff.rfl
  rw [parts, settleAll_eq_settleAll_iff,
    sortBy_eq_sortBy_iff_of_key listedBefore_trans listedBefore_total sortTexts ties_listedBefore]
  refine and_congr (forall_congr' fun key => ?_) (forall_congr' fun texts => ?_)
  · rw [List.filter_append, List.filter_append]
    change settle (left.get key ++ right.get key) = settle (right.get key ++ left.get key) ↔ _
    split
    · rename_i fails
      have swapped := fails
      rw [List.any_append, Bool.or_comm, ← List.any_append] at swapped
      rw [settle_eq_settle_iff fails swapped]
      simp only [failuresAt, List.filter_append]
    · rename_i fine
      have fine := Bool.eq_false_of_not_eq_true fine
      have parts := fine
      rw [List.any_append, Bool.or_eq_false_iff] at parts
      rw [settle_append_comm_iff_of_fine fine]
      simp only [mem_settle_iff_of_fine parts.1, mem_settle_iff_of_fine parts.2]
  · rw [filter_appendNew, filter_appendNew]
    rfl

/-- A filter on the region of customers. -/
def regionFilter (region : String) : String :=
  "\x7b\x7b Dimension('customer__region') \x7d\x7d = " ++ region

/-- What is known of two queries for one metric, each with a filter of its own on the same item,
depends on which is merged first. -/
theorem not_merge_comm : ∃ north south,
    Scope.ofQuery Scope.customersCatalog ["revenue"] [regionFilter "'north'"] = .ok north ∧
    Scope.ofQuery Scope.customersCatalog ["revenue"] [regionFilter "'south'"] = .ok south ∧
      let left := ((ofQuery Scope.customersCatalog 6 north).run (.empty 4)).1
      let right := ((ofQuery Scope.customersCatalog 6 south).run (.empty 4)).1
      left.hasErrors = false ∧ right.hasErrors = false ∧ left.merge right ≠ right.merge left :=
  ⟨_, _, rfl, rfl, by decide +kernel, by decide +kernel, by decide +kernel⟩

end FilterLookup

end MetricQuery
