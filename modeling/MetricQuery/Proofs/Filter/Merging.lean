import MetricQuery.Filter.Lookup
import MetricQuery.Proofs.Collection.Sorting

/-! # Merging what is known about filters

A failure stays however often findings are merged (`FilterLookup.mem_findings_merge_of_isFailure`).
Without failures one finding is left for each key (`FilterLookup.map_key_merge`).
-/

namespace MetricQuery

namespace FilterFinding

/-- Findings in the order in which they are settled. -/
def inOrder (findings : List FilterFinding) : List FilterFinding :=
  sortBy (fun left right => left.sortText ≤ right.sortText) findings

/-- Ordering by text loses and adds nothing. -/
theorem inOrder_perm (findings : List FilterFinding) : (inOrder findings).Perm findings :=
  sortBy_perm _ findings

/-- Failures stay, all of them; without any the first finding by text stays alone. -/
theorem settle_eq_ite (findings : List FilterFinding) :
    settle findings = if findings.any isFailure then (inOrder findings).filter isFailure
      else (inOrder findings).take 1 := by
  rw [← (inOrder_perm findings).any_eq]
  rfl

/-- What stays for a key was found for it. -/
theorem mem_of_mem_settle {findings : List FilterFinding} {finding : FilterFinding}
    (member : finding ∈ settle findings) : finding ∈ findings := by
  rw [settle_eq_ite] at member
  split at member
  · exact (inOrder_perm findings).mem_iff.mp (List.mem_of_mem_filter member)
  · exact (inOrder_perm findings).mem_iff.mp (List.mem_of_mem_take member)

/-- A failure is never dropped. -/
theorem mem_settle_of_isFailure {findings : List FilterFinding} {finding : FilterFinding}
    (failed : finding.isFailure = true) : finding ∈ settle findings ↔ finding ∈ findings := by
  refine ⟨mem_of_mem_settle, fun member => ?_⟩
  have fails : findings.any isFailure = true := List.any_eq_true.mpr ⟨finding, member, failed⟩
  rw [settle_eq_ite, if_pos fails]
  exact List.mem_filter.mpr ⟨(inOrder_perm findings).mem_iff.mpr member, failed⟩

/-- Of findings that are no failures a single one is left. -/
theorem exists_settle_eq_singleton {findings : List FilterFinding} (some : findings ≠ [])
    (fine : findings.any isFailure = false) : ∃ finding, settle findings = [finding] := by
  rw [settle_eq_ite, fine]
  cases ordered : inOrder findings with
  | nil => exact (some (ordered ▸ inOrder_perm findings).nil_eq.symm).elim
  | cons first rest => exact ⟨first, rfl⟩

/-- What stays was found. -/
theorem mem_of_mem_settleAll {findings : List FilterFinding} {finding : FilterFinding}
    (member : finding ∈ settleAll findings) : finding ∈ findings := by
  obtain ⟨key, _, member⟩ := List.mem_flatMap.mp member
  exact List.mem_of_mem_filter (mem_of_mem_settle member)

/-- A failure stays exactly when it was found. -/
theorem mem_settleAll_of_isFailure {findings : List FilterFinding} {finding : FilterFinding}
    (failed : finding.isFailure = true) : finding ∈ settleAll findings ↔ finding ∈ findings := by
  refine ⟨mem_of_mem_settleAll, fun member => ?_⟩
  refine List.mem_flatMap.mpr ⟨finding.key, mem_sortedDistinct.mpr (List.mem_map_of_mem member), ?_⟩
  exact (mem_settle_of_isFailure failed).mpr
    (List.mem_filter.mpr ⟨member, beq_self_eq_true _⟩)

/-- Settling neither hides nor makes failures. -/
theorem any_isFailure_settleAll (findings : List FilterFinding) :
    (settleAll findings).any isFailure = findings.any isFailure := by
  rw [Bool.eq_iff_iff, List.any_eq_true, List.any_eq_true]
  exact exists_congr fun finding => and_congr_left fun failed => mem_settleAll_of_isFailure failed

/-- Without failures there is one finding for each key. -/
theorem map_key_settleAll {findings : List FilterFinding}
    (fine : findings.any isFailure = false) :
    (settleAll findings).map key = sortedDistinct (findings.map key) := by
  have each : ∀ wanted ∈ sortedDistinct (findings.map key),
      (settle (findings.filter fun finding => finding.key == wanted)).map key = [wanted] := by
    intro wanted member
    obtain ⟨finding, member, same⟩ := List.mem_map.mp (mem_sortedDistinct.mp member)
    have some : findings.filter (fun finding => finding.key == wanted) ≠ [] :=
      List.ne_nil_of_mem (List.mem_filter.mpr ⟨member, beq_iff_eq.mpr same⟩)
    have fineHere : (findings.filter fun finding => finding.key == wanted).any isFailure =
        false := by
      apply List.any_eq_false.mpr
      intro other inside
      exact List.any_eq_false.mp fine other (List.mem_of_mem_filter inside)
    obtain ⟨left, settled⟩ := exists_settle_eq_singleton some fineHere
    have inside := mem_of_mem_settle (settled ▸ List.mem_cons_self)
    rw [settled, List.map_singleton, beq_iff_eq.mp (List.mem_filter.mp inside).2]
  rw [settleAll, List.map_flatMap, List.flatMap_congr each, List.flatMap_singleton']

end FilterFinding

namespace FilterLookup

open FilterFinding

variable {left right : FilterLookup}

/-- Every finding of the merged lookup is of one of the two. -/
theorem mem_findings_merge {finding : FilterFinding}
    (member : finding ∈ (left.merge right).findings) :
    finding ∈ left.findings ∨ finding ∈ right.findings :=
  List.mem_append.mp (mem_of_mem_settleAll member)

/-- The failures of the merged lookup are those of the two. -/
theorem mem_findings_merge_of_isFailure {finding : FilterFinding}
    (failed : finding.isFailure = true) : finding ∈ (left.merge right).findings ↔
      finding ∈ left.findings ∨ finding ∈ right.findings :=
  (mem_settleAll_of_isFailure failed).trans List.mem_append

/-- The unreadable filters of the merged lookup are those of the two. -/
theorem mem_unreadable_merge {filter : UnreadableFilter} :
    filter ∈ (left.merge right).unreadable ↔
      filter ∈ left.unreadable ∨ filter ∈ right.unreadable := by
  rw [merge, mem_sortBy, mem_appendNew]

/-- The lookup's issues have an error exactly when the lookup has. -/
theorem hasErrors_issues (lookup : FilterLookup) : lookup.issues.hasErrors = lookup.hasErrors := by
  rw [issues, Issues.hasErrors, List.any_append, List.any_flatMap, List.any_flatMap]
  rfl

/-- Merging neither makes failures nor loses them. -/
theorem hasErrors_merge (left right : FilterLookup) :
    (left.merge right).hasErrors = (left.hasErrors || right.hasErrors) := by
  have findings : (left.merge right).findings.any isFailure =
      (left.findings.any isFailure || right.findings.any isFailure) := by
    rw [merge, any_isFailure_settleAll, List.any_append]
  have unreadable : ((left.merge right).unreadable.any fun filter => filter.issues.hasErrors) =
      ((left.unreadable.any fun filter => filter.issues.hasErrors) ||
        right.unreadable.any fun filter => filter.issues.hasErrors) := by
    rw [Bool.eq_iff_iff, Bool.or_eq_true]
    simp only [List.any_eq_true, mem_unreadable_merge, or_and_right, exists_or]
  change ((left.merge right).findings.any isFailure || _) =
    ((left.findings.any isFailure || _) || (right.findings.any isFailure || _))
  rw [findings, unreadable, Bool.or_assoc, Bool.or_assoc, Bool.or_left_comm (right.findings.any _)]

/-- Without failures one finding is left for each key. -/
theorem map_key_merge (fine : (left.merge right).hasErrors = false) :
    (left.merge right).findings.map key =
      sortedDistinct (left.findings.map key ++ right.findings.map key) := by
  have fine : (left.merge right).findings.any isFailure = false := (Bool.or_eq_false_iff.mp fine).1
  rw [merge, any_isFailure_settleAll] at fine
  rw [merge, map_key_settleAll fine, List.map_append]

end FilterLookup

end MetricQuery
