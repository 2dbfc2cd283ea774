import Mathlib.Data.List.Induction
import MetricQuery.Proofs.Collection.Interleaving
import MetricQuery.Proofs.Collection.Ties
import MetricQuery.Proofs.Filter.Merging

/-! # Merging in groups

What is known for a key after a merge depends only on what was known for it on both sides
(`FilterLookup.get_merge`). Settling findings early changes nothing about what is left of them in the
end (`FilterFinding.settleAll_between`), so that merging is associative, and it does not matter in
which groups what is known about the parts of a query is merged (`FilterLookup.merge_regroups`).
-/

namespace MetricQuery

/-! ## Extended lists -/

section

variable {α : Type} [BEq α] [LawfulBEq α]

/-- Filtering commutes with appending what is new. -/
theorem filter_appendNew (base extra : List α) (holds : α → Bool) :
    (appendNew base extra).filter holds = appendNew (base.filter holds) (extra.filter holds) := by
  induction extra generalizing base with
  | nil => rfl
  | cons member rest ih =>
      rw [appendNew_cons, ih, List.filter_cons]
      by_cases held : holds member = true
      · rw [if_pos held, appendNew_cons]
        by_cases inside : member ∈ base
        · simp [inside, held]
        · simp [inside, held, List.filter_append]
      · rw [if_neg held]
        split
        · rfl
        · rw [List.filter_append, List.filter_cons, if_neg held, List.filter_nil, List.append_nil]

omit [LawfulBEq α] in
/-- New members are appended one by one. -/
theorem appendNew_concat (base extra : List α) (member : α) :
    appendNew base (extra ++ [member]) = appendNew (appendNew base extra) [member] :=
  List.foldl_append

private theorem appendNew_assoc (first second third : List α) :
    appendNew (appendNew first second) third = appendNew first (appendNew second third) := by
  induction third using List.reverseRecOn with
  | nil => rfl
  | append_singleton rest member ih =>
      rw [appendNew_concat, ih, appendNew_concat, appendNew_cons (appendNew second rest)]
      by_cases held : member ∈ appendNew second rest
      · have known : member ∈ appendNew first (appendNew second rest) :=
          mem_appendNew.mpr (.inr held)
        rw [appendNew_cons, if_pos (List.contains_iff_mem.mpr known),
          if_pos (List.contains_iff_mem.mpr held)]
        rfl
      · rw [if_neg (fun inside => held (List.contains_iff_mem.mp inside)), appendNew_nil,
          appendNew_concat]

end

namespace FilterFinding

/-! ## Settled findings -/

/-- The order by text is transitive. -/
theorem sortText_trans (left between right : FilterFinding)
    (before : decide (left.sortText ≤ between.sortText) = true)
    (after : decide (between.sortText ≤ right.sortText) = true) :
    decide (left.sortText ≤ right.sortText) = true :=
  decide_eq_true (String.le_trans (of_decide_eq_true before) (of_decide_eq_true after))

/-- The order by text is total. -/
theorem sortText_total (left right : FilterFinding) :
    (decide (left.sortText ≤ right.sortText) ||
      decide (right.sortText ≤ left.sortText)) = true := by
  rw [Bool.or_eq_true, decide_eq_true_iff, decide_eq_true_iff]
  exact String.le_total left.sortText right.sortText

/-- With a failure among them exactly the failures stay, in order. -/
theorem settle_of_failure {findings : List FilterFinding}
    (fails : findings.any isFailure = true) :
    settle findings = inOrder (findings.filter isFailure) := by
  rw [settle_eq_ite, if_pos fails]
  exact filter_sortBy sortText_trans sortText_total findings isFailure

/-- Without failures the first by text stays. -/
theorem settle_of_fine {findings : List FilterFinding} (fine : findings.any isFailure = false) :
    settle findings = (inOrder findings).take 1 := by
  rw [settle_eq_ite, fine]
  rfl

/-- Something stays unless nothing was found. -/
theorem settle_eq_nil_iff {findings : List FilterFinding} :
    settle findings = [] ↔ findings = [] := by
  refine ⟨fun nothing => ?_, fun none => by rw [none]; rfl⟩
  by_contra some
  cases fails : findings.any isFailure with
  | false =>
      obtain ⟨finding, kept⟩ := exists_settle_eq_singleton some fails
      exact nomatch kept.symm.trans nothing
  | true =>
      obtain ⟨finding, member, failed⟩ := List.any_eq_true.mp fails
      have kept := (mem_settle_of_isFailure failed).mpr member
      exact List.not_mem_nil (nothing ▸ kept)

/-- To settle some findings before others join them changes nothing. -/
theorem settle_between (before findings behind : List FilterFinding) :
    settle (before ++ settle findings ++ behind) = settle (before ++ findings ++ behind) := by
  have kept : (settle findings).any isFailure = findings.any isFailure := by
    rw [Bool.eq_iff_iff, List.any_eq_true, List.any_eq_true]
    exact exists_congr fun finding => and_congr_left fun failed => mem_settle_of_isFailure failed
  have fails : (before ++ settle findings ++ behind).any isFailure =
      (before ++ findings ++ behind).any isFailure := by
    rw [List.any_append, List.any_append, kept, ← List.any_append, ← List.any_append]
  cases any : (before ++ findings ++ behind).any isFailure with
  | true =>
      rw [settle_of_failure (fails.trans any), settle_of_failure any]
      have failures : inOrder ((settle findings).filter isFailure) =
          inOrder (findings.filter isFailure) := by
        cases failed : findings.any isFailure with
        | true =>
            rw [settle_of_failure failed, List.filter_eq_self.mpr]
            · exact sortBy_of_pairwise (pairwise_sortBy sortText_trans sortText_total _)
            · intro finding member
              exact (List.mem_filter.mp ((inOrder_perm _).mem_iff.mp member)).2
        | false =>
            rw [List.filter_eq_nil_iff.mpr (List.any_eq_false.mp failed),
              List.filter_eq_nil_iff.mpr (List.any_eq_false.mp (kept.trans failed))]
      simp only [List.filter_append]
      refine (sortBy_eq_sortBy_iff sortText_trans sortText_total).mpr fun member => ?_
      have alike := (sortBy_eq_sortBy_iff sortText_trans sortText_total).mp failures member
      rw [List.filter_append, List.filter_append, alike, ← List.filter_append, ← List.filter_append]
  | false =>
      rw [settle_of_fine (fails.trans any), settle_of_fine any]
      rw [List.any_append, List.any_append, Bool.or_eq_false_iff, Bool.or_eq_false_iff] at any
      have behindBefore : ∀ middle : List FilterFinding,
          (inOrder (before ++ middle ++ behind)).take 1 =
            (inOrder (before ++ (inOrder (middle ++ behind)).take 1)).take 1 := by
        intro middle
        rw [List.append_assoc]
        exact (take_sortBy_append_take before (middle ++ behind)).symm
      rw [settle_of_fine any.1.2, behindBefore, behindBefore findings]
      have first : (inOrder ((inOrder findings).take 1 ++ behind)).take 1 =
          (inOrder (findings ++ behind)).take 1 :=
        take_sortBy_take_append sortText_trans sortText_total findings behind
      rw [first]

/-! ## Keys -/

private theorem flatMap_ite_eq {α β : Type} [DecidableEq α] {members : List α}
    (distinct : members.Nodup)
    (wanted : α) (expand : List β) :
    (members.flatMap fun member => if member = wanted then expand else []) =
      if wanted ∈ members then expand else [] := by
  induction members with
  | nil => rfl
  | cons first rest ih =>
      obtain ⟨absent, distinct⟩ := List.nodup_cons.mp distinct
      rw [List.flatMap_cons, ih distinct]
      by_cases same : first = wanted
      · subst same
        rw [if_pos rfl, if_neg absent, List.append_nil, if_pos List.mem_cons_self]
      · have other : wanted ∈ first :: rest ↔ wanted ∈ rest := by
          rw [List.mem_cons, or_iff_right (Ne.symm same)]
        simp only [same, if_false, List.nil_append, other]

/-- What is left for a key is settled from what there was for this key. -/
theorem filter_settleAll (findings : List FilterFinding) (wanted : FilterKey) :
    (settleAll findings).filter (·.key == wanted) =
      settle (findings.filter (·.key == wanted)) := by
  have each : ∀ key, (settle (findings.filter (·.key == key))).filter (·.key == wanted) =
      if key = wanted then settle (findings.filter (·.key == wanted)) else [] := by
    intro key
    have keyed : ∀ finding ∈ settle (findings.filter (·.key == key)), finding.key = key :=
      fun finding member => beq_iff_eq.mp (List.mem_filter.mp (mem_of_mem_settle member)).2
    split
    · rename_i same
      rw [← same]
      exact List.filter_eq_self.mpr fun finding member => beq_iff_eq.mpr (keyed finding member)
    · rename_i different
      refine List.filter_eq_nil_iff.mpr fun finding member same => ?_
      exact different ((keyed finding member).symm.trans (beq_iff_eq.mp same))
  rw [settleAll, List.filter_flatMap]
  simp only [each]
  rw [flatMap_ite_eq (nodup_sortedDistinct _)]
  split
  · rfl
  · rename_i absent
    rw [mem_sortedDistinct, List.mem_map] at absent
    refine (settle_eq_nil_iff.mpr (List.filter_eq_nil_iff.mpr fun finding member same => ?_)).symm
    exact absent ⟨finding, member, beq_iff_eq.mp same⟩

/-- Findings leave the same behind exactly if they do so for each key. -/
theorem settleAll_eq_settleAll_iff {left right : List FilterFinding} :
    settleAll left = settleAll right ↔ ∀ wanted,
      settle (left.filter (·.key == wanted)) = settle (right.filter (·.key == wanted)) := by
  refine ⟨fun same wanted => ?_, fun same => ?_⟩
  · rw [← filter_settleAll, same, filter_settleAll]
  · have mem_keys : ∀ (findings : List FilterFinding) (wanted : FilterKey),
        wanted ∈ findings.map key ↔ settle (findings.filter (·.key == wanted)) ≠ [] := by
      intro findings wanted
      rw [Ne, settle_eq_nil_iff, List.filter_eq_nil_iff, List.mem_map]
      simp only [not_forall, not_not, beq_iff_eq, exists_prop]
    have keys : sortedDistinct (left.map key) = sortedDistinct (right.map key) := by
      refine eq_of_mem_iff (pairwise_sortedDistinct _) (pairwise_sortedDistinct _)
        (nodup_sortedDistinct _) (nodup_sortedDistinct _) fun wanted => ?_
      rw [mem_sortedDistinct, mem_sortedDistinct, mem_keys, mem_keys, same]
    rw [settleAll, settleAll, keys]
    exact List.flatMap_congr fun wanted _ => same wanted

/-- Settling a part of the findings first changes nothing. -/
theorem settleAll_between (before findings behind : List FilterFinding) :
    settleAll (before ++ settleAll findings ++ behind) =
      settleAll (before ++ findings ++ behind) :=
  settleAll_eq_settleAll_iff.mpr fun wanted => by
    simp only [List.filter_append]
    rw [filter_settleAll, settle_between]

end FilterFinding

namespace UnreadableFilter

/-- The order of unreadable filters is transitive. -/
theorem listedBefore_trans (left between right : UnreadableFilter)
    (before : left.listedBefore between = true) (after : between.listedBefore right = true) :
    left.listedBefore right = true := Std.TransCmp.isLE_trans before after

/-- The order of unreadable filters is total. -/
theorem listedBefore_total (left right : UnreadableFilter) :
    (left.listedBefore right || right.listedBefore left) = true := by
  have swap : compareLex (compareOn Prod.fst) (compareOn Prod.snd) right.sortTexts left.sortTexts =
      (compareLex (compareOn Prod.fst) (compareOn Prod.snd) left.sortTexts right.sortTexts).swap :=
    Std.OrientedCmp.eq_swap
  rw [listedBefore, listedBefore, swap]
  cases compareLex (compareOn Prod.fst) (compareOn Prod.snd) left.sortTexts right.sortTexts <;> rfl

end UnreadableFilter

namespace FilterLookup

open FilterFinding

/-! ## Merging -/

/-- What is known for a key is settled from what both sides know for it. -/
theorem get_merge (left right : FilterLookup) (key : FilterKey) :
    (left.merge right).get key = settle (left.get key ++ right.get key) := by
  rw [get, merge, filter_settleAll, List.filter_append]
  rfl

/-- Merging three lookups does not depend on how they are grouped. -/
theorem merge_assoc (first second third : FilterLookup) :
    (first.merge second).merge third = first.merge (second.merge third) := by
  have findings : settleAll (settleAll (first.findings ++ second.findings) ++ third.findings) =
      settleAll (first.findings ++ settleAll (second.findings ++ third.findings)) := by
    have left := settleAll_between [] (first.findings ++ second.findings) third.findings
    have right := settleAll_between first.findings (second.findings ++ third.findings) []
    rw [List.append_nil, List.append_nil] at right
    rw [right, ← List.append_assoc]
    exact left
  have unreadable : sortBy UnreadableFilter.listedBefore (appendNew (sortBy
        UnreadableFilter.listedBefore (appendNew first.unreadable second.unreadable))
        third.unreadable) =
      sortBy UnreadableFilter.listedBefore (appendNew first.unreadable (sortBy
        UnreadableFilter.listedBefore (appendNew second.unreadable third.unreadable))) := by
    refine (sortBy_eq_sortBy_iff UnreadableFilter.listedBefore_trans
      UnreadableFilter.listedBefore_total).mpr fun member => ?_
    simp only [filter_appendNew, filter_ties_sortBy UnreadableFilter.listedBefore_trans
      UnreadableFilter.listedBefore_total, appendNew_assoc]
  rw [merge, merge, merge, merge, findings, unreadable]

/-- To merge what has been merged with nothing changes nothing. -/
theorem merge_merge_empty (left right : FilterLookup) :
    (left.merge right).merge empty = left.merge right := by
  have findings := settleAll_between [] (left.findings ++ right.findings) []
  rw [List.append_nil, List.append_nil] at findings
  have sorted := sortBy_of_pairwise (pairwise_sortBy UnreadableFilter.listedBefore_trans
    UnreadableFilter.listedBefore_total (appendNew left.unreadable right.unreadable))
  unfold merge empty
  rw [List.append_nil, appendNew_nil, sorted]
  exact congrArg (FilterLookup.mk · _) findings

/-- What is merged already is settled: merging in nothing leaves it as it is. -/
theorem mergeAll_merge_empty (lookups : List FilterLookup) :
    (mergeAll lookups).merge empty = mergeAll lookups := by
  cases lookups using List.reverseRecOn with
  | nil => rfl
  | append_singleton rest last =>
      rw [mergeAll, List.foldl_append]
      exact merge_merge_empty _ last

/-- What is merged one after the other behind something may be merged before. -/
theorem foldl_merge {start : FilterLookup} (merged : start.merge empty = start)
    (lookups : List FilterLookup) : lookups.foldl merge start = start.merge (mergeAll lookups) := by
  induction lookups generalizing start with
  | nil => exact merged.symm
  | cons first rest ih =>
      have cons : mergeAll (first :: rest) = (empty.merge first).merge (mergeAll rest) :=
        ih (merge_merge_empty empty first)
      rw [List.foldl_cons, ih (merge_merge_empty start first), cons, ← merge_assoc, ← merge_assoc,
        merged]

/-- Merging a list of lookups is merging its two halves. -/
theorem mergeAll_append (lookups others : List FilterLookup) :
    mergeAll (lookups ++ others) = (mergeAll lookups).merge (mergeAll others) := by
  rw [mergeAll, List.foldl_append]
  exact foldl_merge (mergeAll_merge_empty lookups) others

private theorem mergeAll_flatten (groups : List (List FilterLookup)) :
    mergeAll (groups.map mergeAll) = mergeAll groups.flatten := by
  induction groups using List.reverseRecOn with
  | nil => rfl
  | append_singleton rest last ih =>
      have single : mergeAll [mergeAll last] = empty.merge (mergeAll last) := rfl
      rw [List.map_append, mergeAll_append, ih, List.flatten_append, mergeAll_append,
        List.map_singleton, single, ← merge_assoc, mergeAll_merge_empty, List.flatten_singleton]

/-- Merging is associative. It neither makes failures nor loses them: for each key it leaves all
failures that there are on both sides, and a single success if there is none. So what is known of
several parts does not depend on the groups in which it is merged. -/
theorem merge_regroups (first second third : FilterLookup) :
    (first.merge second).merge third = first.merge (second.merge third) ∧
    ((first.merge second).hasErrors = true ↔
      first.hasErrors = true ∨ second.hasErrors = true) ∧
    (∀ key, let known := first.get key ++ second.get key
      if known.any isFailure = true then
        ((first.merge second).get key).Perm (known.filter isFailure)
      else known ≠ [] → ∃ success ∈ known, success.isFailure = false ∧
        (first.merge second).get key = [success]) ∧
    ∀ groups : List (List FilterLookup), mergeAll (groups.map mergeAll) = mergeAll groups.flatten := by
  refine ⟨merge_assoc first second third, ?_, fun key => ?_, mergeAll_flatten⟩
  · rw [hasErrors_merge, Bool.or_eq_true]
  · rw [get_merge]
    intro known
    split
    · rename_i fails
      rw [settle_of_failure fails]
      exact inOrder_perm _
    · rename_i fine
      intro some
      have fine := Bool.eq_false_of_not_eq_true fine
      obtain ⟨success, settled⟩ := exists_settle_eq_singleton some fine
      have among : success ∈ known := mem_of_mem_settle (settled ▸ List.mem_cons_self)
      have sound := Bool.eq_false_of_not_eq_true (List.any_eq_false.mp fine success among)
      exact ⟨success, among, sound, settled⟩

end FilterLookup

end MetricQuery
