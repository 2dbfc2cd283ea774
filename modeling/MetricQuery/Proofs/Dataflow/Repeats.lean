import MetricQuery.Dataflow.Repeats
import MetricQuery.Proofs.Collection.Counting
import MetricQuery.Proofs.Dataflow.Places

/-! # Repeated parts of a plan

A part is repeated if it stands in two places of a plan. The search for repeated parts enters every
part once, so that it does not meet all the places in which a part stands; but it meets each part
as often as it is an input of different parts (`exists_enters`). This is enough to find the repeated
parts around which nothing is repeated: the search lists what a walk through all places of the plan
lists (`repeatedParts_eq_outermostRepeats`).
-/

namespace MetricQuery.Dataflow

/-! ## Places -/

/-- A place in a plan: the part that stands there, and the parts that it flows into, the nearest
first. -/
structure Place where
  part : Dataflow
  above : List Dataflow

mutual

/-- The places in a plan that flows into the given parts: that of its last step, then those in its
inputs, one input after the other. -/
def places (above : List Dataflow) : Dataflow → List Place
  | node step inputs =>
    ⟨node step inputs, above⟩ :: placesOf (node step inputs :: above) inputs

/-- The places in several plans that stand below the same plans. -/
def placesOf (above : List Dataflow) : List Dataflow → List Place
  | [] => []
  | plan :: rest => places above plan ++ placesOf above rest

end

/-- What stands in the places of a plan. -/
def parts (plan : Dataflow) : List Dataflow := (plan.places []).map Place.part

/-- Whether a part stands in two places of a plan. -/
def IsRepeated (plan part : Dataflow) : Prop := 2 ≤ plan.parts.count part

instance (plan part : Dataflow) : Decidable (plan.IsRepeated part) :=
  inferInstanceAs (Decidable (2 ≤ _))

/-- Whether nothing around a place is repeated in a plan. -/
def Place.IsOutermost (plan : Dataflow) (place : Place) : Prop :=
  ∀ outer ∈ place.above, ¬ plan.IsRepeated outer

instance (plan : Dataflow) (place : Place) : Decidable (place.IsOutermost plan) :=
  inferInstanceAs (Decidable (∀ outer ∈ place.above, _))

/-- The repeated parts that stand in a place around which nothing is repeated, each once, in the
order in which a walk through the plan comes to them. -/
def outermostRepeats (plan : Dataflow) : List Dataflow :=
  (((plan.places []).filter fun place =>
    plan.IsRepeated place.part ∧ place.IsOutermost plan).map Place.part).eraseDups

variable {plan part : Dataflow} {step : Step} {inputs above : List Dataflow}

private theorem placesOf_eq_flatMap (above plans : List Dataflow) :
    placesOf above plans = plans.flatMap (places above) := by
  induction plans with
  | nil => rw [placesOf, List.flatMap_nil]
  | cons plan rest ih => rw [placesOf, ih, List.flatMap_cons]

/-- The first place in a plan is its top; the others are in the inputs, below it. -/
theorem places_node : (node step inputs).places above =
    ⟨node step inputs, above⟩ :: inputs.flatMap (places (node step inputs :: above)) := by
  rw [places, placesOf_eq_flatMap]

/-- What stands in a plan does not depend on what the plan flows into. -/
theorem map_part_places (above : List Dataflow) :
    (plan.places above).map Place.part = plan.parts := by
  induction plan using inductionOn generalizing above with
  | node step inputs ih =>
      rw [parts, places_node, places_node, List.map_cons, List.map_cons, List.map_flatMap,
        List.map_flatMap]
      refine congrArg _ (List.flatMap_congr fun input member => ?_)
      rw [ih input member, ih input member]

/-- The parts of a plan are the plan and the parts of its inputs. -/
theorem parts_node : (node step inputs).parts = node step inputs :: inputs.flatMap parts := by
  rw [parts, places_node, List.map_cons, List.map_flatMap]
  exact congrArg _ (List.flatMap_congr fun input _ => map_part_places _)

/-- A plan is one of its parts. -/
theorem self_mem_parts (plan : Dataflow) : plan ∈ plan.parts := by
  obtain ⟨step, inputs⟩ := plan
  rw [parts_node]
  exact List.mem_cons_self

/-- The other parts of a plan are those that it contains. -/
theorem mem_parts : part ∈ plan.parts ↔ part = plan ∨ plan.Contains part := by
  induction plan using inductionOn with
  | node step inputs ih =>
      rw [parts_node, List.mem_cons, List.mem_flatMap, contains_node_iff]
      exact or_congr_right (exists_congr fun input => and_congr_right (ih input))

/-- The parts of a plan with plain reads have plain reads. -/
theorem HasPlainReads.of_mem_parts (plain : plan.HasPlainReads) (inside : part ∈ plan.parts) :
    part.HasPlainReads := by
  induction plan using inductionOn with
  | node step inputs ih =>
      rw [parts_node, List.mem_cons, List.mem_flatMap] at inside
      rcases inside with rfl | ⟨input, among, inside⟩
      · exact plain
      · exact ih input among (plain.of_mem among) inside

/-- No plan stands in one of its own inputs. -/
theorem count_parts_self (plan : Dataflow) : plan.parts.count plan = 1 := by
  obtain ⟨step, inputs⟩ := plan
  rw [parts_node, List.count_cons_self, Nat.add_eq_right, List.count_eq_zero]
  intro inside
  obtain ⟨input, member, inside⟩ := List.mem_flatMap.mp inside
  exact not_contains_self _ (contains_node_iff.mpr ⟨input, member, mem_parts.mp inside⟩)

/-- A plan does not occur again in itself. -/
theorem not_isRepeated_self (plan : Dataflow) : ¬ plan.IsRepeated plan := by
  rw [IsRepeated, count_parts_self]
  decide

/-- What is repeated is a part. -/
theorem mem_parts_of_isRepeated (repeated : plan.IsRepeated part) : part ∈ plan.parts :=
  List.one_le_count_iff.mp (Nat.le_of_succ_le repeated)

/-- Everything in a plan but the plan itself is an input of what stands in some other place. -/
theorem parts_perm (plan : Dataflow) :
    plan.parts.Perm (plan :: plan.parts.flatMap Dataflow.inputs) := by
  induction plan using inductionOn with
  | node step given ih =>
      rw [parts_node, List.flatMap_cons, List.flatMap_assoc]
      refine .cons _ ((List.Perm.flatMap_left given ih).trans ?_)
      have split := List.flatMap_append_perm given (fun input => [input])
        (fun input => input.parts.flatMap Dataflow.inputs)
      rw [List.flatMap_singleton'] at split
      exact split.symm

/-! ## Walks -/

/-- Whether a walk through some plans comes to these plans and to the inputs of what it enters, and
to nothing besides: what it comes to has been met, and what it comes to again has been met again. -/
structure Enters (found : Occurrences) (plans entered : List Dataflow) (after : Occurrences) :
    Prop where
  met : after.met = entered ++ found.met
  within : entered ⊆ plans.flatMap parts
  once : ∀ part, after.met.count part =
    min 1 (found.met.count part + (plans ++ entered.flatMap Dataflow.inputs).count part)
  again : ∀ part, part ∈ after.again ↔
    part ∈ found.again ∨
      2 ≤ found.met.count part + (plans ++ entered.flatMap Dataflow.inputs).count part

namespace Enters

variable {found between after : Occurrences} {plans others entered further : List Dataflow}

/-- Where nothing is entered nothing changes. -/
theorem nil (distinct : found.met.Nodup) : Enters found [] [] found := by
  have once := List.nodup_iff_count_le_one.mp distinct
  refine ⟨rfl, List.nil_subset _, fun part => ?_, fun part => ?_⟩
  · rw [List.flatMap_nil, List.append_nil, List.count_nil, Nat.add_zero, Nat.min_eq_right]
    exact once part
  · have := once part
    rw [List.flatMap_nil, List.append_nil, List.count_nil]
    exact (or_iff_left (by omega)).symm

/-- Plans are entered one after the other. -/
theorem append (first : Enters found plans entered between)
    (second : Enters between others further after) :
    Enters found (plans ++ others) (further ++ entered) after := by
  refine ⟨?_, ?_, fun part => ?_, fun part => ?_⟩
  · rw [second.met, first.met, List.append_assoc]
  · rw [List.flatMap_append]
    exact List.append_subset.mpr ⟨List.subset_append_of_subset_right _ second.within,
      List.subset_append_of_subset_left _ first.within⟩
  · have met := first.once part
    rw [second.once, List.flatMap_append]
    simp only [List.count_append] at met ⊢
    omega
  · have met := first.once part
    rw [second.again, first.again, List.flatMap_append, or_assoc]
    refine or_congr_right ?_
    simp only [List.count_append] at met ⊢
    omega

/-- What has been met before is met again. -/
theorem repeated (distinct : found.met.Nodup) (known : plan ∈ found.met) :
    Enters found [plan] [] { found with again := appendNew found.again [plan] } := by
  have once := List.nodup_iff_count_le_one.mp distinct
  have here : found.met.count plan = 1 :=
    Nat.le_antisymm (once plan) (List.one_le_count_iff.mpr known)
  refine ⟨rfl, List.nil_subset _, fun part => ?_, fun part => ?_⟩
  · have := once part
    rw [List.flatMap_nil, List.append_nil]
    by_cases same : part = plan
    · rw [same, here, List.count_singleton_self]
      rfl
    · rw [List.count_eq_zero_of_not_mem (mt List.mem_singleton.mp same)]
      exact (Nat.min_eq_right this).symm
  · have := once part
    rw [mem_appendNew, List.mem_singleton, List.flatMap_nil, List.append_nil]
    refine or_congr_right ?_
    by_cases same : part = plan
    · rw [same, here, List.count_singleton_self]
      exact iff_of_true rfl (Nat.le_refl 2)
    · rw [List.count_eq_zero_of_not_mem (mt List.mem_singleton.mp same)]
      exact iff_of_false same (by omega)

/-- What has not been met before is entered. -/
theorem enter
    (below : Enters { found with met := plan :: found.met } plan.inputs entered after) :
    Enters found [plan] (entered ++ [plan]) after := by
  refine ⟨?_, ?_, fun part => ?_, fun part => ?_⟩
  · rw [below.met, List.append_assoc]
    rfl
  · obtain ⟨step, given⟩ := plan
    rw [List.flatMap_singleton, parts_node]
    refine List.append_subset.mpr ⟨List.subset_cons_of_subset _ below.within, ?_⟩
    exact List.cons_subset.mpr ⟨List.mem_cons_self, List.nil_subset _⟩
  · rw [below.once, List.flatMap_append, List.flatMap_singleton]
    simp only [List.count_append, List.count_cons, List.count_nil]
    omega
  · rw [below.again, List.flatMap_append, List.flatMap_singleton]
    refine or_congr_right ?_
    simp only [List.count_append, List.count_cons, List.count_nil]
    omega

/-- Nothing is met twice, if nothing was before. -/
theorem distinct (enters : Enters found plans entered after) : after.met.Nodup := by
  refine List.nodup_iff_count_le_one.mpr fun part => ?_
  rw [enters.once]
  exact Nat.min_le_left _ _

end Enters

private theorem exists_enters_of {plans : List Dataflow}
    (each : ∀ plan ∈ plans, ∀ found : Occurrences, found.met.Nodup →
      ∃ entered, Enters found [plan] entered (countOccurrences found plan))
    (found : Occurrences) (distinct : found.met.Nodup) :
    ∃ entered, Enters found plans entered (countOccurrencesOf found plans) := by
  induction plans generalizing found with
  | nil =>
      rw [countOccurrencesOf]
      exact ⟨[], .nil distinct⟩
  | cons plan rest ih =>
      obtain ⟨entered, first⟩ := each plan List.mem_cons_self found distinct
      obtain ⟨further, second⟩ :=
        ih (fun other member => each other (List.mem_cons_of_mem _ member)) _ first.distinct
      rw [countOccurrencesOf]
      exact ⟨_, first.append second⟩

/-- A walk through a plan enters parts of it, each of them once. -/
theorem exists_enters (plan : Dataflow) : ∀ found : Occurrences, found.met.Nodup →
    ∃ entered, Enters found [plan] entered (countOccurrences found plan) := by
  induction plan using inductionOn with
  | node step inputs each =>
      intro found distinct
      rw [countOccurrences]
      by_cases known : node step inputs ∈ found.met
      · simp only [List.contains_iff_mem.mpr known, ↓reduceIte]
        exact ⟨[], .repeated distinct known⟩
      · have fresh : (node step inputs :: found.met).Nodup := List.nodup_cons.mpr ⟨known, distinct⟩
        obtain ⟨entered, below⟩ := exists_enters_of each
          { found with met := node step inputs :: found.met } fresh
        simp only [List.contains_iff_mem, known, ↓reduceIte]
        exact ⟨_, below.enter⟩

private theorem parts_subset {held : List Dataflow} (self : plan ∈ held)
    (closed : ∀ outer ∈ held, outer.inputs ⊆ held) : plan.parts ⊆ held := by
  induction plan using inductionOn with
  | node step inputs ih =>
      rw [parts_node]
      refine List.cons_subset.mpr ⟨self, fun part inside => ?_⟩
      obtain ⟨input, member, inside⟩ := List.mem_flatMap.mp inside
      exact ih input member (closed _ self member) inside

/-- The search enters each part of a plan once, and meets again what it comes to twice as an input
of the parts that it enters. -/
theorem exists_entered (plan : Dataflow) : ∃ entered : List Dataflow, entered.Nodup ∧
    (∀ part, part ∈ entered ↔ part ∈ plan.parts) ∧
    ∀ part, part ∈ (countOccurrences ⟨[], []⟩ plan).again ↔
      2 ≤ (plan :: entered.flatMap Dataflow.inputs).count part := by
  obtain ⟨entered, enters⟩ := exists_enters plan ⟨[], []⟩ List.nodup_nil
  have all : (countOccurrences ⟨[], []⟩ plan).met = entered := by
    rw [enters.met, List.append_nil]
  have met : ∀ part, part ∈ plan :: entered.flatMap Dataflow.inputs → part ∈ entered := by
    intro part inside
    have counted : 1 ≤ ([plan] ++ entered.flatMap Dataflow.inputs).count part :=
      List.one_le_count_iff.mpr inside
    rw [← all, ← List.one_le_count_iff, enters.once, List.count_nil]
    omega
  refine ⟨entered, all ▸ enters.distinct, fun part => ⟨fun member => ?_, fun inside => ?_⟩,
    fun part => ?_⟩
  · simpa using enters.within member
  · refine parts_subset (met plan List.mem_cons_self) (fun outer member input inside => ?_) inside
    exact met input (List.mem_cons_of_mem _ (List.mem_flatMap.mpr ⟨outer, member, inside⟩))
  · rw [enters.again, List.count_nil, Nat.zero_add, or_iff_right List.not_mem_nil]
    rfl

private theorem isRepeated_of_mem_again (again : part ∈ (countOccurrences ⟨[], []⟩ plan).again) :
    plan.IsRepeated part := by
  obtain ⟨entered, distinct, same, counted⟩ := exists_entered plan
  have bound : (entered.flatMap Dataflow.inputs).count part ≤
      (plan.parts.flatMap Dataflow.inputs).count part :=
    count_flatMap_le distinct fun other member => (same other).mp member
  have twice := (counted part).mp again
  rw [List.count_cons] at twice
  rw [IsRepeated, plan.parts_perm.count_eq, List.count_cons]
  omega

/-- A repeated part that is an input of what is not repeated is met again. -/
theorem mem_again_of_isRepeated {outer : Dataflow} (inside : outer ∈ plan.parts)
    (single : ¬ plan.IsRepeated outer) (member : part ∈ outer.inputs)
    (repeated : plan.IsRepeated part) : part ∈ (countOccurrences ⟨[], []⟩ plan).again := by
  obtain ⟨entered, _, same, counted⟩ := exists_entered plan
  have once : plan.parts.count outer = 1 := by
    have some := List.one_le_count_iff.mpr inside
    unfold IsRepeated at single
    omega
  have other : part ≠ plan := by
    rintro rfl
    exact not_isRepeated_self _ repeated
  rw [IsRepeated, plan.parts_perm.count_eq, List.count_cons_of_ne other.symm] at repeated
  rw [counted, List.count_cons_of_ne other.symm]
  exact two_le_count_flatMap (fun part inside => (same part).mpr inside) once member repeated

/-! ## Walks that stop at repeated parts -/

/-- Around a place in a plan there is what the plan flows into, unless it is the last step, behind
the part that the place is an input of. -/
theorem above_of_mem_places {place : Place} (member : place ∈ plan.places above) :
    above ⊆ place.above ∧ (place = ⟨plan, above⟩ ∨ ∃ outer rest, place.above = outer :: rest ∧
      outer ∈ plan.parts ∧ place.part ∈ outer.inputs) := by
  induction plan using inductionOn generalizing above with
  | node step inputs ih =>
      rw [places_node, List.mem_cons, List.mem_flatMap] at member
      rcases member with rfl | ⟨input, among, member⟩
      · exact ⟨List.Subset.refl _, .inl rfl⟩
      · obtain ⟨around, position⟩ := ih input among member
        refine ⟨List.Subset.trans (List.subset_cons_self _ _) around, .inr ?_⟩
        rw [parts_node]
        rcases position with rfl | ⟨outer, rest, nearest, inside, member⟩
        · exact ⟨_, _, rfl, List.mem_cons_self, among⟩
        · exact ⟨outer, rest, nearest,
            List.mem_cons_of_mem _ (List.mem_flatMap.mpr ⟨input, among, inside⟩), member⟩

/-- The outermost repeats of several plans are those of each, in their order. -/
theorem outermostOf_eq_flatMap (again plans : List Dataflow) :
    outermostOf again plans = plans.flatMap (outermost again) := by
  induction plans with
  | nil => rw [outermostOf, List.flatMap_nil]
  | cons plan rest ih => rw [outermostOf, ih, List.flatMap_cons]

/-- What is found outermost was looked for. -/
theorem mem_of_mem_outermost {again : List Dataflow} (member : part ∈ outermost again plan) :
    part ∈ again := by
  induction plan using inductionOn with
  | node step inputs ih =>
      rw [outermost] at member
      by_cases stops : node step inputs ∈ again
      · rw [if_pos (List.contains_iff_mem.mpr stops), List.mem_singleton] at member
        exact member ▸ stops
      · rw [if_neg (mt List.contains_iff_mem.mp stops), outermostOf_eq_flatMap] at member
        obtain ⟨input, among, member⟩ := List.mem_flatMap.mp member
        exact ih input among member

/-- A walk that stops at given parts finds all repeated ones among the outermost places, if the
given ones are the repeated ones there. -/
theorem outermost_eq {whole : Dataflow} {again : List Dataflow}
    (clear : ∀ outer ∈ above, ¬ whole.IsRepeated outer)
    (same : ∀ place ∈ plan.places above, place.IsOutermost whole →
      (place.part ∈ again ↔ whole.IsRepeated place.part)) :
    outermost again plan = ((plan.places above).filter fun place =>
      whole.IsRepeated place.part ∧ place.IsOutermost whole).map Place.part := by
  induction plan using inductionOn generalizing above with
  | node step inputs ih =>
      rw [places_node, List.forall_mem_cons] at same
      obtain ⟨atLast, below⟩ := same
      have here := atLast clear
      rw [outermost, outermostOf_eq_flatMap, places_node]
      by_cases repeated : whole.IsRepeated (node step inputs)
      · have covered : ∀ place ∈ inputs.flatMap (places (node step inputs :: above)),
            ¬ place.IsOutermost whole := by
          intro place member outermost
          obtain ⟨input, _, member⟩ := List.mem_flatMap.mp member
          exact outermost _ ((above_of_mem_places member).1 List.mem_cons_self) repeated
        have none : (inputs.flatMap (places (node step inputs :: above))).filter (fun place =>
            whole.IsRepeated place.part ∧ place.IsOutermost whole) = [] :=
          List.filter_eq_nil_iff.mpr fun place member held =>
            covered place member (of_decide_eq_true held).2
        have kept : whole.IsRepeated (node step inputs) ∧
            Place.IsOutermost whole ⟨node step inputs, above⟩ := ⟨repeated, clear⟩
        rw [if_pos (List.contains_iff_mem.mpr (here.mpr repeated)), List.filter_cons,
          if_pos (decide_eq_true kept), none]
        rfl
      · have dropped : ¬ (whole.IsRepeated (node step inputs) ∧
            Place.IsOutermost whole ⟨node step inputs, above⟩) := fun held => repeated held.1
        rw [if_neg (mt List.contains_iff_mem.mp (mt here.mp repeated)), List.filter_cons,
          if_neg (mt of_decide_eq_true dropped), List.filter_flatMap, List.map_flatMap]
        refine List.flatMap_congr fun input member => ?_
        refine ih input member (List.forall_mem_cons.mpr ⟨repeated, clear⟩) fun place among => ?_
        exact below place (List.mem_flatMap.mpr ⟨input, member, among⟩)

/-- The outermost repeats are the parts that are repeated and stand outermost somewhere. -/
theorem mem_outermostRepeats : part ∈ plan.outermostRepeats ↔
    plan.IsRepeated part ∧ ∃ place ∈ plan.places [], place.part = part ∧
      place.IsOutermost plan := by
  simp only [outermostRepeats, List.mem_eraseDups, List.mem_map, List.mem_filter,
    decide_eq_true_eq]
  constructor
  · rintro ⟨place, ⟨member, repeated, outermost⟩, rfl⟩
    exact ⟨repeated, place, member, rfl, outermost⟩
  · rintro ⟨repeated, place, member, rfl, outermost⟩
    exact ⟨place, ⟨member, repeated, outermost⟩, rfl⟩

/-- Around any repeated part, or at its place, there is an outermost one. -/
theorem exists_outermost {whole : Dataflow} (clear : ∀ outer ∈ above, ¬ whole.IsRepeated outer)
    (inside : part ∈ plan.parts) (repeated : whole.IsRepeated part) :
    ∃ place ∈ plan.places above, whole.IsRepeated place.part ∧ place.IsOutermost whole := by
  induction plan using inductionOn generalizing above with
  | node step inputs ih =>
      rw [places_node]
      by_cases here : whole.IsRepeated (node step inputs)
      · exact ⟨_, List.mem_cons_self, here, clear⟩
      · rw [parts_node, List.mem_cons] at inside
        have below : part ∈ inputs.flatMap parts :=
          inside.resolve_left fun same => here (same ▸ repeated)
        obtain ⟨input, among, inside⟩ := List.mem_flatMap.mp below
        obtain ⟨place, member, found⟩ :=
          ih input among (List.forall_mem_cons.mpr ⟨here, clear⟩) inside
        exact ⟨place, List.mem_cons_of_mem _ (List.mem_flatMap.mpr ⟨input, among, member⟩), found⟩

/-- The parts that are found to be repeated are the outermost repeats. -/
theorem repeatedParts_eq (plan : Dataflow) : plan.repeatedParts = plan.outermostRepeats := by
  rw [repeatedParts, outermostRepeats]
  refine congrArg _ (outermost_eq nofun fun place member outermost => ⟨isRepeated_of_mem_again,
    fun repeated => ?_⟩)
  rcases (above_of_mem_places member).2 with rfl | ⟨outer, rest, nearest, inside, among⟩
  · exact (not_isRepeated_self _ repeated).elim
  · have single : ¬ plan.IsRepeated outer := outermost outer (nearest ▸ List.mem_cons_self)
    exact mem_again_of_isRepeated inside single among repeated

/-- What is found to be repeated is repeated. -/
theorem isRepeated_of_mem_repeatedParts (member : part ∈ plan.repeatedParts) :
    plan.IsRepeated part := by
  rw [repeatedParts_eq] at member
  exact (mem_outermostRepeats.mp member).1

/-- The search finds what a walk through all places finds: the parts that stand in two places, in
one of them with nothing repeated around them. There are none only if nothing is repeated. -/
theorem repeatedParts_eq_outermostRepeats (plan : Dataflow) :
    plan.repeatedParts = plan.outermostRepeats ∧ plan.repeatedParts.Nodup ∧
    (∀ part, part ∈ plan.repeatedParts ↔ plan.IsRepeated part ∧
      ∃ place ∈ plan.places [], place.part = part ∧ place.IsOutermost plan) ∧
    (plan.repeatedParts = [] ↔ ∀ part, ¬ plan.IsRepeated part) := by
  refine ⟨plan.repeatedParts_eq, nodup_eraseDups _, fun part => ?_, fun none part repeated => ?_,
    fun single => ?_⟩
  · rw [repeatedParts_eq, mem_outermostRepeats]
  · have clear : ∀ outer ∈ ([] : List Dataflow), ¬ plan.IsRepeated outer := nofun
    obtain ⟨place, member, repeated, outermost⟩ :=
      exists_outermost clear (mem_parts_of_isRepeated repeated) repeated
    have listed := mem_outermostRepeats.mpr ⟨repeated, place, member, rfl, outermost⟩
    rw [← repeatedParts_eq, none] at listed
    exact List.not_mem_nil listed
  · rw [repeatedParts_eq, List.eq_nil_iff_forall_not_mem]
    exact fun part member => single part (mem_outermostRepeats.mp member).1

end MetricQuery.Dataflow
