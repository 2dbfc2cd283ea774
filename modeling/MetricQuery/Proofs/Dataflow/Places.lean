import MetricQuery.Dataflow.Basic

/-! # Places in a plan

What holds of every step of a plan, wherever it stands (`Dataflow.everywhere_node_iff`), and which
parts flow into a plan (`Dataflow.Contains`): each is smaller than the plan.
-/

namespace MetricQuery.Dataflow

variable {plan part : Dataflow} {step : Step} {inputs : List Dataflow}

/-! ## Every step -/

/-- Whether something holds of each step of a plan and what flows into it. -/
def Everywhere (holds : Step → List Dataflow → Prop) (plan : Dataflow) : Prop :=
  ∀ way step inputs, plan.partAt? way = some (node step inputs) → holds step inputs

/-- A property holds everywhere in a plan exactly if it holds of the last step and everywhere in the
inputs. -/
theorem everywhere_node_iff {holds : Step → List Dataflow → Prop} :
    (node step inputs).Everywhere holds ↔
      holds step inputs ∧ ∀ input ∈ inputs, input.Everywhere holds := by
  constructor
  · intro everywhere
    refine ⟨everywhere [] step inputs rfl, fun input member way inner further found => ?_⟩
    obtain ⟨place, at_place⟩ := List.mem_iff_getElem?.mp member
    exact everywhere (place :: way) inner further
      (Option.bind_eq_some_iff.mpr ⟨input, at_place, found⟩)
  · rintro ⟨last, each⟩ way inner further found
    cases way with
    | nil =>
        obtain ⟨rfl, rfl⟩ := node.inj (Option.some.inj found)
        exact last
    | cons place way =>
        obtain ⟨input, at_place, found⟩ := Option.bind_eq_some_iff.mp found
        exact each input (List.mem_of_getElem? at_place) way inner further found

/-- Whether nothing flows into any step of a plan that reads a model. -/
def HasPlainReads (plan : Dataflow) : Prop :=
  ∀ way name inputs, plan.partAt? way = some (.node (.read name) inputs) → inputs = []

/-- Reads are plain exactly if no read anywhere has inputs. -/
theorem hasPlainReads_iff_everywhere : plan.HasPlainReads ↔
    plan.Everywhere fun step inputs => ∀ name, step = .read name → inputs = [] := by
  constructor
  · rintro plain way _ inputs found name rfl
    exact plain way name inputs found
  · exact fun everywhere way name inputs found => everywhere way _ inputs found name rfl

/-- The inputs of a plan with plain reads have plain reads. -/
theorem HasPlainReads.of_mem (plain : (node step inputs).HasPlainReads) (member : plan ∈ inputs) :
    plan.HasPlainReads := by
  rw [hasPlainReads_iff_everywhere, everywhere_node_iff] at plain
  exact hasPlainReads_iff_everywhere.mpr (plain.2 plan member)

/-- A step has plain reads if its inputs have and it does not read with inputs itself. -/
theorem hasPlainReads_node (reads : ∀ name, step = .read name → inputs = [])
    (plain : ∀ input ∈ inputs, input.HasPlainReads) : (node step inputs).HasPlainReads := by
  rw [hasPlainReads_iff_everywhere, everywhere_node_iff]
  exact ⟨reads, fun input member => hasPlainReads_iff_everywhere.mp (plain input member)⟩

/-- A step without inputs has plain reads. -/
theorem hasPlainReads_leaf (step : Step) : (leaf step).HasPlainReads :=
  hasPlainReads_node (fun _ _ => rfl) nofun

/-- A further step that does not read keeps reads plain. -/
theorem HasPlainReads.andThen (plain : plan.HasPlainReads) (reads : ∀ name, step ≠ .read name) :
    (plan.andThen step).HasPlainReads :=
  hasPlainReads_node (fun name same => (reads name same).elim) fun _ member =>
    List.mem_singleton.mp member ▸ plain

/-- Where reads are plain a read has no inputs. -/
theorem HasPlainReads.eq_nil {name : String} (plain : (node (.read name) inputs).HasPlainReads) :
    inputs = [] := plain [] name inputs rfl

/-! ## Parts of a plan -/

/-- Whether a part flows into a plan, at any depth. -/
def Contains (plan part : Dataflow) : Prop := ∃ way, way ≠ [] ∧ plan.partAt? way = some part

/-- A plan contains its inputs and what they contain. -/
theorem contains_node_iff :
    (node step inputs).Contains part ↔ ∃ input ∈ inputs, part = input ∨ input.Contains part := by
  constructor
  · rintro ⟨_ | ⟨place, way⟩, long, found⟩
    · exact (long rfl).elim
    · obtain ⟨input, at_place, found⟩ := Option.bind_eq_some_iff.mp found
      refine ⟨input, List.mem_of_getElem? at_place, ?_⟩
      cases way with
      | nil => exact .inl (Option.some.inj found).symm
      | cons next way => exact .inr ⟨next :: way, List.cons_ne_nil _ _, found⟩
  · rintro ⟨input, member, inside⟩
    obtain ⟨place, at_place⟩ := List.mem_iff_getElem?.mp member
    have reached : ∃ way, input.partAt? way = some part := by
      rcases inside with rfl | ⟨way, _, found⟩
      · exact ⟨[], rfl⟩
      · exact ⟨way, found⟩
    obtain ⟨way, found⟩ := reached
    exact ⟨place :: way, List.cons_ne_nil _ _, Option.bind_eq_some_iff.mpr ⟨input, at_place, found⟩⟩

/-- The size of one input is within the size of all of them. -/
theorem size_le_sizeOfAll (member : plan ∈ inputs) : plan.size ≤ sizeOfAll inputs := by
  induction inputs with
  | nil => exact nomatch member
  | cons first rest ih =>
      rw [sizeOfAll]
      rcases List.mem_cons.mp member with rfl | member
      · omega
      · have := ih member
        omega

/-- What a plan contains is smaller. -/
theorem Contains.size_lt (contains : plan.Contains part) : part.size < plan.size := by
  induction plan using inductionOn with
  | node step inputs ih =>
      obtain ⟨input, member, inside⟩ := contains_node_iff.mp contains
      have bound := size_le_sizeOfAll member
      have whole : (node step inputs).size = 1 + sizeOfAll inputs := by rw [size]
      rcases inside with rfl | inside
      · omega
      · have := ih input member inside
        omega

/-- No plan flows into itself. -/
theorem not_contains_self (plan : Dataflow) : ¬ plan.Contains plan :=
  fun contains => Nat.lt_irrefl _ contains.size_lt

end MetricQuery.Dataflow
