import MetricQuery.Proofs.Failing

/-! # Computations that follow others

Two runs of a computation on different data: the second gives what the first gives, if that gives
anything (`Follows`), or wherever the result of the first is a good one (`FollowsWhere`). Nothing is
said of the second where the first fails.
-/

namespace MetricQuery

variable {ε α β γ σ : Type}

/-- Computations that agree on the members agree on the list. -/
theorem mapM_congr {m : Type → Type} [Monad m] [LawfulMonad m] {first second : α → m β}
    {members : List α} (same : ∀ member ∈ members, first member = second member) :
    members.mapM first = members.mapM second := by
  induction members with
  | nil => rfl
  | cons member rest ih =>
      rw [List.mapM_cons, List.mapM_cons, same member List.mem_cons_self,
        ih fun other among => same other (List.mem_cons_of_mem _ among)]

/-- A change of each result is a change of the list. -/
theorem mapM_map {m : Type → Type} [Monad m] [LawfulMonad m] (step : α → m β) (change : β → γ)
    (members : List α) : (members.mapM fun member => change <$> step member) =
      List.map change <$> members.mapM step := by
  induction members with
  | nil => rw [List.mapM_nil, List.mapM_nil, map_pure, List.map_nil]
  | cons member rest ih =>
      simp only [List.mapM_cons, ih, map_bind, bind_map_left, map_pure, List.map_cons]

/-- Whether the second computation gives the result of the first, if that has one. -/
def Follows (first second : Except ε α) : Prop :=
  ∀ value, first = .ok value → second = .ok value

namespace Follows

/-- A computation follows itself. -/
theorem refl (computation : Except ε α) : Follows computation computation := fun _ ok => ok

/-- Anything follows a failure. -/
theorem error (failure : ε) (second : Except ε α) : Follows (.error failure) second := nofun

/-- Following is preserved by sequencing. -/
theorem bind {first second : Except ε α} {next other : α → Except ε β}
    (follows : Follows first second) (continued : ∀ value, Follows (next value) (other value)) :
    Follows (first >>= next) (second >>= other) := by
  intro result ok
  obtain ⟨value, given, ok⟩ := bind_eq_ok.mp ok
  exact bind_eq_ok.mpr ⟨value, follows value given, continued value result ok⟩

/-- Following is preserved by a branch on the same condition. -/
theorem ite {condition : Prop} [Decidable condition] {first second third fourth : Except ε α}
    (holds : Follows first second) (fails : Follows third fourth) :
    Follows (if condition then first else third) (if condition then second else fourth) := by
  split
  · exact holds
  · exact fails

/-- Following is preserved by a change of the result. -/
theorem map {first second : Except ε α} (follows : Follows first second) (change : α → β) :
    Follows (change <$> first) (change <$> second) := by
  intro result ok
  obtain ⟨value, given, same⟩ := map_eq_ok.mp ok
  exact map_eq_ok.mpr ⟨value, follows value given, same⟩

/-- Following member by member is following over the list. -/
theorem mapM {first second : α → Except ε β} {members : List α}
    (each : ∀ member ∈ members, Follows (first member) (second member)) :
    Follows (members.mapM first) (members.mapM second) := by
  induction members with
  | nil => exact .refl _
  | cons member rest ih =>
      rw [List.mapM_cons, List.mapM_cons]
      refine (each member List.mem_cons_self).bind fun head => ?_
      exact (ih fun other among => each other (List.mem_cons_of_mem _ among)).bind fun tail =>
        .refl _

end Follows

/-! ## With a state that failures lose -/

/-- Whether a computation follows another one from every state. -/
def FollowsFrom (first second : StateT σ (Except ε) α) : Prop :=
  ∀ state, Follows (first.run state) (second.run state)

namespace FollowsFrom

/-- A computation with a state follows itself. -/
theorem refl (computation : StateT σ (Except ε) α) : FollowsFrom computation computation :=
  fun _ => .refl _

/-- Following from every state is preserved by sequencing. -/
theorem bind {first second : StateT σ (Except ε) α} {next other : α → StateT σ (Except ε) β}
    (follows : FollowsFrom first second)
    (continued : ∀ value, FollowsFrom (next value) (other value)) :
    FollowsFrom (first >>= next) (second >>= other) := by
  intro state
  exact (follows state).bind fun pair => continued pair.1 pair.2

/-- Following from every state, member by member, is following over the list. -/
theorem mapM {first second : α → StateT σ (Except ε) β} {members : List α}
    (each : ∀ member ∈ members, FollowsFrom (first member) (second member)) :
    FollowsFrom (members.mapM first) (members.mapM second) := by
  induction members with
  | nil => exact .refl _
  | cons member rest ih =>
      rw [List.mapM_cons, List.mapM_cons]
      refine (each member List.mem_cons_self).bind fun head => ?_
      exact (ih fun other among => each other (List.mem_cons_of_mem _ among)).bind fun tail =>
        .refl _

end FollowsFrom

/-! ## With a state that stays -/

/-- Whether a computation gives the result of another one, and ends in the same state, wherever that
result is a good one. -/
def FollowsWhere (good : α → Prop) (first second : StateM σ α) : Prop :=
  ∀ state, good (first.run state).1 → second.run state = first.run state

namespace FollowsWhere

/-- A computation does as it does itself, wherever that is good. -/
theorem refl (good : α → Prop) (computation : StateM σ α) :
    FollowsWhere good computation computation := fun _ _ => rfl

/-- Two plain values agree where the first being good makes them equal. -/
theorem pure {good : α → Prop} {value other : α} (same : good value → other = value) :
    FollowsWhere good (Pure.pure value : StateM σ α) (Pure.pure other) :=
  fun _ held => by rw [same held]

/-- Agreement on good outcomes is preserved by sequencing, when a good outcome comes from a good
step. -/
theorem bind {between : α → Prop} {good : β → Prop} {first second : StateM σ α}
    {next other : α → StateM σ β} (follows : FollowsWhere between first second)
    (before : ∀ state, good ((first >>= next).run state).1 → between (first.run state).1)
    (continued : ∀ value, between value → FollowsWhere good (next value) (other value)) :
    FollowsWhere good (first >>= next) (second >>= other) := by
  intro state held
  have reached := before state held
  change (other (second.run state).1).run (second.run state).2 = _
  rw [follows state reached]
  exact continued _ reached _ held

/-- Going through a list follows step by step, if a bad value cannot become a good one. -/
theorem foldlM {good : β → Prop} {step other : β → α → StateM σ β}
    (kept : ∀ value member state, good ((step value member).run state).1 → good value)
    (each : ∀ value member, FollowsWhere good (step value member) (other value member))
    (members : List α) (start : β) :
    FollowsWhere good (members.foldlM step start) (members.foldlM other start) := by
  have from_end : ∀ (members : List α) (start : β) (state : σ),
      good ((members.foldlM step start).run state).1 → good start := by
    intro members
    induction members with
    | nil => exact fun start state held => held
    | cons member rest ih =>
        intro start state held
        rw [List.foldlM_cons] at held
        exact kept start member state (ih _ _ held)
  induction members generalizing start with
  | nil => exact .refl _ _
  | cons member rest ih =>
      rw [List.foldlM_cons, List.foldlM_cons]
      exact (each start member).bind (fun state held => from_end rest _ _ held) fun value _ =>
        ih value

/-- A failure is no good outcome, so anything agrees with it. -/
theorem run_throw (failure : ε) (second : ExceptT ε (StateM σ) α) :
    FollowsWhere (·.isOk = true) (throw failure : ExceptT ε (StateM σ) α).run second.run :=
  fun _ held => nomatch held

/-- A first step that cannot fail may be followed where its outcome is good. -/
theorem run_lift_bind {good : α → Prop} {first second : StateM σ α}
    {next other : α → ExceptT ε (StateM σ) β} (follows : FollowsWhere good first second)
    (before : ∀ value state, ((next value).run.run state).1.isOk = true → good value)
    (continued : ∀ value, FollowsWhere (·.isOk = true) (next value).run (other value).run) :
    FollowsWhere (·.isOk = true) (ExceptT.lift first >>= next).run
      (ExceptT.lift second >>= other).run := by
  change FollowsWhere _ (first >>= fun value => (next value).run)
    (second >>= fun value => (other value).run)
  exact follows.bind (fun _ held => before _ _ held) fun value _ => continued value

end FollowsWhere

end MetricQuery
