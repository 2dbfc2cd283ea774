import Mathlib.Data.List.Forall2

/-! # Computations that can fail

When sequences of computations succeed, and two runs of a computation on related inputs: both
fail, or the second one gives what the first one gives carried along a function. Which error occurs
does not count.
-/

namespace MetricQuery

variable {ε α β γ δ : Type}

/-- Two computations in sequence succeed exactly if each does. -/
theorem bind_eq_ok {first : Except ε α} {next : α → Except ε β} {result : β} :
    first >>= next = .ok result ↔ ∃ value, first = .ok value ∧ next value = .ok result := by
  cases first with
  | error error => exact ⟨nofun, nofun⟩
  | ok value =>
      constructor
      · exact fun ok => ⟨value, rfl, ok⟩
      · intro succeeds
        obtain ⟨_, ⟨⟩, ok⟩ := succeeds
        exact ok

/-- A sequence fails either in its first step or in what follows that step's result. -/
theorem bind_eq_error {first : Except ε α} {next : α → Except ε β} {error : ε} :
    first >>= next = .error error ↔
      first = .error error ∨ ∃ value, first = .ok value ∧ next value = .error error := by
  cases first with
  | error other =>
      constructor
      · rintro ⟨⟩
        exact .inl rfl
      · intro given
        rcases given with ⟨⟨⟩⟩ | ⟨_, ⟨⟩, _⟩
        rfl
  | ok value =>
      constructor
      · exact fun failed => .inr ⟨value, rfl, failed⟩
      · intro fails
        rcases fails with ⟨⟨⟩⟩ | ⟨_, ⟨⟩, failed⟩
        exact failed

/-- Changing a result keeps failures and gives exactly the changed results. -/
theorem map_eq_ok {first : Except ε α} {change : α → β} {result : β} :
    first.map change = .ok result ↔ ∃ value, first = .ok value ∧ change value = result := by
  cases first with
  | error error => exact ⟨nofun, nofun⟩
  | ok value =>
      constructor
      · exact fun ok => ⟨value, rfl, Except.ok.inj ok⟩
      · intro given
        obtain ⟨_, ⟨⟩, same⟩ := given
        exact congrArg _ same

/-- Changing the error leaves the results as they are. -/
theorem mapError_eq_ok {first : Except ε α} {change : ε → δ} {result : α} :
    first.mapError change = .ok result ↔ first = .ok result := by
  cases first with
  | error fault => exact ⟨nofun, nofun⟩
  | ok other => rw [Except.mapError, Except.ok.injEq, Except.ok.injEq]

/-- The errors behind a change of error are the changed ones. -/
theorem mapError_eq_error {first : Except ε α} {change : ε → δ} {error : δ} :
    first.mapError change = .error error ↔
      ∃ fault, first = .error fault ∧ change fault = error := by
  cases first with
  | ok value => exact ⟨nofun, nofun⟩
  | error fault =>
      constructor
      · exact fun failed => ⟨fault, rfl, Except.error.inj failed⟩
      · rintro ⟨_, ⟨⟩, same⟩
        exact congrArg _ same

/-- Forgetting the error keeps the results. -/
theorem toOption_eq_some {first : Except ε α} {result : α} :
    first.toOption = some result ↔ first = .ok result := by
  cases first with
  | error error => exact ⟨nofun, nofun⟩
  | ok value => rw [Except.toOption, Option.some.injEq, Except.ok.injEq]

/-- A list is computed exactly if every member is. -/
theorem mapM_eq_ok {compute : α → Except ε β} {members : List α} {results : List β} :
    members.mapM compute = .ok results ↔
      List.Forall₂ (fun member result => compute member = .ok result) members results := by
  induction members generalizing results with
  | nil =>
      rw [List.mapM_nil, List.forall₂_nil_left_iff]
      exact ⟨fun ok => (Except.ok.inj ok).symm, fun same => congrArg _ same.symm⟩
  | cons member rest ih =>
      simp only [List.mapM_cons, bind_eq_ok, ih, List.forall₂_cons_left_iff]
      constructor
      · intro succeeds
        obtain ⟨first, head, later, tail, ok⟩ := succeeds
        exact ⟨first, later, head, tail, (Except.ok.inj ok).symm⟩
      · intro given
        obtain ⟨first, later, head, tail, rfl⟩ := given
        exact ⟨first, head, later, tail, rfl⟩

/-- A list is computed if every member is. -/
theorem exists_mapM_eq_ok {compute : α → Except ε β} {related : α → β → Prop} {members : List α}
    (each : ∀ member ∈ members, ∃ result, compute member = .ok result ∧ related member result) :
    ∃ results, members.mapM compute = .ok results ∧ List.Forall₂ related members results := by
  induction members with
  | nil => exact ⟨[], rfl, .nil⟩
  | cons member rest ih =>
      obtain ⟨first, head, holds⟩ := each member List.mem_cons_self
      obtain ⟨later, tail, hold⟩ := ih fun other among => each other (List.mem_cons_of_mem _ among)
      exact ⟨first :: later, by rw [List.mapM_cons, head, tail]; rfl, .cons holds hold⟩

/-- A computation that succeeds on every member succeeds on the list. -/
theorem exists_mapM_of_forall {compute : α → Except ε β} {members : List α}
    (each : ∀ member ∈ members, ∃ result, compute member = .ok result) :
    ∃ results, members.mapM compute = .ok results := by
  have related : ∀ member ∈ members, ∃ result, compute member = .ok result ∧ True := by
    simpa only [and_true] using each
  obtain ⟨results, computed, _⟩ := exists_mapM_eq_ok related
  exact ⟨results, computed⟩

/-- If each result agrees with its member in some view, then so do the lists. -/
theorem map_eq_of_forall₂ {view : α → γ} {resultView : β → γ} {members : List α}
    {results : List β}
    (alike : List.Forall₂ (fun member result => resultView result = view member)
      members results) : results.map resultView = members.map view := by
  induction alike with
  | nil => rfl
  | cons same _ ih => rw [List.map_cons, List.map_cons, same, ih]

/-- Where each member gives something, filtering keeps one result for each. -/
theorem forall₂_filterMap {compute : α → Option β} {members : List α}
    (each : ∀ member ∈ members, ∃ result, compute member = some result) :
    List.Forall₂ (fun member result => compute member = some result) members
      (members.filterMap compute) := by
  induction members with
  | nil => exact .nil
  | cons member rest ih =>
      obtain ⟨result, computes⟩ := each member List.mem_cons_self
      rw [List.filterMap_cons_some computes]
      exact .cons computes (ih fun other among => each other (List.mem_cons_of_mem _ among))

/-- Choosing a related result for each member gives a related list. -/
theorem exists_forall₂ {related : α → β → Prop} {members : List α}
    (each : ∀ member ∈ members, ∃ result, related member result) :
    ∃ results, List.Forall₂ related members results := by
  induction members with
  | nil => exact ⟨[], .nil⟩
  | cons member rest ih =>
      obtain ⟨first, head⟩ := each member List.mem_cons_self
      obtain ⟨later, tail⟩ := ih fun other among => each other (List.mem_cons_of_mem _ among)
      exact ⟨first :: later, .cons head tail⟩

/-- In related lists each result is related to a member. -/
theorem exists_left_of_forall₂ {related : α → β → Prop} {members : List α} {results : List β}
    (alike : List.Forall₂ related members results) {result : β} (among : result ∈ results) :
    ∃ member ∈ members, related member result := by
  induction alike with
  | nil => exact nomatch among
  | cons head _ ih =>
      rcases List.mem_cons.mp among with rfl | among
      · exact ⟨_, List.mem_cons_self, head⟩
      · obtain ⟨member, present, holds⟩ := ih among
        exact ⟨member, List.mem_cons_of_mem _ present, holds⟩

/-- In related lists each member is related to a result. -/
theorem exists_right_of_forall₂ {related : α → β → Prop} {members : List α} {results : List β}
    (alike : List.Forall₂ related members results) {member : α} (among : member ∈ members) :
    ∃ result ∈ results, related member result :=
  exists_left_of_forall₂ alike.flip among

/-- Lists related through a list between them are related through its members. -/
theorem forall₂_comp {related : α → β → Prop} {further : β → γ → Prop} {members : List α}
    {between : List β} {results : List γ} (first : List.Forall₂ related members between)
    (second : List.Forall₂ further between results) :
    List.Forall₂ (fun member result => ∃ middle, related member middle ∧ further middle result)
      members results := by
  induction first generalizing results with
  | nil =>
      obtain rfl := List.forall₂_nil_left_iff.mp second
      exact .nil
  | cons head _ ih =>
      obtain ⟨result, rest, next, later, rfl⟩ := List.forall₂_cons_left_iff.mp second
      exact .cons ⟨_, head, next⟩ (ih later)

/-- Zipping the results with a view of the members keeps them related. -/
theorem forall₂_zip_map {related : α → β → Prop} (view : α → γ) {members : List α}
    {results : List β} (alike : List.Forall₂ related members results) :
    List.Forall₂ (fun member pair => pair.1 = view member ∧ related member pair.2) members
      ((members.map view).zip results) := by
  induction alike with
  | nil => exact .nil
  | cons head _ ih => exact .cons ⟨rfl, head⟩ ih

/-- If a list is not computed, then neither is one of its members. -/
theorem exists_of_mapM_eq_error {compute : α → Except ε β} {members : List α} {error : ε}
    (failed : members.mapM compute = .error error) :
    ∃ member ∈ members, compute member = .error error := by
  induction members with
  | nil => exact nomatch failed
  | cons member rest ih =>
      rw [List.mapM_cons] at failed
      cases head : compute member with
      | error first =>
          rw [head] at failed
          obtain ⟨⟩ := failed
          exact ⟨member, List.mem_cons_self, head⟩
      | ok first =>
          rw [head] at failed
          cases tail : rest.mapM compute with
          | error later =>
              change (rest.mapM compute >>= _) = _ at failed
              rw [tail] at failed
              obtain ⟨⟩ := failed
              obtain ⟨source, present, same⟩ := ih tail
              exact ⟨source, List.mem_cons_of_mem _ present, same⟩
          | ok later =>
              change (rest.mapM compute >>= _) = _ at failed
              rw [tail] at failed
              exact nomatch failed

/-- Whatever is computed is computed from a member. -/
theorem exists_of_mapM_eq_ok {compute : α → Except ε β} {members : List α} {results : List β}
    (ok : members.mapM compute = .ok results) :
    ∀ result ∈ results, ∃ member ∈ members, compute member = .ok result := by
  induction mapM_eq_ok.mp ok with
  | nil => exact nofun
  | @cons member result _ _ computed rest ih =>
      intro other among
      rcases List.mem_cons.mp among with rfl | among
      · exact ⟨member, List.mem_cons_self, computed⟩
      · obtain ⟨source, present, done⟩ := ih (mapM_eq_ok.mpr rest) other among
        exact ⟨source, List.mem_cons_of_mem _ present, done⟩

/-- A list is gone through if every step can be taken. -/
theorem exists_foldlM_eq_ok {step : β → α → Except ε β} {members : List α}
    (each : ∀ value, ∀ member ∈ members, ∃ next, step value member = .ok next) (start : β) :
    ∃ result, members.foldlM step start = .ok result := by
  induction members generalizing start with
  | nil => exact ⟨start, rfl⟩
  | cons member rest ih =>
      obtain ⟨next, head⟩ := each start member List.mem_cons_self
      obtain ⟨result, tail⟩ :=
        ih (fun value other among => each value other (List.mem_cons_of_mem _ among)) next
      exact ⟨result, by rw [List.foldlM_cons, head]; exact tail⟩

section

/-! ## Computations without a state -/

/-- Run over the identity, a sequence is the sequence of the outcomes. -/
theorem run_bind_id (first : ExceptT ε Id α) (next : α → ExceptT ε Id β) :
    (first >>= next).run = (first.run >>= fun value => (next value).run : Except ε β) := by
  change Except ε α at first
  cases first <;> rfl

/-- Run over the identity, a computation over a list is that of the outcomes. -/
theorem run_mapM_id (compute : α → ExceptT ε Id β) (members : List α) :
    (members.mapM compute).run =
      members.mapM (m := Except ε) fun member => (compute member).run := by
  induction members with
  | nil => rfl
  | cons member rest ih =>
      simp only [List.mapM_cons, run_bind_id, ih]
      rfl

/-- Run over the identity, a fold is the fold of the outcomes. -/
theorem run_foldlM_id (step : β → α → ExceptT ε Id β) (members : List α) (start : β) :
    (members.foldlM step start).run =
      members.foldlM (m := Except ε) (fun value member => (step value member).run) start := by
  induction members generalizing start with
  | nil => rfl
  | cons member rest ih => simp only [List.foldlM_cons, run_bind_id, ih]

end

/-! ## Computations with a state -/

section

variable {σ : Type} {before after : σ}

/-- Of two computations with a state the second goes on from where the first ends. -/
theorem run_bind_eq_ok {first : StateT σ (Except ε) α} {next : α → StateT σ (Except ε) β}
    {result : β} :
    (first >>= next) before = .ok (result, after) ↔
      ∃ value between, first before = .ok (value, between) ∧
        next value between = .ok (result, after) := by
  change (first before >>= fun pair => next pair.1 pair.2) = .ok (result, after) ↔ _
  rw [bind_eq_ok]
  exact ⟨fun ⟨pair, ok, rest⟩ => ⟨pair.1, pair.2, ok, rest⟩,
    fun ⟨value, between, ok, rest⟩ => ⟨(value, between), ok, rest⟩⟩

/-- A computation without state leaves the state as it was. -/
theorem run_lift (computation : Except ε α) :
    (liftM computation : StateT σ (Except ε) α) before = computation.map (·, before) := by
  cases computation <;> rfl

/-- A computation without state succeeds with its own result and the state it got. -/
theorem run_lift_eq_ok {computation : Except ε α} {result : α} :
    (liftM computation : StateT σ (Except ε) α) before = .ok (result, after) ↔
      computation = .ok result ∧ after = before := by
  rw [run_lift, map_eq_ok]
  constructor
  · intro succeeds
    obtain ⟨value, ok, ⟨⟩⟩ := succeeds
    exact ⟨ok, rfl⟩
  · intro succeeds
    obtain ⟨ok, rfl⟩ := succeeds
    exact ⟨result, ok, rfl⟩

/-- A plain value is the result, with the state as it was. -/
theorem run_pure_eq_ok {value result : α} :
    (pure value : StateT σ (Except ε) α) before = .ok (result, after) ↔
      value = result ∧ after = before := by
  constructor
  · rintro ⟨⟩
    exact ⟨rfl, rfl⟩
  · intro given
    obtain ⟨rfl, rfl⟩ := given
    rfl

/-- Over a list each result is what its member gave from some state. -/
theorem forall₂_of_run_mapM_eq_ok {compute : α → StateT σ (Except ε) β} {members : List α}
    {results : List β} (ok : members.mapM compute before = .ok (results, after)) :
    List.Forall₂ (fun member result =>
      ∃ start finish, compute member start = .ok (result, finish)) members results := by
  induction members generalizing before results with
  | nil =>
      rw [List.mapM_nil, run_pure_eq_ok] at ok
      exact ok.1 ▸ .nil
  | cons member rest ih =>
      simp only [List.mapM_cons, run_bind_eq_ok, run_pure_eq_ok] at ok
      obtain ⟨first, start, head, later, _, tail, rfl, rfl⟩ := ok
      exact .cons ⟨before, start, head⟩ (ih tail)

/-- With a state too, a sequence fails in its first step or behind that step's result. -/
theorem run_bind_eq_error {first : StateT σ (Except ε) α} {next : α → StateT σ (Except ε) β}
    {error : ε} : (first >>= next) before = .error error ↔
      first before = .error error ∨
        ∃ value between, first before = .ok (value, between) ∧
          next value between = .error error := by
  refine bind_eq_error.trans (or_congr_right ?_)
  constructor
  · intro failed
    obtain ⟨⟨value, between⟩, ok, failed⟩ := failed
    exact ⟨value, between, ok, failed⟩
  · intro failed
    obtain ⟨value, between, ok, failed⟩ := failed
    exact ⟨(value, between), ok, failed⟩

/-- A computation over a list fails only where it fails on a member. -/
theorem exists_of_run_mapM_eq_error {compute : α → StateT σ (Except ε) β} {members : List α}
    {error : ε} (failed : members.mapM compute before = .error error) :
    ∃ member ∈ members, ∃ start, compute member start = .error error := by
  induction members generalizing before with
  | nil => exact nomatch failed
  | cons member rest ih =>
      rw [List.mapM_cons, run_bind_eq_error] at failed
      rcases failed with head | ⟨first, between, _, tail⟩
      · exact ⟨member, List.mem_cons_self, before, head⟩
      · rcases run_bind_eq_error.mp tail with tail | ⟨_, _, _, absent⟩
        · obtain ⟨other, among, start, failed⟩ := ih tail
          exact ⟨other, List.mem_cons_of_mem _ among, start, failed⟩
        · exact nomatch absent

/-- A computation that succeeds on each member from every state succeeds on the list. -/
theorem exists_run_mapM_eq_ok {compute : α → StateT σ (Except ε) β} {members : List α}
    (each : ∀ member ∈ members, ∀ start, ∃ result finish,
      compute member start = .ok (result, finish)) (start : σ) :
    ∃ results finish, members.mapM compute start = .ok (results, finish) := by
  induction members generalizing start with
  | nil => exact ⟨[], start, rfl⟩
  | cons member rest ih =>
      obtain ⟨first, middle, head⟩ := each member List.mem_cons_self start
      obtain ⟨later, finish, tail⟩ :=
        ih (fun other among => each other (List.mem_cons_of_mem _ among)) middle
      refine ⟨first :: later, finish, ?_⟩
      simp only [List.mapM_cons, run_bind_eq_ok, run_pure_eq_ok]
      exact ⟨first, middle, head, later, finish, tail, rfl, rfl⟩

end

/-! ## Alike computations -/

/-- The second computation fails exactly if the first one does, and otherwise gives its result
carried along a function. -/
inductive Carried (carry : α → β) : Except ε α → Except ε β → Prop where
  | ok (value : α) : Carried carry (.ok value) (.ok (carry value))
  | error (first second : ε) : Carried carry (.error first) (.error second)

namespace Carried

/-- Carrying is preserved by sequencing. -/
theorem bind {carry : α → β} {further : γ → δ} {first : Except ε α} {second : Except ε β}
    {continueFirst : α → Except ε γ} {continueSecond : β → Except ε δ}
    (related : Carried carry first second)
    (continued : ∀ value, Carried further (continueFirst value) (continueSecond (carry value))) :
    Carried further (first >>= continueFirst) (second >>= continueSecond) := by
  cases related with
  | ok value => exact continued value
  | error first second => exact .error first second

/-- Changes of the results that commute with what carries them keep the outcomes carried. -/
theorem map {carry : α → β} {further : γ → δ} {first : Except ε α} {second : Except ε β}
    {changeFirst : α → γ} {changeSecond : β → δ} (related : Carried carry first second)
    (square : ∀ value, changeSecond (carry value) = further (changeFirst value)) :
    Carried further (first.map changeFirst) (second.map changeSecond) := by
  cases related with
  | ok value =>
      change Carried further (.ok (changeFirst value)) (.ok (changeSecond (carry value)))
      rw [square]
      exact .ok _
  | error first second => exact .error first second

/-- Over a list, and the list carried over, the outcomes are carried member by member. -/
theorem mapM {carry : α → β} {further : γ → δ} {first : α → Except ε γ} {second : β → Except ε δ}
    (each : ∀ member, Carried further (first member) (second (carry member)))
    (members : List α) :
    Carried (List.map further) (members.mapM first) ((members.map carry).mapM second) := by
  induction members with
  | nil => exact .ok []
  | cons member rest ih =>
      rw [List.map_cons, List.mapM_cons, List.mapM_cons]
      exact (each member).bind fun value => ih.bind fun values => .ok (value :: values)

/-- Two computations over the same list with carried outcomes have carried lists. -/
theorem mapM_same {further : γ → δ} {first : α → Except ε γ} {second : α → Except ε δ}
    (each : ∀ member, Carried further (first member) (second member)) (members : List α) :
    Carried (List.map further) (members.mapM first) (members.mapM second) := by
  have related : Carried (List.map further) (members.mapM first)
      ((members.map id).mapM second) := mapM each members
  rwa [List.map_id] at related

private theorem of_ok {carry : α → β} {first : Except ε α} {value : β}
    (related : Carried carry first (.ok value)) :
    ∃ result, first = .ok result ∧ carry result = value := by
  cases related with
  | ok result => exact ⟨result, rfl, rfl⟩

/-- The outcome a success is carried to is the carried success. -/
theorem ok_of {carry : α → β} {value : α} {second : Except ε β}
    (related : Carried carry (.ok value) second) : second = .ok (carry value) := by
  cases related with
  | ok => rfl

end Carried

/-- Both computations fail, or both succeed with related results. -/
inductive Alike (related : α → β → Prop) : Except ε α → Except ε β → Prop where
  | ok {first : α} {second : β} (alike : related first second) :
      Alike related (.ok first) (.ok second)
  | error (first second : ε) : Alike related (.error first) (.error second)

namespace Alike

/-- Being alike is preserved by sequencing. -/
theorem bind {related : α → β → Prop} {further : γ → δ → Prop} {first : Except ε α}
    {second : Except ε β} {continueFirst : α → Except ε γ} {continueSecond : β → Except ε δ}
    (alike : Alike related first second)
    (continued : ∀ left right, related left right →
      Alike further (continueFirst left) (continueSecond right)) :
    Alike further (first >>= continueFirst) (second >>= continueSecond) := by
  cases alike with
  | ok alike => exact continued _ _ alike
  | error first second => exact .error first second

/-- A change of the first outcome alone keeps them alike where it keeps the results related. -/
theorem map_left {related : α → β → Prop} {further : γ → β → Prop} {first : Except ε α}
    {second : Except ε β} {change : α → γ} (alike : Alike related first second)
    (changed : ∀ left right, related left right → further (change left) right) :
    Alike further (first.map change) second := by
  cases alike with
  | ok alike => exact .ok (changed _ _ alike)
  | error first second => exact .error first second

/-- Only results count. -/
theorem of_same_ok {related : α → β → Prop} {first other : Except ε α} {second : Except ε β}
    (same : ∀ result, first = .ok result ↔ other = .ok result)
    (alike : Alike related other second) : Alike related first second := by
  cases alike with
  | ok alike =>
      rw [(same _).mpr rfl]
      exact .ok alike
  | error =>
      cases first with
      | ok result => exact nomatch (same result).mp rfl
      | error => exact .error _ _

/-- Of two alike outcomes one is a success exactly when the other is. -/
theorem isOk_iff {related : α → β → Prop} {first : Except ε α} {second : Except ε β}
    (alike : Alike related first second) :
    (∃ result, first = .ok result) ↔ ∃ result, second = .ok result := by
  cases alike with
  | ok alike => exact ⟨fun _ => ⟨_, rfl⟩, fun _ => ⟨_, rfl⟩⟩
  | error first second => exact ⟨nofun, nofun⟩

/-- Two alike successes have related results. -/
theorem related_of_ok {related : α → β → Prop} {left : α} {right : β}
    (alike : Alike (ε := ε) related (.ok left) (.ok right)) : related left right := by
  cases alike with
  | ok alike => exact alike

/-- Two computations that carry to the same one are related. -/
theorem of_carried {carry : α → γ} {further : β → γ} {first : Except ε α} {second : Except ε β}
    {third : Except ε γ} (left : Carried carry first third) (right : Carried further second third) :
    Alike (fun first second => carry first = further second) first second := by
  cases left with
  | ok value =>
      obtain ⟨result, rfl, same⟩ := right.of_ok
      exact .ok same.symm
  | error error =>
      cases right with
      | error => exact .error _ _

end Alike

end MetricQuery
