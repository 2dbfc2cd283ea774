import MetricQuery.Compiler
import MetricQuery.Proofs.Dataflow.Remembering
import MetricQuery.Proofs.Filter.Reading
import MetricQuery.Proofs.Item.Recency

/-! # Compiling with a memo

Everything that reads references on the way from a request to a statement is steady: it gives the
same with every memo. A request therefore compiles to what it compiles to without one
(`Request.compileWith_eq`), so that a memo of any size only saves work (`ReferenceMemo.remembers`).
-/

namespace MetricQuery

open ReferenceMemo

/-! ## Filters -/

namespace FilterLookup

private theorem readLocated_isSteady (filters : LocatedFilters) : IsSteady (readLocated filters)
    := by
  refine IsSteady.bind (.mapM (fun template => ?_) _) fun results => .pure _
  exact IsSteady.bind ⟨_, readFilter_ensures template⟩ fun result => .pure _

private theorem atNode_isSteady (limit : Nat) (outer : ScopePath) (scope : Scope)
    (located : List LocatedFilters) : IsSteady (atNode limit outer scope located) :=
  IsSteady.bind (.mapM readLocated_isSteady located) fun _ => .pure _

mutual

/-- Looking up the filters of a scope is steady. -/
theorem ofScope_isSteady (catalog : Catalog) (limit : Nat) (outer : ScopePath) :
    (scope : Scope) → IsSteady (ofScope catalog limit outer scope)
  | .node id kind elements inputs => by
    unfold ofScope
    split
    · exact .pure empty
    · exact .pure empty
    · refine IsSteady.bind (ofScopes_isSteady catalog limit _ inputs) fun below => ?_
      exact IsSteady.bind (atNode_isSteady ..) fun here => .pure _

/-- Looking up the filters of several scopes is steady. -/
theorem ofScopes_isSteady (catalog : Catalog) (limit : Nat) (outer : ScopePath) :
    (scopes : List Scope) → IsSteady (ofScopes catalog limit outer scopes)
  | [] => .pure []
  | scope :: rest =>
    IsSteady.bind (ofScope_isSteady catalog limit outer scope) fun _ =>
      IsSteady.bind (ofScopes_isSteady catalog limit outer rest) fun _ => .pure _

end

end FilterLookup

/-! ## Requests -/

namespace Request

/-- Collecting the group-by items is steady. -/
theorem requestedItems_isSteady (scope : Scope) (limit : Nat) (inputs : List String) :
    IsSteady (requestedItems scope limit inputs) := by
  refine IsSteady.foldlM (fun found input => ?_) _ _
  refine IsSteady.bind ⟨_, read_ensures input⟩ fun result => ?_
  cases result with
  | error error => exact .pure _
  | ok reference => exact .pure _

private theorem sortedBy_isSteady (metrics : List MetricOutput) (selected : List GroupByItem)
    (input : String) : IsSteady (sortedBy metrics selected input) := by
  unfold sortedBy
  simp only
  cases metrics.find? (·.metric == (cutMinus input).1) with
  | some metric => exact .pure _
  | none =>
      refine IsSteady.bind ⟨_, read_ensures _⟩ fun result => ?_
      cases result with
      | error error => exact .pure _
      | ok reference => exact .pure _

private theorem meaning_isSteady (catalog : Catalog) (limit : Nat) (scope : Scope)
    (metrics : List MetricOutput) (request : Request) :
    IsSteady (meaning catalog limit scope metrics request) := by
  refine IsSteady.bind (requestedItems_isSteady ..) fun found => ?_
  refine IsSteady.bind (FilterLookup.ofScope_isSteady ..) fun lookup => ?_
  refine IsSteady.bind (IsSteady.bind (.mapM (fun input => ?_) _) fun results => .pure _)
    fun order => .pure _
  exact IsSteady.bind (sortedBy_isSteady metrics _ input) fun result => .pure _

/-- Resolving a request is steady: its result does not depend on what is remembered. -/
theorem resolve_isSteady (catalog : Catalog) (settings : Settings) (request : Request) :
    IsSteady (request.resolve catalog settings).run := by
  unfold resolve
  simp only
  split
  · exact .pure _
  · split
    · exact .pure _
    · split
      · exact .pure _
      · rw [pure_bind]
        refine IsSteady.run_bind (.run_lift (meaning_isSteady ..)) fun meaning => ?_
        split
        · exact .pure _
        · exact IsSteady.run_bind ⟨_, Condition.ofTemplates_ensures request.filters⟩
            fun _ => .pure _

/-- A request compiles in three steps, each on its own: it is resolved, planned and converted. -/
theorem compileWith_eq (catalog : Catalog) (settings : Settings) (request : Request)
    (sharing : Dataflow → Sql.Sharing) :
    request.compileWith catalog settings sharing = (do
      let query ← request.resolveAlone catalog settings
      let plan ← Dataflow.ofQuery catalog query
      let statement ← Sql.Statement.ofPlan catalog settings.sql plan (sharing plan)
      return ⟨query, plan, statement⟩) := by
  obtain ⟨resolved, ensured⟩ := request.resolve_isSteady catalog settings
  have planned : Ensures (request.compileRemembering catalog settings sharing).run (· = (do
      let query ← resolved
      let plan ← Dataflow.ofQuery catalog query
      let statement ← Sql.Statement.ofPlan catalog settings.sql plan (sharing plan)
      return ⟨query, plan, statement⟩)) := by
    refine Ensures.run_bind ensured fun query => ?_
    refine (Dataflow.ofQueryRemembering_ensures catalog query).run_bind fun plan => ?_
    cases Sql.Statement.ofPlan catalog settings.sql plan (sharing plan) with
    | error error => exact .pure rfl
    | ok statement => exact .pure rfl
  have filled := ReferenceMemo.Filled.empty settings.references.memoSize
  have alone : request.resolveAlone catalog settings = resolved := (ensured _ filled).1
  rw [alone]
  exact (planned _ filled).1

/-- How many references are remembered makes no difference to what a request compiles to. -/
theorem compile_memoSize (catalog : Catalog) (settings : Settings) (request : Request)
    (size : Nat) :
    request.compile catalog { settings with references := ⟨size⟩ } =
      request.compile catalog settings := by
  obtain ⟨resolved, ensured⟩ := request.resolve_isSteady catalog settings
  have alone : request.resolveAlone catalog { settings with references := ⟨size⟩ } =
      request.resolveAlone catalog settings :=
    (ensured _ (.empty size)).1.trans (ensured _ (.empty settings.references.memoSize)).1.symm
  rw [compile, compile, compileWith_eq, compileWith_eq, alone]

end Request

/-- A memo of any capacity gives the results of reading without it. After any readings it holds the
results of the texts that it missed last, as many as it has room for, and its queue has the same
texts, each once; what reached it was found or missed. So its size makes no difference to what a
request compiles to. -/
theorem ReferenceMemo.remembers :
    (∀ (capacity : Nat) (readings : List Reading),
      let run := (readings.mapM Reading.remembering).run (.empty capacity)
      let memo := run.2
      let missed := (ReferenceMemo.empty capacity).missed readings
      run.1 = readings.map Reading.alone ∧
      memo.order = missed.rtake (max capacity 1) ∧
      memo.order.Nodup ∧
      (memo.entries.map Prod.fst).Perm memo.order ∧
      (∀ entry ∈ memo.entries, entry.2 = ItemReference.read entry.1) ∧
      memo.hits + missed.length = (readings.filterMap Reading.text?).length) ∧
    ∀ (catalog : Catalog) (settings : Settings) (request : Request) (size : Nat),
      request.compile catalog { settings with references := ⟨size⟩ } =
        request.compile catalog settings := by
  refine ⟨fun capacity readings => ?_, Request.compile_memoSize⟩
  obtain ⟨results, filled⟩ := mapM_remembering_ensures readings _ (.empty capacity)
  have holds := (holds_empty capacity).after readings
  have order := holds.order
  rw [capacity_after, List.nil_append] at order
  have counts := hits_after (empty capacity) readings
  exact ⟨results, order, holds.distinct, holds.keys, filled.of_mem,
    counts.trans (Nat.zero_add _)⟩

end MetricQuery
