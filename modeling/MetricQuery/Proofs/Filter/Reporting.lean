import MetricQuery.Proofs.Filter.Gathering
import MetricQuery.Proofs.Scope.Resolution

/-! # Failing filters are reported

Looking up the filters of a query gives errors exactly if at some node a filter cannot be read or
refers to what cannot be found there. However much is merged on the way out, every such failure is
reported with its place, and nothing else is said about a node where something failed
(`FilterLookup.ofQuery_reports`).
-/

namespace MetricQuery.FilterLookup

/-- What is known about the filters of a scope tells of every failure, node by node. -/
structure Reports (catalog : Catalog) (limit : Nat) (scope : Scope) (lookup : FilterLookup) :
    Prop where
  hasErrors_iff : lookup.hasErrors = true ↔
    ∃ placed ∈ scope.placed, placed.node.Fails catalog limit
  unreadable : ∀ placed ∈ scope.placed, ∀ location template error,
    placed.node.kind.Declares catalog location template →
    Template.references template = .error error →
    ∃ filter ∈ lookup.unreadable, filter.path = placed.path ∧
      filter.issues = [.error template placed.path (.badFilter template error.message)]
  missing : ∀ placed ∈ scope.placed, ∀ location template references reference,
    placed.node.kind.Declares catalog location template →
    Template.references template = .ok references → reference ∈ references →
    (placed.node.meaning limit reference).outcome.item? = none →
    ∃ finding ∈ lookup.findings, finding.key = ⟨location, reference⟩ ∧
      finding.path = placed.path ∧ finding.item = none ∧
      finding.issues = (placed.node.meaning limit reference).issues.below placed.outer ∧
      finding.issues.hasErrors = true
  noSuccess : ∀ placed ∈ scope.placed, placed.node.Fails catalog limit →
    ∀ finding ∈ lookup.findings, finding.path = placed.path →
      finding.item = none ∧ finding.issues.hasErrors = true

variable {catalog : Catalog} {limit : Nat} {scope : Scope} {lookup : FilterLookup}

/-- Since a path leads to one node only, what is reported on the path to a node was found there. -/
theorem Gathers.reports (gathers : Gathers catalog limit lookup scope.placed)
    {metrics filters : List String} (built : Scope.ofQuery catalog metrics filters = .ok scope) :
    Reports catalog limit scope lookup := by
  refine ⟨gathers.hasErrors_iff, ?_, ?_, ?_⟩
  · intro placed among location template error declared failed
    obtain ⟨located, member, _, inside⟩ := LocatedFilters.declares_iff.mp declared
    refine ⟨_, (gathers.unreadable _).mpr ⟨placed, among, .intro member inside failed⟩, rfl, rfl⟩
  · intro placed among location template references reference declared read mentioned missed
    obtain ⟨located, member, rfl, inside⟩ := LocatedFilters.declares_iff.mp declared
    have finds : placed.Finds catalog limit _ := .intro member inside read mentioned
    have failed : (find limit placed.outer placed.node located reference).isFailure = true := by
      rw [PlacedNode.isFailure_find, missed]
      rfl
    have noItem := Option.isNone_iff_eq_none.mp (finds.isFailure_eq ▸ failed)
    exact ⟨_, (gathers.failure _ failed).mpr ⟨placed, among, finds⟩, rfl, rfl, noItem, rfl, failed⟩
  · intro placed among fails finding member path
    cases failed : finding.isFailure with
    | true =>
        obtain ⟨other, _, finds⟩ := gathers.exists_finds member
        exact ⟨Option.isNone_iff_eq_none.mp (finds.isFailure_eq ▸ failed), failed⟩
    | false =>
        obtain ⟨other, also, finds, sound⟩ := gathers.success finding member failed
        have same : other = placed := by
          apply Scope.eq_of_path_eq built also among
          rw [← path]
          obtain ⟨_, _, _, _⟩ := finds
          rfl
        exact (sound (same ▸ fails)).elim

/-- The lookup of a built scope fails exactly where a node does, and reports every failure. -/
theorem ofQuery_reports {metrics filters : List String}
    (built : Scope.ofQuery catalog metrics filters = .ok scope) (limit : Nat)
    {memo : ReferenceMemo} (filled : memo.Filled) :
    Reports catalog limit scope ((ofQuery catalog limit scope).run memo).1 := by
  have ended := Scope.ended_of_ofQuery built
  obtain ⟨gathers, _⟩ := (ofScope_ensures ended limit [] memo filled).1
  exact gathers.reports built

/-- Of three filters on orders and visits one can be used, one refers to nothing, and one is never
closed. -/
theorem ofQuery_reports_customers : ∃ scope,
    Scope.ofQuery Scope.customersCatalog ["revenue", "traffic"]
        ["\x7b\x7b Dimension('customer__region') \x7d\x7d = 'north'",
          "\x7b\x7b Dimension('customer__size') \x7d\x7d = 3", "\x7b\x7b Entity('customer')"] =
      .ok scope ∧
      ((ofQuery Scope.customersCatalog 6 scope).run (.empty 4)).1.hasErrors = true ∧
      Reports Scope.customersCatalog 6 scope
        ((ofQuery Scope.customersCatalog 6 scope).run (.empty 4)).1 := by
  obtain ⟨scope, built, failed⟩ : ∃ scope,
      Scope.ofQuery Scope.customersCatalog ["revenue", "traffic"]
          ["\x7b\x7b Dimension('customer__region') \x7d\x7d = 'north'",
            "\x7b\x7b Dimension('customer__size') \x7d\x7d = 3", "\x7b\x7b Entity('customer')"] =
        .ok scope ∧
        ((ofQuery Scope.customersCatalog 6 scope).run (.empty 4)).1.hasErrors = true :=
    ⟨_, rfl, by decide +kernel⟩
  exact ⟨scope, built, failed, ofQuery_reports built 6 (.empty 4)⟩

end MetricQuery.FilterLookup
