import MetricQuery.Filter.Coverage
import MetricQuery.Proofs.Item.Memo

/-! # Reading filters

What the references in a filter are, without the memo that they are read with
(`Template.references`), and what reading all filters of a location gives
(`FilterLookup.readLocated_ensures`).
-/

namespace MetricQuery

open ReferenceMemo (Ensures)

/-- What reading the references in a template gives. -/
def Template.references (template : String) : Except ItemError (List ItemReference) :=
  Template.split template >>= fun pieces =>
    (Template.callouts pieces).mapM ItemReference.readCallout

namespace FilterLookup

private theorem readCallouts_ensures (callouts : List String) :
    Ensures (readCallouts callouts) (· = callouts.mapM ItemReference.readCallout) := by
  induction callouts with
  | nil => exact .pure rfl
  | cons callout rest ih =>
      rw [readCallouts, List.mapM_cons]
      apply (ReferenceMemo.readCallout_ensures callout).bind
      rintro _ rfl
      cases ItemReference.readCallout callout with
      | error error => exact .pure rfl
      | ok reference =>
          apply ih.bind
          rintro _ rfl
          cases rest.mapM ItemReference.readCallout with
          | error error => exact .pure rfl
          | ok references => exact .pure rfl

/-- Reading a filter through the memo gives its references, whatever is remembered. -/
theorem readFilter_ensures (template : String) :
    Ensures (readFilter template) (· = Template.references template) := by
  unfold readFilter Template.references
  cases Template.split template with
  | error error => exact .pure rfl
  | ok pieces => exact readCallouts_ensures (Template.callouts pieces)

/-- Whether a location has been read: its references are those of the filters that can be read, and
its failures are the other filters. -/
structure ReadFilters.IsReadingOf (read : ReadFilters) (located : LocatedFilters) : Prop where
  same : read.filters = located
  mem_references : ∀ reference, reference ∈ read.references ↔ ∃ template ∈ located.templates,
    ∃ references, Template.references template = .ok references ∧ reference ∈ references
  mem_failures : ∀ failure, failure ∈ read.failures ↔
    failure.1 ∈ located.templates ∧ Template.references failure.1 = .error failure.2

/-- The filters of one location are read as they are alone. -/
theorem readLocated_ensures (located : LocatedFilters) :
    Ensures (readLocated located) fun read => read.IsReadingOf located := by
  have each : ∀ template ∈ located.templates, Ensures
      (readFilter template >>= fun references => pure (template, references))
      (· = (template, Template.references template)) := by
    intro template _
    apply (readFilter_ensures template).bind
    rintro _ rfl
    exact .pure rfl
  unfold readLocated
  refine (Ensures.mapM each).bind fun results alike => .pure ?_
  have all : results.map (fun result => result) = located.templates.map fun template =>
      (template, Template.references template) := map_eq_of_forall₂ alike
  rw [List.map_id'] at all
  subst all
  refine ⟨rfl, fun reference => ?_, fun failure => ?_⟩
  · simp only [List.mem_eraseDups, List.mem_flatMap, List.mem_map, exists_exists_and_eq_and]
    refine exists_congr fun template => and_congr_right fun _ => ?_
    cases Template.references template with
    | error error => simp
    | ok references => simp
  · simp only [List.mem_filterMap, List.mem_map, exists_exists_and_eq_and]
    constructor
    · intro failed
      obtain ⟨template, member, failed⟩ := failed
      cases read : Template.references template with
      | ok references => simp [read] at failed
      | error error =>
          simp only [read, Option.some.injEq] at failed
          rw [← failed]
          exact ⟨member, read⟩
    · intro failed
      exact ⟨failure.1, failed.1, by simp only [failed.2]⟩

end FilterLookup

end MetricQuery
