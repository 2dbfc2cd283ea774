import MetricQuery.Text.Record

/-! # Issues

What is wrong, or only remarkable, about the inputs of a query, with the path through the scope of
the query to the place where it was found. Issues are collected, so that one report can list all
errors.
-/

namespace MetricQuery

/-! ## Paths through a scope -/

/-- A place on a path: the number of a node in the scope of the query, and what the node is. -/
structure PathStep where
  id : Nat
  description : String
  deriving DecidableEq

/-- A path from the outside to the inside. -/
abbrev ScopePath : Type := List PathStep

namespace ScopePath

/-- A path as messages show it. -/
def text (path : ScopePath) : String :=
  String.intercalate " -> " (path.map fun step => "[Resolve " ++ step.description ++ "]")

end ScopePath

/-! ## Single issues -/

/-- Whether a query can go on in spite of an issue. -/
inductive IssueLevel where
  | warning
  | error
  deriving DecidableEq

/-- What an issue is about. -/
inductive IssueKind where
  /-- Nothing in scope is meant by a reference. -/
  | noMatch (suggestions : List String)
  /-- A reference means an item that some measure cannot be grouped by. -/
  | noMatchForMeasure (measure : String) (suggestions : List String)
  /-- A reference means more than one item. -/
  | ambiguous (items : List String)
  /-- A reference cannot be read. -/
  | badSyntax (message : String)
  /-- A filter cannot be read. -/
  | badFilter (template message : String)
  /-- There is no metric of a name. -/
  | unknownMetric (suggestions : List String)
  /-- A query cannot be sorted by something that it does not select. -/
  | notSelected (suggestions : List String)
  /-- Something is selected twice. -/
  | repeated (selected : String)
  deriving DecidableEq

namespace IssueKind

/-- What is wrong, in a sentence. -/
def message : IssueKind → String
  | noMatch _ => "The given input does not match any of the available group-by-items."
  | noMatchForMeasure measure _ =>
    "The given input matches an available group-by-item, but it is not available for measure " ++
      Text.named measure ++ "."
  | ambiguous _ =>
    "The given input matches more than one group-by-item. " ++
      "Specify the entity path to choose one."
  | badSyntax message => "The given input could not be parsed: " ++ message
  | badFilter template message =>
    "Error parsing where filter " ++ Text.quoted template ++ ": " ++ message
  | unknownMetric _ => "The given input does not match any of the available metrics."
  | notSelected _ =>
    "The given input does not match any of the selected metrics or group-by-items."
  | repeated selected =>
    "The query already selects " ++ selected ++ "; the repeated input is ignored."

/-- What is listed below the message, under a title. -/
def listed : IssueKind → Option (String × List String)
  | noMatch suggestions => some ("Suggestions", suggestions)
  | noMatchForMeasure _ suggestions => some ("Suggestions", suggestions)
  | unknownMetric suggestions => some ("Suggestions", suggestions)
  | notSelected suggestions => some ("Suggestions", suggestions)
  | ambiguous items => some ("Matching items", items)
  | badSyntax _ => none
  | badFilter _ _ => none
  | repeated _ => none

end IssueKind

/-- An issue with the input that it is about and the place where it was found. -/
structure Issue where
  level : IssueLevel
  input : String
  path : ScopePath
  kind : IssueKind
  deriving DecidableEq

namespace Issue

/-- An issue that stops the query. -/
def error (input : String) (path : ScopePath) (kind : IssueKind) : Issue :=
  ⟨.error, input, path, kind⟩

/-- An issue that does not stop the query. -/
def warning (input : String) (path : ScopePath) (kind : IssueKind) : Issue :=
  ⟨.warning, input, path, kind⟩

/-- Whether an issue stops the query. -/
def isError (issue : Issue) : Bool := issue.level == .error

/-- The same issue, found on a longer path. -/
def below (path : ScopePath) (issue : Issue) : Issue := { issue with path := path ++ issue.path }

end Issue

/-! ## Collected issues -/

/-- Issues in the order in which they were found. -/
abbrev Issues : Type := List Issue

namespace Issues

/-- The issues that stop the query. -/
def errors (issues : Issues) : Issues := issues.filter Issue.isError

/-- The issues that do not stop the query. -/
def warnings (issues : Issues) : Issues := issues.filter (!·.isError)

/-- Whether some issue stops the query. -/
def hasErrors (issues : Issues) : Bool := issues.any Issue.isError

/-- The same issues, found on a longer path. -/
def below (path : ScopePath) (issues : Issues) : Issues := issues.map (Issue.below path)

/-- Some issue stops the query exactly if there are errors. -/
theorem hasErrors_iff_errors_ne_nil (issues : Issues) :
    issues.hasErrors = true ↔ issues.errors ≠ [] := by
  simp [hasErrors, errors]

/-- There are no errors exactly if no issue stops the query. -/
theorem errors_eq_nil_iff (issues : Issues) : issues.errors = [] ↔ issues.hasErrors = false := by
  simp [hasErrors, errors]

/-- The errors of two lists of issues are those of the first and then those of the second. -/
theorem errors_append (left right : Issues) :
    errors (left ++ right) = left.errors ++ right.errors := List.filter_append ..

/-- The warnings of two lists of issues are those of the first and then those of the second. -/
theorem warnings_append (left right : Issues) :
    warnings (left ++ right) = left.warnings ++ right.warnings := List.filter_append ..

/-- If all issues are errors then they are all kept as errors. -/
theorem errors_eq_self {issues : Issues} (all : ∀ issue ∈ issues, issue.isError = true) :
    issues.errors = issues := List.filter_eq_self.mpr all

/-- If all issues are errors then there are no warnings. -/
theorem warnings_eq_nil {issues : Issues} (all : ∀ issue ∈ issues, issue.isError = true) :
    issues.warnings = [] := by
  refine List.filter_eq_nil_iff.mpr fun issue among => ?_
  rw [all issue among]
  exact Bool.false_ne_true

/-- Issues stop the query if those of either part do. -/
theorem hasErrors_append (left right : Issues) :
    hasErrors (left ++ right) = (left.hasErrors || right.hasErrors) := List.any_append

/-- A longer path changes nothing about what stops the query. -/
@[simp]
theorem hasErrors_below (path : ScopePath) (issues : Issues) :
    (issues.below path).hasErrors = issues.hasErrors := by
  simp only [hasErrors, below, List.any_map]
  rfl

/-! ## Reports -/

/-- A titled paragraph of an entry. -/
def paragraph (title content : String) : String := "\n  " ++ title ++ ":\n    " ++ content

/-- What an entry lists below its message, if that is not empty. -/
def listedText (issue : Issue) : String :=
  match issue.kind.listed with
  | none => ""
  | some (_, []) => ""
  | some (title, items) => paragraph title (Text.Record.text items)

/-- The entry of an issue in a report, under its number. -/
def entry (number : Nat) (issue : Issue) : String :=
  "\n\nError #" ++ Text.Record.text number ++ ":" ++ paragraph "Query Input" issue.input ++
    (if issue.path.isEmpty then "" else paragraph "Issue Location" issue.path.text) ++
    paragraph "Message" issue.kind.message ++ listedText issue

/-- The report of all errors, numbered from one. -/
def report (issues : Issues) : String :=
  let entries := issues.errors.zipIdx.map fun numbered => entry (numbered.2 + 1) numbered.1
  "Got errors while resolving the query." ++ String.join entries

end Issues

end MetricQuery
