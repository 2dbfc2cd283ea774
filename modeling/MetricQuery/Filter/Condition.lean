import MetricQuery.Filter.Lookup
import MetricQuery.Filter.Template
import MetricQuery.Item.Column

/-! # Conditions

A filter in SQL: its template with a column name for each callout, and the items that it reads.
-/

namespace MetricQuery

/-- A filter in SQL, with the items and elements that it reads, each once. -/
structure Condition where
  sql : String
  /-- The items that it reads, in the order of first use. -/
  items : List GroupByItem
  elements : List Element
  deriving DecidableEq

namespace Condition

/-- Two conditions that both have to hold. -/
def and (left right : Condition) : Condition where
  sql := "(" ++ left.sql ++ ") AND (" ++ right.sql ++ ")"
  items := appendNew left.items right.items
  elements := appendNew left.elements right.elements

/-- All conditions together, joined from the left; none if there is none. -/
def all : List Condition → Option Condition
  | [] => none
  | first :: rest => some (rest.foldl and first)

/-- A condition without SQL that reads nothing. -/
def blank : Condition := ⟨"", [], []⟩

section

variable {m : Type → Type} [Monad m]

/-- Adds a piece of a template to what has been rendered of it. -/
def addPiece (readCallout : String → m (Except ItemError ItemReference)) (lookup : FilterLookup)
    (location : FilterLocation) (rendered : Condition) :
    TemplatePiece → ExceptT QueryError m Condition
  | .text text => return { rendered with sql := rendered.sql ++ text }
  | .callout callout => do
    match ← readCallout callout with
    | .error error => throw (.item error)
    | .ok reference =>
      match lookup.getItem ⟨location, reference⟩ with
      | .error error => throw error
      | .ok (item, finding) =>
        return {
          sql := rendered.sql ++ item.qualifiedName
          items := appendNew rendered.items [item]
          elements := appendNew rendered.elements finding.elements }

/-- Renders a template at a location, reading its callouts with `readCallout`. -/
def ofTemplate (readCallout : String → m (Except ItemError ItemReference))
    (lookup : FilterLookup) (location : FilterLocation) (template : String) :
    ExceptT QueryError m Condition :=
  match Template.split template with
  | .error error => throw (.item error)
  | .ok pieces => pieces.foldlM (addPiece readCallout lookup location) blank

/-- Renders templates at a location one after the other. -/
def ofTemplates (readCallout : String → m (Except ItemError ItemReference))
    (lookup : FilterLookup) (location : FilterLocation) (templates : List String) :
    ExceptT QueryError m (List Condition) :=
  templates.mapM (ofTemplate readCallout lookup location)

end

end Condition

/-! ## Record texts -/

instance : Text.Record Element where
  text element :=
    let definedIn := match element.definedIn with
      | none => "None"
      | some model => Text.variantOf "Some" [Text.nameRecord "SemanticModelReference" model]
    Text.recordOf "LinkableElement" [("spec", Text.Record.text element.item),
      ("defined_in", definedIn),
      ("properties", Text.setOf (element.traits.map ElementTrait.name))]

instance : Text.Record Condition where
  text condition := Text.recordOf "WhereFilterSpec" [("where_sql", Text.quoted condition.sql),
    ("linkable_specs", Text.Record.text condition.items),
    ("linkable_elements", Text.Record.text condition.elements)]

end MetricQuery
