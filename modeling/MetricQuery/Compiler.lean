import MetricQuery.Dataflow.Outline
import MetricQuery.Dataflow.Planning
import MetricQuery.Query.Resolution
import MetricQuery.Sql.Lowering
import MetricQuery.Sql.Printing

/-! # Compiling requests

The whole way from a request to SQL: the request is resolved, the resolved query is planned, and
the plan becomes a statement. References are read with one memo on the whole way.
-/

namespace MetricQuery

/-- A compiled request with everything that it went through. -/
structure CompiledQuery where
  query : ResolvedQuery
  plan : Dataflow
  statement : Sql.Statement

/-- The text of the statement. -/
def CompiledQuery.sql (compiled : CompiledQuery) : String := compiled.statement.text

/-- Resolves a request with a memo of its own. -/
def Request.resolveAlone (catalog : Catalog) (settings : Settings) (request : Request) :
    Except QueryError ResolvedQuery :=
  ((request.resolve catalog settings).run (.empty settings.references.memoSize)).1

/-- Compiles a request with a memo of references, sharing parts of its plan as told. -/
def Request.compileRemembering (catalog : Catalog) (settings : Settings) (request : Request)
    (sharing : Dataflow → Sql.Sharing) :
    ExceptT QueryError (StateM ReferenceMemo) CompiledQuery := do
  let query ← request.resolve catalog settings
  let plan ← Dataflow.ofQueryRemembering catalog query
  let statement ← MonadExcept.ofExcept
    (Sql.Statement.ofPlan catalog settings.sql plan (sharing plan))
  return ⟨query, plan, statement⟩

/-- Compiles a request with a memo of its own, sharing parts of its plan as told. -/
def Request.compileWith (catalog : Catalog) (settings : Settings) (request : Request)
    (sharing : Dataflow → Sql.Sharing) : Except QueryError CompiledQuery :=
  ((request.compileRemembering catalog settings sharing).run.run
    (.empty settings.references.memoSize)).1

/-- Compiles a request, sharing parts of its plan as the settings say. -/
def Request.compile (catalog : Catalog) (settings : Settings) (request : Request) :
    Except QueryError CompiledQuery :=
  request.compileWith catalog settings fun _ => .ofSettings settings.sql

end MetricQuery
