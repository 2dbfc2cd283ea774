import MetricQuery.Catalog
import MetricQuery.Dataflow.Repeats
import MetricQuery.Settings.Basic
import MetricQuery.Sql.DataSet

/-! # From plans to statements

Each step of a plan becomes one select over what flows into it. Parts of the plan that are chosen
to be shared become common table expressions: each is converted once, where it is met first, and
read by its name everywhere.
-/

namespace MetricQuery.Sql

/-! ## Single steps -/

/-- A time column: what it holds, and how it is computed. -/
structure TimeColumn where
  /-- The grain to which it is truncated, or from which a part is extracted. -/
  grain : Grain
  part : Option DatePart
  expr : Expr

/-- What such a column of a time dimension holds. -/
def TimeColumn.content (column : TimeColumn) (name : String) (links : List String) :
    ColumnContent := .item (.timeDimension name links column.grain column.part)

/-- The columns of a time that is stored at a grain: truncated to each grain that is no finer, then
each part that can be extracted. -/
def timeColumns (stored : Grain) (time : Expr) : List TimeColumn :=
  let truncated := stored.coarserOrEqual.map fun grain =>
    TimeColumn.mk grain none (.truncate grain time)
  let extractable := DatePart.all.filter (·.extractableFrom stored)
  truncated ++ extractable.map fun part => ⟨stored, some part, .extract part time⟩

/-- The columns of a dimension behind the given links. -/
def dimensionColumns (links : List String) (dimension : Dimension) : List Selected :=
  let source := Expr.raw dimension.sql
  if dimension.isTime then
    (timeColumns dimension.storedGrain source).map fun column =>
      Selection.computed (column.content dimension.name links) column.expr
  else [Selection.computed (.item (.dimension dimension.name links)) source]

/-- All columns of a model: measures, entities, and dimensions without links and behind each entity
that identifies the rows. -/
def modelColumns (model : SemanticModel) : List Selected :=
  let measures := model.measures.map fun measure =>
    Selection.computed (.measure measure.name) (.raw measure.sql)
  let entities := model.entities.map fun entity =>
    Selection.computed (.ownEntity entity.name) (.raw entity.sql)
  let linkSets := [] :: model.identifyingEntities.map fun entity => [entity.name]
  let dimensions := linkSets.flatMap fun links =>
    model.dimensions.flatMap (dimensionColumns links)
  measures ++ entities ++ dimensions

/-- Reads a model under a name. -/
def readModel (model : SemanticModel) (name : String) : DataSet :=
  (Selection.ofList (modelColumns model)).dataSet ⟨.table model.table, some name⟩ id

/-- A column of metric time at a grain or part. -/
def metricTimeColumn (column : TimeColumn) (expr : Expr) : Selected :=
  Selection.computed (column.content metricTimeName []) expr

/-- Adds the time of the metric. Without an offset it takes over the columns of the time dimension,
with one it is computed from the shifted time. -/
def addMetricTime (input : Subquery) (dimension : String) (stored : Grain)
    (offset : Option OffsetWindow) : Except QueryError DataSet := do
  let time ← input.columnFor (.item (.timeDimension dimension [] stored none))
  let added ← match offset with
    | some window =>
      pure ((timeColumns stored (.shift time window)).map fun column =>
        metricTimeColumn column column.expr)
    | none =>
      (timeColumns stored time).mapM fun column =>
        (input.columnFor (column.content dimension [])).map (metricTimeColumn column)
  return (Selection.ofList (Selection.keepAll input ++ added)).dataSet input.tableRef id

/-- What a column of a joined table holds as seen from in front of the join, if it is seen there.
Measures and times of metrics stay behind, and so does the entity of the join with everything that
leads back through it; a metric becomes an item to group by. -/
def seenThrough (entity : String) : ColumnContent → Option ColumnContent
  | .measure _ => none
  | .metric output => some (.item (.metric output.metric [entity] [entity]))
  | .item item =>
    if item.isMetricTime || item.links.head? == some entity || item == .entity entity [] then none
    else some (.item (item.behind entity))

/-- The columns that a joined table adds. -/
def joinedColumns (entity : String) (right : Subquery) : List Selected :=
  right.columns.filterMap fun column =>
    (seenThrough entity column.content).map fun content =>
      Selection.computed content (right.column column.name)

/-- The join of a table on an entity. -/
def joinOn (entity : String) (left right : Subquery) : Except QueryError (Join Relation) := do
  let leftKey ← left.columnFor (.ownEntity entity)
  let rightKey ← right.columnFor (.ownEntity entity)
  return ⟨.left, right.tableRef, [.binary .equal leftKey rightKey]⟩

/-- A table joined on an entity. -/
structure Joined where
  entity : String
  right : Subquery
  join : Join Relation

/-- All columns of the first table, and what the joined ones add. -/
def joinAll (left : Subquery) (joined : List Joined) : DataSet :=
  let added := joined.flatMap fun part => joinedColumns part.entity part.right
  (Selection.ofList (Selection.keepAll left ++ added)).dataSet left.tableRef fun select =>
    { select with joins := joined.map Joined.join }

/-- Keeps the rows that meet a condition. -/
def constrain (input : Subquery) (condition : Condition) : DataSet :=
  (Selection.ofList (Selection.keepAll input)).dataSet input.tableRef fun select =>
    { select with filters := [.raw condition.sql] }

/-- The column that is passed on for some content. -/
def passed (input : Subquery) (content : ColumnContent) : Except QueryError Column :=
  match input.columns.get? content with
  | some column => .ok ⟨content, column.name⟩
  | none => .error (.nothingToPass content)

/-- Passes on some contents of the input, under the names they have. -/
def pass (input : Subquery) (contents : List ColumnContent) : Except QueryError DataSet := do
  let columns ← contents.mapM (passed input)
  return (Selection.ofList (Selection.keep input columns)).dataSet input.tableRef id

/-- The column of an aggregated measure. -/
def aggregated (input : Subquery) (measure : AggregatedMeasure) : Except QueryError Selected :=
  let content := ColumnContent.measure measure.measure
  match input.columns.get? content with
  | some column =>
    .ok ⟨⟨content, column.name⟩, .aggregate measure.aggregation (input.column column.name)⟩
  | none => .error (.noMeasureColumn measure.measure)

/-- Groups by all items and aggregates measures. -/
def aggregate (input : Subquery) (measures : List AggregatedMeasure) :
    Except QueryError DataSet := do
  let items := Selection.keep input input.columns.items
  let computed ← measures.mapM (aggregated input)
  return (Selection.ofList (items ++ computed)).dataSet input.tableRef fun select =>
    { select with groupBy := items.map Selected.expr }

/-- The expression of a metric. Both sides of a ratio are converted, and a divisor of zero gives
null. -/
def metricExpr (input : Subquery) : MetricFormula → Except QueryError Expr
  | .measure name => input.columnFor (.measure name)
  | .ratio numerator denominator => do
    let dividend ← input.columnFor (.metric numerator)
    let divisor ← input.columnFor (.metric denominator)
    let nonZero := Expr.call .nullIf [divisor, .literal (.number (.ofInt 0))]
    return .binary .divide dividend.asDouble nonZero.asDouble
  | .derived expr => .ok (.raw expr)

/-- Computes a metric beside the items. -/
def compute (input : Subquery) (output : MetricOutput) (formula : MetricFormula) :
    Except QueryError DataSet := do
  let expr ← metricExpr input formula
  let items := Selection.keep input input.columns.items
  return (Selection.ofList (items ++ [Selection.computed (.metric output) expr])).dataSet
    input.tableRef id

/-- The first value of an item among some subqueries that is not null. -/
def firstValue (inputs : List Subquery) (item : Column) : Except QueryError Expr := do
  return .firstOf (← inputs.mapM (·.columnFor item.content))

/-- Joins a further output to those before it, on all items; without items the rows are paired. -/
def combineJoin (items : Columns) (before : List Subquery) (right : Subquery) :
    Except QueryError (Join Relation) :=
  if items.isEmpty then .ok ⟨.cross, right.tableRef, []⟩
  else do
    let on ← items.mapM fun item => do
      let left ← firstValue before item
      return Expr.binary .equal left (← right.columnFor item.content)
    return ⟨.fullOuter, right.tableRef, on⟩

/-- Joins outputs one after the other to those before them. -/
def combineJoins (items : Columns) (before : List Subquery) :
    List Subquery → Except QueryError (List (Join Relation))
  | [] => .ok []
  | right :: rest => do
    let join ← combineJoin items before right
    return join :: (← combineJoins items (before ++ [right]) rest)

/-- The metrics of an output. -/
def metricColumns (input : Subquery) : List Selected :=
  Selection.keep input <| input.columns.filter fun column =>
    match column.content with
    | .metric _ => true
    | _ => false

/-- Brings outputs together on the items of the first one. -/
def combine (first : Subquery) (rest : List Subquery) : Except QueryError DataSet := do
  let all := first :: rest
  let items := first.columns.items
  let joins ← combineJoins items [first] rest
  let keys ← items.mapM fun item => (firstValue all item).map (Selected.mk item)
  return (Selection.ofList (keys ++ all.flatMap metricColumns)).dataSet first.tableRef
    fun select => { select with joins }

/-- A column of an input, accumulated if it holds one of the measures. -/
def accumulated (input : Subquery) (order : Expr) (parts : List Expr)
    (measures : List AggregatedMeasure) (column : Column) : Selected :=
  let plain := input.column column.name
  match column.content with
  | .measure name =>
    match measures.find? (·.measure == name) with
    | some measure =>
      ⟨column, .window (.ofAggregation measure.aggregation) plain parts [order]⟩
    | none => ⟨column, plain⟩
  | _ => ⟨column, plain⟩

/-- Accumulates measures along an order, within parts. -/
def accumulate (input : Subquery) (order : GroupByItem) (parts : List GroupByItem)
    (measures : List AggregatedMeasure) : Except QueryError DataSet := do
  let orderExpr ← input.columnFor (.item order)
  let partExprs ← parts.mapM fun part => input.columnFor (.item part)
  let columns := input.columns.map (accumulated input orderExpr partExprs measures)
  return (Selection.ofList columns).dataSet input.tableRef id

/-- What rows are sorted by; the column is found by its name. -/
def sortItem (input : Subquery) (item : OrderItem) : Except QueryError SortItem :=
  let name := item.content.columnName
  if input.columns.any (·.name == name) then .ok ⟨input.column name, item.descending⟩
  else .error (.noOrderColumn name)

/-- Sorts, and limits the number of rows. -/
def sort (input : Subquery) (order : List OrderItem) (limit : Option Nat) :
    Except QueryError DataSet := do
  let orderBy ← order.mapM (sortItem input)
  return (Selection.ofList (Selection.keepAll input)).dataSet input.tableRef fun select =>
    { select with orderBy, limit }

/-! ## Whole plans -/

/-- A part of a plan that has become a common table expression. -/
structure SharedPart where
  plan : Dataflow
  name : String
  columns : Columns

/-- What has been generated so far. -/
structure Progress where
  ctes : List Cte
  /-- The parts that they stand for. -/
  shared : List SharedPart
  nextSubquery : Nat
  nextCte : Nat

/-- What stays the same while a plan is converted. -/
structure Context where
  catalog : Catalog
  settings : SqlSettings
  /-- The whole plan, which is never shared. -/
  whole : Dataflow
  chosen : List Dataflow

/-- Conversion generates names, collects common table expressions and can fail. -/
abbrev Lower : Type → Type := StateT Progress (Except QueryError)

namespace Lower

/-- A generated name: what it begins with, and a number. -/
def generatedName (stem : String) (number : Nat) : String :=
  stem ++ "_" ++ Text.Record.text number

/-- The next name for a subquery. -/
def nextSubqueryName (context : Context) : Lower String := do
  let progress ← get
  set { progress with nextSubquery := progress.nextSubquery + 1 }
  return generatedName context.settings.subqueryStem progress.nextSubquery

/-- A data set as a subquery under the next name. -/
def asSubquery (context : Context) (dataSet : DataSet) : Lower Subquery := do
  return ⟨← nextSubqueryName context, dataSet.columns, dataSet.source⟩

/-- Makes a converted part a common table expression, and reads it from there. -/
def share (context : Context) (plan : Dataflow) (dataSet : DataSet) : Lower DataSet := do
  let progress ← get
  let name := generatedName context.settings.cteStem progress.nextCte
  let ctes := progress.ctes ++ [Cte.mk name dataSet.source]
  let shared := progress.shared ++ [SharedPart.mk plan name dataSet.columns]
  set { progress with ctes, shared, nextCte := progress.nextCte + 1 }
  return ⟨dataSet.columns, .table name⟩

/-- Whether a part is to become a common table expression. -/
def isShared (context : Context) (plan : Dataflow) : Bool :=
  plan != context.whole && context.chosen.contains plan

/-- Reads a model under the next name. -/
def ofModel (context : Context) (name : String) : Lower DataSet := do
  match context.catalog.model? name with
  | none => throw (.unknownModel name)
  | some model => return readModel model (← nextSubqueryName context)

/-- What a step with a single input makes of it. -/
def ofStep (input : Subquery) : Step → Except QueryError DataSet
  | .addMetricTime dimension stored offset => addMetricTime input dimension stored offset
  | .constrain condition => .ok (constrain input condition)
  | .pass contents => pass input contents
  | .aggregate measures => aggregate input measures
  | .compute output formula => compute input output formula
  | .accumulate order parts measures => accumulate input order parts measures
  | .sort order limit => sort input order limit
  | _ => .ok ⟨input.columns, input.source⟩

mutual

/-- Converts a plan. A part to share is converted only if it has not been before. -/
def ofPlan (context : Context) : Dataflow → Lower DataSet
  | .node step inputs => do
    let plan := Dataflow.node step inputs
    if isShared context plan then
      match (← get).shared.find? (·.plan == plan) with
      | some part => return ⟨part.columns, .table part.name⟩
      | none => share context plan (← ofInputs context step inputs)
    else ofInputs context step inputs

/-- Converts a step with its inputs. -/
def ofInputs (context : Context) : Step → List Dataflow → Lower DataSet
  | .read model, _ => ofModel context model
  | .join _, [] => throw .emptyJoin
  | .join entities, left :: rights => do
    if rights.length ≠ entities.length then
      throw (.unevenJoin rights.length entities.length)
    let left ← asSubquery context (← ofPlan context left)
    return joinAll left (← ofRights context left entities rights)
  | .combine, [] => throw .emptyCombination
  | .combine, first :: rest => do
    let first ← asSubquery context (← ofPlan context first)
    combine first (← ofOutputs context rest)
  | .result, [input] => ofPlan context input
  | step, [input] => do ofStep (← asSubquery context (← ofPlan context input)) step
  | step, inputs => throw (.notOneInput step.title inputs.length)

/-- Converts the further inputs of a join, each with its entity. -/
def ofRights (context : Context) (left : Subquery) :
    List String → List Dataflow → Lower (List Joined)
  | entity :: entities, right :: rights => do
    let right ← asSubquery context (← ofPlan context right)
    let join ← joinOn entity left right
    return ⟨entity, right, join⟩ :: (← ofRights context left entities rights)
  | _, _ => return []

/-- Converts outputs to be brought together. -/
def ofOutputs (context : Context) : List Dataflow → Lower (List Subquery)
  | [] => return []
  | output :: rest => do
    let first ← asSubquery context (← ofPlan context output)
    return first :: (← ofOutputs context rest)

end

end Lower

/-- Which parts of a plan become common table expressions. -/
inductive Sharing where
  /-- None. -/
  | nothing
  /-- The largest parts that occur more than once. -/
  | repeats
  /-- The given ones, wherever they occur below the last step. -/
  | parts (plans : List Dataflow)

namespace Sharing

/-- What the settings say. -/
def ofSettings (settings : SqlSettings) : Sharing :=
  if settings.shareRepeats then repeats else nothing

/-- The parts of a plan to share. -/
def chosen (plan : Dataflow) : Sharing → List Dataflow
  | nothing => []
  | repeats => plan.repeatedParts
  | parts plans => plans

end Sharing

/-- The statement of a plan. -/
def Statement.ofPlan (catalog : Catalog) (settings : SqlSettings) (plan : Dataflow)
    (sharing : Sharing) : Except QueryError Statement := do
  let context := Context.mk catalog settings plan (sharing.chosen plan)
  let (result, progress) ← (Lower.ofPlan context plan).run ⟨[], [], 0, 0⟩
  return ⟨progress.ctes, result.source⟩

end MetricQuery.Sql
