import MetricQuery.Proofs.Element.Offering
import MetricQuery.Proofs.Failing
import MetricQuery.Sql.Assembly

/-! # What the columns of a step hold

Whether a step can be made of its inputs depends on what the columns of these hold, and so does
what its own columns hold. Each kind of step has a lemma that says what it needs and what it gives
(`Makes`). Columns always have the names that follow from what they hold.
-/

namespace MetricQuery.Sql

namespace Columns

/-- Whether each column has the name that follows from what it holds. -/
def AreNamed (columns : Columns) : Prop :=
  ∀ column ∈ columns, column.name = column.content.columnName

/-- A content is contained when some column holds it. -/
theorem contains_iff {columns : Columns} {content : ColumnContent} :
    columns.contains content = true ↔ ∃ column ∈ columns, column.content = content := by
  simp only [contains, List.any_eq_true, beq_iff_eq]

/-- A content that is contained is found. -/
theorem exists_get? {columns : Columns} {content : ColumnContent}
    (held : columns.contains content = true) :
    ∃ column ∈ columns, columns.get? content = some column ∧ column.content = content := by
  obtain ⟨column, found⟩ := Option.isSome_iff_exists.mp (List.find?_isSome.mpr
    (List.any_eq_true.mp held))
  have same : (column.content == content) = true := by simpa using List.find?_some found
  exact ⟨column, List.mem_of_find?_eq_some found, found, beq_iff_eq.mp same⟩

/-- The item columns are the columns that hold an item. -/
theorem mem_items {columns : Columns} {column : Column} :
    column ∈ columns.items ↔ column ∈ columns ∧ column.content.item?.isSome = true :=
  List.mem_filter

end Columns

/-- What an input contains can be read from it. -/
theorem Subquery.exists_columnFor {input : Subquery} {content : ColumnContent}
    (held : input.columns.contains content = true) :
    ∃ expr, input.columnFor content = .ok expr := by
  obtain ⟨column, _, found, _⟩ := Columns.exists_get? held
  exact ⟨input.column column.name, by rw [columnFor, found]⟩

/-- Whether a data set is made whose columns hold exactly some contents, under the names that
follow from them. -/
def Makes (result : Except QueryError DataSet) (contents : ColumnContent → Prop) : Prop :=
  ∃ dataSet, result = .ok dataSet ∧ dataSet.columns.AreNamed ∧
    ∀ content, dataSet.columns.contains content = true ↔ contents content

namespace Selection

/-- Adding columns one by one keeps the first of each content and loses no content. -/
theorem foldl_add (kept columns : List Selected) :
    (∀ selected ∈ columns.foldl add kept, selected ∈ kept ∨ selected ∈ columns) ∧
      ∀ content, (∃ selected ∈ columns.foldl add kept, selected.column.content = content) ↔
        (∃ selected ∈ kept, selected.column.content = content) ∨
          ∃ selected ∈ columns, selected.column.content = content := by
  induction columns generalizing kept with
  | nil => simp
  | cons first rest ih =>
      obtain ⟨sources, contents⟩ := ih (add kept first)
      rw [List.foldl_cons]
      by_cases present : kept.any (·.column.content == first.column.content) = true
      · have same : add kept first = kept := if_pos present
        rw [same] at sources contents ⊢
        constructor
        · intro selected member
          exact (sources selected member).imp_right (List.mem_cons_of_mem _)
        · intro content
          obtain ⟨other, among, alike⟩ := List.any_eq_true.mp present
          rw [contents, List.exists_mem_cons_iff]
          constructor
          · exact fun held => held.imp_right .inr
          · intro given
            rcases given with before | here | later
            · exact .inl before
            · exact .inl ⟨other, among, (beq_iff_eq.mp alike).trans here⟩
            · exact .inr later
      · have extended : add kept first = kept ++ [first] := if_neg present
        rw [extended] at sources contents ⊢
        constructor
        · intro selected member
          rcases sources selected member with before | later
          · rcases List.mem_append.mp before with before | here
            · exact .inl before
            · exact .inr (List.mem_singleton.mp here ▸ List.mem_cons_self)
          · exact .inr (List.mem_cons_of_mem _ later)
        · intro content
          rw [contents, List.exists_mem_cons_iff]
          simp only [List.mem_append, List.mem_singleton, or_and_right, exists_or, exists_eq_left,
            or_assoc]

private theorem nodup_foldl_add {kept : List Selected} (columns : List Selected)
    (distinct : (kept.map (·.column.content)).Nodup) :
    ((columns.foldl add kept).map (·.column.content)).Nodup := by
  induction columns generalizing kept with
  | nil => exact distinct
  | cons first rest ih =>
      refine ih ?_
      unfold add
      split
      · exact distinct
      · rename_i absent
        rw [List.map_append, List.nodup_append]
        refine ⟨distinct, List.nodup_singleton _, fun content before other here same => ?_⟩
        obtain ⟨selected, member, rfl⟩ := List.mem_map.mp before
        obtain rfl := List.mem_singleton.mp here
        exact absent (List.any_eq_true.mpr ⟨selected, member, beq_iff_eq.mpr same⟩)

/-- No two columns that are selected hold the same. -/
theorem nodup_ofList (columns : List Selected) :
    ((ofList columns).map (·.column.content)).Nodup := nodup_foldl_add columns List.nodup_nil

/-- A selection holds columns it was made of. -/
theorem mem_of_mem_ofList {columns : List Selected} {selected : Selected}
    (member : selected ∈ ofList columns) : selected ∈ columns :=
  ((foldl_add [] columns).1 selected member).resolve_left List.not_mem_nil

/-- A selection contains the contents it was made of. -/
theorem contains_ofList {columns : List Selected} {content : ColumnContent} :
    (ofList columns).columns.contains content = true ↔
      ∃ selected ∈ columns, selected.column.content = content := by
  simp only [Columns.contains_iff, Selection.columns, List.mem_map, exists_exists_and_eq_and]
  exact ((foldl_add [] columns).2 content).trans (or_iff_right (by simp))

/-- A selection of columns named after their contents is named after them. -/
theorem named_columns {columns : List Selected}
    (named : ∀ selected ∈ columns, selected.column.name = selected.column.content.columnName) :
    (ofList columns).columns.AreNamed := by
  intro column member
  obtain ⟨selected, among, rfl⟩ := List.mem_map.mp member
  exact named selected (mem_of_mem_ofList among)

/-- Columns selected from a table hold what they were selected to hold. -/
theorem makes {columns : List Selected} {contents : ColumnContent → Prop}
    {table : TableRef Relation} {complete : Select Relation → Select Relation}
    (named : ∀ selected ∈ columns, selected.column.name = selected.column.content.columnName)
    (held : ∀ content, (∃ selected ∈ columns, selected.column.content = content) ↔
      contents content) :
    Makes (.ok ((ofList columns).dataSet table complete)) contents := by
  refine ⟨_, rfl, named_columns named, fun content => ?_⟩
  rw [← held]
  exact contains_ofList

/-- What is kept are the columns asked for. -/
theorem mem_keep {input : Subquery} {columns : Columns} {selected : Selected} :
    selected ∈ keep input columns ↔ ∃ column ∈ columns, kept input column = selected :=
  List.mem_map

/-- Columns that are kept as they are hold what they held. -/
theorem exists_keep_iff {input : Subquery} {columns : Columns} {content : ColumnContent} :
    (∃ selected ∈ keep input columns, selected.column.content = content) ↔
      columns.contains content = true := by
  simp only [keep, List.mem_map, Columns.contains_iff, exists_exists_and_eq_and]
  rfl

/-- Keeping columns keeps their names. -/
theorem named_keep {input : Subquery} {columns : Columns} (named : columns.AreNamed) :
    ∀ selected ∈ keep input columns, selected.column.name = selected.column.content.columnName := by
  intro selected member
  obtain ⟨column, among, rfl⟩ := mem_keep.mp member
  exact named column among

/-- Columns added to those that are kept hold what is added. -/
theorem makes_added {input : Subquery} {columns : Columns} {added : List Selected}
    {contents : List ColumnContent} {table : TableRef Relation}
    {complete : Select Relation → Select Relation} (named : columns.AreNamed)
    (same : added.map Selected.column =
      contents.map fun content => ⟨content, content.columnName⟩) :
    Makes (.ok ((ofList (keep input columns ++ added)).dataSet table complete)) fun content =>
      columns.contains content = true ∨ content ∈ contents := by
  refine makes (fun selected member => ?_) fun content => ?_
  · rcases List.mem_append.mp member with kept | new
    · exact named_keep named selected kept
    · have among : selected.column ∈ added.map Selected.column := List.mem_map_of_mem new
      rw [same] at among
      obtain ⟨content, _, same⟩ := List.mem_map.mp among
      rw [← same]
  · have held : (∃ selected ∈ added, selected.column.content = content) ↔
        ∃ column ∈ added.map Selected.column, column.content = content := by
      simp only [List.mem_map, exists_exists_and_eq_and]
    simp only [List.mem_append, or_and_right, exists_or, held, same, List.mem_map,
      exists_exists_and_eq_and, exists_eq_right, exists_keep_iff]

end Selection

open Selection

/-- Among the item columns stand exactly the items contained. -/
theorem contains_items {columns : Columns} {content : ColumnContent} :
    columns.items.contains content = true ↔
      columns.contains content = true ∧ content.item?.isSome = true := by
  simp only [Columns.contains_iff, Columns.mem_items]
  constructor
  · intro present
    obtain ⟨column, ⟨member, isItem⟩, rfl⟩ := present
    exact ⟨⟨column, member, rfl⟩, isItem⟩
  · intro present
    obtain ⟨⟨column, member, rfl⟩, isItem⟩ := present
    exact ⟨column, ⟨member, isItem⟩, rfl⟩

/-- The item columns are named after their contents where the columns are. -/
theorem Columns.AreNamed.items {columns : Columns} (named : columns.AreNamed) :
    columns.items.AreNamed :=
  fun column member => named column (Columns.mem_items.mp member).1

/-! ## Reading models -/

/-- A time column is read at the grains and parts its stored grain offers. -/
theorem exists_timeColumns_iff {stored : Grain} {time : Expr} {name : String}
    {links : List String} {content : ColumnContent} :
    (∃ column ∈ timeColumns stored time, column.content name links = content) ↔
      ∃ grain part, stored.Offers grain part ∧
        content = .item (.timeDimension name links grain part) := by
  simp only [timeColumns, List.mem_append, List.mem_map, List.mem_filter, TimeColumn.content]
  constructor
  · intro given
    rcases given with ⟨column, ⟨grain, coarser, rfl⟩ | ⟨part, ⟨-, extractable⟩, rfl⟩, rfl⟩
    · exact ⟨grain, none, coarser, rfl⟩
    · exact ⟨stored, some part, ⟨rfl, extractable⟩, rfl⟩
  · intro offers
    rcases offers with ⟨grain, _ | part, offered, rfl⟩
    · exact ⟨_, .inl ⟨grain, offered, rfl⟩, rfl⟩
    · obtain ⟨rfl, extractable⟩ := offered
      exact ⟨_, .inr ⟨part, ⟨DatePart.mem_all part, extractable⟩, rfl⟩, rfl⟩

/-- The columns of a dimension hold the items it offers. -/
theorem exists_dimensionColumns_iff {links : List String} {dimension : Dimension}
    {content : ColumnContent} :
    (∃ selected ∈ dimensionColumns links dimension, selected.column.content = content) ↔
      ∃ item, content = .item item ∧ item.links = links ∧ dimension.Offers item := by
  unfold dimensionColumns
  split
  · rename_i time
    simp only [List.mem_map, exists_exists_and_eq_and]
    change (∃ column ∈ timeColumns _ _, column.content dimension.name links = content) ↔ _
    rw [exists_timeColumns_iff]
    constructor
    · intro offers
      obtain ⟨grain, part, offered, rfl⟩ := offers
      exact ⟨_, rfl, rfl, rfl, time, offered⟩
    · intro offers
      obtain ⟨item, rfl, rfl, offered⟩ := offers
      cases item with
      | timeDimension name links grain part =>
          obtain ⟨rfl, -, offered⟩ := offered
          exact ⟨grain, part, offered, rfl⟩
      | dimension name links => exact absurd time (Bool.not_eq_true _ ▸ offered.2)
      | _ => exact offered.elim
  · rename_i plain
    simp only [List.mem_singleton, exists_eq_left]
    constructor
    · rintro rfl
      exact ⟨_, rfl, rfl, rfl, Bool.not_eq_true _ ▸ plain⟩
    · intro offers
      obtain ⟨item, rfl, rfl, offered⟩ := offers
      cases item with
      | dimension name links =>
          obtain ⟨rfl, -⟩ := offered
          rfl
      | timeDimension name links grain part => exact absurd offered.2.1 plain
      | _ => exact offered.elim

/-- What the columns of a model hold when it is read. -/
def modelContents (model : SemanticModel) : ColumnContent → Prop
  | .measure name => ∃ measure ∈ model.measures, measure.name = name
  | .item item => model.OffersAlone item
  | .metric _ => False

/-- The columns of a model hold its contents. -/
theorem exists_modelColumns_iff {model : SemanticModel} {content : ColumnContent} :
    (∃ selected ∈ modelColumns model, selected.column.content = content) ↔
      modelContents model content := by
  simp only [modelColumns, List.mem_append, List.mem_flatMap, List.mem_map]
  constructor
  · rintro ⟨selected, (⟨measure, own, rfl⟩ | ⟨entity, own, rfl⟩) | ⟨links, front, dimension, own,
      column⟩, rfl⟩
    · exact ⟨measure, own, rfl⟩
    · exact .inl ⟨rfl, .inr ⟨entity, own, rfl⟩⟩
    · obtain ⟨item, same, rfl, offered⟩ := exists_dimensionColumns_iff.mp ⟨selected, column, rfl⟩
      rw [same]
      rcases List.mem_cons.mp front with plain | behind
      · exact .inl ⟨plain, .inl ⟨dimension, own, offered⟩⟩
      · obtain ⟨entity, identifying, links⟩ := List.mem_map.mp behind
        exact .inr ⟨⟨entity, identifying, links.symm⟩, dimension, own, offered⟩
  · have ofDimension : ∀ dimension ∈ model.dimensions, ∀ item, dimension.Offers item →
        item.links ∈ [] :: model.identifyingEntities.map (fun entity => [entity.name]) →
        ∃ selected, (∃ links ∈ [] :: model.identifyingEntities.map (fun entity => [entity.name]),
          ∃ dimension ∈ model.dimensions, selected ∈ dimensionColumns links dimension) ∧
          selected.column.content = .item item := by
      intro dimension own item offered front
      obtain ⟨selected, column, same⟩ :=
        exists_dimensionColumns_iff.mpr ⟨item, rfl, rfl, offered⟩
      exact ⟨selected, ⟨item.links, front, dimension, own, column⟩, same⟩
    intro held
    cases content with
    | measure name =>
        obtain ⟨measure, own, rfl⟩ := held
        exact ⟨_, .inl (.inl ⟨measure, own, rfl⟩), rfl⟩
    | metric output => exact held.elim
    | item item =>
        rcases held with ⟨plain, ⟨dimension, own, offered⟩ | ⟨entity, own, same⟩⟩ |
          ⟨⟨entity, identifying, behind⟩, dimension, own, offered⟩
        · obtain ⟨selected, column, same⟩ := ofDimension dimension own item offered
            (plain ▸ List.mem_cons_self)
          exact ⟨selected, .inr column, same⟩
        · rw [plain] at same
          exact ⟨_, .inl (.inr ⟨entity, own, rfl⟩), congrArg _ same.symm⟩
        · obtain ⟨selected, column, same⟩ := ofDimension dimension own item offered
            (List.mem_cons_of_mem _ (List.mem_map.mpr ⟨entity, identifying, behind.symm⟩))
          exact ⟨selected, .inr column, same⟩

/-- The columns of a model are named after their contents. -/
theorem named_modelColumns (model : SemanticModel) :
    ∀ selected ∈ modelColumns model, selected.column.name = selected.column.content.columnName := by
  intro selected member
  simp only [modelColumns, List.mem_append, List.mem_flatMap, List.mem_map] at member
  rcases member with (⟨measure, own, rfl⟩ | ⟨entity, own, rfl⟩) | ⟨links, _, dimension, _, column⟩
  · rfl
  · rfl
  · unfold dimensionColumns at column
    split at column
    · obtain ⟨time, _, rfl⟩ := List.mem_map.mp column
      rfl
    · rw [List.mem_singleton.mp column]
      rfl

/-- Reading a model makes its contents. -/
theorem readModel_makes (model : SemanticModel) (name : String) :
    Makes (.ok (readModel model name)) (modelContents model) :=
  makes (named_modelColumns model) fun _ => exists_modelColumns_iff

/-- The time of a metric is added to a table that holds the time dimension which it follows. -/
theorem addMetricTime_makes {input : Subquery} {dimension : String} {stored : Grain}
    {offset : Option OffsetWindow} (named : input.columns.AreNamed)
    (held : ∀ grain part, stored.Offers grain part →
      input.columns.contains (.item (.timeDimension dimension [] grain part)) = true) :
    Makes (addMetricTime input dimension stored offset) fun content =>
      input.columns.contains content = true ∨ ∃ grain part, stored.Offers grain part ∧
        content = .item (.timeDimension metricTimeName [] grain part) := by
  obtain ⟨time, found⟩ := input.exists_columnFor (held stored none stored.offers_self)
  have makes : ∀ (added : List Selected) (time : Expr),
      added.map Selected.column = (timeColumns stored time).map (fun column =>
        (metricTimeColumn column column.expr).column) →
      Makes (.ok ((Selection.ofList (keepAll input ++ added)).dataSet input.tableRef id))
        fun content => input.columns.contains content = true ∨
          ∃ grain part, stored.Offers grain part ∧
            content = .item (.timeDimension metricTimeName [] grain part) := by
    intro added time same
    simp only [← @exists_timeColumns_iff stored time, ← List.mem_map]
    exact makes_added named (by rw [same, List.map_map]; rfl)
  rw [addMetricTime, found]
  cases offset with
  | some window => exact makes _ _ (List.map_map.trans (List.map_congr_left fun _ _ => rfl))
  | none =>
      have each : ∀ column ∈ timeColumns stored time, ∃ selected,
          (input.columnFor (column.content dimension [])).map (metricTimeColumn column) =
            .ok selected ∧
          selected.column = (metricTimeColumn column column.expr).column := by
        intro column member
        obtain ⟨grain, part, offered, same⟩ := exists_timeColumns_iff.mp
          ⟨column, member, (rfl : column.content dimension [] = _)⟩
        obtain ⟨expr, found⟩ := input.exists_columnFor (held grain part offered)
        exact ⟨metricTimeColumn column expr, by rw [same, found]; rfl, rfl⟩
      obtain ⟨added, computed, same⟩ := exists_mapM_eq_ok each
      change Makes ((timeColumns stored time).mapM _ >>= _) _
      rw [computed]
      exact makes added time (map_eq_of_forall₂ same)

/-! ## Joining -/

/-- A joined input adds what is seen of it through its entity. -/
theorem exists_joinedColumns_iff {entity : String} {right : Subquery} {content : ColumnContent} :
    (∃ selected ∈ joinedColumns entity right, selected.column.content = content) ↔
      ∃ inner, right.columns.contains inner = true ∧ seenThrough entity inner = some content := by
  simp only [joinedColumns, List.mem_filterMap, Option.map_eq_some_iff, Columns.contains_iff]
  constructor
  · intro seen
    obtain ⟨_, ⟨column, member, seen, through, rfl⟩, rfl⟩ := seen
    exact ⟨column.content, ⟨column, member, rfl⟩, through⟩
  · intro present
    obtain ⟨_, ⟨column, member, rfl⟩, through⟩ := present
    exact ⟨_, ⟨column, member, content, through, rfl⟩, rfl⟩

/-- The columns a joined input adds are named after their contents. -/
theorem named_joinedColumns {entity : String} {right : Subquery} :
    ∀ selected ∈ joinedColumns entity right,
      selected.column.name = selected.column.content.columnName := by
  intro selected member
  obtain ⟨column, _, made⟩ := List.mem_filterMap.mp member
  obtain ⟨content, _, rfl⟩ := Option.map_eq_some_iff.mp made
  rfl

/-- Tables can be joined on entities that they and the first one hold. -/
theorem join_makes {left : Subquery} {entities : List String} {rights : List Subquery}
    (even : rights.length = entities.length) (named : left.columns.AreNamed)
    (keys : ∀ pair ∈ entities.zip rights,
      left.columns.contains (.ownEntity pair.1) = true ∧
        pair.2.columns.contains (.ownEntity pair.1) = true) :
    Makes (assemble (.join entities) (left :: rights)) fun content =>
      left.columns.contains content = true ∨ ∃ pair ∈ entities.zip rights,
        ∃ inner, pair.2.columns.contains inner = true ∧
          seenThrough pair.1 inner = some content := by
  have each : ∀ pair ∈ entities.zip rights, ∃ part,
      (joinOn pair.1 left pair.2).map (fun join => (⟨pair.1, pair.2, join⟩ : Joined)) = .ok part ∧
        (part.entity, part.right) = pair := by
    intro pair member
    obtain ⟨leftKey, leftFound⟩ := left.exists_columnFor (keys pair member).1
    obtain ⟨rightKey, rightFound⟩ := pair.2.exists_columnFor (keys pair member).2
    exact ⟨_, by rw [joinOn, leftFound, rightFound]; rfl, rfl⟩
  obtain ⟨joined, computed, same⟩ := exists_mapM_eq_ok each
  have parts : joined.map (fun part => (part.entity, part.right)) = entities.zip rights :=
    (map_eq_of_forall₂ same).trans (List.map_id _)
  rw [assemble, if_pos even, joinEach, computed]
  change Makes (.ok (joinAll left joined)) _
  unfold joinAll
  refine Selection.makes (fun selected member => ?_) fun content => ?_
  · rcases List.mem_append.mp member with kept | new
    · exact named_keep named selected kept
    · obtain ⟨part, _, among⟩ := List.mem_flatMap.mp new
      exact named_joinedColumns selected among
  · simp only [List.mem_append, or_and_right, exists_or]
    refine or_congr exists_keep_iff ?_
    rw [← parts]
    simp only [List.mem_flatMap, List.mem_map, exists_exists_and_eq_and,
      ← exists_joinedColumns_iff]
    constructor
    · intro holds
      obtain ⟨selected, ⟨part, member, among⟩, holds⟩ := holds
      exact ⟨part, member, selected, among, holds⟩
    · intro holds
      obtain ⟨part, member, selected, among, holds⟩ := holds
      exact ⟨selected, ⟨part, member, among⟩, holds⟩

/-! ## Steps over one input -/

/-- A condition makes the contents it is given. -/
theorem constrain_makes {input : Subquery} (condition : Condition)
    (named : input.columns.AreNamed) :
    Makes (.ok (constrain input condition)) (input.columns.contains · = true) :=
  Selection.makes (named_keep named) fun _ => exists_keep_iff

/-- What is held can be passed on. -/
theorem pass_makes {input : Subquery} {wanted : List ColumnContent}
    (named : input.columns.AreNamed)
    (held : ∀ content ∈ wanted, input.columns.contains content = true) :
    Makes (pass input wanted) (· ∈ wanted) := by
  have each : ∀ content ∈ wanted, ∃ column, passed input content = .ok column ∧
      column = ⟨content, content.columnName⟩ := by
    intro content member
    obtain ⟨column, among, found, same⟩ := Columns.exists_get? (held content member)
    refine ⟨⟨content, column.name⟩, by rw [passed, found], ?_⟩
    rw [named column among, same]
  obtain ⟨columns, computed, same⟩ := exists_mapM_eq_ok each
  have columns : columns = wanted.map fun content => ⟨content, content.columnName⟩ :=
    (List.map_id _).symm.trans (map_eq_of_forall₂ same)
  rw [pass, computed]
  refine Selection.makes (named_keep fun column member => ?_) fun content => ?_
  · rw [columns] at member
    obtain ⟨content, _, rfl⟩ := List.mem_map.mp member
    rfl
  · simp only [exists_keep_iff, Columns.contains_iff, columns, List.mem_map,
      exists_exists_and_eq_and, exists_eq_right]

/-- Measures that are held can be aggregated by all items. -/
theorem aggregate_makes {input : Subquery} {measures : List AggregatedMeasure}
    (named : input.columns.AreNamed)
    (held : ∀ measure ∈ measures, input.columns.contains (.measure measure.measure) = true) :
    Makes (aggregate input measures) fun content =>
      (input.columns.contains content = true ∧ content.item?.isSome = true) ∨
        content ∈ measures.map fun measure => .measure measure.measure := by
  have each : ∀ measure ∈ measures, ∃ selected, aggregated input measure = .ok selected ∧
      selected.column =
        ⟨.measure measure.measure, (ColumnContent.measure measure.measure).columnName⟩ := by
    intro measure member
    obtain ⟨column, among, found, same⟩ := Columns.exists_get? (held measure member)
    refine ⟨_, by rw [aggregated, found], ?_⟩
    rw [named column among, same]
  obtain ⟨computed, done, same⟩ := exists_mapM_eq_ok each
  rw [aggregate, done]
  simp only [← contains_items]
  exact makes_added named.items (by rw [map_eq_of_forall₂ same, List.map_map]; rfl)

/-- The columns that a formula reads by what they hold; the SQL of a derived metric is not read. -/
def formulaReads : MetricFormula → List ColumnContent
  | .measure name => [.measure name]
  | .ratio numerator denominator => [.metric numerator, .metric denominator]
  | .derived _ => []

private theorem exists_metricExpr {input : Subquery} {formula : MetricFormula}
    (held : ∀ content ∈ formulaReads formula, input.columns.contains content = true) :
    ∃ expr, metricExpr input formula = .ok expr := by
  cases formula with
  | measure name => exact input.exists_columnFor (held _ List.mem_cons_self)
  | ratio numerator denominator =>
      have readsDividend : .metric numerator ∈ formulaReads (.ratio numerator denominator) := by
        simp [formulaReads]
      have readsDivisor : .metric denominator ∈ formulaReads (.ratio numerator denominator) := by
        simp [formulaReads]
      obtain ⟨dividend, first⟩ := input.exists_columnFor (held _ readsDividend)
      obtain ⟨divisor, second⟩ := input.exists_columnFor (held _ readsDivisor)
      exact ⟨_, by rw [metricExpr, first, second]; rfl⟩
  | derived expr => exact ⟨.raw expr, rfl⟩

/-- A metric can be computed from columns that are held. -/
theorem compute_makes {input : Subquery} {output : MetricOutput} {formula : MetricFormula}
    (named : input.columns.AreNamed)
    (held : ∀ content ∈ formulaReads formula, input.columns.contains content = true) :
    Makes (compute input output formula) fun content =>
      (input.columns.contains content = true ∧ content.item?.isSome = true) ∨
        content = .metric output := by
  obtain ⟨expr, found⟩ := exists_metricExpr held
  rw [compute, found]
  simp only [← contains_items, ← List.mem_singleton (b := ColumnContent.metric output)]
  exact makes_added named.items rfl

/-- Accumulating a column keeps what it is named and holds. -/
theorem column_accumulated (input : Subquery) (order : Expr) (parts : List Expr)
    (measures : List AggregatedMeasure) (column : Column) :
    (accumulated input order parts measures column).column = column := by
  unfold accumulated
  split
  · split <;> rfl
  · rfl

/-- Measures can be accumulated along items that are held. -/
theorem accumulate_makes {input : Subquery} {order : GroupByItem} {parts : List GroupByItem}
    {measures : List AggregatedMeasure} (named : input.columns.AreNamed)
    (ordered : input.columns.contains (.item order) = true)
    (parted : ∀ part ∈ parts, input.columns.contains (.item part) = true) :
    Makes (accumulate input order parts measures) (input.columns.contains · = true) := by
  obtain ⟨orderExpr, orderFound⟩ := input.exists_columnFor ordered
  obtain ⟨partExprs, partsFound⟩ := exists_mapM_of_forall fun part member =>
    input.exists_columnFor (parted part member)
  rw [accumulate, orderFound]
  change Makes (parts.mapM _ >>= _) _
  rw [partsFound]
  refine Selection.makes (fun selected member => ?_) fun content => ?_
  · obtain ⟨column, among, rfl⟩ := List.mem_map.mp member
    rw [column_accumulated]
    exact named column among
  · simp only [List.mem_map, exists_exists_and_eq_and, column_accumulated, Columns.contains_iff]

/-- Rows can be sorted by columns that are held. -/
theorem sort_makes {input : Subquery} {order : List OrderItem} {limit : Option Nat}
    (named : input.columns.AreNamed)
    (held : ∀ item ∈ order, input.columns.contains item.content = true) :
    Makes (sort input order limit) (input.columns.contains · = true) := by
  have each : ∀ item ∈ order, ∃ sorted, sortItem input item = .ok sorted := by
    intro item member
    obtain ⟨column, among, same⟩ := Columns.contains_iff.mp (held item member)
    have present : input.columns.any (·.name == item.content.columnName) = true :=
      List.any_eq_true.mpr ⟨column, among, by rw [named column among, same, beq_self_eq_true]⟩
    exact ⟨_, if_pos present⟩
  obtain ⟨items, computed⟩ := exists_mapM_of_forall each
  rw [sort, computed]
  exact Selection.makes (named_keep named) fun _ => exists_keep_iff

/-! ## Combining -/

/-- An item that every input holds has a first value. -/
theorem exists_firstValue {inputs : List Subquery} {item : Column}
    (held : ∀ input ∈ inputs, input.columns.contains item.content = true) :
    ∃ expr, firstValue inputs item = .ok expr := by
  have each : ∀ input ∈ inputs, ∃ expr, input.columnFor item.content = .ok expr :=
    fun input member => input.exists_columnFor (held input member)
  obtain ⟨exprs, computed⟩ := exists_mapM_of_forall each
  exact ⟨.firstOf exprs, by rw [firstValue, computed]; rfl⟩

private theorem exists_combineJoin {items : Columns} {before : List Subquery} {right : Subquery}
    (held : ∀ input ∈ right :: before, ∀ item ∈ items,
      input.columns.contains item.content = true) :
    ∃ join, combineJoin items before right = .ok join := by
  unfold combineJoin
  split
  · exact ⟨_, rfl⟩
  · have each : ∀ item ∈ items, ∃ equal, (do
        let left ← firstValue before item
        return Expr.binary .equal left (← right.columnFor item.content)) = .ok equal := by
      intro item member
      obtain ⟨left, leftFound⟩ := exists_firstValue fun input among =>
        held input (List.mem_cons_of_mem _ among) item member
      obtain ⟨key, keyFound⟩ := right.exists_columnFor
        (held right List.mem_cons_self item member)
      exact ⟨_, by rw [leftFound, keyFound]; rfl⟩
    obtain ⟨on, computed⟩ := exists_mapM_of_forall each
    rw [computed]
    exact ⟨_, rfl⟩

private theorem exists_combineJoins {items : Columns} {before rest : List Subquery}
    (held : ∀ input ∈ before ++ rest, ∀ item ∈ items,
      input.columns.contains item.content = true) :
    ∃ joins, combineJoins items before rest = .ok joins := by
  induction rest generalizing before with
  | nil => exact ⟨[], rfl⟩
  | cons right rest ih =>
      have heldHere : ∀ input ∈ right :: before, ∀ item ∈ items,
          input.columns.contains item.content = true := by
        intro input among
        apply held input
        rcases List.mem_cons.mp among with rfl | among
        · exact List.mem_append_right _ List.mem_cons_self
        · exact List.mem_append_left _ among
      have heldBehind : ∀ input ∈ (before ++ [right]) ++ rest, ∀ item ∈ items,
          input.columns.contains item.content = true := by
        intro input among
        rw [List.append_assoc] at among
        exact held input among
      obtain ⟨join, found⟩ := exists_combineJoin heldHere
      obtain ⟨joins, computed⟩ := ih heldBehind
      exact ⟨join :: joins, by rw [combineJoins, found, computed]; rfl⟩

/-- The metric columns of an input are kept as they are. -/
theorem mem_metricColumns {input : Subquery} {selected : Selected} :
    selected ∈ metricColumns input ↔ ∃ column ∈ input.columns,
      (∃ output, column.content = .metric output) ∧ kept input column = selected := by
  simp only [metricColumns, mem_keep, List.mem_filter, and_assoc]
  refine exists_congr fun column => and_congr_right fun _ => and_congr_left fun _ => ?_
  cases column.content <;> simp

section

variable {first : Subquery} {rest : List Subquery} {dataSet : DataSet}

/-- The first values have the item columns of the first input. -/
theorem columns_firstValues {all : List Subquery} {keys : List Selected}
    (computed : first.columns.items.mapM (fun item =>
      (firstValue all item).map (Selected.mk item)) = .ok keys) :
    keys.map Selected.column = first.columns.items := by
  rw [← List.map_id first.columns.items]
  refine map_eq_of_forall₂ ((mapM_eq_ok.mp computed).imp fun item selected made => ?_)
  obtain ⟨expr, _, rfl⟩ := map_eq_ok.mp made
  rfl

/-- Inputs that hold the items of the first can be combined. -/
theorem exists_combine (held : ∀ input ∈ first :: rest, ∀ item ∈ first.columns.items,
    input.columns.contains item.content = true) : ∃ dataSet, combine first rest = .ok dataSet := by
  obtain ⟨joins, joined⟩ := @exists_combineJoins first.columns.items [first] rest held
  have each : ∀ item ∈ first.columns.items, ∃ selected,
      (firstValue (first :: rest) item).map (Selected.mk item) = .ok selected := by
    intro item member
    obtain ⟨expr, found⟩ := exists_firstValue fun input among => held input among item member
    exact ⟨⟨item, expr⟩, by rw [found]; rfl⟩
  obtain ⟨keys, computed⟩ := exists_mapM_of_forall each
  exact ⟨_, bind_eq_ok.mpr ⟨joins, joined, bind_eq_ok.mpr ⟨keys, computed, rfl⟩⟩⟩

/-- Combining keeps columns named after their contents. -/
theorem combine_named (named : ∀ input ∈ first :: rest, input.columns.AreNamed)
    (ok : combine first rest = .ok dataSet) : dataSet.columns.AreNamed := by
  obtain ⟨joins, _, ok⟩ := bind_eq_ok.mp ok
  obtain ⟨keys, computed, ⟨⟩⟩ := bind_eq_ok.mp ok
  refine Selection.named_columns fun selected member => ?_
  rcases List.mem_append.mp member with key | metric
  · refine (named first List.mem_cons_self).items selected.column ?_
    exact columns_firstValues computed ▸ List.mem_map_of_mem key
  · obtain ⟨input, among, metric⟩ := List.mem_flatMap.mp metric
    obtain ⟨column, held, _, rfl⟩ := mem_metricColumns.mp metric
    exact named input among column held

/-- Outputs are brought together as the items of the first one and all metrics. -/
theorem contains_combine (ok : combine first rest = .ok dataSet) {content : ColumnContent} :
    dataSet.columns.contains content = true ↔
      (first.columns.contains content = true ∧ content.item?.isSome = true) ∨
        ∃ input ∈ first :: rest, input.columns.contains content = true ∧
          ∃ output, content = .metric output := by
  obtain ⟨joins, _, ok⟩ := bind_eq_ok.mp ok
  obtain ⟨keys, computed, ⟨⟩⟩ := bind_eq_ok.mp ok
  have held : (∃ selected ∈ keys, selected.column.content = content) ↔
      ∃ column ∈ keys.map Selected.column, column.content = content := by
    simp only [List.mem_map, exists_exists_and_eq_and]
  rw [Selection.dataSet, contains_ofList]
  simp only [List.mem_append, or_and_right, exists_or, held, columns_firstValues computed,
    ← Columns.contains_iff, contains_items]
  refine or_congr_right ?_
  simp only [List.mem_flatMap, mem_metricColumns]
  constructor
  · intro present
    obtain ⟨_, ⟨input, among, column, member, ⟨output, metric⟩, rfl⟩, rfl⟩ := present
    exact ⟨input, among, Columns.contains_iff.mpr ⟨column, member, rfl⟩, output, metric⟩
  · intro present
    obtain ⟨input, among, present, output, metric⟩ := present
    obtain ⟨column, member, rfl⟩ := Columns.contains_iff.mp present
    exact ⟨_, ⟨input, among, column, member, ⟨output, metric⟩, rfl⟩, rfl⟩

/-- Outputs that hold the items of the first one can be combined. -/
theorem combine_makes (named : ∀ input ∈ first :: rest, input.columns.AreNamed)
    (shared : ∀ input ∈ rest, ∀ item, first.columns.contains (.item item) = true →
      input.columns.contains (.item item) = true) :
    Makes (combine first rest) fun content =>
      (first.columns.contains content = true ∧ content.item?.isSome = true) ∨
        ∃ input ∈ first :: rest, input.columns.contains content = true ∧
          ∃ output, content = .metric output := by
  have held : ∀ input ∈ first :: rest, ∀ item ∈ first.columns.items,
      input.columns.contains item.content = true := by
    intro input among column member
    have present : first.columns.items.contains column.content = true :=
      Columns.contains_iff.mpr ⟨column, member, rfl⟩
    obtain ⟨inside, isItem⟩ := contains_items.mp present
    rcases List.mem_cons.mp among with rfl | among
    · exact inside
    · cases content : column.content with
      | item item =>
          rw [content] at inside
          exact shared input among item inside
      | _ => simp [content, ColumnContent.item?] at isItem
  obtain ⟨dataSet, ok⟩ := exists_combine held
  exact ⟨dataSet, ok, combine_named named ok, fun _ => contains_combine ok⟩

end

end MetricQuery.Sql
