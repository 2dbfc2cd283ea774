import MetricQuery.Proofs.Sql.Lexing

/-! # Tokens of statements

A generated statement has tokens, and those in quotes are the names, texts and grains that it asks
for, in order. What the names and texts are changes no other token, and moves none
(`Statement.tokens_of_isPlain`).
-/

namespace MetricQuery.Sql

/-! ## Expressions -/

namespace Expr

/-- Expressions are written one by one. -/
theorem texts_eq_map (exprs : List Expr) : texts exprs = exprs.map text := by
  induction exprs with
  | nil => rfl
  | cons expr rest ih => rw [texts, ih, List.map_cons]

/-- What is quoted in several expressions is what is quoted in each. -/
theorem quotedOf_eq_flatMap (exprs : List Expr) : quotedOf exprs = exprs.flatMap quoted := by
  induction exprs with
  | nil => rfl
  | cons expr rest ih => rw [quotedOf, ih, List.flatMap_cons]

private theorem emptiedAll_eq_map (exprs : List Expr) : emptiedAll exprs = exprs.map emptied := by
  induction exprs with
  | nil => rfl
  | cons expr rest ih => rw [emptiedAll, ih, List.map_cons]

/-- Emptied expressions are written one by one. -/
theorem texts_emptiedAll (exprs : List Expr) :
    texts (emptiedAll exprs) = exprs.map fun expr => expr.emptied.text := by
  rw [texts_eq_map, emptiedAll_eq_map, List.map_map]
  rfl

end Expr

namespace Spells

section

variable {α : Type} {members : List α} {text blank : α → String} {quoted : α → List Token}

/-- Members with commas between them spell what each spells. -/
theorem commaList
    (each : ∀ member ∈ members, Spells IsApart (text member) (blank member) (quoted member)) :
    Spells IsApart (Sql.commaList (members.map text)) (Sql.commaList (members.map blank))
      (members.flatMap quoted) :=
  intercalate _ (.closed _ rfl) (fun rest => isApart_cons (.inr (.inl rfl)) rest) each

/-- Conditions put together spell what each spells. -/
theorem conjunction
    (each : ∀ member ∈ members, Spells IsApart (text member) (blank member) (quoted member)) :
    Spells IsApart (Sql.conjunction (members.map text)) (Sql.conjunction (members.map blank))
      (members.flatMap quoted) :=
  intercalate _ (.closed _ rfl) (fun rest => isApart_cons (.inl rfl) rest) each

end

variable {text blank : String} {quoted : List Token}

/-- A call spells what its arguments spell. -/
theorem call {texts blanks : List String} (function : Function)
    (arguments : Spells IsApart (Sql.commaList texts) (Sql.commaList blanks) quoted) :
    Spells IsApart (function.text texts) (function.text blanks) quoted := by
  cases function with
  | coalesce => exact arguments.within _ _ rfl rfl rfl
  | nullIf => exact arguments.within _ _ rfl rfl rfl

/-- An aggregation spells what it aggregates. -/
theorem aggregation (spells : Spells IsApart text blank quoted) (aggregation : Aggregation) :
    Spells IsApart (aggregationText text aggregation) (aggregationText blank aggregation)
      quoted := by
  cases aggregation <;> exact spells.within _ _ rfl rfl rfl

private theorem windowFunction (spells : Spells IsApart text blank quoted)
    (function : WindowFunction) :
    SpellsAll (function.text text) (function.text blank) quoted := by
  cases function <;> exact spells.within _ _ rfl rfl rfl

/-- A grain in quotes, in front of the time that is truncated to it. -/
theorem truncate (spells : Spells IsApart text blank quoted) (grain : Grain) :
    Spells IsApart ("DATE_TRUNC('" ++ grain.name ++ "', " ++ text ++ ")")
      ("DATE_TRUNC('" ++ grain.name ++ "', " ++ blank ++ ")") (.text grain.name :: quoted) := by
  have opening : "DATE_TRUNC('" ++ grain.name ++ "', " =
      "DATE_TRUNC(" ++ Sql.textConstant grain.name ++ ", " := by
    cases grain <;> rfl
  have grainText : Spells IsApart (Sql.textConstant grain.name) (Sql.textConstant grain.name)
      [.text grain.name] := textConstant grain.name grain.name
  rw [opening]
  exact ((grainText.within "DATE_TRUNC(" ", " rfl rfl rfl).andThen spells).before ")" rfl rfl

/-- A time shift spells the time. -/
theorem shift (spells : Spells IsApart text blank quoted) (offset : OffsetWindow) :
    Spells IsApart
      ("(" ++ text ++ " + INTERVAL " ++ Text.decimal offset.count ++ " " ++
        offset.grain.name ++ ")")
      ("(" ++ blank ++ " + INTERVAL " ++ Text.decimal offset.count ++ " " ++
        offset.grain.name ++ ")")
      quoted := by
  have grain : Spells IsApart offset.grain.name offset.grain.name [] := by
    cases offset.grain <;> exact phrase rfl
  have front : SpellsAll _ _ _ := ((spells.within "(" " + INTERVAL " rfl rfl rfl).andThen
    (decimal offset.count)).before " " rfl rfl
  have whole : Spells IsApart _ _ _ := (front.andThen grain).before ")" rfl rfl
  rwa [List.append_nil, List.append_nil] at whole

/-- An operator spells its two sides. -/
theorem binary {otherText otherBlank : String} {others : List Token}
    (left : Spells IsApart text blank quoted) (operator : Operator)
    (right : Spells IsApart otherText otherBlank others) :
    Spells IsApart ("(" ++ text ++ " " ++ operator.text ++ " " ++ otherText ++ ")")
      ("(" ++ blank ++ " " ++ operator.text ++ " " ++ otherBlank ++ ")") (quoted ++ others) := by
  have between : Spells IsApart operator.text operator.text [] := by
    cases operator <;> exact phrase rfl
  have front : SpellsAll _ _ _ :=
    ((left.within "(" " " rfl rfl rfl).andThen between).before " " rfl rfl
  rw [List.append_nil] at front
  exact (front.andThen right).before ")" rfl rfl

/-- A window spells its parts and then its order. -/
theorem accumulation {α : Type} {parts order : List α} {text blank : α → String}
    {quoted : α → List Token}
    (parted : ∀ part ∈ parts, Spells IsApart (text part) (blank part) (quoted part))
    (ordered : ∀ key ∈ order, Spells IsApart (text key) (blank key) (quoted key)) :
    Spells IsApart (overText (parts.map text) (order.map text))
      (overText (parts.map blank) (order.map blank))
      (parts.flatMap quoted ++ order.flatMap quoted) := by
  have partition := (commaList parted).behind "PARTITION BY " rfl
  have rows : Spells IsApart "ROWS BETWEEN UNBOUNDED PRECEDING AND CURRENT ROW"
      "ROWS BETWEEN UNBOUNDED PRECEDING AND CURRENT ROW" [] := phrase rfl
  have sorting := (((commaList ordered).behind "ORDER BY " rfl).before " " rfl rfl).andThen rows
  rw [List.append_nil] at sorting
  simp only [overText, List.isEmpty_map]
  cases parts with
  | nil =>
      cases order with
      | nil =>
          have nothing : Spells IsApart (" ".intercalate []) (" ".intercalate []) [] := empty
          exact nothing.within _ _ rfl rfl rfl
      | cons key rest =>
          simp only [List.isEmpty_nil, if_true, List.isEmpty_cons, Bool.false_eq_true, if_false,
            List.nil_append, String.intercalate_cons_cons, String.intercalate_singleton]
          exact sorting.within _ _ rfl rfl rfl
  | cons part rest =>
      cases order with
      | nil =>
          simp only [List.isEmpty_nil, if_true, List.isEmpty_cons, Bool.false_eq_true, if_false,
            List.append_nil, String.intercalate_singleton, List.flatMap_nil]
          exact partition.within _ _ rfl rfl rfl
      | cons key others =>
          simp only [List.isEmpty_cons, Bool.false_eq_true, if_false, List.cons_append,
            List.nil_append, String.intercalate_cons_cons, String.intercalate_singleton]
          exact ((partition.before " " rfl rfl).andThen sorting).within _ _ rfl rfl rfl

end Spells

mutual

/-- An expression that is generated is read as tokens, of which those in quotes are what it asks
for, and its names and texts make no difference to the others. -/
theorem Expr.spells : (expr : Expr) → expr.isPlain = true →
    Spells IsApart expr.text expr.emptied.text expr.quoted
  | .column none name, _ => by
    rw [text, emptied, quoted, Option.map_none, text]
    exact .identifier_apart name ""
  | .column (some table) name, _ => by
    rw [text, emptied, quoted, Option.map_some, text]
    have point : SpellsAll (identifier table ++ ".") (identifier "" ++ ".") _ :=
      (Spells.identifier table "").append (.closed _ rfl) fun rest _ => by simp
    exact point.andThen (.identifier_apart name "")
  | .literal .null, _ => .phrase rfl
  | .literal (.bool flag), _ => by cases flag <;> exact .phrase rfl
  | .literal (.number number), _ => .numberText number
  | .literal (.text text), _ => .textConstant text ""
  | .call function arguments, plain => by
    rw [text, emptied, quoted, text, texts_eq_map, texts_emptiedAll, quotedOf_eq_flatMap]
    exact Spells.call function (.commaList (Expr.spellsAll arguments plain))
  | .cast expr type, plain => by
    rw [text, emptied, quoted, text]
    obtain ⟨inside, words⟩ := Bool.and_eq_true_iff.mp plain
    have front : SpellsAll _ _ _ := (expr.spells inside).within "CAST(" " AS " rfl rfl rfl
    have whole : Spells IsApart _ _ _ := (front.andThen (.plainType words)).before ")" rfl rfl
    rwa [List.append_nil] at whole
  | .binary operator left right, plain => by
    rw [text, emptied, quoted, text]
    obtain ⟨first, second⟩ := Bool.and_eq_true_iff.mp plain
    exact (left.spells first).binary operator (right.spells second)
  | .aggregate aggregation expr, plain => by
    rw [text, emptied, quoted, text]
    exact (expr.spells plain).aggregation aggregation
  | .truncate grain expr, plain => by
    rw [text, emptied, quoted, text]
    exact (expr.spells plain).truncate grain
  | .extract part expr, plain => by
    rw [text, emptied, quoted, text]
    have opening : isClosedPhrase ("EXTRACT(" ++ extractField part ++ " FROM ") = true := by
      cases part <;> rfl
    exact (expr.spells plain).within _ _ opening rfl rfl
  | .shift expr offset, plain => by
    rw [text, emptied, quoted, text]
    exact (expr.spells plain).shift offset
  | .window function expr parts order, plain => by
    rw [text, emptied, quoted, text, texts_eq_map, texts_eq_map, texts_emptiedAll,
      texts_emptiedAll, quotedOf_eq_flatMap, quotedOf_eq_flatMap]
    obtain ⟨front, ordered⟩ := Bool.and_eq_true_iff.mp plain
    obtain ⟨inside, parted⟩ := Bool.and_eq_true_iff.mp front
    have called := (expr.spells inside).windowFunction function
    have spaced := called.andThen (.closed " " rfl)
    have whole := spaced.andThen
      (.accumulation (Expr.spellsAll parts parted) (Expr.spellsAll order ordered))
    rwa [List.append_nil, ← List.append_assoc] at whole

/-- Plain expressions spell what they quote. -/
theorem Expr.spellsAll : (exprs : List Expr) → Expr.arePlain exprs = true →
    ∀ expr ∈ exprs, Spells IsApart expr.text expr.emptied.text expr.quoted
  | [], _ => nofun
  | expr :: rest, plain => by
    obtain ⟨first, others⟩ := Bool.and_eq_true_iff.mp plain
    exact List.forall_mem_cons.mpr ⟨expr.spells first, Expr.spellsAll rest others⟩

end

/-! ## What stands behind a part -/

/-- What spells tokens and keeps them apart from the part in front, or is left out. -/
structure SpellsBehind (text blank : String) (quoted : List Token) : Prop where
  spells : Spells IsApart text blank quoted
  apart : ∀ rest, IsApart rest →
    IsApart (text.toList ++ rest) ∧ IsApart (blank.toList ++ rest)

namespace SpellsBehind

variable {text blank other otherBlank : String} {quoted others : List Token}

/-- Nothing may stand behind a part. -/
theorem empty : SpellsBehind "" "" [] := ⟨.empty, fun _ apart => ⟨apart, apart⟩⟩

/-- A phrase that begins and ends apart keeps what follows apart from the part in front. -/
theorem ofPhrase (spells : Spells IsApart text blank quoted) (phrase : String)
    (begins : beginsApart phrase = true) (isClosed : isClosedPhrase phrase = true) :
    SpellsBehind (phrase ++ text) (phrase ++ blank) quoted := by
  refine ⟨spells.behind phrase isClosed, fun rest _ => ?_⟩
  rw [String.toList_append, String.toList_append, List.append_assoc, List.append_assoc]
  exact ⟨isApart_of_beginsApart begins _, isApart_of_beginsApart begins _⟩

/-- What stands behind a part is spelled after it. -/
theorem afterPart (behind : SpellsBehind other otherBlank others)
    (part : Spells IsApart text blank quoted) :
    Spells IsApart (text ++ other) (blank ++ otherBlank) (quoted ++ others) :=
  part.append behind.spells behind.apart

/-- Two such texts may stand behind a part together. -/
theorem append (first : SpellsBehind text blank quoted)
    (second : SpellsBehind other otherBlank others) :
    SpellsBehind (text ++ other) (blank ++ otherBlank) (quoted ++ others) := by
  refine ⟨second.afterPart first.spells, fun rest apart => ?_⟩
  obtain ⟨here, blank⟩ := second.apart rest apart
  rw [String.toList_append, String.toList_append, List.append_assoc, List.append_assoc]
  exact ⟨(first.apart _ here).1, (first.apart _ blank).2⟩

/-- A clause spells its members, and is left out without any. -/
theorem clause {α : Type} {keyword : String} {render : List String → String} (members : List α)
    {text blank : α → String} {quoted : α → List Token}
    (isClosed : isClosedPhrase (" " ++ keyword ++ " ") = true)
    (inside : Spells IsApart (render (members.map text)) (render (members.map blank))
      (members.flatMap quoted)) :
    SpellsBehind (Sql.clause keyword render (members.map text))
      (Sql.clause keyword render (members.map blank)) (members.flatMap quoted) := by
  simp only [Sql.clause, List.isEmpty_map]
  cases members with
  | nil => exact empty
  | cons member rest =>
      have begins : beginsApart (" " ++ keyword ++ " ") = true := by simp [beginsApart]
      exact ofPhrase inside _ begins isClosed

end SpellsBehind

/-! ## Selects -/

/-- A plain item of a select spells its expression and its name. -/
theorem SelectItem.spells (item : SelectItem) (plain : item.expr.isPlain = true) :
    Spells IsApart item.text item.emptied.text item.quoted := by
  obtain ⟨expr, columnName⟩ := item
  have computed := expr.spells plain
  cases columnName with
  | none =>
      rw [quoted, Option.toList_none, List.map_nil, List.append_nil]
      exact computed
  | some name =>
      exact (computed.before " AS " rfl rfl).andThen (.identifier_apart name "")

/-- A plain sort key spells its expression. -/
theorem SortItem.spells (item : SortItem) (plain : item.expr.isPlain = true) :
    Spells IsApart item.text item.emptied.text item.expr.quoted := by
  obtain ⟨expr, descending⟩ := item
  cases descending with
  | true => exact (expr.spells plain).beforeWord " DESC" rfl rfl
  | false => exact (expr.spells plain).beforeWord " ASC" rfl rfl

/-- Whether a source is read as tokens, of which those in quotes are what it asks for. -/
def Relation.SpellsSource (source : Relation) : Prop :=
  Spells IsApart (sourceText source) (sourceText source.emptied) source.quoted

/-- A table spells its source and its name. -/
theorem TableRef.spells {table : TableRef Relation} (source : table.source.SpellsSource) :
    Spells IsApart (tableRefText table)
      (tableRefText (TableRef.emptied ⟨table.source.emptied, table.name⟩))
      (TableRef.quoted ⟨table.source.quoted, table.name⟩) := by
  obtain ⟨relation, name⟩ := table
  unfold Relation.SpellsSource at source
  cases name with
  | none =>
      rw [quoted, Option.toList_none, List.map_nil, List.append_nil]
      simpa [tableRefText, emptied] using source
  | some name =>
      simp only [tableRefText, emptied, Option.map_some]
      exact (source.before " " rfl rfl).andThen (.identifier_apart name "")

/-- A plain join spells its table and then its conditions. -/
theorem Join.spells {join : Join Relation} (source : join.table.source.SpellsSource)
    (plain : ∀ condition ∈ join.on, condition.isPlain = true) :
    SpellsBehind (joinText join)
      (joinText (Join.emptied ⟨join.kind, ⟨join.table.source.emptied, join.table.name⟩, join.on⟩))
      (Join.quoted ⟨join.kind, ⟨join.table.source.quoted, join.table.name⟩, join.on⟩) := by
  obtain ⟨kind, table, on⟩ := join
  have begins : beginsApart (" " ++ kind.text ++ " ") = true ∧
      isClosedPhrase (" " ++ kind.text ++ " ") = true := by
    cases kind <;> exact ⟨rfl, rfl⟩
  have conditions : SpellsBehind (clause "ON" conjunction (on.map Expr.text))
      (clause "ON" conjunction (on.map fun condition => condition.emptied.text))
      (on.flatMap Expr.quoted) :=
    .clause _ rfl (.conjunction fun condition member => condition.spells (plain condition member))
  have joined := SpellsBehind.ofPhrase (TableRef.spells source) _ begins.1 begins.2
  have whole := joined.append conditions
  simpa [joinText, emptied, quoted, Function.comp_def] using whole

/-- The tables that are joined, one behind the other. -/
theorem spells_joins (joins : List (Join Relation))
    (sources : ∀ join ∈ joins, join.table.source.SpellsSource)
    (plain : ∀ join ∈ joins, ∀ condition ∈ join.on, condition.isPlain = true) :
    SpellsBehind (joinsText joins)
      (joinsText (joins.map fun join =>
        Join.emptied ⟨join.kind, ⟨join.table.source.emptied, join.table.name⟩, join.on⟩))
      (joins.flatMap fun join =>
        Join.quoted ⟨join.kind, ⟨join.table.source.quoted, join.table.name⟩, join.on⟩) := by
  induction joins with
  | nil => exact .empty
  | cons join rest ih =>
      obtain ⟨source, others⟩ := List.forall_mem_cons.mp sources
      obtain ⟨conditions, further⟩ := List.forall_mem_cons.mp plain
      rw [joinsText, List.map_cons, joinsText, List.flatMap_cons]
      exact (Join.spells source conditions).append (ih others further)

/-- A select spells what it asks for if its sources do. -/
theorem Select.spells {statement : Select Relation}
    (plain : ∀ expr ∈ statement.exprs, expr.isPlain = true)
    (sources : ∀ source ∈ statement.sources, source.SpellsSource) :
    Spells IsApart (selectText statement)
      (selectText (statement.mapSources Relation.emptied).emptied)
      (statement.mapSources Relation.quoted).quoted := by
  obtain ⟨items, source, joins, filters, groupBy, orderBy, limit⟩ := statement
  simp only [exprs, clauses, List.mem_append, List.mem_map, List.mem_flatMap] at plain
  simp only [Select.sources, tables, List.mem_map, List.mem_cons] at sources
  have selected := Spells.commaList fun item (member : item ∈ items) =>
    item.spells (plain _ (.inl ⟨item, member, rfl⟩))
  have first : source.source.SpellsSource := sources _ ⟨source, .inl rfl, rfl⟩
  have joined := spells_joins joins
    (fun join member => sources _ ⟨join.table, .inr ⟨join, member, rfl⟩, rfl⟩)
    fun join member condition among =>
      plain condition (.inr (.inl (.inl (.inl ⟨join, member, among⟩))))
  have filtered : SpellsBehind (clause "WHERE" conjunction (filters.map Expr.text)) _ _ :=
    .clause _ rfl (.conjunction fun condition member =>
      condition.spells (plain condition (.inr (.inl (.inl (.inr member))))))
  have grouped : SpellsBehind (clause "GROUP BY" commaList (groupBy.map Expr.text)) _ _ :=
    .clause _ rfl (.commaList fun expr member =>
      expr.spells (plain expr (.inr (.inl (.inr member)))))
  have ordered : SpellsBehind (clause "ORDER BY" commaList (orderBy.map SortItem.text)) _ _ :=
    .clause _ rfl (.commaList fun item member =>
      item.spells (plain item.expr (.inr (.inr ⟨item, member, rfl⟩))))
  have limited : SpellsBehind (clause "LIMIT" commaList (limit.map Text.decimal).toList)
      (clause "LIMIT" commaList (limit.map Text.decimal).toList) [] := by
    cases limit with
    | none => exact .empty
    | some rows =>
        exact .clause [rows] rfl (.commaList fun rows _ => .decimal rows)
  have front : SpellsAll _ _ _ := selected.within "SELECT " " FROM " rfl rfl rfl
  have whole := limited.afterPart (ordered.afterPart (grouped.afterPart (filtered.afterPart
    (joined.afterPart (front.andThen (TableRef.spells first))))))
  simp only [selectText, emptied, quoted, mapSources, List.map_map, List.flatMap_map,
    Function.comp_def, List.append_nil, List.append_assoc] at whole ⊢
  exact whole

/-! ## Relations -/

namespace Relation

/-- A select is plain when its expressions and its sources are. -/
theorem isPlain_select {statement : Select Relation} :
    (select statement).isPlain = true ↔ (∀ expr ∈ statement.exprs, expr.isPlain = true) ∧
      ∀ source ∈ statement.sources, source.isPlain = true := by
  have exprs : (statement.mapSources isPlain).exprs = statement.exprs := by
    simp only [Select.exprs, Select.clauses, Select.mapSources, List.flatMap_map]
  have plain : (select statement).isPlain =
      (statement.exprs.all Expr.isPlain && (statement.sources.map isPlain).all id) := by
    rw [isPlain, fold_select, ← exprs, ← Select.sources_mapSources]
    rfl
  simp [plain]

/-- A select is emptied in its sources and in itself. -/
theorem emptied_select (statement : Select Relation) :
    (select statement).emptied = select (statement.mapSources emptied).emptied :=
  rebuild_select statement

/-- What is quoted in a select is what is quoted in its sources and in itself. -/
theorem quoted_select (statement : Select Relation) :
    (select statement).quoted = (statement.mapSources quoted).quoted := fold_select ..

private theorem spellsSource (relation : Relation) (plain : relation.isPlain = true) :
    relation.SpellsSource := by
  unfold SpellsSource
  induction relation using inductionOn with
  | table name =>
      rw [emptied, rebuild_table, quoted, fold_table, sourceText, sourceText]
      exact .tableName name
  | select statement ih =>
      obtain ⟨exprs, sources⟩ := isPlain_select.mp plain
      rw [emptied_select, quoted_select, sourceText, sourceText]
      exact (Select.spells exprs fun source member =>
        ih source member (sources source member)).within _ _ rfl rfl rfl

/-- A plain relation spells what it quotes. -/
theorem spells (relation : Relation) (plain : relation.isPlain = true) :
    Spells IsApart relation.text relation.emptied.text relation.quoted := by
  cases relation with
  | table name =>
      rw [emptied, rebuild_table, quoted, fold_table, text, text]
      exact (Spells.tableName name).behind _ rfl
  | select statement =>
      obtain ⟨exprs, sources⟩ := isPlain_select.mp plain
      rw [emptied_select, quoted_select]
      exact Select.spells exprs fun source member => source.spellsSource (sources source member)

end Relation

/-! ## Statements -/

/-- A plain common table expression spells its name and its body. -/
theorem Cte.spells (cte : Cte) (plain : cte.body.isPlain = true) :
    Spells IsApart cte.text cte.emptied.text cte.quoted := by
  have named : SpellsAll _ _ _ := (Spells.identifier_apart cte.name "").before " AS (" rfl rfl
  exact (named.andThen (cte.body.spells plain)).before ")" rfl rfl

namespace Statement

/-- A plain statement spells what it quotes. -/
theorem spells {statement : Statement} (plain : statement.isPlain = true) :
    Spells IsApart statement.text statement.emptied.text statement.quoted := by
  obtain ⟨ctes, root⟩ := statement
  have each : (∀ cte ∈ ctes, cte.body.isPlain = true) ∧ root.isPlain = true := by
    simpa [isPlain, relations] using plain
  have result := root.spells each.2
  unfold text
  cases ctes with
  | nil => exact result
  | cons cte rest =>
      have bodies := Spells.commaList fun body (member : body ∈ cte :: rest) =>
        body.spells (each.1 body member)
      have front : SpellsAll _ _ _ := bodies.within "WITH " " " rfl rfl rfl
      have whole := front.andThen result
      simpa [emptied, quoted, Function.comp_def] using whole

/-- A generated statement has tokens. Those in quotes are exactly what it asks for, in order: names
of columns and tables, parts of the names of tables, texts, and the grains that times are truncated
to. All other tokens and the places of all tokens are the same for every statement that differs in
its names and texts alone. -/
theorem tokens_of_isPlain {statement : Statement} (plain : statement.isPlain = true) :
    ∃ tokens, tokensOf statement.text = some tokens ∧
      tokens.filter Token.isQuoted = statement.quoted ∧
      ∀ other : Statement, other.isPlain = true → other.emptied = statement.emptied →
        ∃ others, tokensOf other.text = some others ∧
          others.map Token.emptied = tokens.map Token.emptied := by
  obtain ⟨tokens, blanks, reads, readsBlank, quoted, same⟩ := spells plain
  refine ⟨tokens, reads.tokensOf, quoted, fun other otherPlain sameForm => ?_⟩
  obtain ⟨others, otherBlanks, readsOther, readsOtherBlank, _, otherSame⟩ := spells otherPlain
  -- both statements have the same form without names and texts, so that form links their tokens
  rw [sameForm] at readsOtherBlank
  obtain rfl := Option.some.inj (readsBlank.tokensOf.symm.trans readsOtherBlank.tokensOf)
  exact ⟨others, readsOther.tokensOf, otherSame.symm.trans same⟩

/-- The rows of a table whose values in a column are a text. -/
def matching (column text : String) : Statement where
  ctes := []
  root := .select
    { Select.plain [⟨.column none column, some column⟩] ⟨.table "main.visits", none⟩ with
      filters := [.binary .equal (.column none column) (.literal (.text text))] }

/-- Quotes in a name and in a text stay within their tokens. -/
theorem tokens_of_isPlain_matching :
    (matching "said \"hi\"" "it's -- 1").isPlain = true ∧ (matching "id" "").isPlain = true ∧
      (matching "id" "").emptied = (matching "said \"hi\"" "it's -- 1").emptied ∧
      ∃ tokens others, tokensOf (matching "said \"hi\"" "it's -- 1").text = some tokens ∧
        tokensOf (matching "id" "").text = some others ∧
        tokens.filter Token.isQuoted =
          [.identifier "said \"hi\"", .identifier "said \"hi\"", .identifier "main",
            .identifier "visits", .identifier "said \"hi\"", .text "it's -- 1"] ∧
        others.map Token.emptied = tokens.map Token.emptied := by
  have plain : (matching "said \"hi\"" "it's -- 1").isPlain = true := by decide +kernel
  have otherPlain : (matching "id" "").isPlain = true := by decide +kernel
  have sameForm : (matching "id" "").emptied =
      (matching "said \"hi\"" "it's -- 1").emptied := rfl
  have asked : (matching "said \"hi\"" "it's -- 1").quoted =
      [.identifier "said \"hi\"", .identifier "said \"hi\"", .identifier "main",
        .identifier "visits", .identifier "said \"hi\"", .text "it's -- 1"] := by
    decide +kernel
  obtain ⟨tokens, read, quoted, links⟩ := tokens_of_isPlain plain
  obtain ⟨others, readOther, same⟩ := links _ otherPlain sameForm
  exact ⟨plain, otherPlain, sameForm, tokens, others, read, readOther, quoted.trans asked, same⟩

/-- The days of times in a column. -/
def days : Statement where
  ctes := []
  root := .select (.plain [⟨.truncate .day (.column none "ds"), none⟩] ⟨.table "visits", none⟩)

/-- Not only names and texts stand in quotes: the grain of a truncation does as well. -/
theorem not_only_names_quoted :
    days.isPlain = true ∧
      tokensOf days.text = some [.word "SELECT", .word "DATE_TRUNC", .symbol '(', .text "day",
        .symbol ',', .identifier "ds", .symbol ')', .word "FROM", .identifier "visits"] ∧
      (tokensOf days.text).map (List.filter Token.isQuoted) ≠
        some [.identifier "ds", .identifier "visits"] := by
  decide +kernel

end Statement

end MetricQuery.Sql
