import MetricQuery.Proofs.Catalog
import MetricQuery.Proofs.Sql.Converting

/-! # What steps carry over

A data set holds nothing twice (`Sql.Converts.nodup_contents`), and what it holds has been carried
over from what flows into its last step, or that step has added it (`Sql.MayHold`).
-/

namespace MetricQuery

/-- Whether a step gives nothing but columns of what flows into it. -/
def Step.narrows : Step → Bool
  | .constrain _ => true
  | .pass _ => true
  | .aggregate _ => true
  | .accumulate _ _ _ => true
  | .sort _ _ => true
  | _ => false

private theorem Step.takesOne_of_narrows {step : Step} (narrows : step.narrows = true) :
    step.takesOne = true := by
  cases step <;> first | rfl | cases narrows

namespace Sql

/-! ## Single steps -/

/-- A selection holds each content once. -/
theorem Selection.nodup_contents (columns : List Selected) :
    ((ofList columns).columns.map Column.content).Nodup := by
  rw [Selection.columns, List.map_map]
  exact nodup_ofList columns

section

variable {input : Subquery} {dataSet : DataSet} {content : ColumnContent}

/-- A content that is found is contained. -/
theorem contains_of_get? {column : Column} (found : input.columns.get? content = some column) :
    input.columns.contains content = true := by
  obtain ⟨member, same⟩ := Columns.of_get? found
  exact Columns.contains_iff.mpr ⟨column, member, same⟩

private theorem contains_of_columnFor {expr : Expr} (ok : input.columnFor content = .ok expr) :
    input.columns.contains content = true := by
  obtain ⟨column, found, _⟩ := Subquery.columnFor_eq_ok.mp ok
  exact contains_of_get? found

private theorem contains_of_ofStep {step : Step} (narrows : step.narrows = true)
    (ok : Lower.ofStep input step = .ok dataSet)
    (held : dataSet.columns.contains content = true) : input.columns.contains content = true := by
  have kept : (Selection.ofList (Selection.keepAll input)).columns.contains content = true →
      input.columns.contains content = true := fun held =>
    Selection.exists_keep_iff.mp (Selection.contains_ofList.mp held)
  cases step with
  | constrain condition =>
      obtain ⟨⟩ := ok
      exact kept held
  | pass contents =>
      obtain ⟨columns, computed, ⟨⟩⟩ := bind_eq_ok.mp ok
      obtain ⟨selected, member, rfl⟩ := Selection.contains_ofList.mp held
      obtain ⟨column, among, rfl⟩ := Selection.mem_keep.mp member
      obtain ⟨wanted, _, done⟩ := exists_of_mapM_eq_ok computed column among
      obtain ⟨source, found, rfl⟩ := passed_eq_ok.mp done
      exact contains_of_get? found
  | aggregate measures =>
      obtain ⟨computed, done, ⟨⟩⟩ := bind_eq_ok.mp ok
      obtain ⟨selected, member, rfl⟩ := Selection.contains_ofList.mp held
      rcases List.mem_append.mp member with item | measure
      · exact (contains_items.mp (Selection.exists_keep_iff.mp ⟨selected, item, rfl⟩)).1
      · obtain ⟨wanted, _, made⟩ := exists_of_mapM_eq_ok done selected measure
        obtain ⟨column, found, rfl⟩ := aggregated_eq_ok.mp made
        exact contains_of_get? found
  | accumulate order parts measures =>
      obtain ⟨orderExpr, _, ok⟩ := bind_eq_ok.mp ok
      obtain ⟨partExprs, _, ⟨⟩⟩ := bind_eq_ok.mp ok
      obtain ⟨selected, member, rfl⟩ := Selection.contains_ofList.mp held
      obtain ⟨column, among, rfl⟩ := List.mem_map.mp member
      rw [column_accumulated]
      exact Columns.contains_iff.mpr ⟨column, among, rfl⟩
  | sort order limit =>
      obtain ⟨orderBy, _, ⟨⟩⟩ := bind_eq_ok.mp ok
      exact kept held
  | _ => cases narrows

/-- What is passed on is among what is asked for. -/
theorem mem_of_pass {contents : List ColumnContent} (ok : pass input contents = .ok dataSet)
    (held : dataSet.columns.contains content = true) : content ∈ contents := by
  obtain ⟨columns, computed, ⟨⟩⟩ := bind_eq_ok.mp ok
  obtain ⟨selected, member, rfl⟩ := Selection.contains_ofList.mp held
  obtain ⟨column, among, rfl⟩ := Selection.mem_keep.mp member
  obtain ⟨wanted, asked, done⟩ := exists_of_mapM_eq_ok computed column among
  obtain ⟨source, _, rfl⟩ := passed_eq_ok.mp done
  exact asked

private theorem contains_of_compute {output : MetricOutput} {formula : MetricFormula}
    (ok : compute input output formula = .ok dataSet)
    (held : dataSet.columns.contains content = true) :
    (input.columns.contains content = true ∧ content.item?.isSome = true) ∨
      content = .metric output := by
  obtain ⟨expr, _, ⟨⟩⟩ := bind_eq_ok.mp ok
  obtain ⟨selected, member, rfl⟩ := Selection.contains_ofList.mp held
  rcases List.mem_append.mp member with item | metric
  · exact .inl (contains_items.mp (Selection.exists_keep_iff.mp ⟨selected, item, rfl⟩))
  · rw [List.mem_singleton.mp metric]
    exact .inr rfl

private theorem contains_of_addMetricTime {dimension : String} {stored : Grain}
    {offset : Option OffsetWindow} (ok : addMetricTime input dimension stored offset = .ok dataSet)
    (held : dataSet.columns.contains content = true) :
    input.columns.contains content = true ∨ ∃ grain part, stored.Offers grain part ∧
      content = .item (.timeDimension metricTimeName [] grain part) := by
  obtain ⟨time, _, ok⟩ := bind_eq_ok.mp ok
  have added : ∀ added : List Selected, (∀ selected ∈ added, ∃ source, ∃ column ∈
        timeColumns stored source, selected.column.content = column.content metricTimeName []) →
      (Selection.ofList (Selection.keepAll input ++ added)).columns.contains content = true →
      input.columns.contains content = true ∨ ∃ grain part, stored.Offers grain part ∧
        content = .item (.timeDimension metricTimeName [] grain part) := by
    intro added computed held
    obtain ⟨selected, member, rfl⟩ := Selection.contains_ofList.mp held
    rcases List.mem_append.mp member with kept | new
    · exact .inl (Selection.exists_keep_iff.mp ⟨selected, kept, rfl⟩)
    · obtain ⟨source, column, among, same⟩ := computed selected new
      exact .inr (exists_timeColumns_iff.mp ⟨column, among, same.symm⟩)
  cases offset with
  | some window =>
      obtain ⟨⟩ := ok
      refine added _ (fun selected member => ?_) held
      obtain ⟨column, among, rfl⟩ := List.mem_map.mp member
      exact ⟨_, column, among, rfl⟩
  | none =>
      obtain ⟨columns, computed, ⟨⟩⟩ := bind_eq_ok.mp ok
      refine added _ (fun selected member => ?_) held
      obtain ⟨column, among, found⟩ := exists_of_mapM_eq_ok computed selected member
      obtain ⟨expr, _, rfl⟩ := map_eq_ok.mp found
      exact ⟨_, column, among, rfl⟩

private theorem contains_of_joinAll {left : Subquery} {joined : List Joined}
    (held : (joinAll left joined).columns.contains content = true) :
    left.columns.contains content = true ∨ ∃ part ∈ joined, ∃ inner,
      part.right.columns.contains inner = true ∧ seenThrough part.entity inner = some content := by
  obtain ⟨selected, member, rfl⟩ := Selection.contains_ofList.mp held
  rcases List.mem_append.mp member with kept | added
  · exact .inl (Selection.exists_keep_iff.mp ⟨selected, kept, rfl⟩)
  · obtain ⟨part, among, inside⟩ := List.mem_flatMap.mp added
    exact .inr ⟨part, among, exists_joinedColumns_iff.mp ⟨selected, inside, rfl⟩⟩

end

/-! ## Whole plans -/

/-- Whether a data set that a plan converts to holds something. -/
def MayHold (catalog : Catalog) (plan : Dataflow) (content : ColumnContent) : Prop :=
  ∃ dataSet, Converts catalog plan dataSet ∧ dataSet.columns.contains content = true

section

variable {catalog : Catalog} {plan : Dataflow} {content : ColumnContent}

namespace MayHold

/-- The result holds nothing new. -/
theorem of_result (held : MayHold catalog (plan.andThen .result) content) :
    MayHold catalog plan content := by
  obtain ⟨dataSet, converts, held⟩ := held
  exact ⟨dataSet, converts.of_result, held⟩

/-- A step that narrows holds nothing new. -/
theorem of_narrows {step : Step} (narrows : step.narrows = true)
    (held : MayHold catalog (plan.andThen step) content) : MayHold catalog plan content := by
  obtain ⟨dataSet, converts, held⟩ := held
  obtain ⟨input, converts, ok⟩ := converts.of_andThen (Step.takesOne_of_narrows narrows)
  exact ⟨_, converts, contains_of_ofStep narrows ok held⟩

/-- Passing on holds what is named alone. -/
theorem mem_of_pass {contents : List ColumnContent}
    (held : MayHold catalog (plan.andThen (.pass contents)) content) : content ∈ contents := by
  obtain ⟨dataSet, converts, held⟩ := held
  obtain ⟨input, _, ok⟩ := converts.of_andThen rfl
  exact Sql.mem_of_pass ok held

/-- Computing a metric holds the items below it and the metric. -/
theorem of_compute {output : MetricOutput} {formula : MetricFormula}
    (held : MayHold catalog (plan.andThen (.compute output formula)) content) :
    (MayHold catalog plan content ∧ content.item?.isSome = true) ∨ content = .metric output := by
  obtain ⟨dataSet, converts, held⟩ := held
  obtain ⟨input, converts, ok⟩ := converts.of_andThen rfl
  exact (contains_of_compute ok held).imp_left fun kept => ⟨⟨_, converts, kept.1⟩, kept.2⟩

/-- Adding metric time holds what was held and the metric times at the grains offered. -/
theorem of_addMetricTime {dimension : String} {stored : Grain} {offset : Option OffsetWindow}
    (held : MayHold catalog (plan.andThen (.addMetricTime dimension stored offset)) content) :
    MayHold catalog plan content ∨ ∃ grain part, stored.Offers grain part ∧
      content = .item (.timeDimension metricTimeName [] grain part) := by
  obtain ⟨dataSet, converts, held⟩ := held
  obtain ⟨input, converts, ok⟩ := converts.of_andThen rfl
  exact (contains_of_addMetricTime ok held).imp_left fun kept => ⟨_, converts, kept⟩

/-- A model that is joined to nothing else holds what it offers. -/
theorem of_readModel {model : SemanticModel}
    (distinct : (catalog.manifest.models.map SemanticModel.name).Nodup)
    (known : model ∈ catalog.manifest.models)
    (held : MayHold catalog (Dataflow.readModel model) content) : modelContents model content := by
  obtain ⟨dataSet, converts, held⟩ := held
  cases converts with
  | @read _ other found =>
      obtain rfl := Option.some.inj (found.symm.trans (Catalog.model?_of_mem distinct known))
      exact exists_modelColumns_iff.mp (Selection.contains_ofList.mp held)
  | assembled reads => exact (reads _ rfl).elim

/-- A join holds what was held and what is seen through the entities of its inputs. -/
theorem of_joinTo {inputs : List Dataflow.JoinedInput}
    (held : MayHold catalog (Dataflow.joinTo plan inputs) content) :
    MayHold catalog plan content ∨ ∃ input ∈ inputs,
      MayHold catalog plan (.ownEntity input.entity) ∧ ∃ inner,
        MayHold catalog input.plan inner ∧ seenThrough input.entity inner = some content := by
  unfold Dataflow.joinTo at held
  split at held
  · exact .inl held
  · obtain ⟨dataSet, converts, held⟩ := held
    obtain ⟨source, first, isJoin⟩ := converts.exists_isJoinOf
    cases isJoin with
    | @intro left rights joined same later _ ok =>
        subst same
        refine (contains_of_joinAll held).imp (fun held => ⟨_, first, held⟩) ?_
        rintro ⟨part, among, inner, holds, seen⟩
        obtain ⟨pair, zipped, made⟩ := exists_of_mapM_eq_ok ok part among
        obtain ⟨join, found, rfl⟩ := map_eq_ok.mp made
        obtain ⟨leftKey, isLeft, _⟩ := bind_eq_ok.mp found
        rw [List.forall₂_map_left_iff] at later
        obtain ⟨input, isInput, entity, converts⟩ := exists_left_of_forall₂
          (forall₂_zip_map Dataflow.JoinedInput.entity later) zipped
        rw [entity] at isLeft seen
        exact ⟨input, isInput, ⟨_, first, contains_of_columnFor isLeft⟩, inner,
          ⟨_, converts, holds⟩, seen⟩

/-- Outputs that are brought together keep the items of the first of them. -/
theorem of_combined {plans : List Dataflow}
    (held : MayHold catalog (Dataflow.combined plans) content) : ∃ plan ∈ plans,
      MayHold catalog plan content ∧ (content.item?.isSome = true → plans.head? = some plan) := by
  obtain ⟨dataSet, converts, held⟩ := held
  rcases converts.of_combined with ⟨single, rfl, converts⟩ | ⟨first, rest, alike, _, ok⟩
  · exact ⟨single, List.mem_cons_self, ⟨_, converts, held⟩, fun _ => rfl⟩
  · rcases (contains_combine ok).mp held with ⟨held, _⟩ | ⟨input, among, held, output, rfl⟩
    · obtain ⟨plan, plans, whole, _, rfl⟩ := List.forall₂_cons_right_iff.mp alike
      exact ⟨plan, List.mem_cons_self, ⟨_, whole, held⟩, fun _ => rfl⟩
    · obtain ⟨plan, isPlan, converts⟩ := exists_left_of_forall₂ alike among
      exact ⟨plan, isPlan, ⟨_, converts, held⟩, fun isItem => nomatch isItem⟩

end MayHold

private theorem nodup_of_ofStep {step : Step} {input : Subquery} {dataSet : DataSet}
    (single : step.takesOne = true) (ok : Lower.ofStep input step = .ok dataSet) :
    (dataSet.columns.map Column.content).Nodup := by
  cases step with
  | addMetricTime dimension stored offset =>
      obtain ⟨time, _, ok⟩ := bind_eq_ok.mp ok
      cases offset with
      | some window =>
          obtain ⟨⟩ := ok
          exact Selection.nodup_contents _
      | none =>
          obtain ⟨added, _, ⟨⟩⟩ := bind_eq_ok.mp ok
          exact Selection.nodup_contents _
  | constrain condition =>
      obtain ⟨⟩ := ok
      exact Selection.nodup_contents _
  | pass contents =>
      obtain ⟨columns, _, ⟨⟩⟩ := bind_eq_ok.mp ok
      exact Selection.nodup_contents _
  | aggregate measures =>
      obtain ⟨computed, _, ⟨⟩⟩ := bind_eq_ok.mp ok
      exact Selection.nodup_contents _
  | compute output formula =>
      obtain ⟨expr, _, ⟨⟩⟩ := bind_eq_ok.mp ok
      exact Selection.nodup_contents _
  | accumulate order parts measures =>
      obtain ⟨orderExpr, _, ok⟩ := bind_eq_ok.mp ok
      obtain ⟨partExprs, _, ⟨⟩⟩ := bind_eq_ok.mp ok
      exact Selection.nodup_contents _
  | sort order limit =>
      obtain ⟨orderBy, _, ⟨⟩⟩ := bind_eq_ok.mp ok
      exact Selection.nodup_contents _
  | _ => cases single

/-- No two columns of a step over subqueries hold the same. -/
theorem nodup_of_assemble {step : Step} {inputs : List Subquery} {dataSet : DataSet}
    (reads : ∀ model, step ≠ .read model) (results : step ≠ .result)
    (ok : assemble step inputs = .ok dataSet) : (dataSet.columns.map Column.content).Nodup := by
  cases step with
  | read model => exact (reads model rfl).elim
  | result => exact (results rfl).elim
  | join entities =>
      cases inputs with
      | nil => cases ok
      | cons left rights =>
          obtain ⟨_, joined, _, rfl⟩ := assemble_join_eq_ok.mp ok
          exact Selection.nodup_contents _
  | combine =>
      cases inputs with
      | nil => cases ok
      | cons first rest =>
          obtain ⟨joins, _, ok⟩ := bind_eq_ok.mp ok
          obtain ⟨keys, _, ⟨⟩⟩ := bind_eq_ok.mp ok
          exact Selection.nodup_contents _
  | _ =>
      match inputs with
      | [input] =>
          rw [assemble_singleton (by simp) (by simp)] at ok
          exact nodup_of_ofStep rfl ok
      | [] | _ :: _ :: _ => cases ok

/-- No two columns of a data set hold the same. -/
theorem Converts.nodup_contents {dataSet : DataSet} (converts : Converts catalog plan dataSet) :
    (dataSet.columns.map Column.content).Nodup := by
  induction plan using Dataflow.inductionOn generalizing dataSet with
  | node step inputs ih =>
      cases converts with
      | read => exact Selection.nodup_contents _
      | result converts => exact ih _ List.mem_cons_self converts
      | assembled reads results _ _ ok => exact nodup_of_assemble reads results ok

end

end Sql

end MetricQuery
