import RustSql.Base.Groups
import RustSql.Common.Rankings
import RustSql.Sql.SameValues
import RustSql.Sql.WindowAggregates

/-!
# Groups of rows

What `GROUP BY` makes of rows: a group for each key, in the order of the keys, in which the
aggregates are those of the rows with the key.
-/

namespace RustSql.Sql

open RustSql.V2 Outcome

/-- The order of the keys in a `BTreeMap`. -/
def compareKeys : List Value → List Value → Ordering := compareLists Value.cmp

instance instTransCmpCompareKeys : Std.TransCmp compareKeys := Value.cmp_orderedBy.lists.transCmp

instance instLawfulEqCmpCompareKeys : Std.LawfulEqCmp compareKeys where
  compare_self {key} := (Value.cmp_orderedBy.lists.eq key key).mpr rfl
  eq_of_compare {left right} h := by
    have hinjective : Function.Injective Value.place := fun left right h =>
      cmp_eq_iff.mp ((Value.cmp_orderedBy.eq left right).mpr h)
    exact hinjective.list_map ((Value.cmp_orderedBy.lists.eq left right).mp h)

/-- `AggregateGroup`. -/
structure AggregateGroup where
  representativeRow : Row
  states : List AggregateState

section Groups

variable {N S : Type} (machine : AggregateMachine N) (operators : Operators)
  (executeSubqueryRows : SubqueryRows S) (transactionId : TransactionId)
  (currentTxn : Option TransactionId) (source : RowSet) (groupBy : List (ScalarExpr S))
  (calls : List (AggregateCall S))

/-- The key of a row. -/
def groupKey (row : Row) : Except DbError (List Value) :=
  groupBy.mapM (SelectList.evaluateScalarExpr operators source row)

/-- A group that no row has updated. -/
def freshGroup (row : Row) : AggregateGroup := ⟨row,calls.map initialAggregateState⟩

/-- A row updates the states of its group. -/
def updateGroup (row : Row) (group : AggregateGroup) : Outcome AggregateGroup := do
  let states ← updateAggregateStates machine operators executeSubqueryRows transactionId
    currentTxn source row group.states calls
  .ok {group with states := states}

/-- The groups that `execute_aggregate` collects. -/
def aggregateGroups : Outcome (Std.ExtTreeMap (List Value) AggregateGroup compareKeys) :=
  source.rows.foldlM (groupStep (groupKey operators source groupBy) (freshGroup calls)
      (updateGroup machine operators executeSubqueryRows transactionId currentTxn source calls))
    (if source.rows.isEmpty && groupBy.isEmpty then (∅ : Std.ExtTreeMap _ _ _).insert []
      (freshGroup calls []) else ∅)

/-- The states of some calls after rows. -/
def statesOf (rows : List Row) : Outcome (List AggregateState) :=
  rows.foldlM (fun states row => updateAggregateStates machine operators executeSubqueryRows
    transactionId currentTxn source row states calls) (calls.map initialAggregateState)

variable {machine operators executeSubqueryRows transactionId currentTxn source groupBy calls}

theorem foldlM_updateGroup (rows : List Row) (group : AggregateGroup) :
    rows.foldlM (fun group row => updateGroup machine operators executeSubqueryRows transactionId
      currentTxn source calls row group) group=
    rows.foldlM (fun states row => updateAggregateStates machine operators executeSubqueryRows
      transactionId currentTxn source row states calls) group.states >>= fun states =>
        .ok ⟨group.representativeRow,states⟩ := by
  induction rows generalizing group with
  | nil => rfl
  | cons row rows ih =>
    rw [List.foldlM_cons,List.foldlM_cons,updateGroup,bind_assoc,bind_assoc]
    simp only [bind_ok,ih]

/-- Every row is in the group of its key, and the rows of a group, of which the first represents
it, give it the states. -/
structure Grouped (groups : Std.ExtTreeMap (List Value) AggregateGroup compareKeys) : Prop where
  keys : ∀ row∈source.rows, ∃ key∈groups, groupKey operators source groupBy row=.ok key
  states : ∀ key group, groups[key]?=some group → ∃ rest,
    rowsOf (groupKey operators source groupBy) key source.rows=group.representativeRow :: rest ∧
    statesOf machine operators executeSubqueryRows transactionId currentTxn source calls
      (rowsOf (groupKey operators source groupBy) key source.rows)=.ok group.states

theorem groupOf_states {rows : List Row} {group : AggregateGroup}
    (h : groupOf (freshGroup calls) (updateGroup machine operators executeSubqueryRows transactionId
      currentTxn source calls) rows=.ok (some group)) :
    ∃ rest, rows=group.representativeRow :: rest ∧ statesOf machine operators executeSubqueryRows
      transactionId currentTxn source calls rows=.ok group.states := by
  cases rows with
  | nil => cases h
  | cons first rest =>
    rw [groupOf,foldlM_updateGroup] at h
    obtain ⟨made,hmade,h⟩ := bind_ok_inv h
    obtain ⟨states,hstates,hgroup⟩ := bind_ok_inv hmade
    cases hgroup
    cases h
    exact ⟨rest,rfl,hstates⟩

theorem groupOf_total {rows : List Row} :
    (groupOf (freshGroup calls) (updateGroup machine operators executeSubqueryRows transactionId
      currentTxn source calls) rows).Total ↔ rows=[] ∨ (statesOf machine operators
        executeSubqueryRows transactionId currentTxn source calls rows).Total := by
  cases rows with
  | nil => exact iff_of_true (total_ok none) (.inl rfl)
  | cons first rest =>
    rw [groupOf,foldlM_updateGroup]
    constructor
    · rintro ⟨group,h⟩
      obtain ⟨made,hmade,-⟩ := bind_ok_inv h
      obtain ⟨states,hstates,-⟩ := bind_ok_inv hmade
      exact .inr ⟨states,hstates⟩
    · rintro (h | ⟨states,hstates⟩)
      · cases h
      · rw [statesOf] at hstates
        exact ⟨some ⟨first,states⟩,by simp only [freshGroup,hstates,bind_ok]⟩

/-- The groups are collected if and only if every row has a key and the rows of its key have
states; then each holds the states of its rows. -/
theorem aggregateGroups_correct (hrows : source.rows≠[]) :
    ((aggregateGroups machine operators executeSubqueryRows transactionId currentTxn source groupBy
      calls).Total ↔ ∀ row∈source.rows, ∃ key, groupKey operators source groupBy row=.ok key ∧
        (statesOf machine operators executeSubqueryRows transactionId currentTxn source calls
          (rowsOf (groupKey operators source groupBy) key source.rows)).Total) ∧
    ∀ groups, aggregateGroups machine operators executeSubqueryRows transactionId currentTxn source
      groupBy calls=.ok groups → @Grouped N S machine operators executeSubqueryRows transactionId
        currentTxn source groupBy calls groups := by
  have hmem {row : Row} {key : List Value} (hrow : row∈source.rows)
      (hkey : groupKey operators source groupBy row=.ok key) :
      row∈rowsOf (groupKey operators source groupBy) key source.rows :=
    List.mem_filter.mpr ⟨hrow,by simp [hkey,Except.toOption]⟩
  have hempty : source.rows.isEmpty=false := by simpa using hrows
  rw [aggregateGroups,hempty,Bool.false_and,if_neg Bool.false_ne_true]
  refine ⟨⟨?_,fun h => ?_⟩,fun groups h => ?_⟩
  · rintro ⟨groups,h⟩ row hrow
    obtain ⟨hkeys,hgroups⟩ := foldlM_groupStep_ok h
    obtain ⟨key,hkey⟩ := hkeys row hrow
    refine ⟨key,hkey,(groupOf_total.mp ⟨_,hgroups key⟩).resolve_left ?_⟩
    exact List.ne_nil_of_mem (hmem hrow hkey)
  · refine foldlM_groupStep_total (fun row hrow => ?_) fun key => groupOf_total.mpr ?_
    · obtain ⟨key,hkey,-⟩ := h row hrow
      exact ⟨key,hkey⟩
    · refine or_iff_not_imp_left.mpr fun hne => ?_
      obtain ⟨row,hrow⟩ := List.exists_mem_of_ne_nil _ hne
      obtain ⟨hrow,hkey⟩ := List.mem_filter.mp hrow
      obtain ⟨key',hkey',htotal⟩ := h row hrow
      rw [hkey',decide_eq_true_eq] at hkey
      cases hkey
      exact htotal
  · obtain ⟨hkeys,hgroups⟩ := foldlM_groupStep_ok h
    refine ⟨fun row hrow => ?_,fun key group hgroup => groupOf_states ?_⟩
    · obtain ⟨key,hkey⟩ := hkeys row hrow
      obtain ⟨group,hgroup⟩ := groupOf_some (hgroups key) (List.ne_nil_of_mem (hmem hrow hkey))
      exact ⟨key,Std.ExtTreeMap.mem_iff_isSome_getElem?.mpr (by rw [hgroup]; rfl),hkey⟩
    · rw [hgroups,hgroup]

end Groups

/-- Three rows of two keys. -/
def threeRows : RowSet :=
  ⟨[⟨none,none,"a","a",none,false⟩],[[.integer 2],[.integer 1],[.integer 2]]⟩

/-- Three rows fall into two groups, which are counted. -/
theorem aggregateGroups_correct_threeRows : ∃ groups,
    aggregateGroups wordAggregates plainOperators oneRow 0 none threeRows [.column "a"]
      [⟨.count,.wildcard,none⟩]=.ok groups ∧
    @Grouped Unit Unit wordAggregates plainOperators oneRow 0 none threeRows [.column "a"]
      [⟨.count,.wildcard,none⟩] groups :=
  ⟨_,rfl,(aggregateGroups_correct (by decide)).2 _ rfl⟩

end RustSql.Sql
