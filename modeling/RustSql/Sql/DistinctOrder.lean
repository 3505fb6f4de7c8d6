import RustSql.Base.Distinct
import RustSql.Sql.OrderTerms
import RustSql.Sql.WhereTruth

/-!
# Duplicates, order and limits

In which order `DISTINCT`, `ORDER BY`, `LIMIT` and `OFFSET` are applied. With the columns
spelled out the distinct rows are put in order and then cut. With a wildcard the rows are cut
before duplicates are left out, and then a second time.
-/

namespace RustSql.Sql

open RustSql.V2

/-! ## The steps -/

section Steps

variable {operators : Operators}

theorem applyLimitOffset_eq {α : Type} (limit offset : Option ℕ) (rows : List α) :
    applyLimitOffset limit offset rows=cutOut limit (offset.getD 0) rows := by
  unfold applyLimitOffset
  split
  · next h => exact (cutOut_of_length_le h).symm
  · cases limit <;> rfl

/-- One more row, where the keys seen are those of the rows kept. -/
theorem deduplicate_fold (rows : List Row) (seen : List (List (ℕ × String))) (kept : List Row) :
    (rows.foldl (deduplicateStep operators) (seen,kept)).2=
      kept++(firsts (rowDedupKey operators) rows).filter fun row =>
        rowDedupKey operators row∉seen := by
  induction rows generalizing seen kept with
  | nil => exact (List.append_nil kept).symm
  | cons row rows ih =>
    rw [List.foldl_cons,firsts,deduplicateStep]
    dsimp only
    by_cases hseen : rowDedupKey operators row∈seen
    · rw [if_pos hseen,ih,List.filter_cons_of_neg (by simpa using hseen),List.filter_filter]
      congr 1
      refine List.filter_congr fun other _ => ?_
      by_cases hsame : rowDedupKey operators other=rowDedupKey operators row
      · simp [hsame,hseen]
      · simp [hsame]
    · rw [if_neg hseen,ih,List.filter_cons_of_pos (by simpa using hseen),List.filter_filter,
        List.append_assoc,List.singleton_append]
      congr 2
      refine List.filter_congr fun other _ => ?_
      simp only [List.mem_cons,not_or,ne_eq,Bool.decide_and]
      exact Bool.and_comm _ _

/-- The loop keeps the first row of each key. -/
theorem deduplicateRows_eq (rows : List Row) :
    deduplicateRows operators rows=firsts (rowDedupKey operators) rows := by
  have h := @deduplicate_fold operators rows [] []
  simpa [deduplicateRows] using h

end Steps

section Composition

variable {S : Type} (operators : Operators) (projecting : Projecting S)
  (reverseUnorderedSelects : Bool) (transactionId : TransactionId) (source : RowSet)
  (names : List String) (orderBy : List (OrderBy S)) (limit offset : Option ℕ) (distinct : Bool)

/-! ## What a statement is to return -/

/-- Rows with their keys, in order. -/
def orderRows (keyed : List (OrderKey × Row)) : List Row :=
  if orderBy.isEmpty then
    if reverseUnorderedSelects then (keyed.map Prod.snd).reverse else keyed.map Prod.snd
  else (sortByKeys operators orderBy keyed).map Prod.snd

/-- The values that rows show, in the order of the rows' keys. -/
def orderedRows (key : Row → Except DbError OrderKey) (shown : Row → Row) (rows : List Row) :
    Except DbError (List Row) := do
  let keyed ← rows.mapM fun row => do
    let key ← key row
    .ok (key,shown row)
  .ok (orderRows operators reverseUnorderedSelects orderBy keyed)

/-- The projected rows in order, by terms that are read from the whole rows. -/
def wholeOrder : Except DbError (List Row) := do
  let shown ← projectedColumns projecting source.columns (names.map .column)
  orderedRows operators reverseUnorderedSelects orderBy
    (fun row => orderSortKey projecting (some transactionId) shown
      (visibleRow source.columns row) source.columns row orderBy)
    (visibleRow source.columns) source.rows

/-- The projected rows in order, by terms that are read from what a wildcard shows, outside of
a transaction. -/
def visibleOrder : Except DbError (List Row) :=
  let columns := source.columns.filter fun column => !column.hidden
  orderedRows operators reverseUnorderedSelects orderBy
    (fun row => orderSortKey projecting none columns (visibleRow source.columns row) columns
      (visibleRow source.columns row) orderBy)
    (visibleRow source.columns) source.rows

/-- The rows to return of rows in order: those from the offset on, up to the limit, of the
distinct rows or of all rows. -/
def selectedRows (ordered : List Row) : List Row :=
  cutOut limit (offset.getD 0)
    (if distinct then firsts (rowDedupKey operators) ordered else ordered)

/-- The names are those of the columns that a wildcard shows. -/
def SpellsOut (columns : List ColumnMeta) (names : List String) : Prop :=
  names.mapM (resolveColumnIndex columns)=.ok (visibleIndexes columns)

/-- A select list with a wildcard and one with the same columns spelled out both return the
rows to return. -/
def Composes : Prop :=
  let expected := (wholeOrder operators projecting reverseUnorderedSelects transactionId source
    names orderBy).map (selectedRows operators limit offset distinct)
  let returned (columns : List (SelectItem S)) :=
    (finishProjection operators projecting reverseUnorderedSelects transactionId source columns
      orderBy limit offset distinct).map RowSet.rows
  returned [.wildcard]=expected ∧ returned (names.map .column)=expected

/-! ## The columns spelled out -/

variable {operators projecting reverseUnorderedSelects transactionId source names orderBy limit
  offset distinct}

/-- Where every step is known to go through, so do all of them. -/
theorem mapM_of_ok {α β : Type} {f : α → Except DbError β} {g : α → β} {xs : List α}
    (h : ∀ x∈xs, f x=.ok (g x)) : xs.mapM f=.ok (xs.map g) := by
  rw [mapM_eq_ok]
  induction xs with
  | nil => exact .nil
  | cons x xs ih =>
    exact .cons (h x List.mem_cons_self) (ih fun y hy => h y (List.mem_cons_of_mem x hy))

theorem rowNumberSlots_names : rowNumberSlots (names.map (SelectItem.column (S := S)))=[] := by
  refine List.filterMap_eq_nil_iff.mpr fun entry hentry => ?_
  obtain ⟨item,place⟩ := entry
  have hitem := List.fst_mem_of_mem_zipIdx hentry
  obtain ⟨name,-,rfl⟩ := List.mem_map.mp hitem
  rfl

/-- A column that is named gives the value at its place. -/
theorem projectItem_name {columns : List ColumnMeta} {row : Row} {name : String} {index : ℕ}
    (hname : resolveColumnIndex columns name=.ok index) (hindex : index < row.length) :
    projectItem projecting (some transactionId) columns row (.column name)=
      .ok row[index]?.toList := by
  have hvalue : lookupValue columns row name=.ok (row.get ⟨index,hindex⟩) := by
    simp only [lookupValue,hname,bind,Except.bind,List.getElem?_eq_getElem hindex]
    rfl
  rw [projectItem,hvalue,List.getElem?_eq_getElem hindex]
  rfl

/-- The values of the columns spelled out are those a wildcard shows. -/
theorem projectRow_names {columns : List ColumnMeta} (hnames : SpellsOut columns names)
    {row : Row} (hrow : row.length=columns.length) :
    projectRow projecting (some transactionId) columns row (names.map .column)=
      .ok (visibleRow columns row) := by
  have hvalues : (names.map .column).mapM (projectItem projecting (some transactionId) columns row)=
      .ok ((visibleIndexes columns).map fun index => row[index]?.toList) := by
    rw [mapM_eq_ok,List.forall₂_map_left_iff,List.forall₂_map_right_iff]
    have hfound := mapM_eq_ok.mp hnames
    refine List.forall₂_iff_zip.mpr ⟨hfound.length_eq,fun hpair => ?_⟩
    refine projectItem_name (List.forall₂_zip hfound hpair) ?_
    rw [hrow]
    exact visibleIndexes_lt (List.of_mem_zip hpair).2
  rw [projectRow,hvalues]
  refine congrArg Except.ok ?_
  rw [visibleRow,List.filterMap_eq_flatMap_toList]
  rfl

theorem finishItems_names (hnames : SpellsOut source.columns names)
    (hrows : ∀ row∈source.rows, row.length=source.columns.length) :
    (finishItems operators projecting reverseUnorderedSelects transactionId source
      (names.map .column) orderBy limit offset distinct).map RowSet.rows=
      (wholeOrder operators projecting reverseUnorderedSelects transactionId source names
        orderBy).map (selectedRows operators limit offset distinct) := by
  have hentries : (source.rows.mapM fun row => do
      let projected ← projectRow projecting (some transactionId) source.columns row
        (names.map .column)
      .ok (projected,row))=
      .ok (source.rows.map fun row => (visibleRow source.columns row,row)) := by
    refine mapM_of_ok fun row hrow => ?_
    rw [projectRow_names hnames (hrows row hrow)]
    rfl
  unfold finishItems wholeOrder
  rw [hentries,rowNumberSlots_names]
  cases projectedColumns projecting source.columns (names.map .column) with
  | error error => rfl
  | ok shown =>
    change ((source.rows.map fun row => (visibleRow source.columns row,row)).mapM _ >>= _ :
      Except DbError RowSet).map RowSet.rows=(_ >>= _ : Except DbError (List Row)).map _
    rw [List.mapM_map]
    change (source.rows.mapM (fun row => do
        let key ← orderSortKey projecting (some transactionId) shown
          (visibleRow source.columns row) source.columns row orderBy
        .ok (key,visibleRow source.columns row)) >>= _ : Except DbError RowSet).map RowSet.rows=
      (orderedRows operators reverseUnorderedSelects orderBy _ _ source.rows).map _
    unfold orderedRows
    cases source.rows.mapM fun row => do
        let key ← orderSortKey projecting (some transactionId) shown
          (visibleRow source.columns row) source.columns row orderBy
        .ok (key,visibleRow source.columns row) with
    | error error => rfl
    | ok keyed =>
      refine congrArg Except.ok ?_
      rw [selectedRows,orderRows,←deduplicateRows_eq,←applyLimitOffset_eq]
      cases orderBy.isEmpty <;> cases reverseUnorderedSelects <;> rfl

/-! ## The wildcard -/

/-- Without terms nothing is asked of the rows. -/
theorem orderedRows_nil (key : Row → Except DbError OrderKey) (rows : List Row)
    (hkey : ∀ row∈rows, key row=.ok []) :
    orderedRows operators reverseUnorderedSelects ([] : List (OrderBy S)) key id rows=
      .ok (if reverseUnorderedSelects then rows.reverse else rows) := by
  have hkeyed : (rows.mapM fun row => do
      let key ← key row
      .ok (key,id row))=.ok (rows.map fun row => (([] : OrderKey),row)) := by
    refine mapM_of_ok fun row hrow => ?_
    rw [hkey row hrow]
    rfl
  have hrows : (rows.map fun row => (([] : OrderKey),row)).map Prod.snd=rows := by
    rw [List.map_map]
    exact List.map_id rows
  unfold orderedRows
  rw [hkeyed]
  refine congrArg Except.ok ?_
  rw [orderRows,hrows]
  rfl

theorem sortAndLimitRows_eq (rowset : RowSet) :
    sortAndLimitRows operators projecting reverseUnorderedSelects rowset orderBy limit offset=
      (orderedRows operators reverseUnorderedSelects orderBy
        (fun row => orderSortKey projecting none rowset.columns row rowset.columns row orderBy) id
        rowset.rows).map fun rows =>
          ({rowset with rows := applyLimitOffset limit offset rows} : RowSet) := by
  cases orderBy with
  | nil =>
    have hrows : orderedRows operators reverseUnorderedSelects ([] : List (OrderBy S))
        (fun row => orderSortKey projecting none rowset.columns row rowset.columns row []) id
        rowset.rows=.ok (if reverseUnorderedSelects then rowset.rows.reverse else rowset.rows) :=
      orderedRows_nil _ _ fun row _ => rfl
    rw [hrows]
    rfl
  | cons item rest =>
    unfold sortAndLimitRows orderedRows
    dsimp only [id]
    cases rowset.rows.mapM fun row => do
        let key ← orderSortKey projecting none rowset.columns row rowset.columns row (item :: rest)
        .ok (key,row) with
    | error error => rfl
    | ok keyed => rfl

theorem finishWildcard_rows :
    (finishWildcard operators projecting reverseUnorderedSelects source orderBy limit offset
      distinct).map RowSet.rows=
      (visibleOrder operators projecting reverseUnorderedSelects source orderBy).map fun ordered =>
        if distinct then
          cutOut limit (offset.getD 0) (firsts (rowDedupKey operators)
            (cutOut limit (offset.getD 0) ordered))
        else cutOut limit (offset.getD 0) ordered := by
  have hshown : visibleOrder operators projecting reverseUnorderedSelects source orderBy=
      orderedRows operators reverseUnorderedSelects orderBy
        (fun row => orderSortKey projecting none
          (source.columns.filter fun column => !column.hidden) row
          (source.columns.filter fun column => !column.hidden) row orderBy) id
        (source.rows.map (visibleRow source.columns)) := by
    unfold visibleOrder orderedRows
    rw [List.mapM_map]
    rfl
  unfold finishWildcard
  dsimp only
  rw [sortAndLimitRows_eq,hshown]
  cases orderedRows operators reverseUnorderedSelects orderBy
        (fun row => orderSortKey projecting none
          (source.columns.filter fun column => !column.hidden) row
          (source.columns.filter fun column => !column.hidden) row orderBy) id
        (source.rows.map (visibleRow source.columns)) with
  | error error => rfl
  | ok ordered =>
    simp only [←applyLimitOffset_eq,←deduplicateRows_eq]
    cases distinct <;> rfl

/-! ## Both select lists -/

theorem finishProjection_names :
    finishProjection operators projecting reverseUnorderedSelects transactionId source
        (names.map .column) orderBy limit offset distinct=
      finishItems operators projecting reverseUnorderedSelects transactionId source
        (names.map .column) orderBy limit offset distinct := by
  cases names with
  | nil => rfl
  | cons name names => cases names <;> rfl

/-- What is left to show is about the wildcard. -/
theorem composes_iff (hnames : SpellsOut source.columns names)
    (hrows : ∀ row∈source.rows, row.length=source.columns.length) :
    Composes operators projecting reverseUnorderedSelects transactionId source names orderBy limit
        offset distinct ↔
      ((visibleOrder operators projecting reverseUnorderedSelects source orderBy).map
        fun ordered =>
          if distinct then
            cutOut limit (offset.getD 0) (firsts (rowDedupKey operators)
              (cutOut limit (offset.getD 0) ordered))
          else cutOut limit (offset.getD 0) ordered)=
        (wholeOrder operators projecting reverseUnorderedSelects transactionId source names
          orderBy).map (selectedRows operators limit offset distinct) := by
  unfold Composes
  dsimp only
  rw [finishProjection_names,finishItems_names hnames hrows,←finishWildcard_rows]
  exact and_iff_left rfl

/-! ## Terms that read visible columns -/

/-- The names of a wildcard's columns give these columns, each under its name. -/
theorem projectedColumns_names {columns : List ColumnMeta} (hnames : SpellsOut columns names) :
    projectedColumns projecting columns (names.map .column)=.ok (spelledColumns columns names) := by
  have hitems : ∀ {names : List String} {indexes : List ℕ},
      List.Forall₂ (fun name index => resolveColumnIndex columns name=.ok index) names indexes →
      (names.map .column).mapM (projectedItemColumns projecting columns)=
        .ok ((indexes.zip names).map fun entry =>
          columns[entry.1]?.toList.map fun column => {column with outputName := entry.2}) := by
    intro names indexes hfound
    induction hfound with
    | nil => rfl
    | @cons name index names indexes hname _ ih =>
      have hitem : projectedItemColumns projecting columns (.column name)=
          .ok (columns[index]?.toList.map fun column => {column with outputName := name}) := by
        rw [projectedItemColumns,hname]
        rfl
      rw [List.map_cons,List.mapM_cons,hitem,ih]
      rfl
  rw [projectedColumns,hitems (mapM_eq_ok.mp hnames)]
  exact congrArg Except.ok (List.flatMap_def.symm)

variable {nested : ScalarExpr S → Bool} {executeSubqueryRows : SubqueryRows S}
  {scalarExprName : ScalarExpr S → String}
  {populateWindow : ℕ → ScalarExpr S → Option TransactionId → List ColumnMeta →
    List (Row × Row) → Except DbError (List (Row × Row))}

/-- A wildcard orders the rows as the columns spelled out do, by terms that read visible columns
and have no subquery. -/
theorem visibleOrder_eq_wholeOrder (hnames : SpellsOut source.columns names)
    (hrows : ∀ row∈source.rows, row.length=source.columns.length)
    (hterms : ∀ item∈orderBy, item.expr.IsVisible nested source.columns names) :
    let projecting :=
      contextProjecting nested operators executeSubqueryRows scalarExprName populateWindow
    visibleOrder operators projecting reverseUnorderedSelects source orderBy=
      wholeOrder operators projecting reverseUnorderedSelects transactionId source names
        orderBy := by
  intro projecting
  unfold visibleOrder wholeOrder orderedRows
  rw [projectedColumns_names hnames]
  refine congrArg (fun keyed : Except DbError (List (OrderKey × Row)) =>
    keyed >>= fun keyed => Except.ok (orderRows operators reverseUnorderedSelects orderBy keyed))
      (mapM_congr_mem fun row hrow => ?_)
  refine congrArg (fun key : Except DbError OrderKey =>
    key >>= fun key => Except.ok (key,visibleRow source.columns row)) ?_
  exact orderSortKey_visible hterms (hrows row hrow) (some transactionId)

/-- Up to the terms of `ORDER BY` both select lists return the rows to return exactly when
cutting twice is safe, or duplicates are kept. -/
theorem composes_of_same_order (hnames : SpellsOut source.columns names)
    (hrows : ∀ row∈source.rows, row.length=source.columns.length)
    (hsame : visibleOrder operators projecting reverseUnorderedSelects source orderBy=
      wholeOrder operators projecting reverseUnorderedSelects transactionId source names
        orderBy) :
    Composes operators projecting reverseUnorderedSelects transactionId source names orderBy
        limit offset distinct ↔
      (distinct=true → ∀ ordered,
        wholeOrder operators projecting reverseUnorderedSelects transactionId source names
          orderBy=.ok ordered →
        CutTwiceSafe (rowDedupKey operators) limit (offset.getD 0) ordered) := by
  rw [composes_iff hnames hrows,hsame]
  cases hwhole : wholeOrder operators projecting reverseUnorderedSelects transactionId source
      names orderBy with
  | error error => exact iff_of_true rfl fun _ ordered hordered => by cases hordered
  | ok ordered =>
    simp only [Except.map,Except.ok.injEq,forall_eq']
    cases distinct with
    | false => exact iff_of_true rfl fun hdistinct => by cases hdistinct
    | true =>
      rw [selectedRows,if_pos rfl,if_pos rfl,cutOut_firsts_iff]
      exact ⟨fun h _ => h,fun h => h rfl⟩

variable (nested operators executeSubqueryRows scalarExprName populateWindow
  reverseUnorderedSelects transactionId source names orderBy limit offset distinct)

end Composition

/-! ## A table with a row twice -/

/-- One column of texts. -/
def textColumn : RowSet :=
  ⟨[⟨none,none,"a","a",none,false⟩],[[.text "x"],[.text "x"],[.text "y"]]⟩

/-- A connection that is asked for no expressions. -/
def plainProjecting : Projecting Unit where
  evaluateInContext _ _ _ _ := .ok .null
  scalarExprName _ := ""
  populateWindow _ _ _ _ entries := .ok entries

/-- A text column, and a column of a join that a wildcard does not show. -/
def joinedRows : RowSet :=
  ⟨[⟨none,none,"a","a",none,false⟩,⟨some "u",none,"b","b",none,true⟩],
    [[.text "x",.integer 1],[.text "x",.integer 2],[.text "y",.integer 3]]⟩

/-- `ORDER BY a COLLATE NOCASE DESC, a, 1`. -/
def threeTerms : List (OrderBy Unit) :=
  [⟨.expr (.collate (.column "a") "NOCASE"),some "NOCASE",true,none⟩,⟨.column "a",none,false,none⟩,
    ⟨.position 1,none,false,none⟩]

end RustSql.Sql
