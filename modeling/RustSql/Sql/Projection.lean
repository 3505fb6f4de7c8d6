import RustSql.Sql.Evaluate
import RustSql.Sql.UpdateCandidates

/-!
# Projection, order and limits

The last step of a `SELECT`: `finish_projection` projects the rows, orders them by the terms of
`ORDER BY`, leaves out duplicates and cuts out the rows that are asked for. A lone wildcard
goes a way of its own.
-/

namespace RustSql.Sql

open RustSql.V2

/-! ## Order -/

/-- `NullOrder`. -/
inductive NullOrder where
  | first
  | last
  deriving DecidableEq

/-- `OrderByExpr`. -/
inductive OrderByExpr (S : Type) where
  | column (name : String)
  | position (position : ℕ)
  | expr (expr : ScalarExpr S)

/-- `OrderBy`. -/
structure OrderBy (S : Type) where
  expr : OrderByExpr S
  collation : Option String
  descending : Bool
  nulls : Option NullOrder

/-- The values of the terms of `ORDER BY` for a row, none for a column that is not found. -/
abbrev OrderKey := List (Option Value)

section Order

variable {S : Type} (operators : Operators)

/-- `compare_order_non_null_values`. -/
def compareOrderNonNullValues (left right : Value) (item : OrderBy S) : Ordering :=
  match left, right with
  | .text leftText, .text rightText =>
    if item.collation.any fun collation => eqIgnoreAsciiCase collation "NOCASE" then
      nocaseCmp leftText rightText
    else (compareValues operators left right).getD .eq
  | left, right => (compareValues operators left right).getD .eq

/-- `compare_order_values`. -/
def compareOrderValues (left right : Value) (item : OrderBy S) : Ordering :=
  let ordering :=
    match item.nulls, left, right with
    | some _, .null, .null => .eq
    | some .first, .null, _ => .lt
    | some .first, _, .null => .gt
    | some .last, .null, _ => .gt
    | some .last, _, .null => .lt
    | none, .null, .null => .eq
    | none, .null, _ => .lt
    | none, _, .null => .gt
    | _, left, right => compareOrderNonNullValues operators left right item
  let shouldReverse := item.descending &&
    (item.nulls.isNone || !(left==Value.null || right==Value.null))
  if shouldReverse then ordering.swap else ordering

/-- `compare_order_keys`. -/
def compareOrderKeys : OrderKey → OrderKey → List (OrderBy S) → Ordering
  | leftValue :: left, rightValue :: right, item :: orderBy =>
    let ordering :=
      match leftValue, rightValue with
      | some leftValue, some rightValue => compareOrderValues operators leftValue rightValue item
      | _, _ => .eq
    if ordering≠.eq then ordering else compareOrderKeys left right orderBy
  | _, _, _ => .eq

/-- `sort_by` with `compare_order_keys`. -/
def sortByKeys (orderBy : List (OrderBy S)) (rows : List (OrderKey × Row)) :
    List (OrderKey × Row) :=
  rows.mergeSort fun left right => compareOrderKeys operators left.1 right.1 orderBy≠.gt

end Order

/-! ## Duplicates -/

/-- The digits of a number in base 16, as many as the width. -/
def hexDigitsOfWidth : ℕ → ℕ → List Char
  | 0, _ => []
  | width+1, value => hexDigitsOfWidth width (value/16)++[(Nat.digitChar (value%16)).toUpper]

/-- `{:016X}` of the bits of a float. -/
def realHex (bits : UInt64) : String := String.ofList (hexDigitsOfWidth 16 bits.toNat)

/-- `{:02X}` of bytes. -/
def bytesHex (bytes : Bytes) : String :=
  String.ofList (bytes.flatMap fun byte => hexDigitsOfWidth 2 byte.toNat)

section Duplicates

variable (operators : Operators)

/-- `value_dedup_key`. -/
def valueDedupKey : Value → ℕ × String
  | .null => (0,"")
  | .boolean value => (1,realHex (boolReal value))
  | .integer value => (1,realHex (operators.toReal value))
  -- both zeros are equal floats
  | .real bits => (1,realHex (if bits*2=0 then 0 else bits))
  | .blob bytes => (4,bytesHex bytes)
  | .text value => (5,value)

/-- `row_dedup_key`. -/
def rowDedupKey (row : Row) : List (ℕ × String) := row.map (valueDedupKey operators)

/-- The step of `deduplicate_rows`: the keys seen so far and the rows kept. -/
def deduplicateStep (kept : List (List (ℕ × String)) × List Row) (row : Row) :
    List (List (ℕ × String)) × List Row :=
  let key := rowDedupKey operators row
  if key∈kept.1 then kept else (key :: kept.1,kept.2++[row])

/-- `deduplicate_rows`. -/
def deduplicateRows (rows : List Row) : List Row :=
  (rows.foldl (deduplicateStep operators) ([],[])).2

end Duplicates

/-! ## Projection -/

/-- `SelectItem`. Grouped queries read what an aggregate is about. -/
inductive SelectItem (S : Type) where
  | wildcard
  | column (name : String)
  | aliasedColumn (name aliasName : String)
  | expr (expr : ScalarExpr S) (aliasName : Option String)
  | aggregate

/-- What the projection takes from the evaluation of expressions. -/
structure Projecting (S : Type) where
  /-- `evaluate_scalar_expr_in_context`, with the columns and the row. -/
  evaluateInContext : Option TransactionId → List ColumnMeta → Row → ScalarExpr S →
    Except DbError Value
  /-- `scalar_expr_name`. -/
  scalarExprName : ScalarExpr S → String
  /-- What `populate_row_number_windows` does for one window function. -/
  populateWindow : ℕ → ScalarExpr S → Option TransactionId → List ColumnMeta →
    List (Row × Row) → Except DbError (List (Row × Row))

section Projection

variable {S : Type} (operators : Operators) (projecting : Projecting S)

/-- `try_lookup_value`. -/
def tryLookupValue (columns : List ColumnMeta) (row : Row) (column : String) : Option Value :=
  match resolveColumnIndex columns column with
  | .ok index => row[index]?
  | .error _ => none

/-- `resolve_order_value`. -/
def resolveOrderValue (projectedColumns : List ColumnMeta) (projected : Row)
    (fullColumns : List ColumnMeta) (full : Row) : OrderByExpr S → Option Value
  | .column column =>
    (tryLookupValue projectedColumns projected column).or (tryLookupValue fullColumns full column)
  | .position position => projected[position-1]?
  | .expr _ => none

/-- `order_sort_key`. -/
def orderSortKey (transactionId : Option TransactionId) (projectedColumns : List ColumnMeta)
    (projectedRow : Row) (fullColumns : List ColumnMeta) (fullRow : Row)
    (orderBy : List (OrderBy S)) : Except DbError OrderKey :=
  orderBy.mapM fun item =>
    match item.expr with
    | .expr expr =>
      (projecting.evaluateInContext transactionId fullColumns fullRow expr).map some
    | expr => .ok (resolveOrderValue projectedColumns projectedRow fullColumns fullRow expr)

/-- `sort_and_limit_rows`. -/
def sortAndLimitRows (reverseUnorderedSelects : Bool) (rowset : RowSet)
    (orderBy : List (OrderBy S)) (limit offset : Option ℕ) : Except DbError RowSet := do
  let rows ←
    if orderBy.isEmpty then
      .ok (if reverseUnorderedSelects then rowset.rows.reverse else rowset.rows)
    else do
      let keyed ← rowset.rows.mapM fun row => do
        let key ← orderSortKey projecting none rowset.columns row rowset.columns row orderBy
        .ok (key,row)
      .ok ((sortByKeys operators orderBy keyed).map Prod.snd)
  .ok {rowset with rows := applyLimitOffset limit offset rows}

/-- The columns a wildcard shows, and their places. -/
def visibleIndexes (columns : List ColumnMeta) : List ℕ :=
  columns.zipIdx.filterMap fun entry => if !entry.1.hidden then some entry.2 else none

/-- The values a wildcard shows. -/
def visibleRow (columns : List ColumnMeta) (row : Row) : Row :=
  (visibleIndexes columns).filterMap fun index => row[index]?

/-- The error of an aggregate that is not in a grouped query. -/
def aggregateProjection : DbError := .plan "aggregate projection requires aggregate execution path"

/-- The values of an item of a select list. -/
def projectItem (transactionId : Option TransactionId) (columns : List ColumnMeta) (row : Row) :
    SelectItem S → Except DbError (List Value)
  | .wildcard => .ok (visibleRow columns row)
  | .column name | .aliasedColumn name _ => do
    let value ← lookupValue columns row name
    .ok [value]
  -- a window function gets its value later
  | .expr .windowFunction _ => .ok [.null]
  | .expr expr _ => do
    let value ← projecting.evaluateInContext transactionId columns row expr
    .ok [value]
  | .aggregate => .error aggregateProjection

/-- `project_row`. -/
def projectRow (transactionId : Option TransactionId) (source : List ColumnMeta) (row : Row)
    (columns : List (SelectItem S)) : Except DbError Row := do
  let values ← columns.mapM (projectItem projecting transactionId source row)
  .ok values.flatten

/-- The columns of an item of a select list. -/
def projectedItemColumns (sourceColumns : List ColumnMeta) :
    SelectItem S → Except DbError (List ColumnMeta)
  | .wildcard => .ok (sourceColumns.filter fun column => !column.hidden)
  | .column name => do
    let index ← resolveColumnIndex sourceColumns name
    .ok (sourceColumns[index]?.toList.map fun column => {column with outputName := name})
  | .aliasedColumn name aliasName => do
    let index ← resolveColumnIndex sourceColumns name
    .ok (sourceColumns[index]?.toList.map fun column =>
      {column with outputName := aliasName, name := aliasName})
  | .expr expr aliasName =>
    let outputName := aliasName.getD (projecting.scalarExprName expr)
    .ok [⟨none,none,outputName,outputName,none,false⟩]
  | .aggregate => .error aggregateProjection

/-- `projected_columns`. -/
def projectedColumns (sourceColumns : List ColumnMeta) (columns : List (SelectItem S)) :
    Except DbError (List ColumnMeta) := do
  let projected ← columns.mapM (projectedItemColumns projecting sourceColumns)
  .ok projected.flatten

/-- The window functions of a select list, with their places. -/
def rowNumberSlots (columns : List (SelectItem S)) : List (ℕ × ScalarExpr S) :=
  columns.zipIdx.filterMap fun entry =>
    match entry.1 with
    | .expr .windowFunction _ => some (entry.2,.windowFunction)
    | _ => none

/-- `populate_row_number_windows`. -/
def populateRowNumberWindows (transactionId : Option TransactionId) (entries : List (Row × Row))
    (sourceColumns : List ColumnMeta) (slots : List (ℕ × ScalarExpr S)) :
    Except DbError (List (Row × Row)) :=
  slots.foldlM
    (fun entries slot =>
      projecting.populateWindow slot.1 slot.2 transactionId sourceColumns entries) entries

/-- `finish_projection` for a lone wildcard. -/
def finishWildcard (reverseUnorderedSelects : Bool) (source : RowSet)
    (orderBy : List (OrderBy S)) (limit offset : Option ℕ) (distinct : Bool) :
    Except DbError RowSet := do
  let visible : RowSet :=
    ⟨source.columns.filter fun column => !column.hidden,
      source.rows.map (visibleRow source.columns)⟩
  let rowset ← sortAndLimitRows operators projecting reverseUnorderedSelects visible orderBy limit
    offset
  if distinct then
    .ok {rowset with
      rows := applyLimitOffset limit offset (deduplicateRows operators rowset.rows)}
  else .ok rowset

/-- `finish_projection` for a select list that is no lone wildcard. -/
def finishItems (reverseUnorderedSelects : Bool) (transactionId : TransactionId)
    (source : RowSet) (columns : List (SelectItem S)) (orderBy : List (OrderBy S))
    (limit offset : Option ℕ) (distinct : Bool) : Except DbError RowSet := do
  let shown ← projectedColumns projecting source.columns columns
  let entries ← source.rows.mapM fun row => do
    let projected ← projectRow projecting (some transactionId) source.columns row columns
    .ok (projected,row)
  let entries ← populateRowNumberWindows projecting (some transactionId) entries source.columns
    (rowNumberSlots columns)
  let keyed ← entries.mapM fun (entry : Row × Row) => do
    let key ← orderSortKey projecting (some transactionId) shown entry.1 source.columns entry.2
      orderBy
    .ok (key,entry.1)
  let sorted := if orderBy.isEmpty then keyed else sortByKeys operators orderBy keyed
  let rows := sorted.map Prod.snd
  let rows := if orderBy.isEmpty && reverseUnorderedSelects then rows.reverse else rows
  let rows := if distinct then deduplicateRows operators rows else rows
  .ok ⟨shown,applyLimitOffset limit offset rows⟩

/-- `finish_projection`. -/
def finishProjection (reverseUnorderedSelects : Bool) (transactionId : TransactionId)
    (source : RowSet) (columns : List (SelectItem S)) (orderBy : List (OrderBy S))
    (limit offset : Option ℕ) (distinct : Bool) : Except DbError RowSet :=
  match columns with
  | [.wildcard] =>
    finishWildcard operators projecting reverseUnorderedSelects source orderBy limit offset distinct
  | columns =>
    finishItems operators projecting reverseUnorderedSelects transactionId source columns orderBy
      limit offset distinct

end Projection

end RustSql.Sql
