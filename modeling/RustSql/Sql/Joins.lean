import RustSql.Base.OuterJoin
import RustSql.Sql.Evaluate

/-!
# Joins

`execute_join_plan` goes through the joins of a `FROM` clause from left to right. Each joins the
rows so far with those of one more source; the columns of a `USING` clause are hidden on the
right, and where a right row has no partner they are filled in on the left.
-/

namespace RustSql.Sql

open RustSql.V2

/-! ## Clauses -/

/-- `JoinKind`. -/
inductive JoinKind where
  | inner
  | left
  | right
  | full
  deriving DecidableEq

/-- The kinds that keep left rows without a partner. -/
def JoinKind.keepsLeft : JoinKind → Bool
  | .left | .full => true
  | .inner | .right => false

/-- The kinds that keep right rows without a partner. -/
def JoinKind.keepsRight : JoinKind → Bool
  | .right | .full => true
  | .inner | .left => false

/-- `JoinPlan`, with what its source gives. -/
structure JoinPlan (S : Type) where
  kind : JoinKind
  source : Except DbError RowSet
  on : Expr S
  usingColumns : List String

/-- `qualify_join_using_column`. -/
def qualifyJoinUsingColumn (qualifier : Option String) (column : String) : String :=
  match qualifier with
  | some qualifier => qualifier++"."++column
  | none => column

/-- The comparison of one `USING` column. -/
def usingTerm {S : Type} (leftQualifier rightQualifier : Option String) (column : String) :
    Expr S :=
  .compareColumns (qualifyJoinUsingColumn leftQualifier column) .eq
    (qualifyJoinUsingColumn rightQualifier column)

/-- `join_using_expr`, which is also what `parse_join_using_expr` builds. -/
def joinUsingExpr {S : Type} (leftQualifier rightQualifier : Option String) :
    List String → Expr S
  | [] => .compareScalar (.literal (.boolean true)) .eq (.literal (.boolean true))
  | column :: columns =>
    columns.foldl (fun expr column => .and expr (usingTerm leftQualifier rightQualifier column))
      (usingTerm leftQualifier rightQualifier column)

/-! ## Execution -/

section Execute

variable {S : Type} (operators : Operators) (executeSubqueryRows : SubqueryRows S)
  (transactionId : TransactionId) (currentTxn : Option TransactionId)
  (outer : Option (RowSet × Row))

/-- The columns of a `USING` clause are hidden on the right. -/
def hideUsing (usingColumns : List String) (column : ColumnMeta) : ColumnMeta :=
  if column.name∈usingColumns then {column with hidden := true} else column

/-- The columns of a join. -/
def joinedColumns (left right : List ColumnMeta) (usingColumns : List String) : List ColumnMeta :=
  left++right.map (hideUsing usingColumns)

/-- The place of a `USING` column on the left. -/
def leftPlace (left : List ColumnMeta) (usingColumn : String) : Option ℕ :=
  left.findIdx? fun column => !column.hidden && column.name==usingColumn

/-- The place of a `USING` column on the right. -/
def rightPlace (right : List ColumnMeta) (usingColumn : String) : Option ℕ :=
  right.findIdx? fun column => column.name==usingColumn

/-- A `USING` column is filled in on the left. -/
def fillUsing (left right : List ColumnMeta) (rightRow row : Row) (usingColumn : String) : Row :=
  match leftPlace left usingColumn, rightPlace right usingColumn with
  | some leftIndex, some rightIndex =>
    match rightRow[rightIndex]? with
    | some value => row.set leftIndex value
    | none => row
  | _, _ => row

/-- The row of a right row without a partner. -/
def rightOnlyRow (left right : List ColumnMeta) (usingColumns : List String) (rightRow : Row) :
    Row :=
  usingColumns.foldl (fillUsing left right rightRow) (List.replicate left.length .null)++rightRow

/-- A test of joined rows by a condition. -/
def matchesOn (columns : List ColumnMeta) (on : Expr S) (leftRow rightRow : Row) :
    Except DbError Bool :=
  matchesFilter operators executeSubqueryRows transactionId currentTxn
    ⟨⟨columns,[]⟩,leftRow++rightRow,outer⟩ on

/-- One pass of the loop of `execute_join_plan`. -/
def executeJoin (current : RowSet) (join : JoinPlan S) : Except DbError RowSet := do
  let right ← join.source
  let columns := joinedColumns current.columns right.columns join.usingColumns
  let rows ← nestedLoop
    (matchesOn operators executeSubqueryRows transactionId currentTxn outer columns join.on)
    (fun leftRow rightRow => leftRow++rightRow)
    (fun leftRow =>
      if join.kind.keepsLeft then some (leftRow++List.replicate right.columns.length .null)
      else none)
    (fun rightRow =>
      if join.kind.keepsRight then
        some (rightOnlyRow current.columns right.columns join.usingColumns rightRow)
      else none)
    current.rows right.rows
  .ok ⟨columns,rows⟩

/-- The filter over joined rows. -/
def filterJoined (filter : Option (Expr S)) (current : RowSet) : Except DbError RowSet :=
  match filter with
  | none => .ok current
  | some filter => do
    let rows ← current.rows.filterM fun row =>
      matchesFilter operators executeSubqueryRows transactionId currentTxn ⟨current,row,outer⟩
        filter
    .ok {current with rows}

/-- `execute_join_plan`. -/
def executeJoinPlan (source : Except DbError RowSet) (joins : List (JoinPlan S))
    (filter : Option (Expr S)) : Except DbError RowSet := do
  let current ← source
  let joined ← joins.foldlM
    (executeJoin operators executeSubqueryRows transactionId currentTxn outer) current
  filterJoined operators executeSubqueryRows transactionId currentTxn outer filter joined

end Execute

end RustSql.Sql
