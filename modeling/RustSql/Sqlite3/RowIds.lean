import Mathlib.Data.List.Sort
import RustSql.Base.Effect
import RustSql.Sql.Schema

/-!
# The numbers of rows

A table of the writable database keeps its rows in the order of their numbers. An insert that
leaves the number open takes the next one: after the last row, after the largest number, or after
the table's entry in `sqlite_sequence`. Triggers insert, update and delete rows of the same table
while a statement runs.
-/

namespace RustSql.Sqlite3

/-- What an insert made of a number that was left open: the number, or none when it failed for
lack of one, and the numbers the rows of the table had then, and had ever had. -/
structure Numbering where
  assigned : Option ℕ
  autoincrement : Bool
  existing : List ℕ
  held : List ℕ
  deriving DecidableEq

/-- A table of `WritableDatabase` and its entry in `sqlite_sequence`. No call reads the last two
fields, which statements are about. -/
structure WritableTable where
  schema : Sql.Schema
  /-- A column of the primary key is declared `AUTOINCREMENT`. -/
  autoincrement : Bool
  rows : List (RowId × Row)
  sequence : Option ℕ
  /-- Every number a row of the table has had. -/
  held : List ℕ
  /-- What the inserts made of the numbers that were left open, the latest first. -/
  numberings : List Numbering

/-- `integer_primary_key_column_index`. -/
def integerPrimaryKeyColumnIndex (schema : Sql.Schema) : Option ℕ :=
  if schema.withoutRowid then none
  else
    match schema.columns.zipIdx.filter fun entry => entry.1.primaryKey with
    | [(column,index)] =>
      if column.columnType=.integer ∧ column.primaryKeySortOrder≠some .desc then some index
      else none
    | _ => none

/-- `saturating_add(1)`. -/
def saturatingSucc (rowId : ℕ) : ℕ := min (rowId+1) (2^64-1)

namespace WritableTable

/-- The numbers of the rows. -/
def rowIds (table : WritableTable) : List ℕ := table.rows.map Prod.fst

/-- The largest number, zero without rows. -/
def largestRowId (table : WritableTable) : ℕ := table.rowIds.max?.getD 0

/-- The number of the last row, zero without rows. -/
def lastRowId (table : WritableTable) : ℕ := table.rowIds.getLast?.getD 0

/-- `next_row_id_for_insert`. -/
def nextRowIdForInsert (table : WritableTable) : ℕ :=
  if table.autoincrement then saturatingSucc (table.sequence.getD 0)
  else saturatingSucc table.largestRowId

/-- The row leaves its number open. -/
def leavesOpen (table : WritableTable) (row : Row) : Bool :=
  match integerPrimaryKeyColumnIndex table.schema with
  | some index => row[index]?==some .null
  | none => true

/-- The number of a row that is inserted, and the row with it; without a column that stands for
it the number comes after a given one. -/
def chooseRowId (table : WritableTable) (before : ℕ) (row : Row) :
    Except DbError (ℕ × Row) :=
  match integerPrimaryKeyColumnIndex table.schema with
  | some index =>
    match row[index]? with
    | some (.integer value) =>
      if 0 ≤ value.toInt then .ok (value.toInt.toNat,row)
      else .error (.storage "sqlite rowid must be a non-negative INTEGER")
    | some .null =>
      if table.nextRowIdForInsert < 2^63 then
        .ok (table.nextRowIdForInsert,
          row.set index (.integer (Int64.ofNat table.nextRowIdForInsert)))
      else .error (.storage "sqlite rowid does not fit in i64")
    | some value =>
      .error (.storage s!"sqlite rowid column must be INTEGER, got {Sql.typeName value}")
    | none => .error (.storage "sqlite row is missing rowid column")
  | none => .ok (saturatingSucc before,row)

/-- `sort_by_key` over the numbers. -/
def sortByRowId (rows : List (RowId × Row)) : List (RowId × Row) :=
  rows.insertionSort fun left right => left.1 ≤ right.1

/-- The table with another entry about a number left open. -/
def note (table : WritableTable) (assigned : Option ℕ) : WritableTable :=
  { table with numberings :=
      ⟨assigned,table.autoincrement,table.rowIds,table.held⟩ :: table.numberings }

/-- The table with a row more, and its `sqlite_sequence` entry raised to the row's number. -/
def push (table : WritableTable) (rowId : ℕ) (row : Row) : WritableTable :=
  { table with
    rows := sortByRowId (table.rows++[(rowId,row)])
    sequence :=
      if table.autoincrement then some (max (table.sequence.getD 0) rowId) else table.sequence
    held := rowId :: table.held }

/-- The place of a row. -/
def position (table : WritableTable) (rowId : ℕ) : Except DbError ℕ :=
  match table.rows.findIdx? fun row => row.1==rowId with
  | some index => .ok index
  | none => .error (.storage s!"unknown rowid {rowId} on table {table.schema.name}")

/-- The number an updated row gets: the value of the first integer column of the primary key. -/
def updatedRowId (table : WritableTable) (rowId : ℕ) (row : Row) : Except DbError ℕ :=
  match table.schema.columns.findIdx? fun column =>
      column.primaryKey && column.columnType==.integer with
  | some index =>
    match row[index]? with
    | some (.integer value) =>
      if 0 ≤ value.toInt then .ok value.toInt.toNat
      else .error (.storage "sqlite rowid must be a non-negative INTEGER")
    | some value =>
      .error (.storage s!"sqlite rowid column must be INTEGER, got {Sql.typeName value}")
    | none => .error (.storage "sqlite row is missing rowid column")
  | none => .ok rowId

/-- The table with a row moved to a number and changed. -/
def move (table : WritableTable) (position : ℕ) (rowId : ℕ) (row : Row) : WritableTable :=
  { table with
    rows := sortByRowId (table.rows.set position (rowId,row))
    held := rowId :: table.held }

end WritableTable

/-! ## Checks -/

/-- What the checks of a row depend on. -/
structure RowChecks where
  expressions : Sql.Expressions
  caseSensitiveLike : Bool
  ignoreCheckConstraints : Bool
  /-- `validate_unique_indexes_for_row`. -/
  uniqueIndexes : Sql.Schema → List (RowId × Row) → Row → Except DbError Unit

namespace RowChecks

variable (checks : RowChecks)

/-- The types of the values and the check constraints. -/
def values (schema : Sql.Schema) (row : Row) : Except DbError Unit := do
  schema.validateRowValues row
  if checks.ignoreCheckConstraints then .ok ()
  else schema.validateCheckConstraints checks.expressions row checks.caseSensitiveLike

/-- All checks of a row beside others. -/
def row (schema : Sql.Schema) (others existing : List (RowId × Row)) (row : Row) :
    Except DbError Unit := do
  checks.values schema row
  schema.validatePrimaryKeyUniqueness checks.expressions row (others.map Prod.snd)
  checks.uniqueIndexes schema existing row

end RowChecks

/-! ## Inserts and triggers -/

/-- A row with its number, and whether the number was left open. -/
structure NumberedRow where
  leftOpen : Bool
  rowId : ℕ
  row : Row

/-- Choose the number of a row. -/
def takeRowId (before : WritableTable → ℕ) (row : Row) : Eff WritableTable NumberedRow := do
  let table ← Eff.get
  match table.chooseRowId (before table) row with
  | .ok chosen =>
    if table.leavesOpen row then do
      Eff.modify fun table => table.note (some chosen.1)
      pure ⟨true,chosen.1,chosen.2⟩
    else pure ⟨false,chosen.1,chosen.2⟩
  | .error error =>
    if table.leavesOpen row then do
      Eff.modify fun table => table.note none
      Eff.fail error
    else Eff.fail error

/-- Put a row into the table. -/
def storeRow (row : NumberedRow) : Eff WritableTable Unit := do
  if row.leftOpen then Eff.modify fun table => table.note (some row.rowId) else pure ()
  Eff.modify fun table => table.push row.rowId row.row

section Triggers

variable (checks : RowChecks)

/-- The checks of a row that is inserted. -/
def checkRow (row : Row) : Eff WritableTable Unit := do
  let table ← Eff.get
  Eff.lift (checks.row table.schema table.rows table.rows row)

/-- `insert_trigger_row`. -/
def insertTriggerRow (row : Row) : Eff WritableTable Unit := do
  let numbered ← takeRowId WritableTable.largestRowId row
  checkRow checks numbered.row
  storeRow numbered

/-- `delete_trigger_rows`, with the positions of the rows that match. -/
def deleteTriggerRows (positions : List ℕ) : Eff WritableTable Unit :=
  Eff.modify fun table => { table with
    rows := (table.rows.zipIdx.filter fun entry => entry.2∉positions).map Prod.fst }

/-- The update of one row of `update_trigger_rows`, which leaves the number alone. -/
def updateTriggerRow (update : ℕ × Row) : Eff WritableTable Unit := do
  let table ← Eff.get
  Eff.lift (checks.row table.schema (table.rows.eraseIdx update.1) table.rows update.2)
  Eff.modify fun table => { table with
    rows := table.rows.modify update.1 fun row => (row.1,update.2) }

/-- What a statement of a trigger does to the table, with the rows and positions its expressions
have come to. -/
inductive TriggerAction where
  | insert (row : Row)
  | delete (positions : List ℕ)
  | update (updates : List (ℕ × Row))
  | raise (error : DbError)

/-- `execute_simple_trigger_inserts`, one statement. -/
def TriggerAction.run : TriggerAction → Eff WritableTable Unit
  | .insert row => insertTriggerRow checks row
  | .delete positions => deleteTriggerRows positions
  | .update updates => Eff.forEach updates (updateTriggerRow checks)
  | .raise error => Eff.fail error

/-- The statements of the triggers that fire, one after the other. -/
def runActions : List TriggerAction → Eff WritableTable Unit
  | [] => pure ()
  | action :: actions => do
    action.run checks
    runActions actions

/-! ## Statements -/

/-- The triggers around a change of a row. -/
structure Triggers where
  before : List TriggerAction
  after : List TriggerAction

/-- A change of a row between its triggers. -/
def withTriggers {α : Type} (triggers : Triggers) (start : Eff WritableTable α)
    (finish : α → Eff WritableTable Unit) : Eff WritableTable α := do
  let begun ← start
  runActions checks triggers.before
  finish begun
  runActions checks triggers.after
  pure begun

/-- `insert_row` up to its triggers. -/
def startInsert (row : Row) : Eff WritableTable NumberedRow := do
  let numbered ← takeRowId WritableTable.lastRowId row
  checkRow checks numbered.row
  pure numbered

/-- `insert_row` between its triggers. -/
def finishInsert (numbered : NumberedRow) : Eff WritableTable Unit := do
  checkRow checks numbered.row
  storeRow numbered

/-- `insert_row`. -/
def insertRow (triggers : Triggers) (row : Row) : Eff WritableTable NumberedRow :=
  withTriggers checks triggers (startInsert checks row) (finishInsert checks)

/-- `update_row_with_columns` up to its triggers: the number the row will have. -/
def startUpdate (rowId : ℕ) (row : Row) : Eff WritableTable ℕ := do
  let table ← Eff.get
  Eff.lift (checks.values table.schema row)
  let _ ← Eff.lift (table.position rowId)
  Eff.lift (table.updatedRowId rowId row)

/-- `update_row_with_columns` between its triggers. -/
def finishUpdate (rowId : ℕ) (row : Row) (target : ℕ) : Eff WritableTable Unit := do
  let table ← Eff.get
  Eff.lift (checks.values table.schema row)
  let position ← Eff.lift (table.position rowId)
  Eff.modify fun table => table.move position target row

/-- `update_row_with_columns`. -/
def updateRow (triggers : Triggers) (rowId : ℕ) (row : Row) : Eff WritableTable ℕ :=
  withTriggers checks triggers (startUpdate checks rowId row) (finishUpdate checks rowId row)

/-- The place of the row that `delete_row` is about. -/
def findRow (rowId : ℕ) : Eff WritableTable ℕ := do
  let table ← Eff.get
  Eff.lift (table.position rowId)

/-- `delete_row` between its triggers. -/
def finishDelete (rowId : ℕ) (_ : ℕ) : Eff WritableTable Unit := do
  let position ← findRow rowId
  Eff.modify fun table => { table with rows := table.rows.eraseIdx position }

/-- `delete_row`. -/
def deleteRow (triggers : Triggers) (rowId : ℕ) : Eff WritableTable ℕ :=
  withTriggers checks triggers (findRow rowId) (finishDelete rowId)

end Triggers

end RustSql.Sqlite3
