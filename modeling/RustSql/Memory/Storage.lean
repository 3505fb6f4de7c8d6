import Mathlib.Data.Finset.Image
import Std.Data.ExtTreeMap
import RustSql.Engine.Traits
import RustSql.Sql.SchemaChanges

/-!
# The storage in memory

The whole database stands in maps. A transaction writes an undo log: every change leaves a
record, and a rollback undoes the records, the newest first. Savepoints are lengths of the
log. What a call has changed before it failed stays changed.
-/

namespace RustSql.Memory

open RustSql.Engine RustSql.Sql RustSql.V2

/-- `IndexState`; the entries pair a key with the number of a row that has it. -/
structure IndexState where
  indexMeta : IndexMeta
  entries : Finset (List Value × RowId)

/-- The rows of a table under their numbers. -/
abbrev RowMap := Std.ExtTreeMap RowId Row

/-- The indexes of a table under their names. -/
abbrev IndexMap := Std.ExtTreeMap String IndexState

/-- `UndoOp`. -/
inductive UndoOp where
  | dropSchema (table : String)
  | dropIndex (table index : String)
  | restoreTable (schema : Schema) (rows : RowMap) (indexes : IndexMap) (nextRowId : Option ℕ)
  | restoreIndex (table index : String) (state : IndexState)
  | deleteRow (table : String) (rowId : RowId)
  | reinsertRow (table : String) (rowId : RowId) (row : Row)
  | restoreRow (table : String) (rowId : RowId) (row : Row)

/-- `Savepoint`: its name and the length of the log when it was set. -/
structure Savepoint where
  name : String
  undoLen : ℕ

/-- `ActiveTransaction`; the log begins with the oldest record. -/
structure ActiveTransaction where
  id : TransactionId
  undoLog : List UndoOp
  savepoints : List Savepoint

/-- `MemoryStorageInner`, with the parser of its expressions. -/
structure MemoryStorage where
  expressions : Expressions
  names : ExpressionNames
  schemas : Std.ExtTreeMap String Schema
  rows : Std.ExtTreeMap String RowMap
  indexes : Std.ExtTreeMap String IndexMap
  nextRowIds : Std.ExtTreeMap String ℕ
  nextTxnId : TransactionId
  activeTxn : Option ActiveTransaction
  ignoreCheckConstraints : Bool
  caseSensitiveLike : Bool

/-- `MemoryStorage::new`. -/
def MemoryStorage.new (expressions : Expressions) (names : ExpressionNames) :
    MemoryStorage where
  expressions := expressions
  names := names
  schemas := ∅
  rows := ∅
  indexes := ∅
  nextRowIds := ∅
  nextTxnId := 1
  activeTxn := none
  ignoreCheckConstraints := false
  caseSensitiveLike := false

/-! ## Keys -/

/-- `column_position`. -/
def columnPosition (schema : Schema) (column : String) : Except DbError ℕ :=
  match schema.columns.findIdx? fun entry => entry.name==column with
  | some position => .ok position
  | none => .error (.storage s!"unknown column {column} on table {schema.name}")

/-- The value of one column in a key. -/
def projectColumn (schema : Schema) (row : Row) (column : String) : Except DbError Value := do
  let position ← columnPosition schema column
  match row[position]? with
  | some value => .ok value
  | none => .error (.storage s!"row for table {schema.name} is missing column {column}")

/-- `project_index_key`. -/
def projectIndexKey (schema : Schema) (index : IndexMeta) (row : Row) :
    Except DbError (List Value) :=
  index.columns.mapM (projectColumn schema row)

/-- `is_primary_key_backing_index`. -/
def isPrimaryKeyBackingIndex (schema : Schema) (index : IndexMeta) (table : String) : Bool :=
  schema.primaryKeyConstraint.any fun columns =>
    s!"sqlite_autoindex_{table}_".toList.isPrefixOf index.name.toList && columns==index.columns

/-- `integer_primary_key_column_index`: the column that is another name of the row's number. -/
def integerPrimaryKeyColumnIndex (schema : Schema) : Option ℕ :=
  if schema.withoutRowid then none
  else
    match schema.columns.zipIdx.filter fun entry => entry.1.primaryKey with
    | [(column,index)] =>
      if column.columnType=.integer ∧ column.primaryKeySortOrder≠some .desc then some index
      else none
    | _ => none

/-- The unique index has the key already, under another row than the given one. -/
def IndexState.conflicts (index : IndexState) (key : List Value) (own : Option RowId) : Bool :=
  index.indexMeta.enforcesUniqueKey key &&
    decide (∃ entry∈index.entries, entry.1=key ∧ own≠some entry.2)

/-- The message of a unique index. -/
def IndexState.violated (index : IndexState) : DbError :=
  .storage s!"unique index {index.indexMeta.name} constraint failed"

/-- The step of `add_row_to_indexes`. -/
def IndexState.addRow (schema : Schema) (rowId : RowId) (row : Row) (index : IndexState) :
    Except DbError Unit × IndexState :=
  match projectIndexKey schema index.indexMeta row with
  | .error error => (.error error,index)
  | .ok key =>
    if index.conflicts key none then (.error index.violated,index)
    else (.ok (),{ index with entries := insert (key,rowId) index.entries })

/-- The step of `remove_row_from_indexes`. -/
def IndexState.removeRow (schema : Schema) (rowId : RowId) (row : Row) (index : IndexState) :
    Except DbError Unit × IndexState :=
  match projectIndexKey schema index.indexMeta row with
  | .error error => (.error error,index)
  | .ok key => (.ok (),{ index with entries := index.entries.erase (key,rowId) })

/-- The entries of some rows put into an index, up to the first row without a key. -/
def fillEntries (schema : Schema) (index : IndexMeta) :
    List (RowId × Row) → Finset (List Value × RowId) →
      Except DbError Unit × Finset (List Value × RowId)
  | [], entries => (.ok (),entries)
  | (rowId,row)::rest, entries =>
    match projectIndexKey schema index row with
    | .error error => (.error error,entries)
    | .ok key => fillEntries schema index rest (insert (key,rowId) entries)

/-- The step of `rebuild_indexes_for_schema`. -/
def IndexState.rebuild (schema : Schema) (rows : RowMap) (index : IndexState) :
    Except DbError Unit × IndexState :=
  let filled := fillEntries schema index.indexMeta rows.toList ∅
  (filled.1,{ index with entries := filled.2 })

/-- The entries of a new index. -/
def newEntries (schema : Schema) (index : IndexMeta) :
    List (RowId × Row) → Finset (List Value × RowId) →
      Except DbError (Finset (List Value × RowId))
  | [], entries => .ok entries
  | (rowId,row)::rest, entries => do
    let key ← projectIndexKey schema index row
    if (IndexState.mk index entries).conflicts key none then
      .error (IndexState.mk index entries).violated
    else newEntries schema index rest (insert (key,rowId) entries)

/-- An index of a table after a column got another name. -/
def IndexState.renameColumn (oldName newName : String) (index : IndexState) : IndexState :=
  { index with
    indexMeta := { index.indexMeta with
      columns := index.indexMeta.columns.map (renamed oldName newName) } }

/-- Change the indexes of a table one after the other, up to the first one that fails. -/
def changeEach (change : IndexState → Except DbError Unit × IndexState) :
    List (String × IndexState) → IndexMap → Except DbError Unit × IndexMap
  | [], indexes => (.ok (),indexes)
  | (name,index)::rest, indexes =>
    let changed := change index
    match changed.1 with
    | .error error => (.error error,indexes.insert name changed.2)
    | .ok () => changeEach change rest (indexes.insert name changed.2)

/-- The check of a row's keys in the indexes that pass a test. -/
def validateKeys (schema : Schema) (row : Row) (own : Option RowId) (test : IndexMeta → Bool)
    (indexes : IndexMap) : Except DbError Unit :=
  (indexes.toList.filter fun entry => test entry.2.indexMeta).forM fun entry => do
    let key ← projectIndexKey schema entry.2.indexMeta row
    if entry.2.conflicts key own then .error entry.2.violated else .ok ()

namespace MemoryStorage

/-! ## Parts of the state -/

/-- The rows of a table, none when there is no such table. -/
def tableRows (storage : MemoryStorage) (table : String) : RowMap :=
  storage.rows[table]?.getD ∅

/-- The indexes of a table. -/
def tableIndexes (storage : MemoryStorage) (table : String) : IndexMap :=
  storage.indexes[table]?.getD ∅

/-- The checks a row passes before its keys are looked up. -/
def validateRow (storage : MemoryStorage) (schema : Schema) (row : Row) (existing : List Row) :
    Except DbError Unit := do
  schema.validateRowValues row
  if storage.ignoreCheckConstraints then .ok ()
  else schema.validateCheckConstraints storage.expressions row storage.caseSensitiveLike
  schema.validatePrimaryKeyUniqueness storage.expressions row existing

/-- `validate_transaction`. -/
def validateTransaction (tid : TransactionId) : Eff MemoryStorage Unit := do
  let storage ← Eff.get
  match storage.activeTxn with
  | some active =>
    if active.id=tid then pure ()
    else Eff.fail (.txn
      s!"transaction {tid} is not active; current transaction is {active.id}")
  | none => Eff.fail (.txn "no active transaction")

/-- Change the active transaction. -/
def modifyActive (f : ActiveTransaction → ActiveTransaction) : Eff MemoryStorage Unit :=
  Eff.modify fun storage => { storage with activeTxn := storage.activeTxn.map f }

/-- `record_undo`. -/
def recordUndo (undo : UndoOp) : Eff MemoryStorage Unit :=
  modifyActive fun active => { active with undoLog := active.undoLog++[undo] }

/-- `require_schema`. -/
def requireSchema (table : String) : Eff MemoryStorage Schema := do
  let storage ← Eff.get
  match storage.schemas[table]? with
  | some schema => pure schema
  | none => Eff.fail (.storage s!"unknown table: {table}")

/-- `next_row_id`. -/
def nextRowId (table : String) : Eff MemoryStorage RowId := do
  let storage ← Eff.get
  let next := storage.nextRowIds[table]?.getD 1
  Eff.modify fun storage => { storage with nextRowIds := storage.nextRowIds.insert table (next+1) }
  pure next

/-- Keep the counter of a table above a row's number. -/
def raiseNextRowId (table : String) (rowId : RowId) : Eff MemoryStorage Unit :=
  Eff.modify fun storage =>
    { storage with
      nextRowIds := storage.nextRowIds.insert table
        (max (storage.nextRowIds[table]?.getD 0) (rowId+1)) }

/-- Put a row into its table. -/
def putRow (table : String) (rowId : RowId) (row : Row) : Eff MemoryStorage Unit :=
  Eff.modify fun storage =>
    { storage with
      rows := storage.rows.insert table ((storage.tableRows table).insert rowId row) }

/-- Take a row out of its table. -/
def takeRow (table : String) (rowId : RowId) : Eff MemoryStorage Unit :=
  Eff.modify fun storage =>
    { storage with
      rows := storage.rows.modify table fun rows => rows.erase rowId }

/-- Replace a row or put one, where the table has a map of rows. -/
def replaceRow (table : String) (rowId : RowId) (row : Row) : Eff MemoryStorage Unit :=
  Eff.modify fun storage =>
    { storage with
      rows := storage.rows.modify table fun rows => rows.insert rowId row }

/-- Change the indexes of a table, keeping what was changed when the change fails. -/
def changeIndexes (table : String)
    (change : IndexState → Except DbError Unit × IndexState) : Eff MemoryStorage Unit := do
  let storage ← Eff.get
  match storage.indexes[table]? with
  | none => pure ()
  | some indexes => do
    let changed := changeEach change indexes.toList indexes
    Eff.modify fun storage =>
      { storage with indexes := storage.indexes.insert table changed.2 }
    Eff.lift changed.1

/-- `add_row_to_indexes`. -/
def addRowToIndexes (table : String) (rowId : RowId) (row : Row) : Eff MemoryStorage Unit := do
  let schema ← requireSchema table
  changeIndexes table (IndexState.addRow schema rowId row)

/-- `remove_row_from_indexes`. -/
def removeRowFromIndexes (table : String) (rowId : RowId) (row : Row) :
    Eff MemoryStorage Unit := do
  let schema ← requireSchema table
  changeIndexes table (IndexState.removeRow schema rowId row)

/-- `rebuild_indexes_for_schema`. -/
def rebuildIndexes (table : String) (schema : Schema) (rows : RowMap) :
    Eff MemoryStorage Unit :=
  changeIndexes table (IndexState.rebuild schema rows)

/-- Write all that a table has. -/
def putTable (table : String) (schema : Schema) (rows : RowMap) (indexes : IndexMap)
    (nextRowId : Option ℕ) : Eff MemoryStorage Unit :=
  Eff.modify fun storage =>
    { storage with
      schemas := storage.schemas.insert table schema
      rows := storage.rows.insert table rows
      indexes := storage.indexes.insert table indexes
      nextRowIds := match nextRowId with
        | some next => storage.nextRowIds.insert table next
        | none => storage.nextRowIds }

/-- Remove all that a table has. -/
def removeTable (table : String) : Eff MemoryStorage Unit :=
  Eff.modify fun storage =>
    { storage with
      schemas := storage.schemas.erase table
      rows := storage.rows.erase table
      indexes := storage.indexes.erase table
      nextRowIds := storage.nextRowIds.erase table }

/-- Replace the schema of a table. -/
def putSchema (table : String) (schema : Schema) : Eff MemoryStorage Unit :=
  Eff.modify fun storage => { storage with schemas := storage.schemas.insert table schema }

/-- Replace the indexes of a table. -/
def putIndexes (table : String) (f : IndexMap → IndexMap) : Eff MemoryStorage Unit :=
  Eff.modify fun storage =>
    { storage with indexes := storage.indexes.insert table (f (storage.tableIndexes table)) }

/-- The record that brings a table back as it is. -/
def savedTable (storage : MemoryStorage) (table : String) (schema : Schema) : UndoOp :=
  .restoreTable schema (storage.tableRows table) (storage.tableIndexes table)
    storage.nextRowIds[table]?

/-- `apply_undo`. -/
def applyUndo : UndoOp → Eff MemoryStorage Unit
  | .dropSchema table => removeTable table
  | .dropIndex table index =>
    Eff.modify fun storage =>
      { storage with indexes := storage.indexes.modify table fun indexes => indexes.erase index }
  | .restoreTable schema rows indexes nextRowId =>
    putTable schema.name schema rows indexes nextRowId
  | .restoreIndex table index state =>
    putIndexes table fun indexes => indexes.insert index state
  | .deleteRow table rowId => do
    let storage ← Eff.get
    match (storage.tableRows table)[rowId]? with
    | none => pure ()
    | some row => do
      takeRow table rowId
      removeRowFromIndexes table rowId row
  | .reinsertRow table rowId row => do
    putRow table rowId row
    raiseNextRowId table rowId
    addRowToIndexes table rowId row
  | .restoreRow table rowId row => do
    let storage ← Eff.get
    replaceRow table rowId row
    match (storage.tableRows table)[rowId]? with
    | some replaced => removeRowFromIndexes table rowId replaced
    | none => pure ()
    raiseNextRowId table rowId
    addRowToIndexes table rowId row

/-! ## Tables -/

/-- `create_schema`. -/
def createSchema (tid : TransactionId) (schema : Schema) : Eff MemoryStorage Unit := do
  validateTransaction tid
  let storage ← Eff.get
  if (storage.schemas[schema.name]?).isSome then
    Eff.fail (.storage s!"table already exists: {schema.name}")
  else do
    recordUndo (.dropSchema schema.name)
    putTable schema.name schema (storage.tableRows schema.name)
      (storage.tableIndexes schema.name) (some (storage.nextRowIds[schema.name]?.getD 1))

/-- `drop_schema`. -/
def dropSchema (tid : TransactionId) (table : String) : Eff MemoryStorage Unit := do
  validateTransaction tid
  let schema ← requireSchema table
  let storage ← Eff.get
  removeTable table
  recordUndo (storage.savedTable table schema)

/-- `replace_schema`. -/
def replaceSchema (tid : TransactionId) (schema : Schema) : Eff MemoryStorage Unit := do
  validateTransaction tid
  let oldSchema ← requireSchema schema.name
  let storage ← Eff.get
  recordUndo (storage.savedTable schema.name oldSchema)
  putSchema schema.name schema

/-- Change the schemas of other tables, a record for each of them. -/
def changeOthers (affected : Schema → Bool) (change : Schema → Schema) (table : String) :
    Eff MemoryStorage Unit := do
  let storage ← Eff.get
  Eff.forEach (storage.schemas.toList.filter fun entry => entry.1≠table && affected entry.2)
    fun entry => do
      let storage ← Eff.get
      recordUndo (storage.savedTable entry.1 entry.2)
      putSchema entry.1 (change entry.2)

/-- `rename_schema`. -/
def renameSchema (tid : TransactionId) (oldName newName : String) : Eff MemoryStorage Unit := do
  validateTransaction tid
  let storage ← Eff.get
  if (storage.schemas[newName]?).isSome then
    Eff.fail (.storage s!"table already exists: {newName}")
  else do
    let schema ← requireSchema oldName
    removeTable oldName
    recordUndo (storage.savedTable oldName schema)
    recordUndo (.dropSchema newName)
    putTable newName { schema with name := newName } (storage.tableRows oldName)
      (storage.tableIndexes oldName) storage.nextRowIds[oldName]?
    changeOthers
      (fun other => other.allForeignKeys.any fun foreignKey => foreignKey.refTable==oldName)
      (Schema.renameForeignKeyRefTable oldName newName) newName
    putSchema newName (({ schema with name := newName } : Schema).renameForeignKeyRefTable
      oldName newName)

/-- The rows of a table with one more value, as `add_column` checks them. -/
def widenedRows (storage : MemoryStorage) (schema : Schema) (value : Value) (rows : RowMap) :
    Except DbError (List (RowId × Row)) :=
  rows.toList.mapM fun entry => do
    let candidate ← schema.normalizeStrictRow storage.expressions (entry.2++[value])
    schema.validateRowValues candidate
    schema.validateCheckConstraints storage.expressions candidate storage.caseSensitiveLike
    .ok (entry.1,candidate)

/-- `add_column`. -/
def addColumn (tid : TransactionId) (table : String) (column : ColumnDef) :
    Eff MemoryStorage Unit := do
  validateTransaction tid
  let schema ← requireSchema table
  if schema.hasColumn column.name then
    Eff.fail (.storage s!"column already exists on table {table}: {column.name}")
  else do
    let storage ← Eff.get
    let value ← Eff.lift (column.evaluateDefault storage.expressions)
    let updated := { schema with columns := schema.columns++[column] }
    Eff.lift (updated.validateConstraintsMetadata storage.names)
    let widened ← Eff.lift (storage.widenedRows updated value (storage.tableRows table))
    recordUndo (storage.savedTable table schema)
    putSchema table updated
    Eff.modify fun storage =>
      { storage with
        rows := storage.rows.modify table fun rows => rows.insertMany widened }

/-- `rename_column`. -/
def renameColumn (tid : TransactionId) (table oldName newName : String) :
    Eff MemoryStorage Unit := do
  validateTransaction tid
  let schema ← requireSchema table
  if !schema.hasColumn oldName then
    Eff.fail (.storage s!"unknown column {oldName} on table {table}")
  else if schema.hasColumn newName then
    Eff.fail (.storage s!"column already exists on table {table}: {newName}")
  else do
    let storage ← Eff.get
    recordUndo (storage.savedTable table schema)
    let updated := (schema.renameColumnReferences storage.names oldName newName).renameForeignKeyRefColumn
      table oldName newName
    Eff.lift (updated.validateConstraintsMetadata storage.names)
    putSchema table updated
    Eff.modify fun storage =>
      { storage with
        indexes := storage.indexes.modify table fun indexes =>
          indexes.map fun _ index => index.renameColumn oldName newName }
    changeOthers
      (fun other => other.allForeignKeys.any fun foreignKey =>
        foreignKey.refTable==table && foreignKey.hasReferencedColumn oldName)
      (Schema.renameForeignKeyRefColumn table oldName newName) table

/-- `drop_column`; a row that is too short makes the removal panic. -/
def dropColumn (tid : TransactionId) (table oldName : String) : Eff MemoryStorage Unit := do
  validateTransaction tid
  let schema ← requireSchema table
  let storage ← Eff.get
  let dropped ← Eff.lift (schema.dropColumn storage.names oldName)
  recordUndo (storage.savedTable table schema)
  if (storage.tableRows table).toList.any fun entry => entry.2.length ≤ dropped.2 then Eff.hang
  else do
    let updatedRows := (storage.tableRows table).map fun _ row => row.eraseIdx dropped.2
    putSchema table dropped.1
    Eff.modify fun storage => { storage with rows := storage.rows.insert table updatedRows }
    rebuildIndexes table dropped.1 updatedRows

/-! ## Rows -/

/-- The number of a row and the row as it is stored. -/
def resolveRowId (schema : Schema) (row : Row) (fresh : Eff MemoryStorage RowId) :
    Eff MemoryStorage (RowId × Row) :=
  match integerPrimaryKeyColumnIndex schema with
  | none => do
    let rowId ← fresh
    pure (rowId,row)
  | some index =>
    match row[index]? with
    | some (.integer value) =>
      if 0 ≤ value.toInt then pure (value.toInt.toNat,row)
      else Eff.fail (.storage "sqlite rowid must be a non-negative INTEGER")
    | some .null => do
      let rowId ← fresh
      if rowId < 2^63 then pure (rowId,row.set index (.integer (Int64.ofNat rowId)))
      else Eff.fail (.storage "sqlite rowid does not fit in i64")
    | some value =>
      Eff.fail (.storage s!"sqlite rowid column must be INTEGER, got {typeName value}")
    | none => Eff.fail (.storage "sqlite row is missing rowid column")

/-- `insert_row`. -/
def insertRow (tid : TransactionId) (table : String) (row : Row) : Eff MemoryStorage RowId := do
  validateTransaction tid
  let schema ← requireSchema table
  if row.length≠schema.columns.length then
    Eff.fail (.storage
      s!"insert into {table} expected {schema.columns.length} values but got {row.length}")
  else do
    let resolved ← resolveRowId schema row (nextRowId table)
    let storage ← Eff.get
    Eff.lift (storage.validateRow schema resolved.2
      ((storage.tableRows table).toList.map Prod.snd))
    Eff.lift (validateKeys schema resolved.2 none
      (fun index => !isPrimaryKeyBackingIndex schema index table) (storage.tableIndexes table))
    putRow table resolved.1 resolved.2
    addRowToIndexes table resolved.1 resolved.2
    recordUndo (.deleteRow table resolved.1)
    pure resolved.1

/-- `delete_row`. A row that is not there is no error. -/
def deleteRow (tid : TransactionId) (table : String) (rowId : RowId) :
    Eff MemoryStorage Unit := do
  validateTransaction tid
  let storage ← Eff.get
  match (storage.tableRows table)[rowId]? with
  | none => pure ()
  | some row => do
    takeRow table rowId
    removeRowFromIndexes table rowId row
    recordUndo (.reinsertRow table rowId row)

/-- `update_row`. A row that is not there is no error. -/
def updateRow (tid : TransactionId) (table : String) (rowId : RowId) (row : Row) :
    Eff MemoryStorage Unit := do
  validateTransaction tid
  let schema ← requireSchema table
  if row.length≠schema.columns.length then
    Eff.fail (.storage
      s!"update {table} expected {schema.columns.length} values but got {row.length}")
  else do
    let storage ← Eff.get
    match (storage.tableRows table)[rowId]? with
    | none => pure ()
    | some existing => do
      let target ← resolveRowId schema row (pure rowId)
      if existing=target.2 ∧ target.1=rowId then pure ()
      else do
        Eff.lift (storage.validateRow schema target.2
          (((storage.tableRows table).toList.filter fun entry => entry.1≠rowId).map Prod.snd))
        Eff.lift (validateKeys schema target.2 (some rowId) (fun _ => true)
          (storage.tableIndexes table))
        removeRowFromIndexes table rowId existing
        if target.1≠rowId ∧ ((storage.tableRows table)[target.1]?).isSome then
          Eff.fail (.storage s!"duplicate rowid {target.1} on table {table}")
        else do
          takeRow table rowId
          putRow table target.1 target.2
          raiseNextRowId table target.1
          addRowToIndexes table target.1 target.2
          recordUndo (.restoreRow table rowId existing)

/-- `get_row`. -/
def getRow (tid : TransactionId) (table : String) (rowId : RowId) :
    Eff MemoryStorage (Option Row) := do
  validateTransaction tid
  let storage ← Eff.get
  pure (storage.tableRows table)[rowId]?

/-! ## Indexes -/

/-- `create_index`. -/
def createIndex (tid : TransactionId) (table : String) (index : IndexMeta) :
    Eff MemoryStorage Unit := do
  validateTransaction tid
  let schema ← requireSchema table
  let storage ← Eff.get
  if ((storage.tableIndexes table)[index.name]?).isSome then
    Eff.fail (.storage s!"index already exists: {index.name}")
  else if index.columns=[] then Eff.fail (.storage s!"index {index.name} has no columns")
  else do
    let entries ← Eff.lift (newEntries schema index (storage.tableRows table).toList ∅)
    recordUndo (.dropIndex table index.name)
    putIndexes table fun indexes => indexes.insert index.name ⟨index,entries⟩

/-- `drop_index`. -/
def dropIndex (tid : TransactionId) (table index : String) : Eff MemoryStorage Unit := do
  validateTransaction tid
  let storage ← Eff.get
  match (storage.tableIndexes table)[index]? with
  | none => Eff.fail (.storage s!"unknown index {index} on table {table}")
  | some removed => do
    putIndexes table fun indexes => indexes.erase index
    recordUndo (.restoreIndex table index removed)

/-! ## Transactions -/

/-- `begin`. -/
def begin' : Eff MemoryStorage TransactionId := do
  let storage ← Eff.get
  match storage.activeTxn with
  | some active => Eff.fail (.txn s!"transaction {active.id} is already active")
  | none => do
    Eff.modify fun storage =>
      { storage with
        nextTxnId := storage.nextTxnId+1
        activeTxn := some ⟨storage.nextTxnId,[],[]⟩ }
    pure storage.nextTxnId

/-- `commit`. -/
def commit (tid : TransactionId) : Eff MemoryStorage Unit := do
  validateTransaction tid
  Eff.modify fun storage => { storage with activeTxn := none }

/-- `rollback`. -/
def rollback (tid : TransactionId) : Eff MemoryStorage Unit := do
  let storage ← Eff.get
  match storage.activeTxn with
  | none => Eff.fail (.txn "no active transaction")
  | some active =>
    if active.id≠tid then Eff.fail (.txn s!"transaction {tid} is not active")
    else do
      Eff.modify fun storage => { storage with activeTxn := none }
      Eff.forEach active.undoLog.reverse applyUndo

/-- The savepoints of the active transaction. -/
def savepoints (storage : MemoryStorage) : List Savepoint :=
  match storage.activeTxn with
  | some active => active.savepoints
  | none => []

/-- The log of the active transaction. -/
def undoLog (storage : MemoryStorage) : List UndoOp :=
  match storage.activeTxn with
  | some active => active.undoLog
  | none => []

/-- `savepoint`. -/
def savepoint (tid : TransactionId) (name : String) : Eff MemoryStorage Unit := do
  validateTransaction tid
  modifyActive fun active =>
    { active with savepoints := active.savepoints++[⟨name,active.undoLog.length⟩] }

/-- The position of the innermost savepoint of a name. -/
def findSavepoint (name : String) : Eff MemoryStorage ℕ := do
  let storage ← Eff.get
  match innermost (storage.savepoints.map Savepoint.name) name with
  | some index => pure index
  | none => Eff.fail (.txn s!"no such savepoint: {name}")

/-- `rollback_to_savepoint`. -/
def rollbackToSavepoint (tid : TransactionId) (name : String) : Eff MemoryStorage Unit := do
  validateTransaction tid
  let index ← findSavepoint name
  let storage ← Eff.get
  let undoLen := (storage.savepoints[index]?.map Savepoint.undoLen).getD 0
  modifyActive fun active =>
    { active with
      undoLog := active.undoLog.take undoLen
      savepoints := active.savepoints.take (index+1) }
  Eff.forEach (storage.undoLog.drop undoLen).reverse applyUndo

/-- `release_savepoint`. -/
def releaseSavepoint (tid : TransactionId) (name : String) : Eff MemoryStorage Unit := do
  validateTransaction tid
  let index ← findSavepoint name
  modifyActive fun active => { active with savepoints := active.savepoints.take index }

end MemoryStorage

/-! ## Calls -/

/-- A call of the storage that can change it. -/
inductive StorageCall where
  | createSchema (tid : TransactionId) (schema : Schema)
  | dropSchema (tid : TransactionId) (table : String)
  | replaceSchema (tid : TransactionId) (schema : Schema)
  | renameSchema (tid : TransactionId) (oldName newName : String)
  | addColumn (tid : TransactionId) (table : String) (column : ColumnDef)
  | renameColumn (tid : TransactionId) (table oldName newName : String)
  | dropColumn (tid : TransactionId) (table oldName : String)
  | insertRow (tid : TransactionId) (table : String) (row : Row)
  | deleteRow (tid : TransactionId) (table : String) (rowId : RowId)
  | updateRow (tid : TransactionId) (table : String) (rowId : RowId) (row : Row)
  | createIndex (tid : TransactionId) (table : String) (index : IndexMeta)
  | dropIndex (tid : TransactionId) (table index : String)
  | begin
  | commit (tid : TransactionId)
  | rollback (tid : TransactionId)
  | savepoint (tid : TransactionId) (name : String)
  | rollbackToSavepoint (tid : TransactionId) (name : String)
  | releaseSavepoint (tid : TransactionId) (name : String)
  | setIgnoreCheckConstraints (enabled : Bool)
  | setCaseSensitiveLike (enabled : Bool)

/-- Make a call and forget what it returns. -/
def StorageCall.run : StorageCall → Eff MemoryStorage Unit
  | .createSchema tid schema => MemoryStorage.createSchema tid schema
  | .dropSchema tid table => MemoryStorage.dropSchema tid table
  | .replaceSchema tid schema => MemoryStorage.replaceSchema tid schema
  | .renameSchema tid oldName newName => MemoryStorage.renameSchema tid oldName newName
  | .addColumn tid table column => MemoryStorage.addColumn tid table column
  | .renameColumn tid table oldName newName =>
    MemoryStorage.renameColumn tid table oldName newName
  | .dropColumn tid table oldName => MemoryStorage.dropColumn tid table oldName
  | .insertRow tid table row => do
    let _ ← MemoryStorage.insertRow tid table row
    pure ()
  | .deleteRow tid table rowId => MemoryStorage.deleteRow tid table rowId
  | .updateRow tid table rowId row => MemoryStorage.updateRow tid table rowId row
  | .createIndex tid table index => MemoryStorage.createIndex tid table index
  | .dropIndex tid table index => MemoryStorage.dropIndex tid table index
  | .begin => do
    let _ ← MemoryStorage.begin'
    pure ()
  | .commit tid => MemoryStorage.commit tid
  | .rollback tid => MemoryStorage.rollback tid
  | .savepoint tid name => MemoryStorage.savepoint tid name
  | .rollbackToSavepoint tid name => MemoryStorage.rollbackToSavepoint tid name
  | .releaseSavepoint tid name => MemoryStorage.releaseSavepoint tid name
  | .setIgnoreCheckConstraints enabled =>
    Eff.modify fun storage => { storage with ignoreCheckConstraints := enabled }
  | .setCaseSensitiveLike enabled =>
    Eff.modify fun storage => { storage with caseSensitiveLike := enabled }

end RustSql.Memory
