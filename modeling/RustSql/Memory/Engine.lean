import RustSql.Memory.RowWrites
import RustSql.Sql.Statements

/-!
# The storage in memory behind the executor

The calls the executor makes of the storage in memory, and what those that only read give it
while the caller's transaction is active.
-/

namespace RustSql.Memory

open RustSql.Engine RustSql.Sql RustSql.V2

namespace MemoryStorage

/-- `get_schema`. -/
def getSchema (tid : TransactionId) (table : String) : Eff MemoryStorage (Option Schema) := do
  validateTransaction tid
  let storage ← Eff.get
  pure storage.schemas[table]?

/-- `list_schemas`. -/
def listSchemas (tid : TransactionId) : Eff MemoryStorage (List Schema) := do
  validateTransaction tid
  let storage ← Eff.get
  pure (storage.schemas.toList.map Prod.snd)

/-- `scan_rows`. -/
def scanRows (tid : TransactionId) (table : String) : Eff MemoryStorage (List (RowId × Row)) := do
  validateTransaction tid
  let storage ← Eff.get
  pure (storage.tableRows table).toList

/-- `list_indexes`. -/
def listIndexes (tid : TransactionId) (table : String) : Eff MemoryStorage (List IndexMeta) := do
  validateTransaction tid
  let storage ← Eff.get
  pure (storage.indexMetas table)

end MemoryStorage

instance instStorageEngine : StorageEngine MemoryStorage where
  createSchema := MemoryStorage.createSchema
  getSchema := MemoryStorage.getSchema
  listSchemas := MemoryStorage.listSchemas
  insertRow := MemoryStorage.insertRow
  getRow := MemoryStorage.getRow
  scanRows := MemoryStorage.scanRows
  deleteRow := MemoryStorage.deleteRow
  updateRow := MemoryStorage.updateRow
  updateRowWithColumns tid table rowId row _ := MemoryStorage.updateRow tid table rowId row
  createIndex := MemoryStorage.createIndex
  listAllIndexes := MemoryStorage.listIndexes
  begin' := MemoryStorage.begin'
  beginWithIsolation _ := MemoryStorage.begin'
  commit := MemoryStorage.commit
  rollback := MemoryStorage.rollback
  savepoint := MemoryStorage.savepoint
  rollbackToSavepoint := MemoryStorage.rollbackToSavepoint
  releaseSavepoint := MemoryStorage.releaseSavepoint
  caseSensitiveLike := MemoryStorage.caseSensitiveLike

/-! ## Calls that read -/

section Reads

variable {session : Session MemoryStorage} {tid : TransactionId}

/-- A call that reads the storage leaves the connection as it is. -/
theorem call_read {α : Type} {x : Eff MemoryStorage α} {value : α}
    (h : x session.storage=(.ok value,session.storage)) :
    call x session=(.ok value,session) := by
  unfold call Eff.zoom
  rw [h]

theorem query_ok {α : Type} {evaluate : Query MemoryStorage α} {value : α}
    (h : evaluate tid session.storage=.ok value) :
    query tid evaluate session=(.ok value,session) := by
  unfold query Eff.reads
  dsimp only
  rw [h]

theorem query_failed {α : Type} {evaluate : Query MemoryStorage α} {error : DbError}
    (h : evaluate tid session.storage=.error error) :
    query tid evaluate session=(.err error,session) := by
  unfold query Eff.reads
  dsimp only
  rw [h]

theorem getSchema_eq (session : Session MemoryStorage) (hactive : session.storage.Active tid) (table : String) :
    call (StorageEngine.getSchema tid table) session=
      (.ok session.storage.schemas[table]?,session) :=
  call_read (Eff.bind_of_ok (validateTransaction_ok hactive))

theorem listSchemas_eq (session : Session MemoryStorage) (hactive : session.storage.Active tid) :
    call (StorageEngine.listSchemas tid) session=
      (.ok (session.storage.schemas.toList.map Prod.snd),session) :=
  call_read (Eff.bind_of_ok (validateTransaction_ok hactive))

theorem scanRows_eq (session : Session MemoryStorage) (hactive : session.storage.Active tid) (table : String) :
    call (StorageEngine.scanRows tid table) session=
      (.ok (session.storage.tableRows table).toList,session) :=
  call_read (Eff.bind_of_ok (validateTransaction_ok hactive))

theorem listIndexes_eq (session : Session MemoryStorage) (hactive : session.storage.Active tid) (table : String) :
    call (StorageEngine.listAllIndexes tid table) session=
      (.ok (session.storage.indexMetas table),session) :=
  call_read (Eff.bind_of_ok (validateTransaction_ok hactive))

/-- The schema of a table that is there. -/
theorem requireSchema_found {table : String} {schema : Schema}
    (hactive : session.storage.Active tid)
    (hschema : session.storage.schemas[table]?=some schema) :
    Sql.requireSchema tid table session=(.ok schema,session) := by
  unfold Sql.requireSchema
  rw [Eff.bind_of_ok (getSchema_eq session hactive table),hschema]
  rfl

theorem requireSchema_missing {table : String} (hactive : session.storage.Active tid)
    (hschema : session.storage.schemas[table]?=none) :
    ∃ error, Sql.requireSchema tid table session=(.err error,session) := by
  unfold Sql.requireSchema
  rw [Eff.bind_of_ok (getSchema_eq session hactive table),hschema]
  exact ⟨_,rfl⟩

end Reads

end RustSql.Memory
