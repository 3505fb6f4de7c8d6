import RustSql.V2.Catalog
import RustSql.V2.Codec

/-!
# The storage handle

`FileStorage`: a pager, the catalog all its transactions share, and the catalog
each open transaction found when it began. One thread drives a handle, so a call
that has to wait for a lock does not return.
-/

namespace RustSql.V2

open Std (ExtTreeMap)

/-- `FileStorage`. The transaction manager is the pager's. -/
structure FileStorage (S : Type) where
  pager : StorePager S
  catalog : CatalogState S
  sessionCatalogSnapshots : ExtTreeMap TransactionId (CatalogState S) compare

/-- `is_waitable_lock_error` of the storage handle. -/
def isWaitableLockError (error : DbError) : Bool :=
  containsText error.display "table lock wait" ||
    containsText error.display "table lock conflict" || isWaitablePageLockError error

namespace FileStorage

variable {S C : Type}

/-- Run a call of the pager. -/
def onPager {α : Type} (x : Eff (StorePager S) α) : Eff (FileStorage S) α :=
  Eff.zoom pager (fun s p => {s with pager := p}) x

/-- Run a call of the transaction manager. -/
def onManager {α : Type} (x : Eff (TxnManager (StorePage S)) α) : Eff (FileStorage S) α :=
  onPager (Pager.manager x)

/-- The transaction manager of a handle. -/
def txnManager (s : FileStorage S) : TxnManager (StorePage S) := s.pager.txnManager

/-- Change the catalog. -/
def modifyCatalog (f : CatalogState S → CatalogState S) : Eff (FileStorage S) Unit :=
  Eff.modify fun s => {s with catalog := f s.catalog}

/-- `validate_transaction`. -/
def validateTransaction (txnId : TransactionId) : Eff (FileStorage S) Unit :=
  onManager (Eff.reads fun m => m.requireActive txnId)

/-- `snapshot_for_transaction`. -/
def snapshotForTransaction (txnId : TransactionId) : Eff (FileStorage S) TxnSnapshot := do
  let level ← onManager (Eff.reads fun m => m.isolationLevel txnId)
  if level=.readCommitted then onManager (TxnManager.refreshSnapshot txnId)
  else onManager (Eff.reads fun m => m.snapshot txnId)

/-- A loop that waits for a lock: one thread cannot wait for itself, so waiting
does not return. -/
def waitFor (request : Eff (TxnManager (StorePage S)) Unit) : Eff (FileStorage S) Unit :=
  Eff.attempt (onManager request) fun result =>
    match result with
    | .ok () => pure ()
    | .error error =>
      if error.isDeadlock then Eff.fail error
      else if isWaitableLockError error then Eff.hang
      else Eff.fail error

/-- `wait_for_write_conflicts`. -/
def waitForWriteConflicts (txnId : TransactionId) (table : String)
    (indexKeys : List (String × List Value)) : Eff (FileStorage S) Unit :=
  waitFor (TxnManager.checkWriteConflicts txnId table indexKeys)

/-- `wait_for_table_read_lock`. -/
def waitForTableReadLock (txnId : TransactionId) (table : String) : Eff (FileStorage S) Unit :=
  waitFor (TxnManager.acquireTableIntentionRead txnId table)

/-- `wait_for_table_scan_lock`. -/
def waitForTableScanLock (txnId : TransactionId) (table : String) : Eff (FileStorage S) Unit :=
  waitFor (TxnManager.acquireTableReadLock txnId table)

/-- `wait_for_table_write_lock`. -/
def waitForTableWriteLock (txnId : TransactionId) (table : String) : Eff (FileStorage S) Unit :=
  waitFor (TxnManager.acquireTableIntentionWrite txnId table)

/-- `wait_for_table_exclusive_lock`. -/
def waitForTableExclusiveLock (txnId : TransactionId) (table : String) :
    Eff (FileStorage S) Unit :=
  waitFor (TxnManager.acquireTableExclusive txnId table)

/-- `sync_transaction_page_writes`. -/
def syncTransactionPageWrites (txnId : TransactionId) : Eff (FileStorage S) Unit := do
  let pageWrites ← onPager (Eff.reads fun p => p.pendingPageWrites txnId)
  onManager (TxnManager.replacePageWriteSet txnId pageWrites)

/-- `record_undo`. -/
def recordUndo (txnId : TransactionId) (record : UndoRecord) : Eff (FileStorage S) Unit :=
  onManager (TxnManager.recordUndo txnId record)

/-- `table_schema_and_root`. -/
def tableSchemaAndRoot (table : String) (s : FileStorage S) : Except DbError (S × PageId) :=
  match s.catalog.schemas[table]? with
  | none => .error (.storage s!"unknown table: {table}")
  | some schema =>
    match s.catalog.tableRoots[table]? with
    | none => .error (.storage s!"missing table root for {table}")
    | some root => .ok (schema,root)

/-- `index_meta_and_root`. -/
def indexMetaAndRoot (table index : String) (s : FileStorage S) :
    Except DbError (IndexMeta × PageId) :=
  match (s.catalog.indexesOf table)[index]? with
  | none => .error (.storage s!"unknown index {index} on table {table}")
  | some found =>
    match (s.catalog.indexRootsOf table)[index]? with
    | none => .error (.storage s!"missing index root for {index} on table {table}")
    | some root => .ok (found,root)

/-- `indexes_for_table`. -/
def indexesForTable (table : String) (s : FileStorage S) :
    Except DbError (List (String × IndexMeta × PageId)) :=
  (s.catalog.indexesOf table).toList.mapM fun entry =>
    match (s.catalog.indexRootsOf table)[entry.1]? with
    | none => .error (.storage s!"missing index root for {entry.1} on table {table}")
    | some root => .ok (entry.1,entry.2,root)

/-- Move a table's root when its tree has grown. -/
def storeTableRoot (table : String) (oldRoot newRoot : PageId) : Eff (FileStorage S) Unit :=
  if newRoot=oldRoot then pure ()
  else modifyCatalog fun c => {c with tableRoots := c.tableRoots.insert table newRoot}

/-- Move an index's root when its tree has grown. -/
def storeIndexRoot (table index : String) (oldRoot newRoot : PageId) :
    Eff (FileStorage S) Unit :=
  if newRoot=oldRoot then pure ()
  else modifyCatalog fun c => {c with
    indexRoots := c.indexRoots.insert table ((c.indexRootsOf table).insert index newRoot)}

end FileStorage

end RustSql.V2
