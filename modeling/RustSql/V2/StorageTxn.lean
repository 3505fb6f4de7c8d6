import RustSql.V2.RowRun
import RustSql.V2.TableStore

/-!
# Begin, commit and purge

A commit stamps the rows its transaction has written in every table of the shared
catalog, stores that catalog and commits the pages. It ends with a purge, which runs
in a transaction of its own.
-/

namespace RustSql.V2.FileStorage

variable {S C : Type} [StoreText S]

/-- The rows of one table that `finalize_transaction_row_versions` rewrites. -/
def finalizeRows (txnId : TransactionId) (commitTs : ℕ) :
    PageId → List (RowId × StoredRow) → Eff (FileStorage S) Unit
  | _, [] => pure ()
  | root, entry :: rest =>
    let finalized := finalizeRowVersions entry.2 txnId commitTs
    if finalized=entry.2 then finalizeRows txnId commitTs root rest
    else do
      let newRoot ← putRowBytes txnId root entry.1 finalized
      finalizeRows txnId commitTs newRoot rest

/-- `finalize_transaction_row_versions`. -/
def finalizeTransactionRowVersions (txnId : TransactionId) (commitTs : ℕ) :
    Eff (FileStorage S) Unit := do
  let s ← Eff.get
  Eff.forEach (s.catalog.tableRoots.toList.map Prod.snd) fun root => do
    let rows ← scanRowBytes root
    finalizeRows txnId commitTs root rows

/-- `purge_deleted_row`. -/
def purgeDeletedRow (txnId : TransactionId) (table : String) (rowId : RowId)
    (purgeHorizon : ℕ) : Eff (FileStorage S) Unit := do
  let s ← Eff.get
  match tableSchemaAndRoot table s with
  | .error _ => pure ()
  | .ok (_,root) => do
    match ← getRowBytes root rowId with
    | none => pure ()
    | some bytes =>
      match RowRun.retained purgeHorizon bytes with
      | none => removeRowBytes txnId root rowId
      | some retained =>
        if retained=bytes then pure ()
        else do
          let _ ← putRowBytes txnId root rowId retained

/-- `purge_record`. -/
def purgeRecord (txnId : TransactionId) (purgeHorizon : ℕ) (record : UndoRecord) :
    Eff (FileStorage S) Unit :=
  match record with
  | .deleteRow table rowId _ => purgeDeletedRow txnId table rowId purgeHorizon
  | _ => pure ()

/-- `purge_row_versions`. -/
def purgeRowVersions (txnId : TransactionId) (purgeHorizon : ℕ)
    (plannedBatch : List (TransactionId × UndoRecord)) : Eff (FileStorage S) Unit :=
  Eff.forEach plannedBatch fun entry => purgeRecord txnId purgeHorizon entry.2

/-- Forget the finished transactions nothing is left to do for. -/
def forgetFinished (purgeHorizon : ℕ) : Eff (FileStorage S) Unit :=
  onManager (Eff.modify fun m => m.purgeFinishedTransactionsUpTo purgeHorizon)

/-- The part of `maybe_purge_garbage` that has records to purge. -/
def purgeBatch (purgeHorizon : ℕ) (plannedBatch : List (TransactionId × UndoRecord)) :
    Eff (FileStorage S) Unit := do
  let purgeTxn ← onManager (TxnManager.begin' .readCommitted)
  Eff.attempt (onPager (Pager.beginWithTxnId purgeTxn)) fun result =>
    match result with
    | .error error => do
      Eff.ignore (onManager (TxnManager.abort purgeTxn))
      forgetFinished purgeHorizon
      Eff.fail error
    | .ok () =>
      Eff.attempt (purgeRowVersions purgeTxn purgeHorizon plannedBatch) fun result =>
        match result with
        | .ok () => do
          let _ ← onManager (TxnManager.commit purgeTxn)
          onPager (Pager.commit purgeTxn)
          onManager (TxnManager.completePurgeBatch plannedBatch)
          forgetFinished purgeHorizon
        | .error error => do
          Eff.ignore (onPager (Pager.rollback purgeTxn))
          Eff.ignore (onManager (TxnManager.abort purgeTxn))
          forgetFinished purgeHorizon
          Eff.fail error

/-- The number of records one purge takes on. -/
def purgeBatchSize (historyListLength : ℕ) : ℕ := min 8 (max 1 (Nat.log2 historyListLength+1))

/-- `maybe_purge_garbage`. -/
def maybePurgeGarbage : Eff (FileStorage S) Unit := do
  let s ← Eff.get
  let purgeHorizon := s.txnManager.purgeHorizon
  forgetFinished purgeHorizon
  let s ← Eff.get
  let historyListLength := s.txnManager.historyListLength
  let plannedBatch :=
    s.txnManager.plannedPurgeBatch purgeHorizon (purgeBatchSize historyListLength)
  if historyListLength=0 then pure ()
  else if plannedBatch.isEmpty then forgetFinished purgeHorizon
  else purgeBatch purgeHorizon plannedBatch

/-- `begin_with_isolation`. -/
def beginWithIsolation (isolationLevel : IsolationLevel) : Eff (FileStorage S) TransactionId := do
  let txnId ← onManager (TxnManager.begin' isolationLevel)
  Eff.attempt (onPager (Pager.beginWithTxnId txnId)) fun result =>
    match result with
    | .error error => do
      Eff.ignore (onManager (TxnManager.abort txnId))
      Eff.fail error
    | .ok () => do
      Eff.modify fun s => {s with
        sessionCatalogSnapshots := s.sessionCatalogSnapshots.insert txnId s.catalog}
      pure txnId

/-- `commit` up to the point where the pages and the catalog are stored. -/
def publish (txnId : TransactionId) (commitTs : ℕ) : Eff (FileStorage S) Unit := do
  finalizeTransactionRowVersions txnId commitTs
  let s ← Eff.get
  onPager (storeCatalog txnId s.catalog)
  onPager (Pager.commit txnId)

/-- `commit`. -/
def commit (txnId : TransactionId) : Eff (FileStorage S) Unit := do
  validateTransaction txnId
  syncTransactionPageWrites txnId
  let commitTs ← onManager (TxnManager.reserveCommitTs txnId)
  publish txnId commitTs
  onManager (TxnManager.finalizeCommit txnId commitTs)
  Eff.modify fun s => {s with
    sessionCatalogSnapshots := s.sessionCatalogSnapshots.erase txnId}
  maybePurgeGarbage

end RustSql.V2.FileStorage
