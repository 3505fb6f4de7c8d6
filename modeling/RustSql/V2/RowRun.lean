import Mathlib.Logic.Relation
import RustSql.V2.Codec
import RustSql.V2.TxnFacts

/-!
# One row under concurrent transactions

The life of one stored row: the version list in the shared page cache, the
transaction that holds the page's write lock with the list it would restore,
and the transaction manager. The calls of the engine are cut where other
transactions can get in between: a commit reserves its timestamp, stamps the
versions, hands its pages over and releases its lock, and only then leaves the
set of running transactions.

`none` from `step` means that the engine does not make the step now: the caller
waits for the lock, is not running, or has no row to work on. The row is found
where its table's tree has it; where the catalog leads a lookup and what becomes
of the victims of deadlocks is told in `TableRun`.
-/

namespace RustSql.V2

/-- One row, its lock and the transactions. -/
structure RowRun (P : Type) where
  manager : TxnManager P
  /-- The stored row in the cache, if there is one. -/
  stored : Option StoredRow
  /-- Who holds the page lock, and what stood there before it wrote. -/
  lock : Option (TransactionId × Option StoredRow)
  /-- The timestamp the latest commit attempt of a transaction reserved. -/
  reserved : TransactionId → Option ℕ
  /-- Transactions whose commit has released its locks but not finished. -/
  published : Finset TransactionId

/-- The steps of the engine that concern one row. -/
inductive RowAct where
  /-- `begin_with_isolation`. -/
  | begin' (isolationLevel : IsolationLevel)
  /-- `snapshot_for_transaction` of a read-committed transaction. -/
  | refresh (txnId : TransactionId)
  /-- `insert_row` stores the first version. -/
  | insert (txnId : TransactionId) (row : Row)
  /-- `update_row`. -/
  | update (txnId : TransactionId) (row : Row)
  /-- `delete_row`. -/
  | delete (txnId : TransactionId)
  /-- `purge_deleted_row`, by a purge transaction. -/
  | purge (txnId : TransactionId) (purgeHorizon : ℕ)
  /-- `reserve_commit_ts`. -/
  | reserve (txnId : TransactionId)
  /-- `finalize_transaction_row_versions`. -/
  | stamp (txnId : TransactionId)
  /-- The stamped pages are committed and the locks released. -/
  | publish (txnId : TransactionId)
  /-- `finalize_commit`. -/
  | finish (txnId : TransactionId)
  /-- The rollback restores the pages and releases the locks. -/
  | undo (txnId : TransactionId)
  /-- `abort`, the last step of a rollback. -/
  | abort (txnId : TransactionId)
  /-- `purge_finished_transactions_up_to`. -/
  | forget (purgeHorizon : ℕ)
  deriving DecidableEq

namespace RowRun

variable {P : Type}

/-- A database just opened, without the row. -/
def start (nextTxnId : ℕ) : RowRun P where
  manager := .withNextTxnId nextTxnId
  stored := none
  lock := none
  reserved := fun _ => none
  published := ∅

/-- The state of a transaction that may issue calls. -/
def caller (s : RowRun P) (txnId : TransactionId) : Option (TxnState P) :=
  (s.manager.txns[txnId]?).filter fun txn => txn.status=.active ∧ txnId∉s.published

/-- The page lock is free or the transaction's own. -/
def mayWrite (s : RowRun P) (txnId : TransactionId) : Bool := s.lock.all fun lock => lock.1=txnId

/-- A write of the lock's holder; the first one takes the lock and keeps what
stood there. -/
def write (s : RowRun P) (txnId : TransactionId) (stored : Option StoredRow) : RowRun P :=
  {s with stored := stored, lock := some (s.lock.getD (txnId,s.stored))}

/-- Write, unless nothing changes; wait for the lock when it is taken. -/
def store (s : RowRun P) (txnId : TransactionId) (stored : Option StoredRow) :
    Option (RowRun P) :=
  if stored=s.stored then some s
  else if s.mayWrite txnId then some (s.write txnId stored)
  else none

/-- A call of the transaction manager that succeeds. -/
def manage {α : Type} (s : RowRun P) (x : Eff (TxnManager P) α) : Option (α × RowRun P) :=
  match x s.manager with
  | (.ok a,m) => some (a,{s with manager := m})
  | _ => none

/-- What `purge_deleted_row` keeps: the versions whose deletion is not stamped
up to the horizon, or no row at all. -/
def retained (purgeHorizon : ℕ) (bytes : StoredRow) : Option StoredRow :=
  let versions := (decodeVersionedRow bytes).versions.filter fun v =>
    !v.deletedCommitTs.any (· ≤ purgeHorizon)
  if versions.isEmpty then none else some (.versioned ⟨versions⟩)

/-- The row with a transaction's versions stamped by its reserved timestamp. -/
def stamped (s : RowRun P) (txnId : TransactionId) (commitTs : ℕ) : Option StoredRow :=
  s.stored.map fun bytes => finalizeRowVersions bytes txnId commitTs

/-- One step of the engine. -/
def step (act : RowAct) (s : RowRun P) : Option (RowRun P) :=
  match act with
  | .begin' isolationLevel => (s.manage (TxnManager.begin' isolationLevel)).map Prod.snd
  | .refresh txnId => do
    let txn ← s.caller txnId
    if txn.isolationLevel=.readCommitted then
      (s.manage (TxnManager.refreshSnapshot txnId)).map Prod.snd
    else none
  | .insert txnId row => do
    let _ ← s.caller txnId
    if s.stored=none then s.store txnId (some (encodeUncommittedRowVersion row txnId)) else none
  | .update txnId row => do
    let txn ← s.caller txnId
    let bytes ← s.stored
    if visibleRow bytes txnId txn.snapshot=some row then some s
    else
      match appendRowVersion bytes row txnId txn.snapshot with
      | some bytes => s.store txnId (some bytes)
      | none => some s
  | .delete txnId => do
    let txn ← s.caller txnId
    let bytes ← s.stored
    match markRowDeleted bytes txnId txn.snapshot with
    | some bytes => s.store txnId (some bytes)
    | none => some s
  | .purge txnId purgeHorizon => do
    let _ ← s.caller txnId
    let bytes ← s.stored
    if purgeHorizon ≤ s.manager.purgeHorizon then s.store txnId (retained purgeHorizon bytes)
    else none
  | .reserve txnId => do
    let _ ← s.caller txnId
    let (commitTs,s) ← s.manage (TxnManager.reserveCommitTs txnId)
    some {s with reserved := Function.update s.reserved txnId (some commitTs)}
  | .stamp txnId => do
    let _ ← s.caller txnId
    let commitTs ← s.reserved txnId
    s.store txnId (s.stamped txnId commitTs)
  | .publish txnId => do
    let _ ← s.caller txnId
    let commitTs ← s.reserved txnId
    let s ← s.store txnId (s.stamped txnId commitTs)
    some {s with
      lock := s.lock.filter fun lock => lock.1≠txnId
      published := insert txnId s.published}
  | .finish txnId =>
    if txnId∈s.published then do
      let commitTs ← s.reserved txnId
      let (_,s) ← s.manage (TxnManager.finalizeCommit txnId commitTs)
      some {s with published := s.published.erase txnId}
    else none
  | .undo txnId => do
    let _ ← s.caller txnId
    match s.lock with
    | some (holder,before) =>
      if holder=txnId then some {s with stored := before, lock := none} else some s
    | none => some s
  | .abort txnId => do
    let _ ← s.caller txnId
    if s.lock.all fun lock => lock.1≠txnId then
      (s.manage (TxnManager.abort txnId)).map Prod.snd
    else none
  | .forget purgeHorizon =>
    some {s with manager := s.manager.purgeFinishedTransactionsUpTo purgeHorizon}

/-- A sequence of steps. -/
def steps : List RowAct → RowRun P → Option (RowRun P)
  | [], s => some s
  | act :: rest, s => (s.step act).bind (steps rest)

/-- The version a transaction's `update_row` or `delete_row` would replace. -/
def target (s : RowRun P) (txnId : TransactionId) : Option RowVersion := do
  let txn ← s.caller txnId
  let bytes ← s.stored
  (decodeVersionedRow bytes).versions.find? fun v => v.visible txnId txn.snapshot

/-- An update or a delete replaces only a version that no other transaction's
commit has closed since the caller's snapshot. Other steps are always fine. -/
def EditsLatest (s : RowRun P) : RowAct → Prop
  | .update txnId _ => ∀ v, s.target txnId=some v → v.deletedCommitTs=none
  | .delete txnId => ∀ v, s.target txnId=some v → v.deletedCommitTs=none
  | _ => True

/-- What holds of the version a writer would replace can be tested. -/
instance (s : RowRun P) (txnId : TransactionId) :
    Decidable (∀ v, s.target txnId=some v → v.deletedCommitTs=none) :=
  match s.target txnId with
  | none => .isTrue fun _ h => nomatch h
  | some v => decidable_of_iff (v.deletedCommitTs=none)
    ⟨fun h _ heq => Option.some.inj heq ▸ h,fun h => h v rfl⟩

instance (s : RowRun P) (act : RowAct) : Decidable (s.EditsLatest act) := by
  cases act <;> unfold EditsLatest <;> infer_instance

end RowRun

end RustSql.V2
