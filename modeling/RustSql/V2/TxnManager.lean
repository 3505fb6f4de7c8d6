import Mathlib.Data.Finset.Sort
import Std.Data.ExtTreeMap
import RustSql.Base.Effect
import RustSql.V2.TxTypes

/-!
# The transaction manager

Transactions, their snapshots, and three families of locks: table locks with
intention modes, page write locks, and predicate locks of serializable readers.
Every lock has a queue of waiters. A waiter records whom it waits for; when the
wait would close a cycle, the cheapest member of the cycle is aborted and its
locks are released at once, whether it is the caller or another transaction.

A wait queue that is absent and one that is empty are the same to the code, so
the predicate queues, whose keys carry no order, are a function.
-/

namespace RustSql.V2

open Std (ExtTreeMap)

/-- `PredicateLockKind`. -/
inductive PredicateLockKind where
  /-- The whole table. -/
  | table
  /-- One index key. -/
  | record (key : List Value)
  /-- The keys after a prefix, between bounds. -/
  | gap (keyPrefix : List Value) (lower upper : Option (CompareOp × Value))
  /-- The same as a gap, taken by prefix and range scans. -/
  | nextKey (keyPrefix : List Value) (lower upper : Option (CompareOp × Value))
  deriving DecidableEq

/-- `PredicateLock`. -/
structure PredicateLock where
  txnId : TransactionId
  table : String
  index : Option String
  kind : PredicateLockKind
  deriving DecidableEq

/-- `TableLockMode`, in increasing strength. -/
inductive TableLockMode where
  | intentionRead
  | intentionWrite
  | exclusive
  deriving DecidableEq, Repr

/-- The derived order of the modes. -/
def TableLockMode.strength : TableLockMode → ℕ
  | .intentionRead => 0
  | .intentionWrite => 1
  | .exclusive => 2

/-- `TableLock`. -/
structure TableLock where
  txnId : TransactionId
  table : String
  mode : TableLockMode
  deriving DecidableEq

/-- `PredicateWriteKey`: a table and the sorted index keys of a write. -/
structure PredicateWriteKey where
  table : String
  indexKeys : List (String × List Value)
  deriving DecidableEq

/-- `TxnManager`. -/
structure TxnManager (P : Type) where
  nextTxnId : ℕ
  nextCommitTs : ℕ
  nextRowIds : ExtTreeMap String ℕ compare
  txns : ExtTreeMap TransactionId (TxnState P) compare
  tableLocks : List TableLock
  predicateLocks : List PredicateLock
  tableWaitQueues : ExtTreeMap String (List TransactionId) compare
  pageWriteOwners : ExtTreeMap PageId TransactionId compare
  pageWriteWaitQueues : ExtTreeMap PageId (List TransactionId) compare
  tableWaitBlockers : ExtTreeMap TransactionId (Finset TransactionId) compare
  predicateWriteWaitQueues : PredicateWriteKey → List TransactionId
  pageWaitBlockers : ExtTreeMap TransactionId (Finset TransactionId) compare
  predicateWaitBlockers : ExtTreeMap TransactionId (Finset TransactionId) compare
  waitsFor : ExtTreeMap TransactionId (Finset TransactionId) compare
  /-- The counter behind the lock-wait notifier. -/
  lockWaitEpoch : ℕ

namespace TxnManager

variable {P : Type}

/-- `TxnManager::with_next_txn_id`. -/
def withNextTxnId (nextTxnId : ℕ) : TxnManager P where
  nextTxnId := nextTxnId
  nextCommitTs := nextTxnId-1
  nextRowIds := ∅
  txns := ∅
  tableLocks := []
  predicateLocks := []
  tableWaitQueues := ∅
  pageWriteOwners := ∅
  pageWriteWaitQueues := ∅
  tableWaitBlockers := ∅
  predicateWriteWaitQueues := fun _ => []
  pageWaitBlockers := ∅
  predicateWaitBlockers := ∅
  waitsFor := ∅
  lockWaitEpoch := 0

/-- `get`. -/
def get (m : TxnManager P) (txnId : TransactionId) : Except DbError (TxnState P) :=
  match m.txns[txnId]? with
  | some txn => .ok txn
  | none => .error (.txn s!"transaction {txnId} is not active")

/-- Change one registered transaction (`get_mut`). -/
def modifyTxn (txnId : TransactionId) (f : TxnState P → TxnState P) : Eff (TxnManager P) Unit :=
  fun m =>
    match m.get txnId with
    | .ok txn => (.ok (),{m with txns := m.txns.insert txnId (f txn)})
    | .error e => (.err e,m)

/-- The ids of the transactions whose status is active. -/
def activeIds (m : TxnManager P) : Finset TransactionId :=
  ((m.txns.toList.filter fun entry => entry.2.status=.active).map fun entry =>
    entry.2.id).toFinset

/-- `insert_txn`: register an active transaction with a snapshot of this
moment. -/
def insertTxn (m : TxnManager P) (txnId : TransactionId) (isolationLevel : IsolationLevel) :
    TxnManager P :=
  {m with
    txns := m.txns.insert txnId {
      id := txnId
      isolationLevel := isolationLevel
      status := .active
      terminalError := none
      startTs := txnId
      commitTs := none
      snapshot := ⟨m.nextCommitTs,m.activeIds⟩
      writeSet := ⟨∅,[]⟩
      undoRecords := []
      purgeRecords := []}
    tableWaitBlockers := m.tableWaitBlockers.insertIfNew txnId ∅
    pageWaitBlockers := m.pageWaitBlockers.insertIfNew txnId ∅
    predicateWaitBlockers := m.predicateWaitBlockers.insertIfNew txnId ∅
    waitsFor := m.waitsFor.insertIfNew txnId ∅}

/-- `begin`. -/
def begin' (isolationLevel : IsolationLevel) : Eff (TxnManager P) TransactionId := fun m =>
  let id := max m.nextTxnId 1
  (.ok id,{m with nextTxnId := id+1}.insertTxn id isolationLevel)

/-- `begin_with_id`. -/
def beginWithId (txnId : TransactionId) (isolationLevel : IsolationLevel) :
    Eff (TxnManager P) Unit := fun m =>
  if txnId∈m.txns then (.err (.txn s!"transaction {txnId} is already registered"),m)
  else (.ok (),{m with nextTxnId := max (max m.nextTxnId (txnId+1)) 1}.insertTxn txnId
    isolationLevel)

/-- `ensure_active`: an aborted victim is told why. -/
def ensureActive (m : TxnManager P) (txnId : TransactionId) : Except DbError Unit := do
  let txn ← m.get txnId
  if txn.status=.active then .ok ()
  else .error (.txn (txn.terminalError.getD s!"transaction {txnId} is not active"))

/-- `reserve_commit_ts`. -/
def reserveCommitTs (txnId : TransactionId) : Eff (TxnManager P) ℕ := do
  Eff.reads fun m => m.ensureActive txnId
  let m ← Eff.get
  Eff.modify fun m => {m with nextCommitTs := m.nextCommitTs+1}
  pure (m.nextCommitTs+1)

/-- Fail unless the transaction is registered and active, for the calls that
do not report a terminal error. -/
def requireActive (m : TxnManager P) (txnId : TransactionId) : Except DbError Unit := do
  let txn ← m.get txnId
  if txn.status=.active then .ok ()
  else .error (.txn s!"transaction {txnId} is not active")

/-- `finalize_commit`. -/
def finalizeCommit (txnId : TransactionId) (commitTs : ℕ) : Eff (TxnManager P) Unit := do
  Eff.reads fun m => m.requireActive txnId
  modifyTxn txnId fun txn => {txn with
    status := .committed
    terminalError := none
    commitTs := some commitTs
    purgeRecords := txn.undoRecords.filter UndoRecord.isDeleteRow}

/-- `commit`. -/
def commit (txnId : TransactionId) : Eff (TxnManager P) ℕ := do
  let commitTs ← reserveCommitTs txnId
  finalizeCommit txnId commitTs
  pure commitTs

/-- `abort`. -/
def abort (txnId : TransactionId) : Eff (TxnManager P) Unit := do
  Eff.reads fun m => m.requireActive txnId
  modifyTxn txnId fun txn => {txn with status := .aborted, terminalError := none}

/-- `refresh_snapshot`. -/
def refreshSnapshot (txnId : TransactionId) : Eff (TxnManager P) TxnSnapshot := do
  let m ← Eff.get
  let snapshot : TxnSnapshot := ⟨m.nextCommitTs,m.activeIds.erase txnId⟩
  modifyTxn txnId fun txn => {txn with snapshot := snapshot}
  pure snapshot

/-- `snapshot`. -/
def snapshot (m : TxnManager P) (txnId : TransactionId) : Except DbError TxnSnapshot :=
  (m.get txnId).map TxnState.snapshot

/-- `status`. -/
def status (m : TxnManager P) (txnId : TransactionId) : Except DbError TxnStatus :=
  (m.get txnId).map TxnState.status

/-- `isolation_level`. -/
def isolationLevel (m : TxnManager P) (txnId : TransactionId) : Except DbError IsolationLevel :=
  (m.get txnId).map TxnState.isolationLevel

/-- `purge_horizon`: the oldest timestamp an active transaction reads up to. -/
def purgeHorizon (m : TxnManager P) : ℕ :=
  match ((m.txns.toList.filter fun entry => entry.2.status=.active).map fun entry =>
    entry.2.snapshot.visibleUpTo).min? with
  | some horizon => horizon
  | none => m.nextCommitTs

/-- The transactions `purge_finished_transactions_up_to` keeps. -/
def keptByPurge (purgeHorizon : ℕ) (txn : TxnState P) : Bool :=
  match txn.status with
  | .active => true
  | .committed =>
    (match txn.commitTs with
    | some commitTs => decide (purgeHorizon < commitTs)
    | none => true) || !txn.purgeRecords.isEmpty
  | .aborted => !txn.undoRecords.isEmpty || txn.terminalError.isSome

/-- `purge_finished_transactions_up_to`. -/
def purgeFinishedTransactionsUpTo (m : TxnManager P) (purgeHorizon : ℕ) : TxnManager P :=
  {m with txns := m.txns.filter fun _ txn => keptByPurge purgeHorizon txn}

/-- `history_list_length`. -/
def historyListLength (m : TxnManager P) : ℕ :=
  ((m.txns.toList.filter fun entry => entry.2.status=.committed).map fun entry =>
    entry.2.purgeRecords.length).sum

/-- `sync_next_row_ids`. -/
def syncNextRowIds (m : TxnManager P) (nextRowIds : ExtTreeMap String ℕ compare) :
    TxnManager P :=
  {m with
    nextRowIds := nextRowIds.toList.foldl (fun known entry =>
      match known[entry.1]? with
      | some existing => known.insert entry.1 (max existing entry.2)
      | none => known.insert entry.1 entry.2) m.nextRowIds}

/-- `allocate_row_id`. -/
def allocateRowId (txnId : TransactionId) (table : String) (fallbackNextRowId : ℕ) :
    Eff (TxnManager P) RowId := do
  Eff.reads fun m => m.ensureActive txnId
  let m ← Eff.get
  let known := (m.nextRowIds[table]?).getD (max fallbackNextRowId 1)
  let nextRowId := max known (max fallbackNextRowId 1)
  Eff.modify fun m => {m with nextRowIds := m.nextRowIds.insert table (nextRowId+1)}
  pure nextRowId

/-- `record_undo`. -/
def recordUndo (txnId : TransactionId) (record : UndoRecord) : Eff (TxnManager P) Unit :=
  modifyTxn txnId fun txn => {txn with undoRecords := txn.undoRecords++[record]}

/-- `take_undo_records`: newest first, and forgotten. -/
def takeUndoRecords (txnId : TransactionId) : Eff (TxnManager P) (List UndoRecord) := do
  let txn ← Eff.reads fun m => m.get txnId
  modifyTxn txnId fun txn => {txn with undoRecords := []}
  pure txn.undoRecords.reverse

/-- `clear_terminal_error`. -/
def clearTerminalError (txnId : TransactionId) : Eff (TxnManager P) Unit :=
  modifyTxn txnId fun txn => {txn with terminalError := none}

/-- `replace_page_write_set`. -/
def replacePageWriteSet (txnId : TransactionId) (pageWrites : List (PageWriteSetEntry P)) :
    Eff (TxnManager P) Unit :=
  modifyTxn txnId fun txn => {txn with
    writeSet := ⟨(pageWrites.map PageWriteSetEntry.pageId).toFinset,pageWrites⟩}

/-- The committed transactions with work left for the purge, oldest commit
first. -/
def purgeable (m : TxnManager P) (purgeHorizon : ℕ) : List (TxnState P) :=
  ((m.txns.toList.map Prod.snd).filter fun txn =>
    txn.status=.committed && txn.commitTs.any (· ≤ purgeHorizon) &&
      !txn.purgeRecords.isEmpty).insertionSort fun left right =>
        left.commitTs.getD (2^64-1) ≤ right.commitTs.getD (2^64-1)

/-- `planned_purge_batch`. -/
def plannedPurgeBatch (m : TxnManager P) (purgeHorizon limit : ℕ) :
    List (TransactionId × UndoRecord) :=
  ((m.purgeable purgeHorizon).flatMap fun txn =>
    txn.purgeRecords.map fun record => (txn.id,record)).take limit

/-- `complete_purge_batch`. -/
def completePurgeBatch : List (TransactionId × UndoRecord) → Eff (TxnManager P) Unit
  | [] => pure ()
  | (txnId,record) :: rest => do
    let txn ← Eff.reads fun m => m.get txnId
    match txn.purgeRecords with
    | [] => Eff.fail (.storage s!"missing purge record for transaction {txnId}")
    | front :: remaining => do
      modifyTxn txnId fun txn => {txn with purgeRecords := remaining}
      if front=record then completePurgeBatch rest
      else Eff.fail (.storage s!"purge record order mismatch for transaction {txnId}")

/-! ## Queues and wait edges -/

/-- Join the end of a queue, once. -/
def enqueue (queue : List TransactionId) (txnId : TransactionId) : List TransactionId :=
  if txnId∈queue then queue else queue++[txnId]

/-- Leave a queue from its front only. -/
def dequeueFront (queue : List TransactionId) (txnId : TransactionId) : List TransactionId :=
  if queue.head?=some txnId then queue.tail else queue

/-- Store a queue, dropping it when it is empty. -/
def putQueue {K : Type} [Ord K] [Std.TransOrd K] [Std.LawfulEqOrd K]
    (queues : ExtTreeMap K (List TransactionId) compare) (key : K)
    (queue : List TransactionId) : ExtTreeMap K (List TransactionId) compare :=
  if queue.isEmpty then queues.erase key else queues.insert key queue

/-- `refresh_waits_for`: the union of the three kinds of blockers. -/
def refreshWaitsFor (m : TxnManager P) (txnId : TransactionId) : TxnManager P :=
  {m with
    waitsFor := m.waitsFor.insert txnId
      ((m.tableWaitBlockers[txnId]?).getD ∅ ∪ (m.pageWaitBlockers[txnId]?).getD ∅ ∪
      (m.predicateWaitBlockers[txnId]?).getD ∅)}

/-- `enqueue_table_waiter`. -/
def enqueueTableWaiter (m : TxnManager P) (table : String) (txnId : TransactionId) :
    TxnManager P :=
  {m with
    tableWaitQueues := m.tableWaitQueues.insert table
      (enqueue ((m.tableWaitQueues[table]?).getD []) txnId)}

/-- `dequeue_table_waiter`. -/
def dequeueTableWaiter (m : TxnManager P) (table : String) (txnId : TransactionId) :
    TxnManager P :=
  match m.tableWaitQueues[table]? with
  | some queue => {m with
      tableWaitQueues := putQueue m.tableWaitQueues table
        (dequeueFront queue txnId)}
  | none => m

/-- `set_table_wait_edges`; with the empty set, `clear_table_wait_edges`. -/
def setTableWaitEdges (m : TxnManager P) (txnId : TransactionId)
    (blockers : Finset TransactionId) : TxnManager P :=
  {m with tableWaitBlockers := m.tableWaitBlockers.insert txnId blockers}.refreshWaitsFor txnId

/-- `enqueue_page_waiter`. -/
def enqueuePageWaiter (m : TxnManager P) (pageId : PageId) (txnId : TransactionId) :
    TxnManager P :=
  {m with
    pageWriteWaitQueues := m.pageWriteWaitQueues.insert pageId
      (enqueue ((m.pageWriteWaitQueues[pageId]?).getD []) txnId)}

/-- `dequeue_front_waiter`. -/
def dequeueFrontWaiter (m : TxnManager P) (pageId : PageId) (txnId : TransactionId) :
    TxnManager P :=
  match m.pageWriteWaitQueues[pageId]? with
  | some queue => {m with
      pageWriteWaitQueues := putQueue m.pageWriteWaitQueues pageId
        (dequeueFront queue txnId)}
  | none => m

/-- `set_page_wait_edges`; with the empty set, `clear_page_wait_edges`. -/
def setPageWaitEdges (m : TxnManager P) (txnId : TransactionId)
    (blockers : Finset TransactionId) : TxnManager P :=
  {m with pageWaitBlockers := m.pageWaitBlockers.insert txnId blockers}.refreshWaitsFor txnId

/-- `enqueue_predicate_waiter`. -/
def enqueuePredicateWaiter (m : TxnManager P) (waitKey : PredicateWriteKey)
    (txnId : TransactionId) : TxnManager P :=
  {m with
    predicateWriteWaitQueues := Function.update m.predicateWriteWaitQueues waitKey
      (enqueue (m.predicateWriteWaitQueues waitKey) txnId)}

/-- `dequeue_predicate_waiter`. -/
def dequeuePredicateWaiter (m : TxnManager P) (waitKey : PredicateWriteKey)
    (txnId : TransactionId) : TxnManager P :=
  {m with
    predicateWriteWaitQueues := Function.update m.predicateWriteWaitQueues waitKey
      (dequeueFront (m.predicateWriteWaitQueues waitKey) txnId)}

/-- `set_predicate_wait_edges`; with the empty set, `clear_predicate_wait_edges`. -/
def setPredicateWaitEdges (m : TxnManager P) (txnId : TransactionId)
    (blockers : Finset TransactionId) : TxnManager P :=
  {m with predicateWaitBlockers := m.predicateWaitBlockers.insert txnId blockers}.refreshWaitsFor
    txnId

/-- Take a transaction out of every queue of a map, dropping emptied queues. -/
def removeFromQueues {K : Type} [Ord K] [Std.TransOrd K] [Std.LawfulEqOrd K]
    (queues : ExtTreeMap K (List TransactionId) compare) (txnId : TransactionId) :
    ExtTreeMap K (List TransactionId) compare :=
  (queues.map fun _ queue => queue.filter (·≠txnId)).filter fun _ queue => !queue.isEmpty

/-- `remove_wait_dependency_on`. -/
def removeWaitDependencyOn (m : TxnManager P) (blocker : TransactionId) : TxnManager P :=
  ((m.txns.toList.map Prod.fst).filter (·≠blocker)).foldl (fun m txnId =>
    {m with
      tableWaitBlockers := m.tableWaitBlockers.modify txnId (·.erase blocker)
      pageWaitBlockers := m.pageWaitBlockers.modify txnId (·.erase blocker)
      predicateWaitBlockers := m.predicateWaitBlockers.modify txnId (·.erase blocker)
      }.refreshWaitsFor txnId) m

/-- The state after every lock, queue entry and wait edge of a transaction is
gone. -/
def released (m : TxnManager P) (txnId : TransactionId) : TxnManager P :=
  let m : TxnManager P := {m with
    tableLocks := m.tableLocks.filter fun lock => lock.txnId≠txnId
    pageWriteOwners := m.pageWriteOwners.filter fun _ owner => owner≠txnId
    tableWaitQueues := removeFromQueues m.tableWaitQueues txnId
    pageWriteWaitQueues := removeFromQueues m.pageWriteWaitQueues txnId
    predicateWriteWaitQueues := fun key => (m.predicateWriteWaitQueues key).filter (·≠txnId)
    predicateLocks := m.predicateLocks.filter fun lock => lock.txnId≠txnId
    tableWaitBlockers := m.tableWaitBlockers.erase txnId
    pageWaitBlockers := m.pageWaitBlockers.erase txnId
    predicateWaitBlockers := m.predicateWaitBlockers.erase txnId
    waitsFor := m.waitsFor.erase txnId}
  let m := m.removeWaitDependencyOn txnId
  {m with lockWaitEpoch := m.lockWaitEpoch+1}

/-- `release_transaction_resources`. -/
def releaseTransactionResources (txnId : TransactionId) : Eff (TxnManager P) Unit := do
  let _ ← Eff.reads fun m => m.get txnId
  Eff.modify fun m => m.released txnId

/-! ## Deadlocks -/

/-- The members of a set, in order. -/
def ascending (ids : Finset TransactionId) : List TransactionId :=
  Quot.liftOn ids.1 (List.insertionSort (· ≤ ·)) fun left right hperm =>
    ((List.perm_insertionSort _ left).trans (hperm.trans (List.perm_insertionSort _ right).symm)
      ).eq_of_pairwise' (List.pairwise_insertionSort _ left) (List.pairwise_insertionSort _ right)

/-- Ordering a set loses nobody. -/
theorem mem_ascending {ids : Finset TransactionId} {txnId : TransactionId} :
    txnId∈ascending ids ↔ txnId∈ids := by
  obtain ⟨members,hnodup⟩ := ids
  induction members using Quot.inductionOn with
  | _ list => exact (List.perm_insertionSort _ list).mem_iff

/-- The direct blockers of a transaction, in order. -/
def waitSuccessors (m : TxnManager P) (txnId : TransactionId) : List TransactionId :=
  ascending ((m.waitsFor[txnId]?).getD ∅)

/-- `wait_path_with_visited`, together with the visited set it leaves. Every
nested call has visited one more transaction with blockers, so the depth is
bounded by the number of those. -/
def waitPathFrom (m : TxnManager P) : ℕ → TransactionId → TransactionId →
    Finset TransactionId → Option (List TransactionId) × Finset TransactionId
  | 0, _, _, visited => (none,visited)
  | fuel+1, current, target, visited =>
    if current=target then (some [current],visited)
    else if current∈visited then (none,visited)
    else
      (m.waitSuccessors current).foldl (fun found next =>
        match found with
        | (some path,visited) => (some path,visited)
        | (none,visited) =>
          match waitPathFrom m fuel next target visited with
          | (some path,visited) => (some (current::path),visited)
          | (none,visited) => (none,visited)) (none,insert current visited)

/-- `wait_path`. -/
def waitPath (m : TxnManager P) (current target : TransactionId) : Option (List TransactionId) :=
  (m.waitPathFrom (m.waitsFor.size+2) current target ∅).1

/-- `has_wait_path`: the same search, keeping only whether it succeeds. -/
def hasWaitPath (m : TxnManager P) (current target : TransactionId) : Bool :=
  (m.waitPath current target).isSome

/-- The work a rollback of the transaction undoes and the locks it holds. -/
def rollbackCost (m : TxnManager P) (txn : TxnState P) : ℕ :=
  txn.undoRecords.length+txn.writeSet.pageWrites.length+
    ((m.pageWriteOwners.toList.filter fun entry => entry.2=txn.id).length+
      (m.tableLocks.filter fun lock => lock.txnId=txn.id).length+
        (m.predicateLocks.filter fun lock => lock.txnId=txn.id).length)

/-- The order in which victims are preferred: cheapest, then youngest, then
the requester. -/
def victimBefore (requester : TransactionId) (left right : ℕ × TxnState P) : Bool :=
  left.1 < right.1 ∨ (left.1=right.1 ∧ (right.2.startTs < left.2.startTs ∨
    (left.2.startTs=right.2.startTs ∧ left.2.id=requester ∧ right.2.id≠requester)))

/-- `choose_deadlock_victim`; a member of the cycle that is not registered is
a panic. -/
def chooseDeadlockVictim (requester blocker : TransactionId) :
    Eff (TxnManager P) (Option TransactionId) := fun m =>
  match m.waitPath blocker requester with
  | none => (.ok none,m)
  | some path =>
    let cycle := ascending (path++[requester]).toFinset
    match cycle.mapM fun txnId => m.txns[txnId]? with
    | none => (.stuck,m)
    | some members =>
      let costs := members.map fun txn => (m.rollbackCost txn,txn)
      (.ok ((costs.foldl (fun best candidate =>
        match best with
        | none => some candidate
        | some best => if victimBefore requester candidate best then some candidate
          else some best) none).map fun chosen => chosen.2.id),m)

/-- `abort_deadlock_victim`. -/
def abortDeadlockVictim (txnId : TransactionId) (message : String) :
    Eff (TxnManager P) Unit := do
  modifyTxn txnId fun txn =>
    if txn.status=.active then {txn with status := .aborted, terminalError := some message}
    else txn
  releaseTransactionResources txnId

/-- `resolve_deadlock`: true when another transaction was aborted. -/
def resolveDeadlock (requester blocker : TransactionId) (context : TransactionId → String) :
    Eff (TxnManager P) Bool := do
  match ← chooseDeadlockVictim requester blocker with
  | none => pure false
  | some victim => do
    abortDeadlockVictim victim (context victim)
    if victim=requester then Eff.fail (.txn (context victim)) else pure true

/-- The loop over the blockers of a request: the first one that closes a cycle
is resolved; true when the request is to be tried again. -/
def breakDeadlocks (requester : TransactionId) (context : TransactionId → TransactionId → String) :
    List TransactionId → Eff (TxnManager P) Bool
  | [] => pure false
  | blocker :: rest => do
    let m ← Eff.get
    if m.hasWaitPath blocker requester then do
      if ← resolveDeadlock requester blocker (context blocker) then pure true
      else breakDeadlocks requester context rest
    else breakDeadlocks requester context rest

/-- Numbers joined with commas, as in the messages that list blockers. -/
def joinIds (ids : Finset TransactionId) : String :=
  ",".intercalate ((ascending ids).map fun id => toString id)

/-! ## Page locks -/

/-- `acquire_page_write`. Each retry follows the abort of another transaction
of the wait graph. -/
def acquirePageWriteFrom : ℕ → TransactionId → PageId → Eff (TxnManager P) Unit
  | 0, _, _ => Eff.hang
  | fuel+1, txnId, pageId => do
    let m ← Eff.get
    let context := fun blocker victim : TransactionId =>
      s!"deadlock detected between transactions {txnId} and {blocker} on page {pageId}; victim transaction {victim} aborted"
    match m.pageWriteOwners[pageId]? with
    | none => do
      Eff.reads fun m => m.ensureActive txnId
      let front := ((m.pageWriteWaitQueues[pageId]?).getD []).head?
      match front.filter (·≠txnId) with
      | some front => do
        Eff.modify fun m => m.enqueuePageWaiter pageId txnId
        Eff.modify fun m => m.setPageWaitEdges txnId {front}
        if ← breakDeadlocks txnId context [front] then acquirePageWriteFrom fuel txnId pageId
        else Eff.fail (.txn
          s!"page write wait on page {pageId}; transaction {front} is ahead in queue")
      | none => do
        Eff.modify fun m => m.dequeueFrontWaiter pageId txnId
        Eff.modify fun m => {m with pageWriteOwners := m.pageWriteOwners.insert pageId txnId}
        Eff.modify fun m => m.setPageWaitEdges txnId ∅
    | some owner =>
      if owner=txnId then do
        Eff.modify fun m => m.dequeueFrontWaiter pageId txnId
        Eff.modify fun m => m.setPageWaitEdges txnId ∅
      else do
        Eff.reads fun m => m.ensureActive txnId
        let _ ← Eff.reads fun m => m.get owner
        Eff.modify fun m => m.enqueuePageWaiter pageId txnId
        Eff.modify fun m => m.setPageWaitEdges txnId {owner}
        if ← breakDeadlocks txnId context [owner] then acquirePageWriteFrom fuel txnId pageId
        else Eff.fail (.txn
          s!"page write conflict on page {pageId} held by transaction {owner}")

/-- `acquire_page_write`. -/
def acquirePageWrite (txnId : TransactionId) (pageId : PageId) : Eff (TxnManager P) Unit :=
  fun m => acquirePageWriteFrom (m.txns.size+1) txnId pageId m

/-! ## Table locks -/

/-- `table_lock_modes_conflict`: only the intention modes go together. -/
def tableLockModesConflict (existing requested : TableLockMode) : Bool :=
  existing=.exclusive || requested=.exclusive

/-- The holders a request has to wait for: the active owners of conflicting
locks. An owner that is not registered is an error. -/
def conflictingTxns (m : TxnManager P) (owners : List TransactionId) :
    Except DbError (Finset TransactionId) :=
  owners.foldlM (fun blockers owner => do
    let txn ← m.get owner
    if txn.status=.active then .ok (insert owner blockers) else .ok blockers) ∅

/-- `conflicting_table_lock_txns`. The status of every other owner of a lock
on the table is looked up, so an unregistered one is reported. -/
def conflictingTableLockTxns (m : TxnManager P) (txnId : TransactionId) (table : String)
    (requestedMode : TableLockMode) : Except DbError (Finset TransactionId) := do
  let others := m.tableLocks.filter fun lock => lock.txnId≠txnId ∧ lock.table=table
  let _ ← m.conflictingTxns (others.map TableLock.txnId)
  m.conflictingTxns ((others.filter fun lock =>
    tableLockModesConflict lock.mode requestedMode).map TableLock.txnId)

/-- `upsert_table_lock`: raise the mode of the first lock the transaction holds
on the table, or add a lock. -/
def upsertTableLock (m : TxnManager P) (txnId : TransactionId) (table : String)
    (mode : TableLockMode) : TxnManager P :=
  if m.tableLocks.any fun lock => lock.txnId=txnId ∧ lock.table=table then
    {m with
      tableLocks := m.tableLocks.modify
        (m.tableLocks.findIdx fun lock => lock.txnId=txnId ∧ lock.table=table) fun lock =>
        if lock.mode.strength < mode.strength then {lock with mode := mode} else lock}
  else {m with tableLocks := m.tableLocks++[⟨txnId,table,mode⟩]}

/-- `acquire_table_lock`. -/
def acquireTableLockFrom : ℕ → TransactionId → String → TableLockMode → Eff (TxnManager P) Unit
  | 0, _, _, _ => Eff.hang
  | fuel+1, txnId, table, mode => do
    Eff.reads fun m => m.ensureActive txnId
    let blockers ← Eff.reads fun m => m.conflictingTableLockTxns txnId table mode
    let m ← Eff.get
    if blockers=∅ then
      let front := ((m.tableWaitQueues[table]?).getD []).head?
      match front.filter (·≠txnId) with
      | some front => do
        Eff.modify fun m => m.enqueueTableWaiter table txnId
        Eff.modify fun m => m.setTableWaitEdges txnId {front}
        let context := fun _ victim : TransactionId =>
          s!"deadlock detected while waiting for table lock on {table}; victim transaction {victim} aborted"
        if ← breakDeadlocks txnId context [front] then
          acquireTableLockFrom fuel txnId table mode
        else Eff.fail (.txn
          s!"table lock wait on {table}; transaction {front} is ahead in queue")
      | none => do
        Eff.modify fun m => m.dequeueTableWaiter table txnId
        Eff.modify fun m => m.setTableWaitEdges txnId ∅
        Eff.modify fun m => m.upsertTableLock txnId table mode
    else do
      Eff.modify fun m => m.enqueueTableWaiter table txnId
      Eff.modify fun m => m.setTableWaitEdges txnId blockers
      let context := fun _ victim : TransactionId =>
        s!"deadlock detected while acquiring table lock on {table}; victim transaction {victim} aborted"
      if ← breakDeadlocks txnId context (ascending blockers) then
        acquireTableLockFrom fuel txnId table mode
      else Eff.fail (.txn
        s!"table lock wait on {table}; waiting on transactions {joinIds blockers}")

/-- `acquire_table_lock`. -/
def acquireTableLock (txnId : TransactionId) (table : String) (mode : TableLockMode) :
    Eff (TxnManager P) Unit :=
  fun m => acquireTableLockFrom (m.txns.size+1) txnId table mode m

/-- `acquire_table_intention_read`. -/
def acquireTableIntentionRead (txnId : TransactionId) (table : String) :
    Eff (TxnManager P) Unit :=
  acquireTableLock txnId table .intentionRead

/-- `acquire_table_intention_write`. -/
def acquireTableIntentionWrite (txnId : TransactionId) (table : String) :
    Eff (TxnManager P) Unit :=
  acquireTableLock txnId table .intentionWrite

/-- `acquire_table_exclusive`. -/
def acquireTableExclusive (txnId : TransactionId) (table : String) : Eff (TxnManager P) Unit :=
  acquireTableLock txnId table .exclusive

/-! ## Predicate locks -/

/-- `acquire_predicate_lock`: only serializable transactions take them. -/
def acquirePredicateLock (txnId : TransactionId) (lock : PredicateLock) :
    Eff (TxnManager P) Unit := do
  let level ← Eff.reads fun m => m.isolationLevel txnId
  if level≠.serializable then pure ()
  else Eff.modify fun m =>
    if lock∈m.predicateLocks then m else {m with predicateLocks := m.predicateLocks++[lock]}

/-- `acquire_table_read_lock`. -/
def acquireTableReadLock (txnId : TransactionId) (table : String) :
    Eff (TxnManager P) Unit := do
  acquireTableIntentionRead txnId table
  acquirePredicateLock txnId ⟨txnId,table,none,.table⟩

/-- `acquire_record_lock`, also `acquire_exact_key_lock`. -/
def acquireRecordLock (txnId : TransactionId) (table index : String) (key : List Value) :
    Eff (TxnManager P) Unit :=
  acquirePredicateLock txnId ⟨txnId,table,some index,.record key⟩

/-- `acquire_next_key_lock`, also `acquire_range_lock`. -/
def acquireNextKeyLock (txnId : TransactionId) (table index : String) (keyPrefix : List Value)
    (lower upper : Option (CompareOp × Value)) : Eff (TxnManager P) Unit :=
  acquirePredicateLock txnId ⟨txnId,table,some index,.nextKey keyPrefix lower upper⟩

/-- `acquire_prefix_lock`. -/
def acquirePrefixLock (txnId : TransactionId) (table index : String) (keyPrefix : List Value) :
    Eff (TxnManager P) Unit :=
  acquireNextKeyLock txnId table index keyPrefix none none

/-- `compare_values`: values of one of four types. -/
def compareValues : Value → Value → Option Ordering
  | .null, .null => some .eq
  | .boolean left, .boolean right => some (compare left right)
  | .integer left, .integer right => some (compare left.toInt right.toInt)
  | .text left, .text right => some (compare left right)
  | _, _ => none

/-- `matches_compare`. -/
def matchesCompare (left : Value) (op : CompareOp) (right : Value) : Bool :=
  match op with
  | .eq => left=right
  | .ne => left≠right
  | .gt => compareValues left right=some .gt
  | .gte => compareValues left right=some .gt ∨ compareValues left right=some .eq
  | .lt => compareValues left right=some .lt
  | .lte => compareValues left right=some .lt ∨ compareValues left right=some .eq

/-- The value lies between the bounds that are given. -/
def matchesBounds (candidate : Value) (lower upper : Option (CompareOp × Value)) : Bool :=
  lower.all (fun bound => matchesCompare candidate bound.1 bound.2) &&
    upper.all (fun bound => matchesCompare candidate bound.1 bound.2)

/-- A key of the given index lies in the range behind a prefix. -/
def rangeConflicts (lock : PredicateLock) (keyPrefix : List Value)
    (lower upper : Option (CompareOp × Value)) (indexKeys : List (String × List Value)) : Bool :=
  indexKeys.any fun entry =>
    lock.index=some entry.1 && keyPrefix.isPrefixOf entry.2 &&
      (match entry.2[keyPrefix.length]? with
      | none => false
      | some candidate => matchesBounds candidate lower upper)

/-- `predicate_lock_conflicts`. -/
def predicateLockConflicts (lock : PredicateLock) (indexKeys : List (String × List Value)) :
    Bool :=
  match lock.kind with
  | .table => true
  | .record lockedKey => indexKeys.any fun entry => lock.index=some entry.1 && entry.2=lockedKey
  | .gap keyPrefix lower upper => rangeConflicts lock keyPrefix lower upper indexKeys
  | .nextKey keyPrefix lower upper => rangeConflicts lock keyPrefix lower upper indexKeys

/-- `predicate_write_key`: the keys sorted by index name and then by key. -/
def predicateWriteKey (table : String) (indexKeys : List (String × List Value)) :
    PredicateWriteKey :=
  ⟨table,indexKeys.insertionSort fun left right =>
    ((compare left.1 right.1).then (compareLists Value.cmp left.2 right.2)).isLE⟩

/-- `conflicting_predicate_lock_txns`. -/
def conflictingPredicateLockTxns (m : TxnManager P) (txnId : TransactionId) (table : String)
    (indexKeys : List (String × List Value)) : Except DbError (Finset TransactionId) := do
  let others := m.predicateLocks.filter fun lock => lock.txnId≠txnId ∧ lock.table=table
  let _ ← m.conflictingTxns (others.map PredicateLock.txnId)
  m.conflictingTxns ((others.filter fun lock =>
    predicateLockConflicts lock indexKeys).map PredicateLock.txnId)

/-- `check_write_conflicts`. -/
def checkWriteConflictsFrom : ℕ → TransactionId → String → List (String × List Value) →
    Eff (TxnManager P) Unit
  | 0, _, _, _ => Eff.hang
  | fuel+1, txnId, table, indexKeys => do
    Eff.reads fun m => m.ensureActive txnId
    let waitKey := predicateWriteKey table indexKeys
    let blockers ← Eff.reads fun m => m.conflictingPredicateLockTxns txnId table indexKeys
    let m ← Eff.get
    if blockers=∅ then
      match (m.predicateWriteWaitQueues waitKey).head?.filter (·≠txnId) with
      | some front => do
        Eff.modify fun m => m.enqueuePredicateWaiter waitKey txnId
        Eff.modify fun m => m.setPredicateWaitEdges txnId {front}
        let context := fun _ victim : TransactionId =>
          s!"deadlock detected while waiting for predicate write on table {table}; victim transaction {victim} aborted"
        if ← breakDeadlocks txnId context [front] then
          checkWriteConflictsFrom fuel txnId table indexKeys
        else Eff.fail (.txn
          s!"predicate write wait on table {table}; transaction {front} is ahead in queue")
      | none => do
        Eff.modify fun m => m.dequeuePredicateWaiter waitKey txnId
        Eff.modify fun m => m.setPredicateWaitEdges txnId ∅
    else do
      Eff.modify fun m => m.enqueuePredicateWaiter waitKey txnId
      Eff.modify fun m => m.setPredicateWaitEdges txnId blockers
      let context := fun _ victim : TransactionId =>
        s!"deadlock detected while writing table {table}; victim transaction {victim} aborted"
      if ← breakDeadlocks txnId context (ascending blockers) then
        checkWriteConflictsFrom fuel txnId table indexKeys
      else Eff.fail (.txn
        s!"serializable conflict on table {table}; waiting on transactions {joinIds blockers}")

/-- `check_write_conflicts`. -/
def checkWriteConflicts (txnId : TransactionId) (table : String)
    (indexKeys : List (String × List Value)) : Eff (TxnManager P) Unit :=
  fun m => checkWriteConflictsFrom (m.txns.size+1) txnId table indexKeys m

end TxnManager

end RustSql.V2
