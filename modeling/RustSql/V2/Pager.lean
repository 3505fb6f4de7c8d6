import RustSql.Base.CrashFile
import RustSql.V2.TxnManager
import RustSql.V2.Wal

/-!
# The pager

One cache of pages is shared by all transactions: a write goes to the cache at
once and is remembered, with the page it replaced, under the transaction that
made it. A commit logs the transaction's pages, syncs the log, writes the pages
and empties the log; a rollback puts the replaced pages back.

Page numbers and counters are natural numbers; a file that exhausts the 32-bit
page numbers is outside the model. A pager is driven by one thread, so a call
that has to wait for a lock does not return (`Eff.hang`).
-/

namespace RustSql.V2

open Std (ExtTreeMap)

/-- How log records are stored in units of the log file, and read back. -/
class WalFormat (P U : Type) where
  /-- `write_frame` and `write_commit`. -/
  encode : WalRecord P → List U
  /-- `recover_frames`. -/
  recoverFrames : List U → Except DbError (List (WalFrame P))

instance : WalFormat BytePage UInt8 where
  encode := WalRecord.bytes
  recoverFrames := V2.recoverFrames

/-- `PageWrite`: a pending write and the page it replaced. -/
structure PageWrite (P : Type) where
  beforeImage : Option P
  afterImage : P
  deriving DecidableEq

/-- The pending writes of one transaction, by page. -/
abbrev PageWrites (P : Type) := ExtTreeMap PageId (PageWrite P) compare

/-- `Pager`, with the files it works on. -/
structure Pager (P U : Type) where
  files : Files P U
  metaPage : MetaPage
  committedPageCount : ℕ
  pageCache : ExtTreeMap PageId P compare
  txnPageStates : ExtTreeMap TransactionId (PageWrites P) compare
  txnManager : TxnManager P
  /-- How the next calls to the file system end: `none` when the call succeeds,
  `some k` when it fails and, if it appends, has written `k` units. -/
  ioFaults : List (Option ℕ)

/-- The message of a read past the end of the file. -/
def readPastEnd : DbError := .io "failed to fill whole buffer"

/-- `read_raw_page`. -/
def readRawPage {P : Type} (db : List P) (pageId : PageId) : Except DbError P :=
  match db[pageId]? with
  | some page => .ok page
  | none => .error readPastEnd

/-- One past the largest of some pages, at least `least`. -/
def pageEnd (least : ℕ) (pageIds : List PageId) : ℕ :=
  pageIds.foldl (fun count pageId => max count (pageId+1)) least

/-- `is_waitable_lock_error` of the pager. -/
def isWaitablePageLockError (error : DbError) : Bool :=
  containsText error.display "page write conflict" || containsText error.display "page write wait" ||
    containsText error.display "serializable conflict" ||
      containsText error.display "predicate write wait"

/-- The log records of a commit. -/
def commitRecords {P : Type} (txnId : TransactionId) (pages : List (PageId × P)) :
    List (WalRecord P) :=
  (pages.map fun page => .frame ⟨txnId,page.1,page.2⟩)++[.commit txnId pages.length]

section Recovery

variable {P U : Type} [PageImage P] [WalFormat P U]

/-- The bytes `commit` appends to the log. -/
def walUnits (U : Type) [WalFormat P U] (records : List (WalRecord P)) : List U :=
  records.flatMap WalFormat.encode

/-- The calls to the file system a commit makes. -/
def commitScript (U : Type) [WalFormat P U] (txnId : TransactionId) (pages : List (PageId × P)) :
    List (IoStep P U) :=
  [.truncateWal,.appendWal (walUnits U (commitRecords txnId pages)),.syncWal]++
    (pages.map fun page => .writePage page.1 page.2)++[.syncDb,.truncateWal,.syncWal]

/-- The calls to the file system a recovery makes. -/
def recoveryScript (wal : List U) : Except DbError (List (IoStep P U)) := do
  let frames ← WalFormat.recoverFrames wal
  let writes : List (IoStep P U) :=
    if frames.isEmpty then []
    else (frames.map fun frame => .writePage frame.pageId frame.page)++[.syncDb]
  .ok (writes++[.truncateWal,.syncWal])

/-- `load_meta_and_recover`. -/
def loadMetaAndRecover (files : Files P U) : Except DbError (MetaPage × Files P U) := do
  let script ← recoveryScript files.wal
  let files := script.foldl (Files.exec PageImage.hole) files
  let metaImage ← readRawPage files.db 0
  let metaPage ← PageImage.toMeta metaImage
  .ok (metaPage,files)

/-- The meta page of a new database. -/
def bootstrapMeta : MetaPage := ⟨pageSize,2,1,1⟩

/-- `bootstrap_new_file`: the meta page, a catalog page without a payload and
an empty log. -/
def bootstrapNewFile : MetaPage × Files P U :=
  (bootstrapMeta,[.writePage 0 (PageImage.ofMeta bootstrapMeta),
    .writePage 1 (PageImage.empty .catalogPage),.truncateWal,.syncWal].foldl
      (Files.exec PageImage.hole) ⟨[],[]⟩)

end Recovery

namespace Pager

variable {P U : Type}

/-- Run a call of the transaction manager. -/
def manager {α : Type} (x : Eff (TxnManager P) α) : Eff (Pager P U) α :=
  Eff.zoom txnManager (fun p m => {p with txnManager := m}) x

section Files

variable [PageImage P]

/-- A call to the file system. -/
def io (step : IoStep P U) : Eff (Pager P U) Unit := fun p =>
  match p.ioFaults with
  | some written::faults =>
    let partial' : Files P U := match step with
      | .appendWal units => p.files.exec PageImage.hole (.appendWal (units.take written))
      | _ => p.files
    (.err (.io "input/output error"),{p with files := partial', ioFaults := faults})
  | faults => (.ok (),{p with files := p.files.exec PageImage.hole step, ioFaults := faults.tail})

end Files

/-- A page enters the cache. -/
def cachePage (p : Pager P U) (pageId : PageId) (page : P) : Pager P U :=
  {p with pageCache := p.pageCache.insert pageId page}

/-- A call of the commit; a page that was written enters the cache. -/
def commitStep [PageImage P] (step : IoStep P U) : Eff (Pager P U) Unit := do
  io step
  match step with
  | .writePage pageId page => Eff.modify fun p => p.cachePage pageId page
  | _ => pure ()

/-- The pager `open` returns for a meta page and files, with the page cache the
process keeps for the path. -/
def opened (opened : MetaPage × Files P U) (sharedCache : ExtTreeMap PageId P compare)
    (ioFaults : List (Option ℕ)) : Pager P U where
  files := opened.2
  metaPage := opened.1
  committedPageCount := opened.1.pageCount
  pageCache := sharedCache
  txnPageStates := ∅
  txnManager := .withNextTxnId opened.1.nextTxnId
  ioFaults := ioFaults

/-- `begin_with_txn_id`. -/
def beginWithTxnId (txnId : TransactionId) : Eff (Pager P U) Unit := fun p =>
  if txnId∈p.txnPageStates then
    (.err (.txn s!"transaction {txnId} is already active"),p)
  else
    (.ok (),{p with
      metaPage := {p.metaPage with nextTxnId := max p.metaPage.nextTxnId (txnId+1)}
      txnPageStates := p.txnPageStates.insert txnId ∅})

/-- `begin`. -/
def begin' : Eff (Pager P U) TransactionId := do
  let txnId ← manager (TxnManager.begin' .readCommitted)
  Eff.attempt (beginWithTxnId txnId) fun result =>
    match result with
    | .ok () => pure txnId
    | .error error => do
      Eff.ignore (manager (TxnManager.abort txnId))
      Eff.fail error

/-- `validate_transaction`. -/
def validateTransaction (p : Pager P U) (txnId : TransactionId) : Except DbError Unit :=
  if txnId∈p.txnPageStates then .ok ()
  else .error (.txn s!"transaction {txnId} is not active")

/-- The pending writes of a transaction. -/
def pending (p : Pager P U) (txnId : TransactionId) : PageWrites P :=
  (p.txnPageStates[txnId]?).getD ∅

/-- Every page some transaction has a pending write for. -/
def pendingPageIds (p : Pager P U) : List PageId :=
  p.txnPageStates.toList.flatMap fun entry => entry.2.keys

/-- `effective_page_count`. -/
def effectivePageCount (p : Pager P U) (committedPageCount : ℕ) : ℕ :=
  pageEnd committedPageCount p.pendingPageIds

/-- `meta.page_count` after transactions have come or gone. -/
def resetPageCount (p : Pager P U) : Pager P U :=
  {p with metaPage := {p.metaPage with pageCount := p.effectivePageCount p.committedPageCount}}

/-- A new committed page count. -/
def publishPageCount (p : Pager P U) (committedPageCount : ℕ) : Pager P U :=
  {p with committedPageCount := committedPageCount}.resetPageCount

/-- `committed_page_count_after_commit`. -/
def committedPageCountAfterCommit (p : Pager P U) (pageIds : List PageId) : ℕ :=
  pageEnd p.committedPageCount pageIds

/-- The meta page a commit of these pages writes. -/
def committedMeta (p : Pager P U) (pageIds : List PageId) : MetaPage :=
  {p.metaPage with pageCount := p.committedPageCountAfterCommit pageIds}

/-- The pages a commit writes: the transaction's and the meta page. -/
def pagesToCommit [PageImage P] (p : Pager P U) (writes : PageWrites P) : List (PageId × P) :=
  ((writes.map fun _ write => write.afterImage).insert 0
    (PageImage.ofMeta (p.committedMeta writes.keys))).toList

/-- `commit`. -/
def commit [PageImage P] [WalFormat P U] (txnId : TransactionId) : Eff (Pager P U) Unit := do
  let p ← Eff.get
  match p.txnPageStates[txnId]? with
  | none => Eff.fail (.txn s!"transaction {txnId} is not active")
  | some writes => do
    Eff.modify fun p => {p with txnPageStates := p.txnPageStates.erase txnId}
    let pages := p.pagesToCommit writes
    Eff.forEach (commitScript U txnId pages) commitStep
    Eff.modify fun q => q.publishPageCount (p.committedPageCountAfterCommit writes.keys)
    manager (TxnManager.releaseTransactionResources txnId)

/-- Put one replaced page back. -/
def restorePage (p : Pager P U) (pageId : PageId) (write : PageWrite P) : Pager P U :=
  match write.beforeImage with
  | some beforeImage => p.cachePage pageId beforeImage
  | none => {p with pageCache := p.pageCache.erase pageId}

/-- Forget a transaction's writes, putting the replaced pages back. -/
def undoWrites (p : Pager P U) (txnId : TransactionId) : Pager P U :=
  let forgotten : Pager P U := {p with txnPageStates := p.txnPageStates.erase txnId}
  ((p.pending txnId).toList.reverse.foldl
    (fun (p : Pager P U) entry => p.restorePage entry.1 entry.2) forgotten).resetPageCount

/-- `rollback`. -/
def rollback (txnId : TransactionId) : Eff (Pager P U) Unit := do
  Eff.reads fun p => p.validateTransaction txnId
  Eff.modify fun p => p.undoWrites txnId
  manager (TxnManager.releaseTransactionResources txnId)

/-- `cleanup_aborted_transaction_state`. -/
def cleanupAbortedTransactionState (txnId : TransactionId) : Eff (Pager P U) Unit :=
  Eff.modify fun p =>
    match p.txnManager.status txnId with
    | .ok .aborted => p.undoWrites txnId
    | _ => p

/-- One round of `wait_for_page_write_lock`: true when the lock is acquired,
false when the caller has to wait. -/
def tryPageWriteLock (txnId : TransactionId) (pageId : PageId) : Eff (Pager P U) Bool :=
  Eff.attempt (manager (TxnManager.acquirePageWrite txnId pageId)) fun result =>
    match result with
    | .ok () => pure true
    | .error error => do
      cleanupAbortedTransactionState txnId
      if error.isDeadlock then Eff.fail error
      else if isWaitablePageLockError error then pure false
      else Eff.fail error

/-- `wait_for_page_write_lock`. -/
def waitForPageWriteLock (txnId : TransactionId) (pageId : PageId) : Eff (Pager P U) Unit := do
  if ← tryPageWriteLock txnId pageId then pure () else Eff.hang

/-- `acquire_page_write_lock`. -/
def acquirePageWriteLock (txnId : TransactionId) (pageId : PageId) : Eff (Pager P U) Unit := do
  Eff.reads fun p => p.validateTransaction txnId
  waitForPageWriteLock txnId pageId

/-- `current_before_image`. -/
def currentBeforeImage (p : Pager P U) (pageId : PageId) : Except DbError (Option P) :=
  match p.pageCache[pageId]? with
  | some page => .ok (some page)
  | none =>
    if pageId < p.committedPageCount then (readRawPage p.files.db pageId).map some
    else .ok none

/-- Remember a write and put the page in the cache. -/
def putWrite (p : Pager P U) (txnId : TransactionId) (pageId : PageId) (beforeImage : Option P)
    (page : P) : Pager P U :=
  {p with
    txnPageStates := p.txnPageStates.insert txnId
      ((p.pending txnId).insert pageId ⟨beforeImage,page⟩)
    pageCache := p.pageCache.insert pageId page}

/-- The page a transaction's write replaces: a second write keeps what the
first one replaced. -/
def replacedPage (p : Pager P U) (txnId : TransactionId) (pageId : PageId) :
    Except DbError (Option P) :=
  match (p.pending txnId)[pageId]? with
  | some write => .ok write.beforeImage
  | none => p.currentBeforeImage pageId

/-- `write_page` once the page's lock is held. -/
def storePage (txnId : TransactionId) (pageId : PageId) (page : P) : Eff (Pager P U) Unit := do
  let beforeImage ← Eff.reads fun p => p.replacedPage txnId pageId
  Eff.modify fun p => p.putWrite txnId pageId beforeImage page

/-- `write_page`. -/
def writePage (txnId : TransactionId) (pageId : PageId) (page : P) : Eff (Pager P U) Unit := do
  Eff.reads fun p => p.validateTransaction txnId
  let p ← Eff.get
  if p.metaPage.pageCount ≤ pageId then
    Eff.fail (.storage
      s!"page {pageId} is out of bounds for database with {p.metaPage.pageCount} pages")
  else do
    waitForPageWriteLock txnId pageId
    storePage txnId pageId page

/-- `read_page`. -/
def readPage (p : Pager P U) (pageId : PageId) : Except DbError P :=
  match p.pageCache[pageId]? with
  | some page => .ok page
  | none =>
    if p.committedPageCount ≤ pageId then
      .error (.storage
        s!"page {pageId} is out of bounds for database with {p.committedPageCount} pages")
    else readRawPage p.files.db pageId

/-- `pending_page_writes`. -/
def pendingPageWrites (p : Pager P U) (txnId : TransactionId) :
    Except DbError (List (PageWriteSetEntry P)) := do
  p.validateTransaction txnId
  .ok ((p.pending txnId).toList.map fun entry =>
    ⟨entry.1,entry.2.beforeImage,entry.2.afterImage⟩)

/-- Add to `meta.page_count`. -/
def setPageCount (p : Pager P U) (pageCount : ℕ) : Pager P U :=
  {p with metaPage := {p.metaPage with pageCount := pageCount}}

/-- `allocate_page_with_kind`: the next page number, also when a waiting
transaction was aborted; the number is given back when the lock is refused. -/
def allocatePageWithKind [PageImage P] (txnId : TransactionId) (kind : PageKind) :
    Eff (Pager P U) PageId := do
  Eff.reads fun p => p.validateTransaction txnId
  let p ← Eff.get
  let pageId := p.metaPage.pageCount
  Eff.modify fun p => p.setPageCount (p.metaPage.pageCount+1)
  Eff.attempt (waitForPageWriteLock txnId pageId) fun result =>
    match result with
    | .ok () => do
      Eff.modify fun p => p.putWrite txnId pageId none (PageImage.empty kind)
      pure pageId
    | .error error => do
      Eff.modify fun p => p.setPageCount (p.metaPage.pageCount-1)
      Eff.fail error

end Pager

end RustSql.V2
