import Mathlib.Logic.Function.Basic
import RustSql.V2.PagerUndo

/-!
# Several handles on one file

Every pager opened on a path has the files, the page cache and the transaction manager
in common with the others. The meta page, the committed page count and the pending
writes are its own. A call that has to wait for a page's lock keeps its handle busy and
tries again while the other handles go on.
-/

namespace RustSql.V2

open Std (ExtTreeMap)

/-- A call that waits in `wait_for_page_write_lock`, with what it has found out before. -/
inductive WaitingCall (P : Type) where
  | lock (txnId : TransactionId) (pageId : PageId)
  | write (txnId : TransactionId) (pageId : PageId) (page : P)
  | allocate (txnId : TransactionId) (pageId : PageId) (kind : PageKind)

/-- What the end of a call means for the pages. -/
inductive PageEvent where
  | handedOut (txnId : TransactionId) (pageId : PageId)
  | committed (txnId : TransactionId)

namespace PagerCall

variable {P U : Type}

/-- What a call waits for when it is made and has to wait. -/
def waiting (p : Pager P U) : PagerCall P → Option (WaitingCall P)
  | acquirePageWriteLock txnId pageId => some (.lock txnId pageId)
  | writePage txnId pageId page => some (.write txnId pageId page)
  | allocatePageWithKind txnId kind => some (.allocate txnId p.metaPage.pageCount kind)
  | _ => none

/-- The transaction a call commits. -/
def committing : PagerCall P → Option TransactionId
  | commit txnId => some txnId
  | _ => none

/-- A call and what its end means for the pages. -/
def happens [PageImage P] [WalFormat P U] : PagerCall P → Eff (Pager P U) (Option PageEvent)
  | allocatePageWithKind txnId kind => do
    let pageId ← Pager.allocatePageWithKind txnId kind
    pure (some (.handedOut txnId pageId))
  | commit txnId => do
    Pager.commit txnId
    pure (some (.committed txnId))
  | call => do
    call.run
    pure none

end PagerCall

/-- The rest of a call that waited: another round of the wait, and what comes after it. -/
def WaitingCall.resume {P U : Type} [PageImage P] :
    WaitingCall P → Eff (Pager P U) (Option PageEvent)
  | lock txnId pageId => do
    Pager.waitForPageWriteLock txnId pageId
    pure none
  | write txnId pageId page => do
    Pager.waitForPageWriteLock txnId pageId
    Pager.storePage txnId pageId page
    pure none
  | allocate txnId pageId kind =>
    Eff.attempt (Pager.waitForPageWriteLock txnId pageId) fun result =>
      match result with
      | .ok () => do
        Eff.modify fun p => p.putWrite txnId pageId none (PageImage.empty kind)
        pure (some (.handedOut txnId pageId))
      | .error error => do
        Eff.modify fun p => p.setPageCount (p.metaPage.pageCount-1)
        Eff.fail error

/-- The fields of a `Pager` that are not shared, and the call it is busy with. -/
structure PagerHandle (P : Type) where
  metaPage : MetaPage
  committedPageCount : ℕ
  txnPageStates : ExtTreeMap TransactionId (PageWrites P) compare
  waiting : Option (WaitingCall P)

/-- The pagers opened on one path, with a name for each, and what has happened to the
pages they handed out. -/
structure PagerHandles (ι P U : Type) where
  files : Files P U
  pageCache : ExtTreeMap PageId P compare
  txnManager : TxnManager P
  handles : ι → Option (PagerHandle P)
  /-- The pages handed out to transactions that are still open. -/
  allocations : List (ι × TransactionId × PageId)
  /-- The pages handed out to transactions that have committed since. -/
  committedPages : List PageId

namespace PagerHandles

variable {ι P U : Type}

/-- A handle as the pager it is. -/
def view (s : PagerHandles ι P U) (handle : PagerHandle P) : Pager P U where
  files := s.files
  metaPage := handle.metaPage
  committedPageCount := handle.committedPageCount
  pageCache := s.pageCache
  txnPageStates := handle.txnPageStates
  txnManager := s.txnManager
  ioFaults := []

/-- The transaction has a pending write of the page through the handle. -/
def Writes (s : PagerHandles ι P U) (i : ι) (txnId : TransactionId) (pageId : PageId) : Prop :=
  ∃ handle, s.handles i=some handle ∧ (s.view handle).Writes txnId pageId

/-- The transaction is open on the handle. -/
def isOpen (s : PagerHandles ι P U) (i : ι) (txnId : TransactionId) : Bool :=
  match s.handles i with
  | some handle => decide (txnId∈handle.txnPageStates)
  | none => false

/-- `page_count` of the meta page in the file. -/
def persistedPageCount [PageImage P] (s : PagerHandles ι P U) : ℕ :=
  match (readRawPage s.files.db 0).bind PageImage.toMeta with
  | .ok metaPage => metaPage.pageCount
  | .error _ => 0

variable [DecidableEq ι]

/-- The pager of a handle after a call. -/
def put (s : PagerHandles ι P U) (i : ι) (p : Pager P U) (waiting : Option (WaitingCall P)) :
    PagerHandles ι P U :=
  {s with
    files := p.files
    pageCache := p.pageCache
    txnManager := p.txnManager
    handles := Function.update s.handles i
      (some ⟨p.metaPage,p.committedPageCount,p.txnPageStates,waiting⟩)}

/-- Keep the pages of transactions that are still open. -/
def forgetEnded (s : PagerHandles ι P U) : PagerHandles ι P U :=
  {s with allocations := s.allocations.filter fun entry => s.isOpen entry.1 entry.2.1}

/-- The pages handed out to a transaction on a handle. -/
def pagesOf (s : PagerHandles ι P U) (i : ι) (txnId : TransactionId) : List PageId :=
  (s.allocations.filter fun entry => entry.1=i && entry.2.1=txnId).map fun entry => entry.2.2

/-- What has happened to the pages on a handle. -/
def remember (s : PagerHandles ι P U) (i : ι) : Option PageEvent → PagerHandles ι P U
  | some (.handedOut txnId pageId) => {s with allocations := (i,txnId,pageId)::s.allocations}
  | some (.committed txnId) => {s with committedPages := s.pagesOf i txnId++s.committedPages}
  | none => s

/-- What a handle does until it returns or has to wait. -/
def onHandle (s : PagerHandles ι P U) (i : ι) (handle : PagerHandle P)
    (x : Eff (Pager P U) (Option PageEvent)) (waiting : Option (WaitingCall P)) :
    Outcome (Option PageEvent) × PagerHandles ι P U :=
  match x (s.view handle), waiting with
  | (.ok event,p), _ => (.ok event,((s.put i p none).remember i event).forgetEnded)
  | (.err e,p), _ => (.err e,(s.put i p none).forgetEnded)
  | (.stuck,p), some call => (.ok none,(s.put i p (some call)).forgetEnded)
  | (.stuck,_), none => (.stuck,s)

end PagerHandles

/-- A step of one of the handles. -/
inductive HandleEvent (ι P : Type) where
  /-- `Pager::open`; `attach_txn_manager` gives it the manager of the path. -/
  | open' (i : ι)
  | call (i : ι) (made : PagerCall P)
  /-- A waiting call tries again. -/
  | retry (i : ι)

namespace HandleEvent

variable {ι P U : Type} [DecidableEq ι] [PageImage P] [WalFormat P U]

/-- What an event does. A handle is opened once, and it makes one call at a time. -/
def act : HandleEvent ι P → Eff (PagerHandles ι P U) (Option PageEvent)
  | open' i => fun s =>
    match s.handles i with
    | some _ => (.stuck,s)
    | none =>
      match loadMetaAndRecover s.files with
      | .error e => (.err e,s)
      | .ok found => (.ok none,s.put i
          {Pager.opened found s.pageCache [] with txnManager := s.txnManager} none)
  | call i made => fun s =>
    match s.handles i with
    | none => (.stuck,s)
    | some handle =>
      match handle.waiting with
      | some _ => (.stuck,s)
      | none => s.onHandle i handle made.happens (made.waiting (s.view handle))
  | retry i => fun s =>
    match s.handles i with
    | none => (.stuck,s)
    | some handle =>
      match handle.waiting with
      | none => (.stuck,s)
      | some waiting => s.onHandle i handle waiting.resume (some waiting)

/-- An event of a run. -/
def run (event : HandleEvent ι P) : Eff (PagerHandles ι P U) Unit := do
  let _ ← event.act
  pure ()

/-- The page an event hands out. -/
def handedOut (event : HandleEvent ι P) (s : PagerHandles ι P U) : Option PageId :=
  match (event.act s).1 with
  | .ok (some (.handedOut _ pageId)) => some pageId
  | _ => none

end HandleEvent

/-! ## What a handle's call does to the pages -/

namespace Pager

variable {P U : Type} {p p' q : Pager P U} {committing : Option TransactionId}

/-- Pages, pending writes and the committed page count are the same. -/
structure SamePages (p p' : Pager P U) : Prop where
  files : p'.files=p.files
  pageCache : p'.pageCache=p.pageCache
  txnPageStates : p'.txnPageStates=p.txnPageStates
  committedPageCount : p'.committedPageCount=p.committedPageCount
  ioFaults : p'.ioFaults=p.ioFaults

/-- Nothing changes. -/
theorem SamePages.refl (p : Pager P U) : SamePages p p := ⟨rfl,rfl,rfl,rfl,rfl⟩

/-- What a call does to the pages until it returns or has to wait, and what its end
means; `committing` is the transaction it commits, if it is a commit. -/
inductive HandleStep [PageImage P] (p p' : Pager P U) (committing : Option TransactionId) :
    Option PageEvent → Prop
  | keeps (h : SamePages p p') : HandleStep p p' committing none
  | begins (txnId : TransactionId) (hnew : txnId∉p.txnPageStates)
      (h : SamePages {p with txnPageStates := p.txnPageStates.insert txnId ∅} p') :
      HandleStep p p' committing none
  | writes (txnId : TransactionId) (pageId : PageId) (beforeImage : Option P) (page : P)
      (hreplaced : p.replacedPage txnId pageId=.ok beforeImage)
      (h : SamePages (p.putWrite txnId pageId beforeImage page) p') : HandleStep p p' committing none
  | allocates (txnId : TransactionId) (pageId : PageId) (page : P)
      (h : SamePages (p.putWrite txnId pageId none page) p') :
      HandleStep p p' committing (some (.handedOut txnId pageId))
  | undoes (txnId : TransactionId) (h : Undone p p' txnId) : HandleStep p p' committing none
  /-- A commit that fails to release its locks in the end has still been made. -/
  | commits (txnId : TransactionId) (writes : PageWrites P) (event : Option PageEvent)
      (hwrites : p.txnPageStates[txnId]?=some writes) (h : Published p p' txnId writes)
      (hwal : p'.files.wal=[]) (hcommitting : committing=some txnId)
      (hevent : event=some (.committed txnId) ∨ event=none) : HandleStep p p' committing event

/-- The event of a call that ended well. -/
def eventOf : Outcome (Option PageEvent) → Option PageEvent
  | .ok event => event
  | _ => none

/-- Nothing changes twice. -/
theorem SamePages.trans (h : SamePages p p') (h' : SamePages p' q) : SamePages p q where
  files := h'.files.trans h.files
  pageCache := h'.pageCache.trans h.pageCache
  txnPageStates := h'.txnPageStates.trans h.txnPageStates
  committedPageCount := h'.committedPageCount.trans h.committedPageCount
  ioFaults := h'.ioFaults.trans h.ioFaults

/-- The same writes are pending. -/
theorem SamePages.pending (h : SamePages p p') (txnId : TransactionId) :
    p'.pending txnId=p.pending txnId :=
  pending_of_eq h.txnPageStates txnId

/-- The same write makes the same pages. -/
theorem SamePages.putWrite (h : SamePages p p') (txnId : TransactionId) (pageId : PageId)
    (beforeImage : Option P) (page : P) :
    SamePages (p.putWrite txnId pageId beforeImage page)
      (p'.putWrite txnId pageId beforeImage page) := by
  refine ⟨h.files,?_,?_,h.committedPageCount,h.ioFaults⟩
  · unfold Pager.putWrite
    rw [h.pageCache]
  · unfold Pager.putWrite
    rw [h.pending,h.txnPageStates]

/-- A write replaces the same page. -/
theorem SamePages.replacedPage (h : SamePages p p') (txnId : TransactionId) (pageId : PageId) :
    p'.replacedPage txnId pageId=p.replacedPage txnId pageId := by
  unfold Pager.replacedPage currentBeforeImage
  rw [h.pending,h.pageCache,h.committedPageCount,h.files]

/-- A rollback after nothing has changed. -/
theorem SamePages.undone {txnId : TransactionId} (h : SamePages p p') (h' : Undone p' q txnId) :
    Undone p q txnId :=
  h'.of_eq h.txnPageStates.symm h.committedPageCount.symm h.pageCache.symm h.files.symm
    h.ioFaults.symm

/-- A wait leaves the pages alone, or undoes the waiting transaction. -/
theorem waitForPageWriteLock_leaves {txnId : TransactionId} {pageId : PageId}
    {outcome : Outcome Unit} (h : waitForPageWriteLock txnId pageId p=(outcome,q)) :
    SamePages p q ∨
      (Undone p q txnId ∧ p.committedPageCount ≤ q.metaPage.pageCount) ∧ outcome≠.ok () := by
  rcases hrun : manager (TxnManager.acquirePageWrite txnId pageId) p with ⟨locked,p₁⟩
  have hlocks : SamePages p p₁ := by
    have hstate := congrArg Prod.snd hrun
    subst hstate
    exact ⟨rfl,rfl,rfl,rfl,rfl⟩
  unfold waitForPageWriteLock tryPageWriteLock at h
  rw [Eff.bind_eq] at h
  unfold Eff.attempt at h
  rw [hrun] at h
  cases locked with
  | ok u =>
    obtain ⟨-,rfl⟩ := Prod.mk.inj h
    exact Or.inl hlocks
  | stuck =>
    obtain ⟨-,rfl⟩ := Prod.mk.inj h
    exact Or.inl hlocks
  | err e =>
    obtain ⟨p₂,hclean,hp₂⟩ : ∃ p₂, cleanupAbortedTransactionState txnId p₁=(.ok (),p₂) ∧
        (p₂=p₁ ∨ p₂=p₁.undoWrites txnId) := by
      unfold cleanupAbortedTransactionState
      rw [Eff.modify_eq]
      refine ⟨_,rfl,?_⟩
      split
      · exact Or.inr rfl
      · exact Or.inl rfl
    dsimp only at h
    rw [Eff.bind_of_ok hclean] at h
    have hend : outcome≠.ok () ∧ q=p₂ := by
      split_ifs at h
      · obtain ⟨rfl,rfl⟩ := Prod.mk.inj h
        exact ⟨Outcome.err_ne_ok,rfl⟩
      · obtain ⟨rfl,rfl⟩ := Prod.mk.inj h
        exact ⟨Outcome.stuck_ne_ok,rfl⟩
      · obtain ⟨rfl,rfl⟩ := Prod.mk.inj h
        exact ⟨Outcome.err_ne_ok,rfl⟩
    obtain ⟨hfailed,rfl⟩ := hend
    rcases hp₂ with rfl | rfl
    · exact Or.inl hlocks
    · have hcounts := le_undoWrites_pageCount p₁ txnId
      have hundone := undoWrites_undone p₁ txnId (hcounts.trans (Nat.le_succ _))
      have hcommitted := hlocks.committedPageCount ▸ hcounts
      exact Or.inr ⟨⟨hlocks.undone hundone,hcommitted⟩,hfailed⟩

/-- A wait and what comes after it. -/
theorem wait_bind {α : Type} {txnId : TransactionId} {pageId : PageId}
    {f : Unit → Eff (Pager P U) α} {outcome : Outcome α}
    (h : (waitForPageWriteLock txnId pageId >>= f) p=(outcome,q)) :
    (∃ p₁, SamePages p p₁ ∧ f () p₁=(outcome,q)) ∨
      (SamePages p q ∨ Undone p q txnId) ∧ ∀ value, outcome≠.ok value := by
  rcases hwait : waitForPageWriteLock txnId pageId p with ⟨locked,p₁⟩
  have hleaves := waitForPageWriteLock_leaves hwait
  cases locked with
  | ok u =>
    rw [Eff.bind_of_ok hwait] at h
    rcases hleaves with hkept | ⟨-,hfailed⟩
    · exact Or.inl ⟨p₁,hkept,h⟩
    · exact absurd rfl hfailed
  | err e =>
    rw [Eff.bind_of_err hwait] at h
    obtain ⟨rfl,rfl⟩ := Prod.mk.inj h
    exact Or.inr ⟨hleaves.imp_right fun hundone => hundone.1.1,fun value => Outcome.err_ne_ok⟩
  | stuck =>
    rw [Eff.bind_of_stuck hwait] at h
    obtain ⟨rfl,rfl⟩ := Prod.mk.inj h
    exact Or.inr ⟨hleaves.imp_right fun hundone => hundone.1.1,fun value => Outcome.stuck_ne_ok⟩

/-- A call that fails makes no event. -/
theorem eventOf_failed {outcome : Outcome (Option PageEvent)}
    (h : ∀ value, outcome≠.ok value) : eventOf outcome=none := by
  cases outcome with
  | ok event => exact absurd rfl (h event)
  | err e => rfl
  | stuck => rfl

/-- An event is what a call returned. -/
theorem eventOf_some {outcome : Outcome (Option PageEvent)} {event : PageEvent}
    (h : eventOf outcome=some event) : outcome=.ok (some event) := by
  cases outcome with
  | ok happened =>
    obtain rfl : happened=some event := h
    rfl
  | err e => cases h
  | stuck => cases h

section Steps

variable [PageImage P]

variable {txnId : TransactionId} {pageId : PageId} {outcome : Outcome (Option PageEvent)}
    {call : PagerCall P}

/-- A wait that does not end well. -/
theorem HandleStep.of_leaves (hsame : SamePages p p')
    (h : SamePages p' q ∨ Undone p' q txnId) : HandleStep p q committing none := by
  rcases h with hkept | hundone
  · exact HandleStep.keeps (hsame.trans hkept)
  · exact HandleStep.undoes txnId (hsame.undone hundone)

/-- A stored page is a step. -/
theorem storePage_step {page : P} {outcome : Outcome Unit} (hsame : SamePages p p')
    (h : storePage txnId pageId page p'=(outcome,q)) : HandleStep p q committing none := by
  unfold storePage at h
  cases hreplaced : p'.replacedPage txnId pageId with
  | error e =>
    have hfail : (Eff.reads fun p : Pager P U => p.replacedPage txnId pageId) p'=(.err e,p') := by
      unfold Eff.reads
      dsimp only
      rw [hreplaced]
    rw [Eff.bind_of_err hfail] at h
    obtain ⟨-,rfl⟩ := Prod.mk.inj h
    exact HandleStep.keeps hsame
  | ok beforeImage =>
    have hread : (Eff.reads fun p : Pager P U => p.replacedPage txnId pageId) p'=
        (.ok beforeImage,p') := by
      unfold Eff.reads
      dsimp only
      rw [hreplaced]
    rw [Eff.bind_of_ok hread] at h
    obtain ⟨-,rfl⟩ := Prod.mk.inj h
    rw [hsame.replacedPage] at hreplaced
    exact HandleStep.writes txnId pageId beforeImage page hreplaced (hsame.putWrite _ _ _ _)

omit [PageImage P] in
/-- A call whose end says nothing about pages. -/
theorem drop_event {α : Type} {x : Eff (Pager P U) α}
    (h : (x >>= fun _ => pure none) p=(outcome,q)) :
    eventOf outcome=none ∧ (x p).2=q ∧ (outcome≠.stuck → Eff.returns x p=some q) := by
  rcases hrun : x p with ⟨done,p₁⟩
  cases done with
  | ok value =>
    rw [Eff.bind_of_ok hrun] at h
    obtain ⟨rfl,rfl⟩ := Prod.mk.inj h
    exact ⟨rfl,rfl,fun _ => Eff.returns_of_ok hrun⟩
  | err e =>
    rw [Eff.bind_of_err hrun] at h
    obtain ⟨rfl,rfl⟩ := Prod.mk.inj h
    exact ⟨rfl,rfl,fun _ => by rw [Eff.returns,hrun]⟩
  | stuck =>
    rw [Eff.bind_of_stuck hrun] at h
    obtain ⟨rfl,rfl⟩ := Prod.mk.inj h
    exact ⟨rfl,rfl,fun hends => absurd rfl hends⟩

/-- A round of a waiting call, whatever its handle has reserved before. -/
theorem resume_step {call : WaitingCall P}
    (hsame : SamePages p p') (h : call.resume p'=(outcome,q)) :
    HandleStep p q committing (eventOf outcome) := by
  cases call with
  | lock txnId pageId =>
    rcases wait_bind h with ⟨p₁,hkept,hrest⟩ | ⟨hleaves,hfailed⟩
    · obtain ⟨rfl,rfl⟩ := Prod.mk.inj hrest
      exact HandleStep.keeps (hsame.trans hkept)
    · rw [eventOf_failed hfailed]
      exact HandleStep.of_leaves hsame hleaves
  | write txnId pageId page =>
    rcases wait_bind h with ⟨p₁,hkept,hrest⟩ | ⟨hleaves,hfailed⟩
    · obtain ⟨hnone,hstate,-⟩ := drop_event hrest
      rw [hnone]
      exact storePage_step (hsame.trans hkept) (Prod.ext rfl hstate)
    · rw [eventOf_failed hfailed]
      exact HandleStep.of_leaves hsame hleaves
  | allocate txnId pageId kind =>
    rcases hwait : waitForPageWriteLock txnId pageId p' with ⟨locked,p₁⟩
    have hleaves := waitForPageWriteLock_leaves hwait
    unfold WaitingCall.resume Eff.attempt at h
    dsimp only at h
    rw [hwait] at h
    cases locked with
    | ok u =>
      obtain ⟨rfl,rfl⟩ := Prod.mk.inj h
      rcases hleaves with hkept | ⟨-,hfailed⟩
      · have hput := (hsame.trans hkept).putWrite txnId pageId none (PageImage.empty kind)
        exact HandleStep.allocates txnId pageId _ hput
      · exact absurd rfl hfailed
    | err e =>
      obtain ⟨rfl,rfl⟩ := Prod.mk.inj h
      rcases hleaves with hkept | ⟨⟨hundone,hcounts⟩,-⟩
      · exact HandleStep.keeps ((hsame.trans hkept).trans ⟨rfl,rfl,rfl,rfl,rfl⟩)
      · -- the number is given back although the undo has reset the count already
        have hshort : p'.committedPageCount ≤ p₁.metaPage.pageCount-1+1 := by omega
        have hundone' : Undone p' (p₁.setPageCount (p₁.metaPage.pageCount-1)) txnId :=
          ⟨hundone.files,hundone.committedPageCount,hundone.ioFaults,hundone.txnPageStates,
            hundone.pageCache,hshort⟩
        exact HandleStep.undoes txnId (hsame.undone hundone')
    | stuck =>
      obtain ⟨rfl,rfl⟩ := Prod.mk.inj h
      exact HandleStep.of_leaves hsame (hleaves.imp_right fun hundone => hundone.1.1)

omit [PageImage P] in
/-- A transaction is valid or the call is refused. -/
theorem reads_valid (p : Pager P U) (txnId : TransactionId) :
    (∃ e, (Eff.reads fun p : Pager P U => p.validateTransaction txnId) p=(.err e,p)) ∨
      (Eff.reads fun p : Pager P U => p.validateTransaction txnId) p=(.ok (),p) := by
  unfold Eff.reads
  dsimp only
  cases hvalid : p.validateTransaction txnId with
  | error e => exact Or.inl ⟨e,rfl⟩
  | ok u => exact Or.inr rfl

variable [WalFormat P U]

/-- A call that may wait is refused at once, or it is a first round of its wait. -/
theorem happens_waits {waiting : WaitingCall P}
    (h : call.waiting p=some waiting) : (∃ e, call.happens p=(.err e,p)) ∨
      ∃ pageCount, call.happens p=waiting.resume (p.setPageCount pageCount) := by
  cases call with
  | acquirePageWriteLock txnId pageId =>
    obtain rfl := Option.some.inj h
    rcases reads_valid p txnId with ⟨e,hfail⟩ | hvalid
    · have hrun : acquirePageWriteLock txnId pageId p=(.err e,p) := Eff.bind_of_err hfail
      exact Or.inl ⟨e,Eff.bind_of_err hrun⟩
    · have hrun : acquirePageWriteLock txnId pageId p=waitForPageWriteLock txnId pageId p :=
        Eff.bind_of_ok hvalid
      refine Or.inr ⟨p.metaPage.pageCount,?_⟩
      change (acquirePageWriteLock txnId pageId >>= _) p=_
      rw [Eff.bind_eq,hrun]
      rfl
  | writePage txnId pageId page =>
    obtain rfl := Option.some.inj h
    rcases reads_valid p txnId with ⟨e,hfail⟩ | hvalid
    · have hrun : writePage txnId pageId page p=(.err e,p) := Eff.bind_of_err hfail
      exact Or.inl ⟨e,Eff.bind_of_err hrun⟩
    have hrun : writePage txnId pageId page p=(if p.metaPage.pageCount ≤ pageId then
        Eff.fail (.storage
          s!"page {pageId} is out of bounds for database with {p.metaPage.pageCount} pages")
      else do
        waitForPageWriteLock txnId pageId
        storePage txnId pageId page) p := Eff.bind_of_ok hvalid
    split at hrun
    · exact Or.inl ⟨_,Eff.bind_of_err hrun⟩
    · refine Or.inr ⟨p.metaPage.pageCount,?_⟩
      change (writePage txnId pageId page >>= _) p=_
      rw [Eff.bind_eq,hrun,←Eff.bind_eq,Eff.bind_assoc]
      rfl
  | allocatePageWithKind txnId kind =>
    obtain rfl := Option.some.inj h
    rcases reads_valid p txnId with ⟨e,hfail⟩ | hvalid
    · have hrun : allocatePageWithKind txnId kind p=(.err e,p) := Eff.bind_of_err hfail
      exact Or.inl ⟨e,Eff.bind_of_err hrun⟩
    · refine Or.inr ⟨p.metaPage.pageCount+1,?_⟩
      rcases hwait : waitForPageWriteLock txnId p.metaPage.pageCount
        (p.setPageCount (p.metaPage.pageCount+1)) with ⟨locked,p₁⟩
      change (allocatePageWithKind txnId kind >>= _) p=
        WaitingCall.resume (.allocate txnId p.metaPage.pageCount kind) _
      unfold allocatePageWithKind WaitingCall.resume
      rw [Eff.bind_assoc,Eff.bind_of_ok hvalid,Eff.bind_assoc,Eff.bind_of_ok (Eff.get_eq p),
        Eff.bind_assoc,Eff.bind_of_ok (Eff.modify_eq _ p),Eff.bind_eq]
      unfold Eff.attempt
      dsimp only
      rw [hwait]
      cases locked with
      | ok u => rfl
      | err e => rfl
      | stuck => rfl
  | begin' => cases h
  | beginWithTxnId txnId => cases h
  | commit txnId => cases h
  | rollback txnId => cases h
  | manager x => cases h

omit [WalFormat P U] in
/-- A begin is a step. -/
theorem Begun.handleStep (h : Begun p q) : HandleStep p q committing none := by
  rcases h with ⟨m,rfl⟩ | ⟨txnId,m,hnew,rfl⟩
  · exact HandleStep.keeps ⟨rfl,rfl,rfl,rfl,rfl⟩
  · exact HandleStep.begins txnId hnew ⟨rfl,rfl,rfl,rfl,rfl⟩

/-- Every call of a handle is such a step, until it returns or has to wait. -/
theorem happens_step (hfaults : p.ioFaults=[]) (h : call.happens p=(outcome,q))
    (hends : outcome≠.stuck ∨ ∃ waiting, call.waiting p=some waiting) :
    HandleStep p q call.committing (eventOf outcome) := by
  have hwaits : ∀ waiting, call.waiting p=some waiting → HandleStep p q call.committing (eventOf outcome) := by
    intro waiting hwaiting
    rcases happens_waits hwaiting with ⟨e,hfail⟩ | ⟨pageCount,hresume⟩
    · obtain ⟨rfl,rfl⟩ := Prod.mk.inj (hfail.symm.trans h)
      exact HandleStep.keeps (SamePages.refl p)
    · have hreserved : SamePages p (p.setPageCount pageCount) := ⟨rfl,rfl,rfl,rfl,rfl⟩
      exact resume_step hreserved (hresume.symm.trans h)
  have hreturned : call.waiting p=none → outcome≠.stuck := by
    intro hnone
    rcases hends with hends | ⟨waiting,hwaiting⟩
    · exact hends
    · rw [hnone] at hwaiting
      cases hwaiting
  cases call with
  | acquirePageWriteLock txnId pageId => exact hwaits _ rfl
  | writePage txnId pageId page => exact hwaits _ rfl
  | allocatePageWithKind txnId kind => exact hwaits _ rfl
  | begin' =>
    obtain ⟨hnone,-,hreturns⟩ := drop_event h
    rw [hnone]
    exact (begin'_begun (Eff.returns_drop (hreturns (hreturned rfl)))).handleStep
  | beginWithTxnId txnId =>
    obtain ⟨hnone,-,hreturns⟩ := drop_event h
    rw [hnone]
    exact (beginWithTxnId_begun (hreturns (hreturned rfl))).handleStep
  | commit txnId =>
    have hrun : (commit txnId >>= fun _ => pure (some (.committed txnId))) p=(outcome,q) := h
    rcases hcommit : commit txnId p with ⟨done,p₁⟩
    have hend : p₁=q ∧ (eventOf outcome=some (.committed txnId) ∨ eventOf outcome=none) := by
      cases done with
      | ok u =>
        rw [Eff.bind_of_ok hcommit] at hrun
        obtain ⟨rfl,rfl⟩ := Prod.mk.inj hrun
        exact ⟨rfl,Or.inl rfl⟩
      | err e =>
        rw [Eff.bind_of_err hcommit] at hrun
        obtain ⟨rfl,rfl⟩ := Prod.mk.inj hrun
        exact ⟨rfl,Or.inr rfl⟩
      | stuck =>
        rw [Eff.bind_of_stuck hcommit] at hrun
        obtain ⟨rfl,rfl⟩ := Prod.mk.inj hrun
        exact ⟨rfl,Or.inr rfl⟩
    obtain ⟨rfl,hevent⟩ := hend
    cases hwrites : p.txnPageStates[txnId]? with
    | none =>
      rw [commit_unknown hwrites] at hcommit
      obtain ⟨rfl,rfl⟩ := Prod.mk.inj hcommit
      rw [Eff.bind_of_err (commit_unknown hwrites)] at hrun
      obtain ⟨rfl,-⟩ := Prod.mk.inj hrun
      exact HandleStep.keeps (SamePages.refl p)
    | some writes =>
      have hstate : (commit txnId p).2=p₁ := congrArg Prod.snd hcommit
      obtain ⟨hpublished,hwal⟩ := commit_published hfaults hwrites hstate
      exact HandleStep.commits txnId writes _ hwrites hpublished hwal rfl hevent
  | rollback txnId =>
    obtain ⟨hnone,-,hreturns⟩ := drop_event h
    rw [hnone]
    rcases rollback_cases (hreturns (hreturned rfl)) with rfl | hundone
    · exact HandleStep.keeps (SamePages.refl q)
    · exact HandleStep.undoes txnId hundone
  | manager x =>
    obtain ⟨hnone,hstate,-⟩ := drop_event h
    rw [hnone]
    subst hstate
    exact HandleStep.keeps ⟨rfl,rfl,rfl,rfl,rfl⟩

omit [WalFormat P U] in
/-- The page a waiting call hands out is the one it has reserved. -/
theorem resume_handedOut {call : WaitingCall P}
    (h : (call.resume p).1=.ok (some (.handedOut txnId pageId))) :
    ∃ kind, call=.allocate txnId pageId kind := by
  cases call with
  | lock other pageId' =>
    have hnone := (drop_event (x := waitForPageWriteLock other pageId') (Prod.ext h rfl)).1
    cases hnone
  | write other pageId' page =>
    change ((waitForPageWriteLock other pageId' >>= fun _ =>
      storePage other pageId' page >>= fun _ => pure none) p).1=_ at h
    rw [←Eff.bind_assoc] at h
    have hnone := (drop_event (x := waitForPageWriteLock other pageId' >>= fun _ =>
      storePage other pageId' page) (Prod.ext h rfl)).1
    cases hnone
  | allocate other pageId' kind =>
    unfold WaitingCall.resume Eff.attempt at h
    dsimp only at h
    rcases hwait : waitForPageWriteLock other pageId' p with ⟨locked,p₁⟩
    rw [hwait] at h
    cases locked with
    | ok u =>
      obtain ⟨rfl,rfl⟩ := PageEvent.handedOut.inj (Option.some.inj (Outcome.ok.inj h))
      exact ⟨kind,rfl⟩
    | err e => cases h
    | stuck => cases h

/-- The page a call hands out is the first one the handle does not count yet. -/
theorem happens_handedOut (h : (call.happens p).1=.ok (some (.handedOut txnId pageId))) :
    pageId=p.metaPage.pageCount ∧ ∃ kind, call=.allocatePageWithKind txnId kind := by
  have hwaits : ∀ waiting, call.waiting p=some waiting →
      ∃ kind, waiting=.allocate txnId pageId kind := by
    intro waiting hwaiting
    rcases happens_waits hwaiting with ⟨e,hfail⟩ | ⟨pageCount,hresume⟩
    · rw [hfail] at h
      cases h
    · rw [hresume] at h
      exact resume_handedOut h
  cases call with
  | acquirePageWriteLock other pageId' =>
    obtain ⟨kind,hcall⟩ := hwaits _ rfl
    cases hcall
  | writePage other pageId' page =>
    obtain ⟨kind,hcall⟩ := hwaits _ rfl
    cases hcall
  | allocatePageWithKind other kind =>
    obtain ⟨kind',hcall⟩ := hwaits _ rfl
    obtain ⟨rfl,rfl,-⟩ := WaitingCall.allocate.inj hcall
    exact ⟨rfl,kind,rfl⟩
  | commit other =>
    have hrun : ((commit other >>= fun _ => pure (some (PageEvent.committed other))) p).1=
        .ok (some (PageEvent.handedOut txnId pageId)) := h
    rcases hcommit : commit other p with ⟨done,p₁⟩
    cases done with
    | ok u =>
      rw [Eff.bind_of_ok hcommit] at hrun
      cases hrun
    | err e =>
      rw [Eff.bind_of_err hcommit] at hrun
      cases hrun
    | stuck =>
      rw [Eff.bind_of_stuck hcommit] at hrun
      cases hrun
  | begin' => cases (drop_event (Prod.ext h rfl)).1
  | beginWithTxnId other => cases (drop_event (Prod.ext h rfl)).1
  | rollback other => cases (drop_event (Prod.ext h rfl)).1
  | manager x => cases (drop_event (Prod.ext h rfl)).1

end Steps

/-! ## Pending writes after such a step -/

section Writes

variable [PageImage P] {happened : Option PageEvent}

variable {txnId : TransactionId} {pageId : PageId}

omit [PageImage P] in
/-- The same transactions write. -/
theorem SamePages.writes (h : SamePages p p') :
    p'.Writes txnId pageId ↔ p.Writes txnId pageId := by
  unfold Writes
  rw [h.pending]

omit [PageImage P] in
/-- Who writes has page states. -/
theorem mem_of_writes (h : p.Writes txnId pageId) :
    txnId∈p.txnPageStates := by
  by_contra hnew
  obtain ⟨write,hwrite⟩ := h
  rw [pending,ExtTreeMap.getElem?_eq_none hnew] at hwrite
  simp at hwrite

omit [PageImage P] in
/-- Who is erased has none. -/
theorem not_mem_of_erase
    (h : p'.txnPageStates=p.txnPageStates.erase txnId) : txnId∉p'.txnPageStates := by
  rw [h]
  simp

/-- A transaction that stays open keeps its pending writes. -/
theorem HandleStep.kept (h : HandleStep p p' committing happened) (hwrites : p.Writes txnId pageId)
    (hopen : txnId∈p'.txnPageStates) :
    p'.Writes txnId pageId := by
  cases h with
  | keeps hsame => exact hsame.writes.mpr hwrites
  | begins other hnew hsame =>
    refine hsame.writes.mpr ?_
    have hne : other≠txnId := by
      rintro rfl
      exact hnew (mem_of_writes hwrites)
    unfold Writes
    rw [pending_of_insert rfl,if_neg hne]
    exact hwrites
  | writes other pageId' beforeImage page hreplaced hsame =>
    exact hsame.writes.mpr (writes_putWrite.mpr (Or.inr hwrites))
  | allocates other pageId' page hsame =>
    exact hsame.writes.mpr (writes_putWrite.mpr (Or.inr hwrites))
  | undoes other hundone =>
    refine (writes_of_erase hundone.txnPageStates).mpr ⟨?_,hwrites⟩
    rintro rfl
    exact not_mem_of_erase hundone.txnPageStates hopen
  | commits other writes event hstate hpublished hwal hcommitting hevent =>
    refine (writes_of_erase hpublished.txnPageStates).mpr ⟨?_,hwrites⟩
    rintro rfl
    exact not_mem_of_erase hpublished.txnPageStates hopen

/-- Only a commit changes the files. -/
theorem HandleStep.files (h : HandleStep p p' committing happened) :
    (p'.files=p.files ∧ ∀ txnId, happened≠some (.committed txnId)) ∨
    ∃ txnId writes, p.txnPageStates[txnId]?=some writes ∧ Published p p' txnId writes ∧
      p'.files.wal=[] ∧ committing=some txnId ∧
      (happened=some (.committed txnId) ∨ happened=none) := by
  cases h with
  | keeps hsame => exact Or.inl ⟨hsame.files,by simp⟩
  | begins other hnew hsame => exact Or.inl ⟨hsame.files,by simp⟩
  | writes other pageId' beforeImage page hreplaced hsame => exact Or.inl ⟨hsame.files,by simp⟩
  | allocates other pageId' page hsame => exact Or.inl ⟨hsame.files,by simp⟩
  | undoes other hundone => exact Or.inl ⟨hundone.files,by simp⟩
  | commits other writes event hstate hpublished hwal hcommitting hevent =>
    exact Or.inr ⟨other,writes,hstate,hpublished,hwal,hcommitting,hevent⟩

/-- A page that is handed out is pending. -/
theorem HandleStep.pending_handedOut
    (h : HandleStep p p' committing (some (.handedOut txnId pageId))) : p'.Writes txnId pageId := by
  cases h with
  | allocates _ _ page hsame => exact hsame.writes.mpr (writes_putWrite.mpr (Or.inl ⟨rfl,rfl⟩))
  | commits other writes event hstate hpublished hwal hcommitting hevent =>
    rcases hevent with hevent | hevent
    · cases hevent
    · cases hevent

end Writes

end Pager

/-! ## What an event does -/

namespace HandleEvent

variable {ι P U : Type} [DecidableEq ι] [PageImage P] [WalFormat P U]
  {s s' : PagerHandles ι P U} {event : HandleEvent ι P}

/-- An allocation is made by a handle that counts every page of the file; when it had to
wait, the page it reserved is still not one of them. A commit is made by a handle that
counts every committed page, or it writes the last one or a later one itself. -/
def UpToDate (s : PagerHandles ι P U) : HandleEvent ι P → Prop
  | call i (.allocatePageWithKind _ _) => ∀ handle, s.handles i=some handle →
    s.persistedPageCount ≤ handle.metaPage.pageCount
  | call i (.commit txnId) => ∀ handle, s.handles i=some handle →
    s.persistedPageCount ≤ handle.committedPageCount ∨
      ∃ pageId, (s.view handle).Writes txnId pageId ∧ s.persistedPageCount ≤ pageId+1
  | retry i => ∀ handle txnId pageId kind, s.handles i=some handle →
    handle.waiting=some (.allocate txnId pageId kind) → s.persistedPageCount ≤ pageId
  | _ => True

/-- The transaction an event commits through a handle. -/
def Commits (event : HandleEvent ι P) (i : ι) (txnId : TransactionId) : Prop :=
  event=.call i (.commit txnId)

/-- What an event does, when it does not just fail. -/
inductive Does (event : HandleEvent ι P) (s s' : PagerHandles ι P U) : Prop
  | nothing (h : s'=s)
  | opens (i : ι) (found : MetaPage × Files P U) (hclosed : s.handles i=none)
      (hfound : loadMetaAndRecover s.files=.ok found)
      (h : s'=s.put i {Pager.opened found s.pageCache [] with txnManager := s.txnManager} none)
  | steps (i : ι) (handle : PagerHandle P) (p : Pager P U) (waiting : Option (WaitingCall P))
      (committing : Option TransactionId) (happened : Option PageEvent)
      (hhandle : s.handles i=some handle)
      (hstep : (s.view handle).HandleStep p committing happened)
      (h : s'=((s.put i p waiting).remember i happened).forgetEnded)
      (hcommits : ∀ txnId, committing=some txnId → event.Commits i txnId)
      (hfresh : ∀ txnId pageId, event.UpToDate s → happened=some (.handedOut txnId pageId) →
        s.persistedPageCount ≤ pageId)

variable {i : ι} {handle : PagerHandle P} {x : Eff (Pager P U) (Option PageEvent)}
    {waiting : Option (WaitingCall P)} {txnId : TransactionId} {pageId : PageId}

omit [PageImage P] [WalFormat P U] in
/-- What a handle does with a call, by how the call ended. -/
theorem onHandle_returns
    {outcome : Outcome (Option PageEvent)} (h : s.onHandle i handle x waiting=(outcome,s'))
    (hends : outcome≠.stuck) : ∃ (done : Outcome (Option PageEvent)) (p : Pager P U) (waits :
      Option (WaitingCall P)), x (s.view handle)=(done,p) ∧
      (done≠.stuck ∨ ∃ call, waiting=some call) ∧
      s'=((s.put i p waits).remember i (Pager.eventOf done)).forgetEnded := by
  rcases hrun : x (s.view handle) with ⟨done,p⟩
  unfold PagerHandles.onHandle at h
  rw [hrun] at h
  cases done with
  | ok event =>
    obtain ⟨-,rfl⟩ := Prod.mk.inj h
    exact ⟨_,p,none,rfl,Or.inl Outcome.stuck_ne_ok.symm,rfl⟩
  | err e =>
    obtain ⟨-,rfl⟩ := Prod.mk.inj h
    exact ⟨_,p,none,rfl,Or.inl (by simp),rfl⟩
  | stuck =>
    cases waiting with
    | none =>
      obtain ⟨rfl,-⟩ := Prod.mk.inj h
      exact absurd rfl hends
    | some call =>
      obtain ⟨-,rfl⟩ := Prod.mk.inj h
      exact ⟨_,p,some call,rfl,Or.inr ⟨call,rfl⟩,rfl⟩

/-- A call that is made: its handle is open and not busy. -/
theorem act_call {made : PagerCall P} (h : ((call i made).act s).1≠.stuck) :
    ∃ handle, s.handles i=some handle ∧ (call i made).act s=
      s.onHandle i handle made.happens (made.waiting (s.view handle)) := by
  unfold act at h ⊢
  cases hhandle : s.handles i with
  | none =>
    simp only [hhandle] at h
    exact absurd rfl h
  | some handle =>
    cases hwaiting : handle.waiting with
    | some waiting =>
      simp only [hhandle,hwaiting] at h
      exact absurd rfl h
    | none => exact ⟨handle,rfl,by simp only [hhandle,hwaiting]⟩

/-- A round of a wait: its handle is waiting. -/
theorem act_retry (h : ((retry i).act s).1≠.stuck) :
    ∃ handle waiting, s.handles i=some handle ∧ handle.waiting=some waiting ∧
      (retry i).act s=s.onHandle i handle waiting.resume (some waiting) := by
  unfold act at h ⊢
  cases hhandle : s.handles i with
  | none =>
    simp only [hhandle] at h
    exact absurd rfl h
  | some handle =>
    cases hwaiting : handle.waiting with
    | none =>
      simp only [hhandle,hwaiting] at h
      exact absurd rfl h
    | some waiting => exact ⟨handle,waiting,rfl,hwaiting,by simp only [hhandle,hwaiting]⟩

omit [DecidableEq ι] [WalFormat P U] in
/-- The page a handle hands out is one the file does not count. -/
theorem fresh_of_resume {waiting : WaitingCall P} {q : Pager P U} (hdate : UpToDate s (retry i))
    (hhandle : s.handles i=some handle) (hwaiting : handle.waiting=some waiting)
    (hrun : waiting.resume (s.view handle)=(.ok (some (.handedOut txnId pageId)),q)) :
    s.persistedPageCount ≤ pageId := by
  obtain ⟨kind,rfl⟩ := Pager.resume_handedOut (congrArg Prod.fst hrun)
  exact hdate handle txnId pageId kind hhandle hwaiting

omit [DecidableEq ι] in
/-- A page handed out by an up-to-date handle is new. -/
theorem fresh_of_call {made : PagerCall P} {q : Pager P U} (hdate : UpToDate s (call i made))
    (hhandle : s.handles i=some handle)
    (hrun : made.happens (s.view handle)=(.ok (some (.handedOut txnId pageId)),q)) :
    s.persistedPageCount ≤ pageId := by
  obtain ⟨hpage,kind,rfl⟩ := Pager.happens_handedOut (congrArg Prod.fst hrun)
  have hcount := hdate handle hhandle
  exact hpage ▸ hcount

/-- Every event of a run does one of these. -/
theorem does (h : Eff.returns event.run s=some s') : event.Does s s' := by
  have hreturns := Eff.returns_drop h
  rcases hact : event.act s with ⟨outcome,t⟩
  have hends : outcome≠.stuck ∧ t=s' := by
    rw [Eff.returns,hact] at hreturns
    cases outcome with
    | ok value => exact ⟨Outcome.stuck_ne_ok.symm,Option.some.inj hreturns⟩
    | err e => exact ⟨by simp,Option.some.inj hreturns⟩
    | stuck => cases hreturns
  obtain ⟨hends,rfl⟩ := hends
  have hreturned : (event.act s).1≠.stuck := by rw [hact]; exact hends
  cases event with
  | open' i =>
    unfold act at hact
    cases hhandle : s.handles i with
    | some handle =>
      simp only [hhandle] at hact
      obtain ⟨rfl,-⟩ := Prod.mk.inj hact
      exact absurd rfl hends
    | none =>
      cases hfound : loadMetaAndRecover s.files with
      | error e =>
        simp only [hhandle,hfound] at hact
        exact Does.nothing (Prod.mk.inj hact).2.symm
      | ok found =>
        simp only [hhandle,hfound] at hact
        exact Does.opens i found hhandle hfound (Prod.mk.inj hact).2.symm
  | call i made =>
    obtain ⟨handle,hhandle,honHandle⟩ := act_call hreturned
    obtain ⟨done,p,waits,hrun,hdone,hstate⟩ := onHandle_returns (honHandle.symm.trans hact) hends
    have hstep := Pager.happens_step rfl hrun hdone
    refine Does.steps i handle p waits _ _ hhandle hstep hstate ?_ ?_
    · intro txnId hcommitting
      cases made with
      | commit other =>
        obtain rfl := Option.some.inj hcommitting
        rfl
      | _ => cases hcommitting
    · intro txnId pageId hdate hhappened
      rw [Pager.eventOf_some hhappened] at hrun
      exact fresh_of_call hdate hhandle hrun
  | retry i =>
    obtain ⟨handle,waiting,hhandle,hwaiting,honHandle⟩ := act_retry hreturned
    obtain ⟨done,p,waits,hrun,hdone,hstate⟩ := onHandle_returns (honHandle.symm.trans hact) hends
    have hstep : (s.view handle).HandleStep p none (Pager.eventOf done) :=
      Pager.resume_step (Pager.SamePages.refl _) hrun
    refine Does.steps i handle p waits none _ hhandle hstep hstate ?_ ?_
    · intro txnId hcommitting
      cases hcommitting
    · intro txnId pageId hdate hhappened
      rw [Pager.eventOf_some hhappened] at hrun
      exact fresh_of_resume hdate hhandle hwaiting hrun

omit [PageImage P] [WalFormat P U] in
/-- An event comes from the call on the handle. -/
theorem onHandle_event
    {happened : PageEvent} (h : (s.onHandle i handle x waiting).1=.ok (some happened)) :
    ∃ p, x (s.view handle)=(.ok (some happened),p) := by
  rcases hrun : x (s.view handle) with ⟨done,p⟩
  unfold PagerHandles.onHandle at h
  rw [hrun] at h
  cases done with
  | ok value =>
    obtain rfl : value=some happened := Outcome.ok.inj h
    exact ⟨p,rfl⟩
  | err e => cases h
  | stuck =>
    cases waiting with
    | none => cases h
    | some call => cases Outcome.ok.inj h

/-- A page that is handed out is one the file does not count yet. -/
theorem handedOut_fresh (hdate : event.UpToDate s)
    (h : event.handedOut s=some pageId) : s.persistedPageCount ≤ pageId := by
  unfold handedOut at h
  split at h
  · next txnId pageId' hact =>
    obtain rfl := Option.some.inj h
    have hreturned : (event.act s).1≠.stuck := by rw [hact]; exact Outcome.stuck_ne_ok.symm
    cases event with
    | open' i =>
      unfold act at hact
      cases hhandle : s.handles i with
      | some handle =>
        simp only [hhandle] at hact
        cases hact
      | none =>
        cases hfound : loadMetaAndRecover s.files with
        | error e =>
          simp only [hhandle,hfound] at hact
          cases hact
        | ok found =>
          simp only [hhandle,hfound] at hact
          cases Outcome.ok.inj hact
    | call i made =>
      obtain ⟨handle,hhandle,honHandle⟩ := act_call hreturned
      rw [honHandle] at hact
      obtain ⟨p,hrun⟩ := onHandle_event hact
      exact fresh_of_call hdate hhandle hrun
    | retry i =>
      obtain ⟨handle,waiting,hhandle,hwaiting,honHandle⟩ := act_retry hreturned
      rw [honHandle] at hact
      obtain ⟨p,hrun⟩ := onHandle_event hact
      exact fresh_of_resume hdate hhandle hwaiting hrun
  · cases h

end HandleEvent

end RustSql.V2
