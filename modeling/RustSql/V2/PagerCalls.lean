import RustSql.V2.ManagerCalls
import RustSql.V2.Pager

/-!
# Runs of the pager

The calls made of one pager, in any order and by any number of transactions, while
others may call the transaction manager it shares. What a call can do to the pages is
said once here.
-/

namespace RustSql.V2

open Std (ExtTreeMap)

/-- A call of the pager, or anybody's call of its transaction manager. -/
inductive PagerCall (P : Type) where
  | begin'
  | beginWithTxnId (txnId : TransactionId)
  | acquirePageWriteLock (txnId : TransactionId) (pageId : PageId)
  | writePage (txnId : TransactionId) (pageId : PageId) (page : P)
  | allocatePageWithKind (txnId : TransactionId) (kind : PageKind)
  | commit (txnId : TransactionId)
  | rollback (txnId : TransactionId)
  | manager (x : Eff (TxnManager P) Unit)

section Maps

variable {V P : Type} (put : ExtTreeMap PageId P compare → PageId × V →
  ExtTreeMap PageId P compare) (content : V → Option P)

/-- The pages after a list of edits, when each edit decides about one page: a page no
edit names keeps its content. -/
theorem foldl_pages_of_not_mem (hput : ∀ pages (edit : PageId × V) (pageId : PageId),
      (put pages edit)[pageId]?=if edit.1=pageId then content edit.2 else pages[pageId]?)
    {edits : List (PageId × V)} {pageId : PageId} (h : ∀ edit∈edits, edit.1≠pageId)
    (pages : ExtTreeMap PageId P compare) : (edits.foldl put pages)[pageId]?=pages[pageId]? := by
  induction edits generalizing pages with
  | nil => rfl
  | cons edit edits ih =>
    have hrest := ih (fun other hother => h other (List.mem_cons_of_mem edit hother)) (put pages edit)
    rw [List.foldl_cons,hrest,hput,if_neg (h edit List.mem_cons_self)]

/-- A page that one edit names has what that edit says. -/
theorem foldl_pages_of_mem (hput : ∀ pages (edit : PageId × V) (pageId : PageId),
      (put pages edit)[pageId]?=if edit.1=pageId then content edit.2 else pages[pageId]?)
    {edits : List (PageId × V)} (hdistinct : edits.Pairwise fun v w => v.1≠w.1)
    {pageId : PageId} {value : V} (h : (pageId,value)∈edits)
    (pages : ExtTreeMap PageId P compare) : (edits.foldl put pages)[pageId]?=content value := by
  induction edits generalizing pages with
  | nil => exact absurd h List.not_mem_nil
  | cons edit edits ih =>
    obtain ⟨hedit,hdistinct⟩ := List.pairwise_cons.mp hdistinct
    rw [List.foldl_cons]
    rcases List.mem_cons.mp h with heq | h
    · subst heq
      rw [foldl_pages_of_not_mem put content hput fun other hother => (hedit other hother).symm,hput,
        if_pos rfl]
    · exact ih hdistinct h (put pages edit)

/-- The entries of a map have different keys. -/
theorem toList_distinct {V : Type} (entries : ExtTreeMap PageId V compare) :
    entries.toList.Pairwise fun v w => v.1≠w.1 := by
  refine List.Pairwise.imp (fun h heq => ?_) ExtTreeMap.distinct_keys_toList
  exact h (compare_eq_iff_eq.mpr heq)

/-- Edits made for every entry of a map, in some order. -/
theorem foldl_pages (hput : ∀ pages (edit : PageId × V) (pageId : PageId),
      (put pages edit)[pageId]?=if edit.1=pageId then content edit.2 else pages[pageId]?)
    (entries : ExtTreeMap PageId V compare) {edits : List (PageId × V)}
    (hedits : edits.Perm entries.toList) (pages : ExtTreeMap PageId P compare)
    (pageId : PageId) :
    (edits.foldl put pages)[pageId]?=(entries[pageId]?).elim pages[pageId]? content := by
  cases hentry : entries[pageId]? with
  | some value =>
    have hmem := ExtTreeMap.mem_toList_iff_getElem?_eq_some.mpr hentry
    have hdistinct := (hedits.pairwise_iff fun h => h.symm).mpr (toList_distinct entries)
    exact foldl_pages_of_mem put content hput hdistinct (hedits.mem_iff.mpr hmem) pages
  | none =>
    refine foldl_pages_of_not_mem put content hput (fun edit hedit heq => ?_) pages
    have hmem := ExtTreeMap.mem_toList_iff_getElem?_eq_some.mp (hedits.mem_iff.mp hedit)
    rw [heq,hentry] at hmem
    cases hmem

end Maps

namespace Pager

variable {P U : Type}

/-! ## What a call can do -/

/-- The transaction has a pending write of the page. -/
def Writes (p : Pager P U) (txnId : TransactionId) (pageId : PageId) : Prop :=
  ∃ write, (p.pending txnId)[pageId]?=some write

/-- The transaction's writes are forgotten and the replaced pages are back. -/
structure Undone (p p' : Pager P U) (txnId : TransactionId) : Prop where
  files : p'.files=p.files
  committedPageCount : p'.committedPageCount=p.committedPageCount
  ioFaults : p'.ioFaults=p.ioFaults
  txnPageStates : p'.txnPageStates=p.txnPageStates.erase txnId
  pageCache : ∀ pageId : PageId, p'.pageCache[pageId]?=
    ((p.pending txnId)[pageId]?).elim p.pageCache[pageId]? PageWrite.beforeImage
  /-- A refused allocation counts one page too few. -/
  counts : p.committedPageCount ≤ p'.metaPage.pageCount+1

/-- The transaction's pages and the meta page are in the file and in the cache. -/
structure Published [PageImage P] (p p' : Pager P U) (txnId : TransactionId)
    (writes : PageWrites P) : Prop where
  committedPageCount : p'.committedPageCount=p.committedPageCountAfterCommit writes.keys
  pageCount : p'.metaPage.pageCount=p'.effectivePageCount p'.committedPageCount
  ioFaults : p'.ioFaults=[]
  txnPageStates : p'.txnPageStates=p.txnPageStates.erase txnId
  db : p'.files.db=putPages PageImage.hole p.files.db (p.pagesToCommit writes)
  pageCache : ∀ pageId : PageId, p'.pageCache[pageId]?=
    (((writes.map fun _ write => write.afterImage).insert 0
      (PageImage.ofMeta (p.committedMeta writes.keys)))[pageId]?).elim p.pageCache[pageId]? some

/-- What a call that returns can do, when the file system works. -/
inductive PageStep [PageImage P] (p p' : Pager P U) : Prop
  | locks (m : TxnManager P) (h : p'={p with txnManager := m})
  | begins (txnId : TransactionId) (m : TxnManager P) (hnew : txnId∉p.txnPageStates)
      (h : p'={p with
        metaPage := {p.metaPage with nextTxnId := max p.metaPage.nextTxnId (txnId+1)}
        txnPageStates := p.txnPageStates.insert txnId ∅
        txnManager := m})
  | writes (txnId : TransactionId) (pageId : PageId) (beforeImage : Option P) (page : P)
      (m : TxnManager P) (hopen : txnId∈p.txnPageStates)
      (hreplaced : p.replacedPage txnId pageId=.ok beforeImage)
      (h : p'={p.putWrite txnId pageId beforeImage page with txnManager := m})
  | allocates (txnId : TransactionId) (kind : PageKind) (m : TxnManager P)
      (hopen : txnId∈p.txnPageStates)
      (h : p'={(p.setPageCount (p.metaPage.pageCount+1)).putWrite txnId p.metaPage.pageCount
        none (PageImage.empty kind) with txnManager := m})
  | undoes (txnId : TransactionId) (h : Undone p p' txnId)
  | commits (txnId : TransactionId) (writes : PageWrites P)
      (hwrites : p.txnPageStates[txnId]?=some writes) (h : Published p p' txnId writes)

/-! ## Undoing -/

/-- Putting replaced pages back only changes the cache. -/
theorem foldl_restorePage (edits : List (PageId × PageWrite P)) (p : Pager P U) :
    edits.foldl (fun (p : Pager P U) edit => p.restorePage edit.1 edit.2) p={p with
      pageCache := edits.foldl (fun pages edit => match edit.2.beforeImage with
        | some beforeImage => pages.insert edit.1 beforeImage
        | none => pages.erase edit.1) p.pageCache} := by
  induction edits generalizing p with
  | nil => rfl
  | cons edit edits ih =>
    have hone : p.restorePage edit.1 edit.2={p with
        pageCache := match edit.2.beforeImage with
          | some beforeImage => p.pageCache.insert edit.1 beforeImage
          | none => p.pageCache.erase edit.1} := by
      unfold restorePage
      cases edit.2.beforeImage <;> rfl
    rw [List.foldl_cons,ih,hone]
    rfl

/-- One page goes back to what it was. -/
theorem restored_get (pages : ExtTreeMap PageId P compare) (edit : PageId × PageWrite P)
    (pageId : PageId) : (match edit.2.beforeImage with
      | some beforeImage => pages.insert edit.1 beforeImage
      | none => pages.erase edit.1)[pageId]?=
        if edit.1=pageId then edit.2.beforeImage else pages[pageId]? := by
  cases hbefore : edit.2.beforeImage with
  | some beforeImage =>
    rw [ExtTreeMap.getElem?_insert]
    simp only [Std.LawfulEqCmp.compare_eq_iff_eq]
  | none =>
    rw [ExtTreeMap.getElem?_erase]
    simp only [Std.LawfulEqCmp.compare_eq_iff_eq]

/-- More pages than the least count and the named ones there are. -/
theorem pageEnd_le {least n : ℕ} {pageIds : List PageId} :
    pageEnd least pageIds ≤ n ↔ least ≤ n ∧ ∀ pageId∈pageIds, pageId < n := by
  unfold pageEnd
  induction pageIds generalizing least with
  | nil => simp
  | cons pageId pageIds ih =>
    rw [List.foldl_cons,ih,max_le_iff,Nat.succ_le_iff,and_assoc]
    simp only [List.mem_cons,forall_eq_or_imp]

/-- The committed pages are counted. -/
theorem le_effectivePageCount (p : Pager P U) (committedPageCount : ℕ) :
    committedPageCount ≤ p.effectivePageCount committedPageCount :=
  (pageEnd_le.mp (le_refl (p.effectivePageCount committedPageCount))).1

/-- The pager after an undo, with any number of pages that is not far too small. -/
theorem undoWrites_undone (p : Pager P U) (txnId : TransactionId) {pageCount : ℕ}
    (hcounts : p.committedPageCount ≤ pageCount+1) :
    Undone p ((p.undoWrites txnId).setPageCount pageCount) txnId := by
  have hcache := foldl_pages _ PageWrite.beforeImage restored_get (p.pending txnId)
    (p.pending txnId).toList.reverse_perm p.pageCache
  unfold undoWrites
  dsimp only
  rw [foldl_restorePage]
  exact ⟨rfl,rfl,rfl,rfl,hcache,hcounts⟩

/-- A rollback counts them, too. -/
theorem le_undoWrites_pageCount (p : Pager P U) (txnId : TransactionId) :
    p.committedPageCount ≤ (p.undoWrites txnId).metaPage.pageCount := by
  unfold undoWrites
  dsimp only
  rw [foldl_restorePage]
  exact le_effectivePageCount _ p.committedPageCount

/-- A refused allocation takes its page off once more after the undo. -/
theorem undoWrites_short (p : Pager P U) (txnId : TransactionId) :
    Undone p ((p.undoWrites txnId).setPageCount ((p.undoWrites txnId).metaPage.pageCount-1))
      txnId := by
  have hcounts := le_undoWrites_pageCount p txnId
  exact undoWrites_undone p txnId (by omega)

/-- A rollback, whatever the manager does. -/
theorem Undone.of_eq {p p' q : Pager P U} {txnId : TransactionId} (h : Undone p p' txnId)
    (hstates : q.txnPageStates=p.txnPageStates) (hcommitted : q.committedPageCount=
      p.committedPageCount) (hcache : q.pageCache=p.pageCache) (hfiles : q.files=p.files)
    (hfaults : q.ioFaults=p.ioFaults) : Undone q p' txnId := by
  have hpending : q.pending txnId=p.pending txnId := by rw [pending,pending,hstates]
  refine ⟨h.files.trans hfiles.symm,h.committedPageCount.trans hcommitted.symm,
    h.ioFaults.trans hfaults.symm,by rw [hstates]; exact h.txnPageStates,fun pageId => ?_,
    by rw [hcommitted]; exact h.counts⟩
  rw [hpending,hcache]
  exact h.pageCache pageId

/-! ## Waiting for a page -/

/-- A wait that is refused: the transaction is undone when it has been aborted. -/
theorem waitForPageWriteLock_refused {p p₁ : Pager P U} {txnId : TransactionId}
    {pageId : PageId} {e : DbError}
    (hrun : manager (TxnManager.acquirePageWrite txnId pageId) p=(.err e,p₁)) :
    waitForPageWriteLock txnId pageId p=(.err e,p₁) ∨
    waitForPageWriteLock txnId pageId p=(.err e,p₁.undoWrites txnId) ∨
    (waitForPageWriteLock txnId pageId p).1=.stuck := by
  obtain ⟨p₂,hclean,hp₂⟩ : ∃ p₂, cleanupAbortedTransactionState txnId p₁=(.ok (),p₂) ∧
      (p₂=p₁ ∨ p₂=p₁.undoWrites txnId) := by
    unfold cleanupAbortedTransactionState
    rw [Eff.modify_eq]
    refine ⟨_,rfl,?_⟩
    split
    · exact Or.inr rfl
    · exact Or.inl rfl
  have hend : waitForPageWriteLock txnId pageId p=(.err e,p₂) ∨
      (waitForPageWriteLock txnId pageId p).1=.stuck := by
    unfold waitForPageWriteLock tryPageWriteLock
    rw [Eff.bind_eq]
    unfold Eff.attempt
    rw [hrun]
    dsimp only
    rw [Eff.bind_of_ok hclean]
    split_ifs
    · exact Or.inl rfl
    · exact Or.inr rfl
    · exact Or.inl rfl
  rcases hend with hend | hstuck
  · rcases hp₂ with rfl | rfl
    · exact Or.inl hend
    · exact Or.inr (Or.inl hend)
  · exact Or.inr (Or.inr hstuck)

/-- How a wait for a page lock ends: with the lock, without it and perhaps without the
transaction's writes, or never. -/
theorem waitForPageWriteLock_cases (p : Pager P U) (txnId : TransactionId) (pageId : PageId) :
    ∃ m : TxnManager P,
    waitForPageWriteLock txnId pageId p=(.ok (),{p with txnManager := m}) ∨
    (∃ e, waitForPageWriteLock txnId pageId p=(.err e,{p with txnManager := m})) ∨
    (∃ e, waitForPageWriteLock txnId pageId p=
      (.err e,({p with txnManager := m} : Pager P U).undoWrites txnId)) ∨
    (waitForPageWriteLock txnId pageId p).1=.stuck := by
  rcases hrun : manager (TxnManager.acquirePageWrite txnId pageId) p with ⟨outcome,p₁⟩
  obtain ⟨m,rfl⟩ : ∃ m, p₁={p with txnManager := m} := ⟨_,(Prod.mk.inj hrun).2.symm⟩
  refine ⟨m,?_⟩
  cases outcome with
  | ok u =>
    refine Or.inl ?_
    unfold waitForPageWriteLock tryPageWriteLock
    rw [Eff.bind_eq]
    unfold Eff.attempt
    rw [hrun]
    rfl
  | err e =>
    rcases waitForPageWriteLock_refused hrun with hkept | hundone | hstuck
    · exact Or.inr (Or.inl ⟨e,hkept⟩)
    · exact Or.inr (Or.inr (Or.inl ⟨e,hundone⟩))
    · exact Or.inr (Or.inr (Or.inr hstuck))
  | stuck =>
    refine Or.inr (Or.inr (Or.inr ?_))
    unfold waitForPageWriteLock tryPageWriteLock
    rw [Eff.bind_eq]
    unfold Eff.attempt
    rw [hrun]

/-- A wait and what comes after it. -/
theorem returns_wait {β : Type} {p p' : Pager P U} {txnId : TransactionId} {pageId : PageId}
    {f : Unit → Eff (Pager P U) β}
    (h : Eff.returns (waitForPageWriteLock txnId pageId >>= f) p=some p') :
    ∃ m : TxnManager P, p'={p with txnManager := m} ∨
      p'=({p with txnManager := m} : Pager P U).undoWrites txnId ∨
      Eff.returns (f ()) {p with txnManager := m}=some p' := by
  obtain ⟨m,hwait | ⟨e,hwait⟩ | ⟨e,hwait⟩ | hstuck⟩ := waitForPageWriteLock_cases p txnId pageId
  · rw [Eff.returns,Eff.bind_of_ok hwait] at h
    exact ⟨m,Or.inr (Or.inr h)⟩
  · rw [Eff.returns,Eff.bind_of_err hwait] at h
    exact ⟨m,Or.inl (Option.some.inj h).symm⟩
  · rw [Eff.returns,Eff.bind_of_err hwait] at h
    exact ⟨m,Or.inr (Or.inl (Option.some.inj h).symm)⟩
  · have hnone : (waitForPageWriteLock txnId pageId >>= f) p=
        (.stuck,(waitForPageWriteLock txnId pageId p).2) :=
      Eff.bind_of_stuck (Prod.ext hstuck rfl)
    rw [Eff.returns,hnone] at h
    cases h

/-- A valid transaction has page states. -/
theorem mem_txnPageStates_of_valid {p : Pager P U} {txnId : TransactionId}
    (h : p.validateTransaction txnId=.ok ()) : txnId∈p.txnPageStates := by
  unfold validateTransaction at h
  split at h
  · assumption
  · cases h

/-! ## Every call is such a step -/

section Steps

variable [PageImage P]

/-- A call that only reads or fails. -/
theorem PageStep.same (p : Pager P U) : PageStep p p := PageStep.locks p.txnManager rfl

/-- Undone writes are a step. -/
theorem undoWrites_step (p : Pager P U) (m : TxnManager P) (txnId : TransactionId) :
    PageStep p (({p with txnManager := m} : Pager P U).undoWrites txnId) := by
  have hcounts := le_undoWrites_pageCount ({p with txnManager := m} : Pager P U) txnId
  have hundone := undoWrites_undone ({p with txnManager := m} : Pager P U) txnId
    (hcounts.trans (Nat.le_succ _))
  exact PageStep.undoes txnId (hundone.of_eq rfl rfl rfl rfl rfl)

variable {p p' : Pager P U} {txnId : TransactionId}

/-- A page lock is a step. -/
theorem acquirePageWriteLock_step {pageId : PageId}
    (h : Eff.returns (acquirePageWriteLock txnId pageId) p=some p') : PageStep p p' := by
  rcases Eff.returns_bind h with ⟨e,hfail⟩ | ⟨u,p₁,hvalid,hwait⟩
  · obtain rfl := Eff.reads_state hfail
    exact PageStep.same p'
  obtain rfl := Eff.reads_state hvalid
  have hdone : ∃ m : TxnManager P, p'={p₁ with txnManager := m} ∨
      p'=({p₁ with txnManager := m} : Pager P U).undoWrites txnId := by
    obtain ⟨m,hdone | ⟨e,hdone⟩ | ⟨e,hdone⟩ | hstuck⟩ :=
      waitForPageWriteLock_cases p₁ txnId pageId
    · rw [Eff.returns,hdone] at hwait
      exact ⟨m,Or.inl (Option.some.inj hwait).symm⟩
    · rw [Eff.returns,hdone] at hwait
      exact ⟨m,Or.inl (Option.some.inj hwait).symm⟩
    · rw [Eff.returns,hdone] at hwait
      exact ⟨m,Or.inr (Option.some.inj hwait).symm⟩
    · rw [Eff.returns_of_stuck hstuck] at hwait
      cases hwait
  obtain ⟨m,rfl | rfl⟩ := hdone
  · exact PageStep.locks m rfl
  · exact undoWrites_step p₁ m txnId

/-- A written page is a step. -/
theorem writePage_step {pageId : PageId} {page : P}
    (h : Eff.returns (writePage txnId pageId page) p=some p') : PageStep p p' := by
  rcases Eff.returns_bind h with ⟨e,hfail⟩ | ⟨u,p₁,hvalid,hrest⟩
  · obtain rfl := Eff.reads_state hfail
    exact PageStep.same p'
  obtain ⟨hvalid,rfl⟩ := TxnManager.reads_ok hvalid
  have hopen := mem_txnPageStates_of_valid hvalid
  have hbody : Eff.returns (if p₁.metaPage.pageCount ≤ pageId then Eff.fail (.storage
      s!"page {pageId} is out of bounds for database with {p₁.metaPage.pageCount} pages")
    else do
      waitForPageWriteLock txnId pageId
      storePage txnId pageId page) p₁=some p' := hrest
  split at hbody
  · obtain rfl := Option.some.inj hbody
    exact PageStep.same p₁
  obtain ⟨m,rfl | rfl | hstore⟩ := returns_wait hbody
  · exact PageStep.locks m rfl
  · exact undoWrites_step p₁ m txnId
  rcases Eff.returns_bind hstore with ⟨e,hfail⟩ | ⟨beforeImage,p₂,hfound,hput⟩
  · exact PageStep.locks m (Eff.reads_state hfail)
  · obtain ⟨hreplaced,rfl⟩ := TxnManager.reads_ok hfound
    exact PageStep.writes txnId pageId beforeImage page m hopen hreplaced
      (Option.some.inj hput).symm

/-- A new page is a step. -/
theorem allocatePageWithKind_step {kind : PageKind}
    (h : Eff.returns (allocatePageWithKind txnId kind) p=some p') : PageStep p p' := by
  rcases Eff.returns_bind h with ⟨e,hfail⟩ | ⟨u,p₁,hvalid,hrest⟩
  · obtain rfl := Eff.reads_state hfail
    exact PageStep.same p'
  obtain ⟨hvalid,rfl⟩ := TxnManager.reads_ok hvalid
  have hopen := mem_txnPageStates_of_valid hvalid
  set counted := p₁.setPageCount (p₁.metaPage.pageCount+1) with hcounted
  unfold Eff.returns at hrest
  rw [Eff.bind_of_ok (Eff.get_eq p₁)] at hrest
  rw [Eff.bind_of_ok (Eff.modify_eq _ p₁),←hcounted] at hrest
  unfold Eff.attempt at hrest
  obtain ⟨m,hwait | ⟨e,hwait⟩ | ⟨e,hwait⟩ | hstuck⟩ :=
    waitForPageWriteLock_cases counted txnId p₁.metaPage.pageCount
  · rw [hwait] at hrest
    exact PageStep.allocates txnId kind m hopen (Option.some.inj hrest).symm
  · rw [hwait] at hrest
    exact PageStep.locks m (Option.some.inj hrest).symm
  · rw [hwait] at hrest
    obtain rfl := Option.some.inj hrest
    have hundone := undoWrites_short ({counted with txnManager := m} : Pager P U) txnId
    exact PageStep.undoes txnId (hundone.of_eq rfl rfl rfl rfl rfl)
  · rcases hrun : waitForPageWriteLock txnId p₁.metaPage.pageCount counted with ⟨outcome,p₂⟩
    rw [hrun] at hstuck hrest
    obtain rfl : outcome=.stuck := hstuck
    cases hrest

omit [PageImage P] in
/-- A rollback undoes the writes or does nothing. -/
theorem rollback_cases (h : Eff.returns (rollback txnId) p=some p') : p'=p ∨ Undone p p' txnId := by
  rcases Eff.returns_bind h with ⟨e,hfail⟩ | ⟨u,p₁,hvalid,hrest⟩
  · exact Or.inl (Eff.reads_state hfail)
  obtain rfl := Eff.reads_state hvalid
  have hstate := Eff.returns_eq_some hrest
  obtain ⟨m,rfl⟩ : ∃ m, p'={p₁.undoWrites txnId with txnManager := m} := ⟨_,hstate.symm⟩
  have hcounts := le_undoWrites_pageCount p₁ txnId
  have hundone := undoWrites_undone p₁ txnId (hcounts.trans (Nat.le_succ _))
  exact Or.inr ⟨hundone.files,hundone.committedPageCount,hundone.ioFaults,
    hundone.txnPageStates,hundone.pageCache,hundone.counts⟩

/-- It is a step. -/
theorem rollback_step (h : Eff.returns (rollback txnId) p=some p') : PageStep p p' := by
  rcases rollback_cases h with rfl | hundone
  · exact PageStep.same p'
  · exact PageStep.undoes txnId hundone

/-- A transaction begins, or nothing but the locks changes. -/
def Begun (p p' : Pager P U) : Prop :=
  (∃ m, p'={p with txnManager := m}) ∨ ∃ txnId m, txnId∉p.txnPageStates ∧ p'={p with
    metaPage := {p.metaPage with nextTxnId := max p.metaPage.nextTxnId (txnId+1)}
    txnPageStates := p.txnPageStates.insert txnId ∅
    txnManager := m}

/-- So is a begin. -/
theorem Begun.step (h : Begun p p') : PageStep p p' := by
  rcases h with ⟨m,hlocks⟩ | ⟨txnId,m,hnew,hbegins⟩
  · exact PageStep.locks m hlocks
  · exact PageStep.begins txnId m hnew hbegins

omit [PageImage P] in
/-- A transaction the pager has not seen, or one it has: nothing happens then. -/
theorem beginWithTxnId_begun {m : TxnManager P}
    (h : Eff.returns (beginWithTxnId txnId) {p with txnManager := m}=some p') : Begun p p' := by
  unfold Eff.returns beginWithTxnId at h
  dsimp only at h
  by_cases hnew : txnId∈p.txnPageStates
  · rw [if_pos hnew] at h
    exact Or.inl ⟨m,(Option.some.inj h).symm⟩
  · rw [if_neg hnew] at h
    exact Or.inr ⟨txnId,m,hnew,(Option.some.inj h).symm⟩

omit [PageImage P] in
/-- An ignored call of the manager changes the manager only. -/
theorem ignore_manager (x : Eff (TxnManager P) Unit) (p : Pager P U) :
    ∃ m, (Eff.ignore (manager x) p).2={p with txnManager := m} := by
  refine ⟨(x p.txnManager).2,?_⟩
  unfold Eff.ignore manager Eff.zoom
  rcases x p.txnManager with ⟨outcome,m⟩
  cases outcome <;> rfl

omit [PageImage P] in
/-- `begin` begins a transaction. -/
theorem begin'_begun (h : Eff.returns begin' p=some p') : Begun p p' := by
  set begun := (TxnManager.begin' .readCommitted p.txnManager).2 with hbegun
  have hbegin : manager (TxnManager.begin' .readCommitted) p=
      (.ok (max p.txnManager.nextTxnId 1),{p with txnManager := begun}) := rfl
  unfold begin' at h
  rw [Eff.returns,Eff.bind_of_ok hbegin] at h
  unfold Eff.attempt beginWithTxnId at h
  dsimp only at h
  by_cases hnew : max p.txnManager.nextTxnId 1∈p.txnPageStates
  · rw [if_pos hnew] at h
    have hrefused : Eff.returns (Eff.ignore (manager
        (TxnManager.abort (max p.txnManager.nextTxnId 1))) >>= fun _ =>
          (Eff.fail (.txn s!"transaction {max p.txnManager.nextTxnId 1} is already active") :
            Eff (Pager P U) TransactionId)) {p with txnManager := begun}=some p' := h
    obtain ⟨m,hmanager⟩ := ignore_manager (TxnManager.abort (max p.txnManager.nextTxnId 1))
      {p with txnManager := begun}
    rcases Eff.returns_bind hrefused with ⟨e,hfail⟩ | ⟨u,p₁,hignored,hfail⟩
    · rw [hfail] at hmanager
      exact Or.inl ⟨m,hmanager⟩
    · obtain rfl := Option.some.inj hfail
      rw [hignored] at hmanager
      exact Or.inl ⟨m,hmanager⟩
  · rw [if_neg hnew] at h
    exact Or.inr ⟨_,_,hnew,(Option.some.inj h).symm⟩

end Steps

section Commit

variable [PageImage P] [WalFormat P U]

/-- What a call of a commit does when the file system works. -/
def afterStep (p : Pager P U) (step : IoStep P U) : Pager P U :=
  match step with
  | .writePage pageId page =>
    {p with files := p.files.exec PageImage.hole step}.cachePage pageId page
  | _ => {p with files := p.files.exec PageImage.hole step}

variable {p p' : Pager P U} {txnId : TransactionId} {writes : PageWrites P}

omit [WalFormat P U] in
/-- Without faults a step of a commit is done. -/
theorem commitStep_run (step : IoStep P U) (h : p.ioFaults=[]) :
    commitStep step p=(.ok (),p.afterStep step) := by
  have hio : io step p=(.ok (),{p with files := p.files.exec PageImage.hole step}) := by
    unfold io
    rw [h]
    cases p
    obtain rfl : _=[] := h
    rfl
  unfold commitStep
  rw [Eff.bind_of_ok hio]
  cases step <;> rfl

omit [WalFormat P U] in
/-- It brings no faults. -/
theorem afterStep_ioFaults (p : Pager P U) (step : IoStep P U) :
    (p.afterStep step).ioFaults=p.ioFaults := by
  cases step <;> rfl

omit [WalFormat P U] in
/-- So all steps are done. -/
theorem commitSteps_run (script : List (IoStep P U)) (h : p.ioFaults=[]) :
    Eff.forEach script commitStep p=(.ok (),script.foldl afterStep p) := by
  induction script generalizing p with
  | nil => rfl
  | cons step script ih =>
    have hrest := ih ((afterStep_ioFaults p step).trans h)
    change (commitStep step >>= fun _ => Eff.forEach script commitStep) p=_
    rw [Eff.bind_of_ok (commitStep_run step h),hrest]
    rfl

omit [WalFormat P U] in
/-- The pages a commit writes reach the file and the cache. -/
theorem foldl_writes (pages : List (PageId × P)) (p : Pager P U) :
    (pages.map fun page => IoStep.writePage page.1 page.2).foldl afterStep p={p with
      files := {p.files with db := putPages PageImage.hole p.files.db pages}
      pageCache := pages.foldl (fun cache page => cache.insert page.1 page.2) p.pageCache} := by
  induction pages generalizing p with
  | nil => rfl
  | cons page pages ih =>
    rw [List.map_cons,List.foldl_cons,ih]
    rfl

/-- The files and the cache after all calls of a commit. -/
theorem foldl_commitScript (txnId : TransactionId) (pages : List (PageId × P)) (p : Pager P U) :
    (commitScript U txnId pages).foldl afterStep p={p with
      files := ⟨putPages PageImage.hole p.files.db pages,[]⟩
      pageCache := pages.foldl (fun cache page => cache.insert page.1 page.2) p.pageCache} := by
  unfold commitScript
  rw [List.foldl_append,List.foldl_append,foldl_writes]
  rfl

/-- A commit of an open transaction, up to what the manager does last. -/
theorem commit_run (hfaults : p.ioFaults=[]) (hwrites : p.txnPageStates[txnId]?=some writes) :
    commit txnId p=manager (TxnManager.releaseTransactionResources txnId)
      (publishPageCount {p with
        txnPageStates := p.txnPageStates.erase txnId
        files := ⟨putPages PageImage.hole p.files.db (p.pagesToCommit writes),[]⟩
        pageCache := (p.pagesToCommit writes).foldl (fun cache page => cache.insert page.1 page.2)
          p.pageCache} (p.committedPageCountAfterCommit writes.keys)) := by
  set left : Pager P U := {p with txnPageStates := p.txnPageStates.erase txnId} with hleft
  have hsteps := commitSteps_run (p := left)
    (commitScript U txnId (p.pagesToCommit writes)) hfaults
  rw [foldl_commitScript] at hsteps
  unfold commit
  rw [Eff.bind_of_ok (Eff.get_eq p),hwrites]
  dsimp only
  rw [Eff.bind_of_ok (Eff.modify_eq _ p),Eff.bind_of_ok hsteps,
    Eff.bind_of_ok (Eff.modify_eq _ _)]

/-- What the commit of an open transaction leaves; the log is empty again. -/
theorem commit_published (hfaults : p.ioFaults=[]) (hwrites : p.txnPageStates[txnId]?=some writes)
    (h : (commit txnId p).2=p') : Published p p' txnId writes ∧ p'.files.wal=[] := by
  rw [commit_run hfaults hwrites] at h
  have hcache := foldl_pages (fun cache (page : PageId × P) => cache.insert page.1 page.2) some
    (fun cache page pageId => by
      rw [ExtTreeMap.getElem?_insert]
      simp only [Std.LawfulEqCmp.compare_eq_iff_eq])
    ((writes.map fun _ write => write.afterImage).insert 0
      (PageImage.ofMeta (p.committedMeta writes.keys))) (List.Perm.refl _) p.pageCache
  subst h
  exact ⟨⟨rfl,rfl,hfaults,rfl,rfl,hcache⟩,rfl⟩

/-- A commit of an unknown transaction is refused. -/
theorem commit_unknown (hwrites : p.txnPageStates[txnId]?=none) :
    commit txnId p=(.err (.txn s!"transaction {txnId} is not active"),p) := by
  unfold commit
  rw [Eff.bind_of_ok (Eff.get_eq p),hwrites]
  rfl

/-- A commit is a step. -/
theorem commit_step (hfaults : p.ioFaults=[])
    (h : Eff.returns (commit txnId) p=some p') : PageStep p p' := by
  have hstate := Eff.returns_eq_some h
  cases hwrites : p.txnPageStates[txnId]? with
  | none =>
    rw [commit_unknown hwrites] at hstate
    exact PageStep.locks p.txnManager hstate.symm
  | some writes =>
    have hpublished := commit_published hfaults hwrites hstate
    exact PageStep.commits txnId writes hwrites hpublished.1

end Commit

end Pager

namespace PagerCall

variable {P U : Type} [PageImage P] [WalFormat P U]

/-- What a call does. -/
def run : PagerCall P → Eff (Pager P U) Unit
  | begin' => do
    let _ ← Pager.begin'
    pure ()
  | beginWithTxnId txnId => Pager.beginWithTxnId txnId
  | acquirePageWriteLock txnId pageId => Pager.acquirePageWriteLock txnId pageId
  | writePage txnId pageId page => Pager.writePage txnId pageId page
  | allocatePageWithKind txnId kind => do
    let _ ← Pager.allocatePageWithKind txnId kind
    pure ()
  | commit txnId => Pager.commit txnId
  | rollback txnId => Pager.rollback txnId
  | manager x => Pager.manager x

/-- Every call that returns is a step, when the file system works. -/
theorem step {p p' : Pager P U} {call : PagerCall P} (hfaults : p.ioFaults=[])
    (h : Eff.returns call.run p=some p') : Pager.PageStep p p' := by
  cases call with
  | begin' => exact (Pager.begin'_begun (Eff.returns_drop h)).step
  | beginWithTxnId txnId => exact (Pager.beginWithTxnId_begun h).step
  | acquirePageWriteLock txnId pageId => exact Pager.acquirePageWriteLock_step h
  | writePage txnId pageId page => exact Pager.writePage_step h
  | allocatePageWithKind txnId kind => exact Pager.allocatePageWithKind_step (Eff.returns_drop h)
  | commit txnId => exact Pager.commit_step hfaults h
  | rollback txnId => exact Pager.rollback_step h
  | manager x =>
    have hstate := Eff.returns_eq_some h
    exact Pager.PageStep.locks _ hstate.symm

end PagerCall

end RustSql.V2
