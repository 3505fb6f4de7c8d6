import RustSql.Base.Runs
import RustSql.V2.LockMoves

/-!
# Runs of the transaction manager

The calls other code makes of the transaction manager, in any order and by any
number of transactions. Ending a transaction does not release its locks: that is a
call of its own, which the pager makes before the manager hears of the end.
-/

namespace RustSql.V2

/-- A call of the transaction manager. -/
inductive ManagerCall (P : Type) where
  | begin' (isolationLevel : IsolationLevel)
  | beginWithId (txnId : TransactionId) (isolationLevel : IsolationLevel)
  | commit (txnId : TransactionId)
  | reserveCommitTs (txnId : TransactionId)
  | finalizeCommit (txnId : TransactionId) (commitTs : ℕ)
  | abort (txnId : TransactionId)
  | refreshSnapshot (txnId : TransactionId)
  | purgeFinishedTransactionsUpTo (purgeHorizon : ℕ)
  | syncNextRowIds (nextRowIds : Std.ExtTreeMap String ℕ compare)
  | allocateRowId (txnId : TransactionId) (table : String) (fallbackNextRowId : ℕ)
  | acquireTableReadLock (txnId : TransactionId) (table : String)
  | acquireTableLock (txnId : TransactionId) (table : String) (mode : TableLockMode)
  /-- One of the calls that record a predicate lock; the lock names its caller. -/
  | acquirePredicateLock (lock : PredicateLock)
  | checkWriteConflicts (txnId : TransactionId) (table : String)
      (indexKeys : List (String × List Value))
  | acquirePageWrite (txnId : TransactionId) (pageId : PageId)
  | releaseTransactionResources (txnId : TransactionId)
  | replacePageWriteSet (txnId : TransactionId) (pageWrites : List (PageWriteSetEntry P))
  | recordUndo (txnId : TransactionId) (record : UndoRecord)
  | takeUndoRecords (txnId : TransactionId)
  | clearTerminalError (txnId : TransactionId)
  | completePurgeBatch (batch : List (TransactionId × UndoRecord))

namespace ManagerCall

variable {P : Type}

/-- Make a call and forget its value. -/
def drop {α : Type} (x : Eff (TxnManager P) α) : Eff (TxnManager P) Unit := do
  let _ ← x
  pure ()

/-- What a call does. -/
def run : ManagerCall P → Eff (TxnManager P) Unit
  | begin' isolationLevel => drop (TxnManager.begin' isolationLevel)
  | beginWithId txnId isolationLevel => TxnManager.beginWithId txnId isolationLevel
  | commit txnId => drop (TxnManager.commit txnId)
  | reserveCommitTs txnId => drop (TxnManager.reserveCommitTs txnId)
  | finalizeCommit txnId commitTs => TxnManager.finalizeCommit txnId commitTs
  | abort txnId => TxnManager.abort txnId
  | refreshSnapshot txnId => drop (TxnManager.refreshSnapshot txnId)
  | purgeFinishedTransactionsUpTo purgeHorizon =>
    Eff.modify fun m => m.purgeFinishedTransactionsUpTo purgeHorizon
  | syncNextRowIds nextRowIds => Eff.modify fun m => m.syncNextRowIds nextRowIds
  | allocateRowId txnId table fallbackNextRowId =>
    drop (TxnManager.allocateRowId txnId table fallbackNextRowId)
  | acquireTableReadLock txnId table => TxnManager.acquireTableReadLock txnId table
  | acquireTableLock txnId table mode => TxnManager.acquireTableLock txnId table mode
  | acquirePredicateLock lock => TxnManager.acquirePredicateLock lock.txnId lock
  | checkWriteConflicts txnId table indexKeys =>
    TxnManager.checkWriteConflicts txnId table indexKeys
  | acquirePageWrite txnId pageId => TxnManager.acquirePageWrite txnId pageId
  | releaseTransactionResources txnId => TxnManager.releaseTransactionResources txnId
  | replacePageWriteSet txnId pageWrites => TxnManager.replacePageWriteSet txnId pageWrites
  | recordUndo txnId record => TxnManager.recordUndo txnId record
  | takeUndoRecords txnId => drop (TxnManager.takeUndoRecords txnId)
  | clearTerminalError txnId => TxnManager.clearTerminalError txnId
  | completePurgeBatch batch => TxnManager.completePurgeBatch batch

/-- The manager after some calls on a new one; `none` when a call does not
return. -/
def runs (nextTxnId : ℕ) (calls : List (ManagerCall P)) : Option (TxnManager P) :=
  Eff.runs run calls (TxnManager.withNextTxnId nextTxnId)

/-- The call ends the transaction. -/
def Ends (txnId : TransactionId) : ManagerCall P → Prop
  | commit other => other=txnId
  | finalizeCommit other _ => other=txnId
  | abort other => other=txnId
  | _ => False

/-- The call starts the transaction, if any. -/
def Starts (m : TxnManager P) (txnId : TransactionId) : ManagerCall P → Prop
  | begin' _ => txnId=max m.nextTxnId 1
  | beginWithId other _ => other=txnId
  | _ => False

/-- The call is no lock request and no release. -/
def IsBookkeeping : ManagerCall P → Prop
  | acquireTableReadLock .. => False
  | acquireTableLock .. => False
  | acquirePredicateLock .. => False
  | checkWriteConflicts .. => False
  | acquirePageWrite .. => False
  | releaseTransactionResources .. => False
  | _ => True

end ManagerCall

namespace TxnManager

variable {P : Type}

/-- Nothing about locks, queues and waits is different. Wait edges of nobody
count as missing. -/
structure SameLocks (m m' : TxnManager P) : Prop where
  tableLocks : m'.tableLocks=m.tableLocks
  predicateLocks : m'.predicateLocks=m.predicateLocks
  pageWriteOwners : m'.pageWriteOwners=m.pageWriteOwners
  tableWaitQueues : m'.tableWaitQueues=m.tableWaitQueues
  pageWriteWaitQueues : m'.pageWriteWaitQueues=m.pageWriteWaitQueues
  predicateWriteWaitQueues : m'.predicateWriteWaitQueues=m.predicateWriteWaitQueues
  tableWaitBlockers : ∀ txnId : ℕ,
    (m'.tableWaitBlockers[txnId]?).getD ∅=(m.tableWaitBlockers[txnId]?).getD ∅
  pageWaitBlockers : ∀ txnId : ℕ,
    (m'.pageWaitBlockers[txnId]?).getD ∅=(m.pageWaitBlockers[txnId]?).getD ∅
  predicateWaitBlockers : ∀ txnId : ℕ,
    (m'.predicateWaitBlockers[txnId]?).getD ∅=(m.predicateWaitBlockers[txnId]?).getD ∅
  waitsFor : ∀ txnId : ℕ, (m'.waitsFor[txnId]?).getD ∅=(m.waitsFor[txnId]?).getD ∅

/-- Nothing changes. -/
theorem SameLocks.refl (m : TxnManager P) : SameLocks m m :=
  ⟨rfl,rfl,rfl,rfl,rfl,rfl,fun _ => rfl,fun _ => rfl,fun _ => rfl,fun _ => rfl⟩

/-- A change of counters and transaction records. -/
theorem SameLocks.of_eq {m m' : TxnManager P} (h : m'={m with
    nextTxnId := m'.nextTxnId
    nextCommitTs := m'.nextCommitTs
    nextRowIds := m'.nextRowIds
    txns := m'.txns}) : SameLocks m m' := by
  rw [h]
  exact ⟨rfl,rfl,rfl,rfl,rfl,rfl,fun _ => rfl,fun _ => rfl,fun _ => rfl,fun _ => rfl⟩

/-- Nothing changes twice. -/
theorem SameLocks.trans {m m' m'' : TxnManager P} (h : SameLocks m m') (h' : SameLocks m' m'') :
    SameLocks m m'' where
  tableLocks := h'.tableLocks.trans h.tableLocks
  predicateLocks := h'.predicateLocks.trans h.predicateLocks
  pageWriteOwners := h'.pageWriteOwners.trans h.pageWriteOwners
  tableWaitQueues := h'.tableWaitQueues.trans h.tableWaitQueues
  pageWriteWaitQueues := h'.pageWriteWaitQueues.trans h.pageWriteWaitQueues
  predicateWriteWaitQueues := h'.predicateWriteWaitQueues.trans h.predicateWriteWaitQueues
  tableWaitBlockers _ := (h'.tableWaitBlockers _).trans (h.tableWaitBlockers _)
  pageWaitBlockers _ := (h'.pageWaitBlockers _).trans (h.pageWaitBlockers _)
  predicateWaitBlockers _ := (h'.predicateWaitBlockers _).trans (h.predicateWaitBlockers _)
  waitsFor _ := (h'.waitsFor _).trans (h.waitsFor _)

/-- An empty set of blockers makes no difference. -/
theorem getD_insertIfNew (blockers : Std.ExtTreeMap ℕ (Finset ℕ) compare) (txnId other : ℕ) :
    ((blockers.insertIfNew txnId ∅)[other]?).getD ∅=(blockers[other]?).getD ∅ := by
  rw [Std.ExtTreeMap.getElem?_insertIfNew]
  split
  · next h =>
    obtain rfl := Std.LawfulEqCmp.eq_of_compare h.1
    rw [Std.ExtTreeMap.getElem?_eq_none h.2]
    rfl
  · rfl

/-- A new transaction has no locks. -/
theorem insertTxn_sameLocks (m : TxnManager P) (txnId : TransactionId)
    (isolationLevel : IsolationLevel) : SameLocks m (m.insertTxn txnId isolationLevel) where
  tableLocks := rfl
  predicateLocks := rfl
  pageWriteOwners := rfl
  tableWaitQueues := rfl
  pageWriteWaitQueues := rfl
  predicateWriteWaitQueues := rfl
  tableWaitBlockers := getD_insertIfNew _ txnId
  pageWaitBlockers := getD_insertIfNew _ txnId
  predicateWaitBlockers := getD_insertIfNew _ txnId
  waitsFor := getD_insertIfNew _ txnId

/-- What a call that is no lock request does: nothing to the locks, and it
starts and ends only transactions it may. -/
structure Bookkeeping (Ends Starts : ℕ → Prop) (m m' : TxnManager P) : Prop where
  sameLocks : SameLocks m m'
  stays : ∀ {txnId : ℕ}, m.Active txnId → m'.Active txnId ∨ Ends txnId
  starts : ∀ {txnId : ℕ}, m'.Active txnId → m.Active txnId ∨ Starts txnId
  counts : max m.nextTxnId 1 ≤ max m'.nextTxnId 1
  registered : m.Registered → m'.Registered

section Bookkeeping

variable {Ends Starts : ℕ → Prop}

instance : IsPreorder (TxnManager P) (Bookkeeping Ends Starts) where
  refl m := ⟨SameLocks.refl m,Or.inl,Or.inl,le_refl _,id⟩
  trans m m' m'' h h' := {
    sameLocks := h.sameLocks.trans h'.sameLocks
    stays := fun hactive => by
      rcases h.stays hactive with h₁ | h₁
      · exact h'.stays h₁
      · exact Or.inr h₁
    starts := fun hactive => by
      rcases h'.starts hactive with h₁ | h₁
      · exact h.starts h₁
      · exact Or.inr h₁
    counts := h.counts.trans h'.counts
    registered := fun hm => h'.registered (h.registered hm)}

/-- A change of counters. -/
theorem Bookkeeping.of_counters {m m' : TxnManager P} (hsame : SameLocks m m')
    (htxns : m'.txns=m.txns) (hcounts : m.nextTxnId ≤ m'.nextTxnId) :
    Bookkeeping Ends Starts m m' where
  sameLocks := hsame
  stays := fun ⟨txn,hget,hactive⟩ => Or.inl ⟨txn,by rw [htxns]; exact hget,hactive⟩
  starts := fun ⟨txn,hget,hactive⟩ => Or.inl ⟨txn,by rw [← htxns]; exact hget,hactive⟩
  counts := by omega
  registered hm := by
    constructor
    · intro txnId txn hget
      exact hm.keyed (by rw [← htxns]; exact hget)
    · intro txnId txn hget
      have hknown := hm.known (by rw [← htxns]; exact hget)
      omega

/-- A change of one transaction's record that may end it. -/
theorem modifyTxn_books (m : TxnManager P) {txnId : TransactionId}
    {f : TxnState P → TxnState P} (hid : ∀ txn, (f txn).id=txn.id)
    (hstart : ∀ txn, (f txn).status=.active → txn.status=.active)
    (hstay : (∀ txn, (f txn).status=txn.status) ∨ Ends txnId) :
    Guarantee (Bookkeeping Ends Starts) m (modifyTxn txnId f) fun _ _ => True := by
  refine ⟨?_,fun _ _ => trivial⟩
  unfold modifyTxn get
  cases hget : m.txns[txnId]? with
  | none => exact refl_of (Bookkeeping Ends Starts) m
  | some txn =>
    have hinsert : ∀ other : ℕ, (m.txns.insert txnId (f txn))[other]?=
        if txnId=other then some (f txn) else m.txns[other]? := fun other => by
      rw [Std.ExtTreeMap.getElem?_insert]
      simp only [Std.LawfulEqCmp.compare_eq_iff_eq]
    refine ⟨SameLocks.of_eq rfl,fun {other} => ?_,fun {other} => ?_,le_refl _,fun hm => ?_⟩
    · rintro ⟨old,hold,hactive⟩
      by_cases heq : txnId=other
      · subst heq
        rcases hstay with hstay | hends
        · refine Or.inl ⟨f txn,by rw [hinsert,if_pos rfl],?_⟩
          rw [hget] at hold
          rw [hstay,Option.some.inj hold,hactive]
        · exact Or.inr hends
      · exact Or.inl ⟨old,by rw [hinsert,if_neg heq,hold],hactive⟩
    · rintro ⟨new,hnew,hactive⟩
      rw [hinsert] at hnew
      split at hnew
      · next heq =>
        subst heq
        obtain rfl := Option.some.inj hnew
        exact Or.inl ⟨txn,hget,hstart txn hactive⟩
      · exact Or.inl ⟨new,hnew,hactive⟩
    · have hfile : ∀ {other : ℕ} {found : TxnState P},
          (m.txns.insert txnId (f txn))[other]?=some found →
            ∃ old, m.txns[other]?=some old ∧ found.id=old.id := by
        intro other found hfound
        rw [hinsert] at hfound
        split at hfound
        · next heq =>
          subst heq
          obtain rfl := Option.some.inj hfound
          exact ⟨txn,hget,hid txn⟩
        · exact ⟨found,hfound,rfl⟩
      constructor
      · intro other found hfound
        obtain ⟨old,hold,heq⟩ := hfile hfound
        rw [heq]
        exact hm.keyed hold
      · intro other found hfound
        obtain ⟨old,hold,-⟩ := hfile hfound
        exact hm.known hold

/-- It starts. -/
theorem insertTxn_books (m : TxnManager P) (txnId : TransactionId) (level : IsolationLevel)
    (hstarts : Starts txnId) (hknown : txnId < max m.nextTxnId 1) : Bookkeeping Ends Starts m (m.insertTxn txnId level) := by
  have hinsert : ∀ other : ℕ, (m.insertTxn txnId level).txns[other]?=
      if txnId=other then (m.insertTxn txnId level).txns[txnId]? else m.txns[other]? :=
    fun other => by
      by_cases heq : txnId=other
      · subst heq
        rw [if_pos rfl]
      · rw [if_neg heq,insertTxn,Std.ExtTreeMap.getElem?_insert,
          if_neg (by rwa [Std.LawfulEqCmp.compare_eq_iff_eq])]
  have hnew : ∃ txn, (m.insertTxn txnId level).txns[txnId]?=some txn ∧ txn.id=txnId ∧
      txn.status=.active := ⟨_,Std.ExtTreeMap.getElem?_insert_self,rfl,rfl⟩
  obtain ⟨new,hget,hid,hstatus⟩ := hnew
  refine ⟨insertTxn_sameLocks m txnId level,fun {other} => ?_,fun {other} => ?_,
    le_refl _,fun hm => ?_⟩
  · rintro ⟨old,hold,hactive⟩
    by_cases heq : txnId=other
    · subst heq
      exact Or.inl ⟨new,hget,hstatus⟩
    · exact Or.inl ⟨old,by rw [hinsert,if_neg heq,hold],hactive⟩
  · rintro ⟨found,hfound,hactive⟩
    by_cases heq : txnId=other
    · subst heq
      exact Or.inr hstarts
    · rw [hinsert,if_neg heq] at hfound
      exact Or.inl ⟨found,hfound,hactive⟩
  · constructor
    · intro other found hfound
      by_cases heq : txnId=other
      · subst heq
        rw [hget] at hfound
        rw [← Option.some.inj hfound,hid]
      · rw [hinsert,if_neg heq] at hfound
        exact hm.keyed hfound
    · intro other found hfound
      by_cases heq : txnId=other
      · exact heq ▸ hknown
      · rw [hinsert,if_neg heq] at hfound
        exact hm.known hfound

/-- A purge of finished transactions ends nobody. -/
theorem purgeFinished_books (m : TxnManager P) (purgeHorizon : ℕ) :
    Bookkeeping Ends Starts m (m.purgeFinishedTransactionsUpTo purgeHorizon) := by
  have hget := purgeFinishedTransactionsUpTo_get m purgeHorizon
  refine ⟨SameLocks.of_eq rfl,fun {txnId} => ?_,fun {txnId} => ?_,le_refl _,fun hm => ?_⟩
  · rintro ⟨txn,hold,hactive⟩
    refine Or.inl ⟨txn,?_,hactive⟩
    rw [hget,hold]
    simp [keptByPurge,hactive]
  · rintro ⟨txn,hnew,hactive⟩
    rw [hget] at hnew
    exact Or.inl ⟨txn,(Option.filter_eq_some_iff.mp hnew).1,hactive⟩
  · constructor
    · intro txnId txn hnew
      rw [hget] at hnew
      exact hm.keyed (Option.filter_eq_some_iff.mp hnew).1
    · intro txnId txn hnew
      rw [hget] at hnew
      exact hm.known (Option.filter_eq_some_iff.mp hnew).1

/-- Nor does a reserved timestamp. -/
theorem reserveCommitTs_books (m : TxnManager P) (txnId : TransactionId) :
    Guarantee (Bookkeeping Ends Starts) m (reserveCommitTs txnId) fun _ _ => True := by
  refine Guarantee.bind_reads fun _ _ => Guarantee.bind_get ?_
  refine (Guarantee.modify (Q := fun _ _ => True) ?_ trivial).bind
    fun _ _ _ _ => Guarantee.ret trivial
  exact Bookkeeping.of_counters (SameLocks.of_eq rfl) rfl (le_refl _)

/-- A commit ends its transaction. -/
theorem finalizeCommit_books (m : TxnManager P) (txnId : TransactionId) (commitTs : ℕ)
    (hends : Ends txnId) :
    Guarantee (Bookkeeping Ends Starts) m (finalizeCommit txnId commitTs) fun _ _ => True :=
  Guarantee.bind_reads fun _ _ =>
    modifyTxn_books m (fun _ => rfl) (fun _ h => nomatch h) (Or.inr hends)

/-- A purged batch ends nobody. -/
theorem completePurgeBatch_books (m : TxnManager P) (batch : List (TransactionId × UndoRecord)) :
    Guarantee (Bookkeeping Ends Starts) m (completePurgeBatch batch) fun _ _ => True := by
  induction batch generalizing m with
  | nil => exact Guarantee.ret trivial
  | cons entry batch ih =>
    unfold completePurgeBatch
    refine Guarantee.bind_reads fun txn _ => ?_
    split
    · exact Guarantee.fail _
    · refine (modifyTxn_books m (by intro _; rfl) (by intro _ h; exact h)
      (Or.inl (by intro _; rfl))).bind
        fun _ m₁ _ _ => ?_
      split
      · exact ih m₁
      · exact Guarantee.fail _

/-- Forgetting the value changes nothing. -/
theorem drop_books {α : Type} {m : TxnManager P} {x : Eff (TxnManager P) α}
    {Q : α → TxnManager P → Prop} (h : Guarantee (Bookkeeping Ends Starts) m x Q) :
    Guarantee (Bookkeeping Ends Starts) m (ManagerCall.drop x) fun _ _ => True :=
  h.bind fun _ _ _ _ => Guarantee.ret trivial

end Bookkeeping

/-- What the calls that are no lock requests do. -/
theorem run_books (m : TxnManager P) {call : ManagerCall P} (hcall : call.IsBookkeeping) :
    Guarantee (Bookkeeping (fun txnId => call.Ends txnId) fun txnId => call.Starts m txnId) m
      call.run fun _ _ => True := by
  cases call with
  | acquireTableReadLock | acquireTableLock | acquirePredicateLock | checkWriteConflicts |
    acquirePageWrite | releaseTransactionResources => exact hcall.elim
  | begin' level =>
    refine drop_books (Q := fun _ _ => True) ⟨?_,fun _ _ => trivial⟩
    have hcount : Bookkeeping (ManagerCall.Ends · (.begin' level : ManagerCall P))
        (ManagerCall.Starts m · (.begin' level : ManagerCall P)) m
        {m with nextTxnId := max m.nextTxnId 1+1} :=
      Bookkeeping.of_counters (SameLocks.of_eq rfl) rfl (by dsimp only; omega)
    exact trans_of _ hcount (insertTxn_books {m with nextTxnId := max m.nextTxnId 1+1}
      (max m.nextTxnId 1) level rfl (lt_max_of_lt_left (Nat.lt_succ_self _)))
  | beginWithId txnId level =>
    refine ⟨?_,fun _ _ => trivial⟩
    change Bookkeeping _ _ m (beginWithId txnId level m).2
    unfold beginWithId
    split
    · exact refl_of _ m
    · have hcount : Bookkeeping (ManagerCall.Ends · (.beginWithId txnId level : ManagerCall P))
          (ManagerCall.Starts m · (.beginWithId txnId level : ManagerCall P)) m
          {m with nextTxnId := max (max m.nextTxnId (txnId+1)) 1} :=
        Bookkeeping.of_counters (SameLocks.of_eq rfl) rfl (by dsimp only; omega)
      exact trans_of _ hcount (insertTxn_books
        {m with nextTxnId := max (max m.nextTxnId (txnId+1)) 1} txnId level rfl
        (lt_max_of_lt_left (lt_max_of_lt_left (lt_max_of_lt_right (Nat.lt_succ_self _)))))
  | commit txnId =>
    refine drop_books (Q := fun _ _ => True) ?_
    refine (reserveCommitTs_books m txnId).bind fun commitTs m₁ _ _ => ?_
    exact (finalizeCommit_books m₁ txnId commitTs rfl).bind fun _ _ _ _ => Guarantee.ret trivial
  | reserveCommitTs txnId => exact drop_books (reserveCommitTs_books m txnId)
  | finalizeCommit txnId commitTs => exact finalizeCommit_books m txnId commitTs rfl
  | abort txnId =>
    exact Guarantee.bind_reads fun _ _ =>
      modifyTxn_books m (fun _ => rfl) (fun _ h => nomatch h) (Or.inr rfl)
  | refreshSnapshot txnId =>
    refine drop_books (Q := fun _ _ => True) (Guarantee.bind_get ?_)
    exact (modifyTxn_books m (by intro _; rfl) (by intro _ h; exact h)
      (Or.inl (by intro _; rfl))).bind
      fun _ _ _ _ => Guarantee.ret trivial
  | purgeFinishedTransactionsUpTo purgeHorizon =>
    exact Guarantee.modify (purgeFinished_books m purgeHorizon) trivial
  | syncNextRowIds nextRowIds =>
    exact Guarantee.modify (Bookkeeping.of_counters (SameLocks.of_eq rfl) rfl (le_refl _)) trivial
  | allocateRowId txnId table fallbackNextRowId =>
    refine drop_books (Q := fun _ _ => True)
      (Guarantee.bind_reads fun _ _ => Guarantee.bind_get ?_)
    refine (Guarantee.modify (Q := fun _ _ => True) ?_ trivial).bind
      fun _ _ _ _ => Guarantee.ret trivial
    exact Bookkeeping.of_counters (SameLocks.of_eq rfl) rfl (le_refl _)
  | replacePageWriteSet txnId pageWrites =>
    exact modifyTxn_books m (fun _ => rfl) (fun _ h => h) (Or.inl fun _ => rfl)
  | recordUndo txnId record =>
    exact modifyTxn_books m (fun _ => rfl) (fun _ h => h) (Or.inl fun _ => rfl)
  | takeUndoRecords txnId =>
    refine drop_books (Q := fun _ _ => True) (Guarantee.bind_reads fun _ _ => ?_)
    exact (modifyTxn_books m (by intro _; rfl) (by intro _ h; exact h)
      (Or.inl (by intro _; rfl))).bind
      fun _ _ _ _ => Guarantee.ret trivial
  | clearTerminalError txnId =>
    exact modifyTxn_books m (fun _ => rfl) (fun _ h => h) (Or.inl fun _ => rfl)
  | completePurgeBatch batch => exact completePurgeBatch_books m batch

/-- What a call that returns can do. -/
inductive CallStep (call : ManagerCall P) : TxnManager P → TxnManager P → Prop
  | books {m m' : TxnManager P} (hcall : call.IsBookkeeping)
      (h : Bookkeeping (fun txnId => call.Ends txnId) (fun txnId => call.Starts m txnId) m m') :
      CallStep call m m'
  | release {m m' : TxnManager P} {txnId : TransactionId}
      (hcall : call=.releaseTransactionResources txnId) (h : Released m m' txnId) :
      CallStep call m m'
  | wait {m m' : TxnManager P} {txnId : TransactionId} (h : Waits txnId m m') :
      CallStep call m m'
  | page {m m₁ m' : TxnManager P} {txnId : TransactionId} {pageId : PageId}
      (hwaits : Waits txnId m m₁) (h : PageGrant txnId pageId m₁ m') : CallStep call m m'
  | table {m m₁ m' : TxnManager P} {txnId : TransactionId} {table : String}
      {mode : TableLockMode} (hwaits : Waits txnId m m₁)
      (h : TableGrant txnId table mode m₁ m') : CallStep call m m'
  | read {m m₁ m' : TxnManager P} {txnId : TransactionId} {table : String}
      (hwaits : Waits txnId m m₁) (h : TableGrant txnId table .intentionRead m₁ m') :
      CallStep call m {m' with predicateLocks := m'.predicateLocks++[⟨txnId,table,none,.table⟩]}
  | write {m m₁ m' : TxnManager P} {txnId : TransactionId} {table : String}
      {indexKeys : List (String × List Value)} (hwaits : Waits txnId m m₁)
      (h : PredicatePass txnId table indexKeys m₁ m') : CallStep call m m'
  | record {m : TxnManager P} {lock : PredicateLock} (hcall : call=.acquirePredicateLock lock)
      (hlevel : m.isolationLevel lock.txnId=.ok .serializable) :
      CallStep call m {m with predicateLocks := m.predicateLocks++[lock]}

/-- A request that returns has waited, and was granted or was not. -/
theorem Requests.cases {m m' : TxnManager P} {txnId : TransactionId}
    {Grant : TxnManager P → TxnManager P → Prop} {x : Eff (TxnManager P) Unit}
    (h : Requests txnId Grant m x) (hreturns : Eff.returns x m=some m') :
    Waits txnId m m' ∨ ∃ m₁, Waits txnId m m₁ ∧ Grant m₁ m' := by
  obtain rfl := Eff.returns_eq_some hreturns
  obtain ⟨m₁,hwaits,⟨-,hgrant⟩ | ⟨-,hend⟩⟩ := h
  · exact Or.inr ⟨m₁,hwaits,hgrant⟩
  · rw [hend]
    exact Or.inl hwaits

/-- A transaction's locks are released, if it is known. -/
theorem releaseTransactionResources_cases (m : TxnManager P) (txnId : TransactionId) :
    (releaseTransactionResources txnId m).2=m ∨
      (releaseTransactionResources txnId m).2=m.released txnId := by
  unfold releaseTransactionResources
  rw [Eff.bind_eq,Eff.reads]
  cases m.get txnId with
  | ok txn => exact Or.inr rfl
  | error e => exact Or.inl rfl

/-- Every call that returns is such a step. -/
theorem callStep_of_returns {m m' : TxnManager P} {call : ManagerCall P}
    (hreturns : Eff.returns call.run m=some m') : CallStep call m m' := by
  by_cases hcall : call.IsBookkeeping
  · exact CallStep.books hcall (Eff.guarantee_returns (run_books m hcall) hreturns)
  cases call with
  | begin' | beginWithId | commit | reserveCommitTs | finalizeCommit | abort | refreshSnapshot |
    purgeFinishedTransactionsUpTo | syncNextRowIds | allocateRowId | replacePageWriteSet |
    recordUndo | takeUndoRecords | clearTerminalError | completePurgeBatch =>
    exact absurd trivial hcall
  | acquireTableLock txnId table mode =>
    rcases (acquireTableLock_requests m txnId table mode).cases hreturns with
      hwaits | ⟨m₁,hwaits,hgrant⟩
    · exact CallStep.wait hwaits
    · exact CallStep.table hwaits hgrant
  | acquirePageWrite txnId pageId =>
    rcases (acquirePageWrite_requests m txnId pageId).cases hreturns with
      hwaits | ⟨m₁,hwaits,hgrant⟩
    · exact CallStep.wait hwaits
    · exact CallStep.page hwaits hgrant
  | checkWriteConflicts txnId table indexKeys =>
    rcases (checkWriteConflicts_requests m txnId table indexKeys).cases hreturns with
      hwaits | ⟨m₁,hwaits,hpass⟩
    · exact CallStep.wait hwaits
    · exact CallStep.write hwaits hpass
  | acquirePredicateLock lock =>
    obtain rfl := Eff.returns_eq_some hreturns
    rcases acquirePredicateLock_cases m lock with hsame | ⟨hrun,hlevel⟩
    · rw [ManagerCall.run,hsame]
      exact CallStep.wait (.refl : Waits lock.txnId m m)
    · rw [ManagerCall.run,hrun]
      exact CallStep.record rfl hlevel
  | releaseTransactionResources txnId =>
    obtain rfl := Eff.returns_eq_some hreturns
    rcases releaseTransactionResources_cases m txnId with hsame | hrun
    · rw [ManagerCall.run,hsame]
      exact CallStep.wait (.refl : Waits txnId m m)
    · rw [ManagerCall.run,hrun]
      exact CallStep.release rfl (released_spec m txnId)
  | acquireTableReadLock txnId table =>
    obtain rfl := Eff.returns_eq_some hreturns
    obtain ⟨m₁,hwaits,hend⟩ := acquireTableLock_requests m txnId table .intentionRead
    rcases hrun : acquireTableLock txnId table .intentionRead m with ⟨o,m₂⟩
    rw [hrun] at hend
    change CallStep _ m (acquireTableReadLock txnId table m).2
    unfold acquireTableReadLock acquireTableIntentionRead
    rw [Eff.bind_eq,hrun]
    rcases hend with ⟨rfl,hgrant⟩ | ⟨hno,rfl⟩
    · change CallStep _ m (acquirePredicateLock txnId ⟨txnId,table,none,.table⟩ m₂).2
      rcases acquirePredicateLock_cases m₂ ⟨txnId,table,none,.table⟩ with hsame | ⟨hlock,-⟩
      · have hsame : (acquirePredicateLock txnId ⟨txnId,table,none,.table⟩ m₂).2=m₂ := hsame
        rw [hsame]
        exact CallStep.table hwaits hgrant
      · have hlock : acquirePredicateLock txnId ⟨txnId,table,none,.table⟩ m₂=(.ok (),
            {m₂ with predicateLocks := m₂.predicateLocks++[⟨txnId,table,none,.table⟩]}) := hlock
        rw [hlock]
        exact CallStep.read hwaits hgrant
    · cases o with
      | ok u => exact absurd rfl hno
      | err e => exact CallStep.wait hwaits
      | stuck => exact CallStep.wait hwaits

end TxnManager

end RustSql.V2
