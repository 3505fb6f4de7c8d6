import RustSql.V2.WaitQueues

/-!
# Who owns a lock

The owners of table, page and predicate locks. A lock is given to a running
transaction, and it goes when its owner is a victim or releases what it has; so
while nobody ends before it has released its locks, every owner runs. The calls
that record a predicate lock are the exception: they do not ask.
-/

namespace RustSql.V2

/-- The kinds of locks. -/
inductive LockKind where
  | table
  | page
  | predicate
  deriving DecidableEq

namespace TxnManager

variable {P : Type}

/-- The transaction owns a lock of a kind. -/
def HasLock (m : TxnManager P) (txnId : TransactionId) : LockKind → Prop
  | .table => ∃ lock∈m.tableLocks, lock.txnId=txnId
  | .page => ∃ pageId : ℕ, m.pageWriteOwners[pageId]?=some txnId
  | .predicate => ∃ lock∈m.predicateLocks, lock.txnId=txnId

/-- Every owner of a lock of a kind is a running transaction. -/
def OwnersActive (m : TxnManager P) (kind : LockKind) : Prop :=
  ∀ txnId : TransactionId, m.HasLock txnId kind → m.Active txnId

/-! ## The owners after each move -/

variable {m m' : TxnManager P} {kind : LockKind} {leaver txnId : TransactionId} {table : String}

/-- Where locks and transactions are the same, so are the owners. -/
theorem OwnersActive.of_eq (h : m.OwnersActive kind)
    (htxns : m'.txns=m.txns) (htable : m'.tableLocks=m.tableLocks)
    (hpage : m'.pageWriteOwners=m.pageWriteOwners)
    (hpredicate : m'.predicateLocks=m.predicateLocks) : m'.OwnersActive kind := by
  intro txnId hlock
  have hbefore : m.HasLock txnId kind := by
    cases kind with
    | table => unfold HasLock at hlock ⊢; rwa [← htable]
    | page => unfold HasLock at hlock ⊢; rwa [← hpage]
    | predicate => unfold HasLock at hlock ⊢; rwa [← hpredicate]
  obtain ⟨txn,hget,hactive⟩ := h txnId hbefore
  exact ⟨txn,by rw [htxns]; exact hget,hactive⟩

/-- A release leaves the locks of the others. -/
theorem Released.hasLock
    (h : Released m m' leaver) : m'.HasLock txnId kind ↔ m.HasLock txnId kind ∧ txnId≠leaver := by
  cases kind with
  | table =>
    simp only [HasLock,h.tableLocks,List.mem_filter,decide_eq_true_eq]
    constructor
    · rintro ⟨lock,⟨hmem,hne⟩,rfl⟩
      exact ⟨⟨lock,hmem,rfl⟩,hne⟩
    · rintro ⟨⟨lock,hmem,rfl⟩,hne⟩
      exact ⟨lock,⟨hmem,hne⟩,rfl⟩
  | page =>
    simp only [HasLock,h.pageWriteOwners,Std.ExtTreeMap.getElem?_filter',
      Option.filter_eq_some_iff,decide_eq_true_eq]
    constructor
    · rintro ⟨pageId,howner,hne⟩
      exact ⟨⟨pageId,howner⟩,hne⟩
    · rintro ⟨⟨pageId,howner⟩,hne⟩
      exact ⟨pageId,howner,hne⟩
  | predicate =>
    simp only [HasLock,h.predicateLocks,List.mem_filter,decide_eq_true_eq]
    constructor
    · rintro ⟨lock,⟨hmem,hne⟩,rfl⟩
      exact ⟨⟨lock,hmem,rfl⟩,hne⟩
    · rintro ⟨⟨lock,hmem,rfl⟩,hne⟩
      exact ⟨lock,⟨hmem,hne⟩,rfl⟩

theorem OwnersActive.released
    (h : m.OwnersActive kind) (hrelease : Released m m' leaver) : m'.OwnersActive kind := by
  intro txnId hlock
  obtain ⟨txn,hget,hactive⟩ := h txnId (hrelease.hasLock.mp hlock).1
  exact ⟨txn,by rw [hrelease.txns]; exact hget,hactive⟩

/-- Aborting a victim leaves everybody else running, with all locks. -/
theorem active_victimAborted {victim txnId : TransactionId}
    {txn : TxnState P} (message : String) (hne : txnId≠victim) :
    (m.victimAborted victim txn message).Active txnId ↔ m.Active txnId := by
  have hget : (m.victimAborted victim txn message).txns[txnId]?=m.txns[txnId]? := by
    rw [victimAborted,(released_spec _ victim).txns,Std.ExtTreeMap.getElem?_insert,
      if_neg (by rw [Std.LawfulEqCmp.compare_eq_iff_eq]; exact fun h => hne h.symm)]
  unfold Active
  rw [hget]

/-- A victim does not run any more. -/
theorem not_active_victimAborted (m : TxnManager P) (victim : TransactionId) (txn : TxnState P)
    (message : String) : ¬(m.victimAborted victim txn message).Active victim := by
  rintro ⟨found,hfound,hactive⟩
  rw [victimAborted,(released_spec _ victim).txns,Std.ExtTreeMap.getElem?_insert_self] at hfound
  obtain rfl := Option.some.inj hfound
  exact markVictim_not_active message txn hactive

theorem OwnersActive.waitMove
    (h : m.OwnersActive kind) (hmove : WaitMove txnId m m') : m'.OwnersActive kind := by
  cases hmove with
  | page | table | predicate => exact h.of_eq rfl rfl rfl rfl
  | @abortVictim victim txn hget message =>
    intro owner hlock
    obtain ⟨hbefore,hne⟩ := (released_spec _ victim).hasLock.mp hlock
    refine (active_victimAborted message hne).mpr (h owner ?_)
    cases kind <;> exact hbefore

theorem OwnersActive.waits
    (h : m.OwnersActive kind) (hwaits : Waits txnId m m') : m'.OwnersActive kind := by
  induction hwaits with
  | refl => exact h
  | tail _ hmove ih => exact ih.waitMove hmove

/-- Who is given a page lock runs. -/
theorem OwnersActive.pageGrant
    {pageId : PageId} (h : m.OwnersActive kind) (hgrant : PageGrant txnId pageId m m') :
    m'.OwnersActive kind := by
  cases hgrant with
  | keep howner =>
    rw [dequeueFrontWaiter_eq]
    exact h.of_eq rfl rfl rfl rfl
  | grant hactive hfree hfront =>
    intro owner hlock
    have hstays : (m.pageGranted txnId pageId).Active owner ↔ m.Active owner := by
      unfold pageGranted
      rw [dequeueFrontWaiter_eq]
      exact Iff.rfl
    rw [hstays]
    cases kind with
    | table =>
      refine h owner ?_
      unfold pageGranted at hlock
      rw [dequeueFrontWaiter_eq] at hlock
      exact hlock
    | predicate =>
      refine h owner ?_
      unfold pageGranted at hlock
      rw [dequeueFrontWaiter_eq] at hlock
      exact hlock
    | page =>
      obtain ⟨other,howner⟩ := hlock
      unfold pageGranted at howner
      rw [dequeueFrontWaiter_eq] at howner
      have howner : (m.pageWriteOwners.insert pageId txnId)[other]?=some owner := howner
      rw [Std.ExtTreeMap.getElem?_insert] at howner
      split at howner
      · obtain rfl := Option.some.inj howner
        exact hactive
      · exact h owner ⟨other,howner⟩

/-- The locks after one has been raised or added. -/
theorem mem_upsertTableLock {mode : TableLockMode} {lock : TableLock}
    (h : lock∈(m.upsertTableLock txnId table mode).tableLocks) :
    lock∈m.tableLocks ∨ lock=⟨txnId,table,mode⟩ := by
  unfold upsertTableLock at h
  split at h
  · next hany =>
    obtain ⟨i,hi⟩ := List.mem_iff_getElem?.mp h
    rw [List.getElem?_modify] at hi
    obtain ⟨old,hold,hnew⟩ := Option.map_eq_some_iff.mp hi
    have hmem := List.mem_of_getElem? hold
    split at hnew
    · next hfound =>
      subst hfound
      obtain ⟨hlt,rfl⟩ := List.getElem?_eq_some_iff.mp hold
      have hmatch := List.findIdx_getElem (w := hlt)
      split at hnew
      · obtain ⟨howner,htable⟩ : (m.tableLocks.get ⟨_,hlt⟩).txnId=txnId ∧
            (m.tableLocks.get ⟨_,hlt⟩).table=table := by simpa using hmatch
        refine Or.inr (hnew.symm.trans ?_)
        rw [TableLock.mk.injEq]
        exact ⟨howner,htable,rfl⟩
      · exact Or.inl (hnew ▸ hmem)
    · exact Or.inl (hnew ▸ hmem)
  · rcases List.mem_append.mp h with hold | hnew
    · exact Or.inl hold
    · exact Or.inr (List.mem_singleton.mp hnew)

/-- Who is given a table lock runs. -/
theorem OwnersActive.tableGrant {mode : TableLockMode} (h : m.OwnersActive kind)
    (hgrant : TableGrant txnId table mode m m') : m'.OwnersActive kind := by
  cases hgrant with
  | grant hactive hfree hfront =>
    set asked := (m.dequeueTableWaiter table txnId).setTableWaitEdges txnId ∅ with hasked
    have hbefore : asked.OwnersActive kind := by
      rw [hasked,dequeueTableWaiter_eq]
      exact h.of_eq rfl rfl rfl rfl
    have hruns : asked.Active txnId := by
      rw [hasked,dequeueTableWaiter_eq]
      exact hactive
    intro owner hlock
    have hstays : (asked.upsertTableLock txnId table mode).Active owner ↔ asked.Active owner := by
      rw [upsertTableLock_eq]
      exact Iff.rfl
    refine hstays.mpr ?_
    cases kind with
    | table =>
      obtain ⟨lock,hmem,rfl⟩ := hlock
      rcases mem_upsertTableLock hmem with hold | rfl
      · exact hbefore _ ⟨lock,hold,rfl⟩
      · exact hruns
    | page =>
      refine hbefore owner ?_
      change (asked.upsertTableLock txnId table mode).HasLock owner .page at hlock
      rw [upsertTableLock_eq] at hlock
      exact hlock
    | predicate =>
      refine hbefore owner ?_
      change (asked.upsertTableLock txnId table mode).HasLock owner .predicate at hlock
      rw [upsertTableLock_eq] at hlock
      exact hlock

theorem OwnersActive.predicatePass {indexKeys : List (String × List Value)}
    (h : m.OwnersActive kind) (hpass : PredicatePass txnId table indexKeys m m') :
    m'.OwnersActive kind := by
  cases hpass with
  | pass => exact h.of_eq rfl rfl rfl rfl

/-- A predicate lock of a running transaction. -/
theorem OwnersActive.record {lock : PredicateLock}
    (h : m.OwnersActive kind) (hactive : kind=.predicate → m.Active lock.txnId) :
    ({m with predicateLocks := m.predicateLocks++[lock]} : TxnManager P).OwnersActive kind := by
  intro owner hlock
  cases kind with
  | table => exact h owner hlock
  | page => exact h owner hlock
  | predicate =>
    obtain ⟨found,hmem,rfl⟩ := hlock
    rcases List.mem_append.mp hmem with hold | hnew
    · exact h _ ⟨found,hold,rfl⟩
    · rw [List.mem_singleton.mp hnew]
      exact hactive rfl

/-- Where no lock is different, the owners are the same. -/
theorem SameLocks.hasLock (h : SameLocks m m') : m'.HasLock txnId kind ↔ m.HasLock txnId kind := by
  cases kind with
  | table => unfold HasLock; rw [h.tableLocks]
  | page => unfold HasLock; rw [h.pageWriteOwners]
  | predicate => unfold HasLock; rw [h.predicateLocks]

/-! ## The owners along a run -/

/-- The call ends nobody who owns a lock of the kind, and asks for a lock of the
kind only for somebody who runs. A request for a table or page lock sees to the
second itself. -/
structure OwnersCare (kind : LockKind) (call : ManagerCall P) (m : TxnManager P) : Prop where
  released : ∀ txnId : TransactionId, call.Ends txnId → ¬m.HasLock txnId kind
  running : ∀ lock : PredicateLock, kind=.predicate → call=.acquirePredicateLock lock →
    m.isolationLevel lock.txnId=.ok .serializable → m.Active lock.txnId

theorem OwnersActive.callStep {call : ManagerCall P}
    (h : m.OwnersActive kind) (hcare : OwnersCare kind call m) (hstep : CallStep call m m') :
    m'.OwnersActive kind := by
  cases hstep with
  | books hcall hbooks =>
    intro owner hlock
    have hbefore := hbooks.sameLocks.hasLock.mp hlock
    rcases hbooks.stays (h owner hbefore) with hactive | hends
    · exact hactive
    · exact absurd hbefore (hcare.released owner hends)
  | release hcall hrelease => exact h.released hrelease
  | wait hwaits => exact h.waits hwaits
  | page hwaits hgrant => exact (h.waits hwaits).pageGrant hgrant
  | table hwaits hgrant => exact (h.waits hwaits).tableGrant hgrant
  | read hwaits hgrant =>
    exact ((h.waits hwaits).tableGrant hgrant).record fun _ => hgrant.active
  | write hwaits hpass => exact (h.waits hwaits).predicatePass hpass
  | record hcall hlevel => exact h.record fun hkind => hcare.running _ hkind hcall hlevel

/-- Nobody owns a lock of a new manager. -/
theorem ownersActive_new (nextTxnId : ℕ) (kind : LockKind) :
    (withNextTxnId nextTxnId : TxnManager P).OwnersActive kind := by
  intro owner hlock
  cases kind with
  | table =>
    obtain ⟨lock,hmem,-⟩ := hlock
    cases hmem
  | page =>
    obtain ⟨pageId,howner⟩ := hlock
    simp [withNextTxnId] at howner
  | predicate =>
    obtain ⟨lock,hmem,-⟩ := hlock
    cases hmem

/-- In a run of such calls every owner runs. -/
theorem ownersActive_of_runs {nextTxnId : ℕ} {calls : List (ManagerCall P)}
    (hcare : Eff.Along ManagerCall.run (OwnersCare kind) calls (withNextTxnId nextTxnId))
    (hruns : ManagerCall.runs nextTxnId calls=some m) : m.OwnersActive kind :=
  Eff.Along.invariant (I := fun m => m.OwnersActive kind)
    (fun _ _ _ h hcall hreturns => h.callStep hcall (callStep_of_returns hreturns))
    hcare (ownersActive_new nextTxnId kind) hruns

end TxnManager

end RustSql.V2
