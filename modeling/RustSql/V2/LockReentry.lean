import RustSql.V2.Deadlocks
import RustSql.V2.LockOrder

/-!
# Asking again for a table lock

A transaction that holds a table lock asks for it once more, in the same mode or in a
weaker one. Nobody who runs stands in its way, but the request also looks at the
front of the queue, and there may stand somebody who waits for this very lock.
-/

namespace RustSql.V2.TxnManager

variable {P : Type}

/-! ## Whoever waits runs -/

/-- A transaction is ended when it has given its table locks back and waits for
nobody. -/
structure EndsReleased (call : ManagerCall P) (m : TxnManager P) : Prop where
  locks : ∀ txnId : TransactionId, call.Ends txnId → ¬m.HasLock txnId .table
  waits : ∀ txnId : TransactionId, call.Ends txnId → ∀ kind : LockKind, m.blockers kind txnId=∅

/-- Every transaction that waits for somebody runs. -/
def WaitersRun (m : TxnManager P) : Prop :=
  ∀ (kind : LockKind) (txnId : TransactionId), m.blockers kind txnId≠∅ → m.Active txnId

variable {m m' : TxnManager P} {txnId : TransactionId} {table : String} {mode : TableLockMode}
    {call : ManagerCall P} {calls : List (ManagerCall P)} {lock : TableLock}

/-- With fewer blockers the waiters still run. -/
theorem WaitersRun.of_fewer (h : m.WaitersRun)
    (hblockers : ∀ (kind : LockKind) (txnId : TransactionId),
      m'.blockers kind txnId⊆m.blockers kind txnId)
    (hactive : ∀ (kind : LockKind) (txnId : TransactionId), m'.blockers kind txnId≠∅ →
      m.Active txnId → m'.Active txnId) : m'.WaitersRun := by
  intro kind txnId hwaits
  have hbefore : m.blockers kind txnId≠∅ := fun hnone =>
    hwaits (Finset.subset_empty.mp (hnone▸hblockers kind txnId))
  exact hactive kind txnId hwaits (h kind txnId hbefore)

/-- A transaction that runs starts to wait. -/
theorem WaitersRun.setWaitEdges (h : m.WaitersRun)
    (hactive : m.Active txnId) (kind : LockKind) (edges : Finset TransactionId) :
    (m.setWaitEdges kind txnId edges).WaitersRun := by
  have hstays : ∀ other : TransactionId,
      (m.setWaitEdges kind txnId edges).Active other ↔ m.Active other := by
    intro other
    cases kind <;> exact Iff.rfl
  intro other waiter hwaits
  rw [hstays]
  rw [blockers_setWaitEdges] at hwaits
  split at hwaits
  · next heq =>
    rw [heq.2]
    exact hactive
  · exact h other waiter hwaits

/-- With the same edges they do. -/
theorem WaitersRun.sameEdges (h : m.WaitersRun) (hsame : SameEdges m m') :
    m'.WaitersRun := by
  refine h.of_fewer (fun kind txnId => by rw [hsame.blockers]) fun _ txnId _ hactive => ?_
  obtain ⟨txn,hget,hruns⟩ := hactive
  exact ⟨txn,by rw [hsame.txns]; exact hget,hruns⟩

/-- With the same edges the same transactions are active. -/
theorem Active.sameEdges (h : m.Active txnId) (hsame : SameEdges m m') : m'.Active txnId := by
  obtain ⟨txn,hget,hruns⟩ := h
  exact ⟨txn,by rw [hsame.txns]; exact hget,hruns⟩

/-- An aborted victim waits for nobody. -/
theorem WaitersRun.victimAborted (h : m.WaitersRun) (victim : TransactionId)
    (txn : TxnState P) (message : String) : (m.victimAborted victim txn message).WaitersRun := by
  obtain ⟨hfewer,hgone⟩ := victimAborted_fewerWaits m victim txn message
  refine h.of_fewer hfewer.sub fun kind txnId hwaits hactive => ?_
  have hne : txnId≠victim := fun heq => hwaits (heq▸hgone kind)
  exact (active_victimAborted message hne).mpr hactive

/-- Waiting keeps it. -/
theorem WaitersRun.waits (h : m.WaitersRun) (hwaits : Waits txnId m m') : m'.WaitersRun := by
  induction hwaits with
  | refl => exact h
  | @tail before after _ hmove ih =>
    cases hmove with
    | page pageId blockers hactive hother =>
      have hsame := sameEdges_enqueuePageWaiter before pageId txnId
      exact (ih.sameEdges hsame).setWaitEdges (hactive.sameEdges hsame) .page blockers
    | table table blockers hactive =>
      have hsame := sameEdges_enqueueTableWaiter before table txnId
      exact (ih.sameEdges hsame).setWaitEdges (hactive.sameEdges hsame) .table blockers
    | predicate waitKey blockers hactive =>
      have hsame := sameEdges_enqueuePredicateWaiter before waitKey txnId
      exact (ih.sameEdges hsame).setWaitEdges (hactive.sameEdges hsame) .predicate blockers
    | abortVictim victim hget message => exact ih.victimAborted victim _ message

/-- Nobody waits for more when a transaction's edges of a kind are cleared. -/
theorem WaitersRun.clear (h : m.WaitersRun) (kind : LockKind)
    (txnId : TransactionId) : (m.setWaitEdges kind txnId ∅).WaitersRun := by
  refine h.of_fewer (fun other waiter => ?_) fun _ waiter _ hactive => ?_
  · rw [blockers_setWaitEdges]
    split
    · exact Finset.empty_subset _
    · exact Finset.Subset.refl _
  · cases kind <;> exact hactive

/-- So does a granted page. -/
theorem WaitersRun.pageGrant {pageId : PageId}
    (h : m.WaitersRun) (hgrant : PageGrant txnId pageId m m') : m'.WaitersRun := by
  have hdequeue := h.sameEdges (sameEdges_dequeueFrontWaiter m pageId txnId)
  cases hgrant with
  | keep howner => exact hdequeue.clear .page txnId
  | grant hactive hfree hfront =>
    have howner : ({m.dequeueFrontWaiter pageId txnId with
        pageWriteOwners := (m.dequeueFrontWaiter pageId txnId).pageWriteOwners.insert pageId txnId}
          : TxnManager P).WaitersRun :=
      hdequeue.sameEdges ⟨rfl,rfl,fun kind _ => by cases kind <;> rfl,fun _ => rfl⟩
    exact howner.clear .page txnId

/-- So does a granted table lock. -/
theorem WaitersRun.tableGrant (h : m.WaitersRun) (hgrant : TableGrant txnId table mode m m') :
    m'.WaitersRun := by
  cases hgrant with
  | grant hactive hfree hfront =>
    have hdequeue : (m.dequeueTableWaiter table txnId).WaitersRun := by
      rw [dequeueTableWaiter_eq]
      exact h.sameEdges ⟨rfl,rfl,fun kind _ => by cases kind <;> rfl,fun _ => rfl⟩
    have hcleared := hdequeue.clear .table txnId
    rw [tableGranted,upsertTableLock_eq]
    exact hcleared.sameEdges ⟨rfl,rfl,fun kind _ => by cases kind <;> rfl,fun _ => rfl⟩

/-- So does a writer that passes. -/
theorem WaitersRun.predicatePass {indexKeys : List (String × List Value)} (h : m.WaitersRun)
    (hpass : PredicatePass txnId table indexKeys m m') : m'.WaitersRun := by
  cases hpass with
  | pass hactive hfree =>
    have hdequeue : (m.dequeuePredicateWaiter (predicateWriteKey table indexKeys)
        txnId).WaitersRun :=
      h.sameEdges ⟨rfl,rfl,fun kind _ => by cases kind <;> rfl,fun _ => rfl⟩
    exact hdequeue.clear .predicate txnId

/-- A predicate lock makes nobody wait. -/
theorem WaitersRun.record (h : m.WaitersRun) (lock : PredicateLock) :
    ({m with predicateLocks := m.predicateLocks++[lock]} : TxnManager P).WaitersRun :=
  h.sameEdges ⟨rfl,rfl,fun kind _ => by cases kind <;> rfl,fun _ => rfl⟩

/-- So does every call. -/
theorem WaitersRun.callReturns (h : m.WaitersRun)
    (hcare : EndsReleased call m) (hreturns : Eff.returns call.run m=some m') :
    m'.WaitersRun := by
  cases callStep_of_returns hreturns with
  | books hcall hbooks =>
    have hfewer := hbooks.sameLocks.fewerWaits
    refine h.of_fewer hfewer.sub fun kind txnId hwaits hactive => ?_
    rcases hbooks.stays hactive with hstays | hends
    · exact hstays
    · have hnone := hfewer.sub kind txnId
      rw [hcare.waits txnId hends kind] at hnone
      exact absurd (Finset.subset_empty.mp hnone) hwaits
  | @release _ txnId hcall hrelease =>
    subst hcall
    obtain rfl := Eff.returns_eq_some hreturns
    rcases releaseTransactionResources_cases m txnId with hsame | hrun
    · rw [ManagerCall.run,hsame]
      exact h
    · rw [ManagerCall.run,hrun]
      refine h.of_fewer (released_fewerWaits m txnId).1.sub fun _ other _ hactive => ?_
      obtain ⟨txn,hget,hruns⟩ := hactive
      exact ⟨txn,by rw [(released_spec m txnId).txns]; exact hget,hruns⟩
  | wait hwaits => exact h.waits hwaits
  | page hwaits hgrant => exact (h.waits hwaits).pageGrant hgrant
  | table hwaits hgrant => exact (h.waits hwaits).tableGrant hgrant
  | read hwaits hgrant => exact ((h.waits hwaits).tableGrant hgrant).record _
  | write hwaits hpass => exact (h.waits hwaits).predicatePass hpass
  | record hcall hlevel => exact h.record _

/-! ## One lock for each owner and table -/

/-- Nobody has two locks on one table. -/
def TableLocksOnce (m : TxnManager P) : Prop :=
  (m.tableLocks.map fun lock => (lock.txnId,lock.table)).Nodup

/-- A transaction has one lock on a table. -/
theorem TableLocksOnce.eq (h : m.TableLocksOnce) {lock other : TableLock}
    (hlock : lock∈m.tableLocks) (hother : other∈m.tableLocks) (howner : lock.txnId=other.txnId)
    (htable : lock.table=other.table) : lock=other :=
  List.inj_on_of_nodup_map h hlock hother (Prod.ext howner htable)

/-- Fewer locks, each once. -/
theorem TableLocksOnce.filter (h : m.TableLocksOnce)
    (keeps : TableLock → Bool) (hlocks : m'.tableLocks=m.tableLocks.filter keeps) :
    m'.TableLocksOnce := by
  unfold TableLocksOnce at h ⊢
  rw [hlocks]
  exact h.sublist (List.Sublist.map _ List.filter_sublist)

/-- The same locks, each once. -/
theorem TableLocksOnce.of_eq (h : m.TableLocksOnce)
    (hlocks : m'.tableLocks=m.tableLocks) : m'.TableLocksOnce := by
  unfold TableLocksOnce at h ⊢
  rwa [hlocks]

/-- Waiting keeps it. -/
theorem TableLocksOnce.waits
    (h : m.TableLocksOnce) (hwaits : Waits txnId m m') : m'.TableLocksOnce := by
  induction hwaits with
  | refl => exact h
  | tail _ hmove ih =>
    cases hmove with
    | page | table | predicate => exact ih.of_eq rfl
    | abortVictim victim hget message =>
      exact ih.filter _ (released_spec _ victim).tableLocks

/-- Raising a lock keeps the owners; a new one is the owner's first. -/
theorem TableLocksOnce.upsertTableLock (h : m.TableLocksOnce)
    (txnId : TransactionId) (table : String) (mode : TableLockMode) :
    (m.upsertTableLock txnId table mode).TableLocksOnce := by
  unfold TxnManager.upsertTableLock
  split
  · unfold TableLocksOnce at h ⊢
    have hkeys : ∀ (locks : List TableLock) (i : ℕ),
        (locks.modify i fun lock => if lock.mode.strength < mode.strength then
          {lock with mode := mode} else lock).map (fun lock => (lock.txnId,lock.table))=
        locks.map fun lock => (lock.txnId,lock.table) := by
      intro locks i
      refine List.ext_getElem? fun j => ?_
      rw [List.getElem?_map,List.getElem?_map,List.getElem?_modify]
      cases locks[j]? with
      | none => rfl
      | some lock =>
        refine congrArg some ?_
        dsimp only
        split_ifs <;> rfl
    dsimp only
    rwa [hkeys]
  · next hnone =>
    unfold TableLocksOnce at h ⊢
    rw [List.map_append,List.map_singleton]
    refine List.nodup_append.mpr ⟨h,List.nodup_singleton _,fun key hkey other hother heq => ?_⟩
    obtain ⟨lock,hlock,rfl⟩ := List.mem_map.mp hkey
    rw [List.mem_singleton.mp hother] at heq
    obtain ⟨howner,htable⟩ := Prod.mk.inj heq
    refine hnone (List.any_eq_true.mpr ⟨lock,hlock,?_⟩)
    simp [howner,htable]

/-- A granted lock replaces the one held. -/
theorem TableLocksOnce.tableGrant (h : m.TableLocksOnce)
    (hgrant : TableGrant txnId table mode m m') :
    m'.TableLocksOnce := by
  cases hgrant with
  | grant hactive hfree hfront =>
    refine TableLocksOnce.upsertTableLock (h.of_eq ?_) txnId table mode
    rw [dequeueTableWaiter_eq]
    rfl

/-- Every call keeps it. -/
theorem TableLocksOnce.callStep
    (h : m.TableLocksOnce) (hstep : CallStep call m m') : m'.TableLocksOnce := by
  cases hstep with
  | books hcall hbooks => exact h.of_eq hbooks.sameLocks.tableLocks
  | release hcall hrelease => exact h.filter _ hrelease.tableLocks
  | wait hwaits => exact h.waits hwaits
  | page hwaits hgrant => exact (h.waits hwaits).of_eq hgrant.tableLocks
  | table hwaits hgrant => exact (h.waits hwaits).tableGrant hgrant
  | read hwaits hgrant => exact ((h.waits hwaits).tableGrant hgrant).of_eq rfl
  | write hwaits hpass => exact (h.waits hwaits).of_eq hpass.tableLocks
  | record hcall hlevel => exact h.of_eq rfl

/-! ## Locks along a run -/

/-- How the lock tables are kept where every transaction is released before it ends. -/
structure LocksTended (m : TxnManager P) : Prop where
  kept : m.TableLocksKept
  owners : m.OwnersActive .table
  once : m.TableLocksOnce
  waiters : m.WaitersRun
  waitsOk : m.WaitsOk

/-- Where every owner runs, nobody is begun under the id of an owner: the id of a
running transaction is refused. -/
theorem OwnersActive.startsClean
    (h : m.OwnersActive .table) (hreturns : Eff.returns call.run m=some m') :
    m'=m ∨ StartsClean call m := by
  cases call with
  | beginWithId txnId level =>
    by_cases hknown : txnId∈m.txns
    · have hrefused : (beginWithId txnId level m).2=m := by
        unfold beginWithId
        rw [if_pos hknown]
      exact Or.inl ((Eff.returns_eq_some hreturns).symm.trans hrefused)
    · refine Or.inr fun other _ heq hlock => ?_
      obtain ⟨rfl,-⟩ := ManagerCall.beginWithId.inj heq
      obtain ⟨txn,hget,-⟩ := h _ hlock
      rw [Std.ExtTreeMap.getElem?_eq_none hknown] at hget
      cases hget
  | _ =>
    refine Or.inr fun _ _ heq => ?_
    cases heq

/-- Every call keeps the invariant. -/
theorem LocksTended.callReturns (h : m.LocksTended) (hcare : EndsReleased call m)
    (hreturns : Eff.returns call.run m=some m') : m'.LocksTended := by
  have hstep := callStep_of_returns hreturns
  constructor
  · rcases h.owners.startsClean hreturns with rfl | hclean
    · exact h.kept
    · exact h.kept.callStep hclean hstep
  · refine h.owners.callStep ⟨hcare.locks,fun _ hkind => ?_⟩ hstep
    cases hkind
  · exact h.once.callStep hstep
  · exact h.waiters.callReturns hcare hreturns
  · exact h.waitsOk.call hreturns

/-- It holds at first. -/
theorem locksTended_new (nextTxnId : ℕ) : (withNextTxnId nextTxnId : TxnManager P).LocksTended where
  kept := tableLocksKept_new nextTxnId
  owners := ownersActive_new nextTxnId .table
  once := List.nodup_nil
  waiters kind txnId hwaits := by
    refine absurd ?_ hwaits
    cases kind <;> simp [blockers,withNextTxnId]
  waitsOk := waitsOk_new nextTxnId

/-- It holds in every run. -/
theorem locksTended_of_runs {nextTxnId : ℕ}
    (hcare : Eff.Along ManagerCall.run EndsReleased calls (withNextTxnId nextTxnId))
    (hruns : ManagerCall.runs nextTxnId calls=some m) : m.LocksTended := by
  refine Eff.Along.invariant (I := LocksTended) ?_ hcare (locksTended_new nextTxnId) hruns
  intro call m₁ m₂ h hcall hreturns
  exact h.callReturns hcall hreturns

/-! ## The request of a holder -/

/-- What agrees with a held mode agrees with a weaker one. -/
theorem tableLockModesConflict_weaker {held mode other : TableLockMode}
    (h : mode.strength ≤ held.strength) (hagree : tableLockModesConflict held other=false) :
    tableLockModesConflict other mode=false := by
  revert h hagree
  cases held <;> cases mode <;> cases other <;> decide

/-- Nobody who runs stands in the way of a holder. -/
theorem LocksTended.holder_free (h : m.LocksTended) (hlock : lock∈m.tableLocks)
    (hmode : mode.strength ≤ lock.mode.strength) :
    m.conflictingTableLockTxns lock.txnId lock.table mode=.ok ∅ := by
  have hknown : ∀ owner, MeetsTable lock.txnId lock.table m owner → m.Knows owner := by
    rintro owner ⟨other,hother,howner,-⟩
    exact (h.owners owner ⟨other,hother,howner⟩).knows
  obtain ⟨blockers,hlookup⟩ := conflictingTableLockTxns_total.mpr hknown
  have hnone : blockers=∅ := by
    refine Finset.eq_empty_of_forall_notMem fun owner hmem => ?_
    obtain ⟨⟨other,hother,rfl,hne,htable,hconflict⟩,hruns⟩ :=
      (conflictingTableLockTxns_ok hlookup owner).mp hmem
    have hagree := h.kept.compatible lock hlock other hother hne.symm htable.symm
      (h.owners _ ⟨lock,hlock,rfl⟩) hruns
    rw [tableLockModesConflict_weaker hmode hagree] at hconflict
    cases hconflict
  rw [hlookup,hnone]

/-- A lock that is strong enough is left as it is. -/
theorem TableLocksOnce.upsertTableLock_held (h : m.TableLocksOnce) (hlock : lock∈m.tableLocks)
    (hmode : mode.strength ≤ lock.mode.strength) :
    (m.upsertTableLock lock.txnId lock.table mode).tableLocks=m.tableLocks := by
  have hany : m.tableLocks.any fun found =>
      found.txnId=lock.txnId ∧ found.table=lock.table :=
    List.any_eq_true.mpr ⟨lock,hlock,by simp⟩
  unfold TxnManager.upsertTableLock
  rw [if_pos hany]
  refine List.ext_getElem? fun i => ?_
  dsimp only
  rw [List.getElem?_modify]
  cases hfound : m.tableLocks[i]? with
  | none => rfl
  | some found =>
    refine congrArg some ?_
    dsimp only
    split
    · next heq =>
      subst heq
      obtain ⟨hlt,rfl⟩ := List.getElem?_eq_some_iff.mp hfound
      have hmatch := List.findIdx_getElem (w := hlt)
      obtain ⟨howner,htable⟩ : (m.tableLocks.get ⟨_,hlt⟩).txnId=lock.txnId ∧
          (m.tableLocks.get ⟨_,hlt⟩).table=lock.table := by simpa using hmatch
      have hsame : m.tableLocks.get ⟨_,hlt⟩=lock :=
        h.eq (List.get_mem _ _) hlock howner htable
      rw [← hsame] at hmode
      exact if_neg (Nat.not_lt.mpr hmode)
    · rfl

/-- The request returns, the table locks are what they were, and everybody who runs goes
on running. -/
def Reenters (m : TxnManager P) (txnId : TransactionId) (table : String)
    (mode : TableLockMode) : Prop :=
  (acquireTableLock txnId table mode m).1=.ok () ∧
  (acquireTableLock txnId table mode m).2.tableLocks=m.tableLocks ∧
  ∀ other : TransactionId, m.Active other → (acquireTableLock txnId table mode m).2.Active other

/-- With nobody else at the front the holder is let through. -/
theorem LocksTended.reenters (h : m.LocksTended) (hactive : m.Active lock.txnId)
    (hlock : lock∈m.tableLocks)
    (hmode : mode.strength ≤ lock.mode.strength)
    (hfront : MayPass (m.tableQueue lock.table) lock.txnId) :
    m.Reenters lock.txnId lock.table mode := by
  have hrun := acquireTableLock_front hactive (h.holder_free hlock hmode) hfront
  unfold Reenters
  rw [hrun]
  refine ⟨rfl,?_,fun other hother => ?_⟩
  · have hqueue : ((m.dequeueTableWaiter lock.table lock.txnId).setTableWaitEdges
        lock.txnId ∅).tableLocks=m.tableLocks := by
      rw [dequeueTableWaiter_eq]
      rfl
    have honce := h.once.of_eq hqueue
    exact (honce.upsertTableLock_held (hqueue.symm▸hlock) hmode).trans hqueue
  · rw [tableGranted,upsertTableLock_eq,dequeueTableWaiter_eq]
    exact hother

/-- Behind somebody else the holder waits: it fails, or somebody is aborted. -/
theorem LocksTended.not_reenters (h : m.LocksTended) (hactive : m.Active txnId)
    (hfree : m.conflictingTableLockTxns txnId table mode=.ok ∅)
    (hfront : ¬MayPass (m.tableQueue table) txnId) : ¬m.Reenters txnId table mode := by
  obtain ⟨front,hfront⟩ := Option.ne_none_iff_exists'.mp hfront
  have hfront : ((m.tableWaitQueues[table]?).getD []).head?.filter (·≠txnId)=some front := hfront
  set waiting := (m.enqueueTableWaiter table txnId).setWaitEdges .table txnId {front} with hwaiting
  obtain ⟨context,error,hrun⟩ : ∃ (context : TransactionId → TransactionId → String)
      (error : DbError), acquireTableLock txnId table mode m=(do
        if ← breakDeadlocks txnId context [front] then
          acquireTableLockFrom m.txns.size txnId table mode
        else Eff.fail error) waiting := by
    refine ⟨fun _ victim => s!"deadlock detected while waiting for table lock on {table}; victim transaction {victim} aborted",
      .txn s!"table lock wait on {table}; transaction {front} is ahead in queue",?_⟩
    simp only [acquireTableLock,acquireTableLockFrom,Eff.bind_eq,Eff.get_eq,Eff.reads,
      ensureActive_of_active hactive,hfree,if_true,hfront,Eff.modify_eq]
    rfl
  have hsame := sameEdges_enqueueTableWaiter m table txnId
  have hwaiters : waiting.WaitersRun :=
    (h.waiters.sameEdges hsame).setWaitEdges (hactive.sameEdges hsame) .table {front}
  have hregistered : waiting.Registered :=
    registered_setWaitEdges (hsame.registered h.waitsOk.registered) .table txnId {front}
  have hstep : waiting.WaitsInStep :=
    WaitsInStep.setWaitEdges ((FewerWaits.of_eq hsame.blockers hsame.waits).inStep
      h.waitsOk.inStep) .table txnId {front}
  rintro ⟨hok,-,hstay⟩
  rw [hrun] at hok hstay
  have hbroken := breakDeadlocks_broken hregistered txnId context [front]
  rcases hbreak : breakDeadlocks txnId context [front] waiting with ⟨o,m₁⟩
  rw [hbreak] at hbroken
  cases hbroken with
  | free hnone =>
    rw [Eff.bind_of_ok hbreak] at hok
    cases hok
  | @other victim txn hget message hne hwaits =>
    rw [Eff.bind_of_ok hbreak] at hstay
    -- The victim waited, so it ran; it does not run any more, whatever the retry does.
    obtain ⟨blocker,hblocker⟩ := Finset.nonempty_iff_ne_empty.mpr hwaits
    obtain ⟨kind,hkind⟩ := hstep.waitsOn.mp hblocker
    have hran : waiting.Active victim :=
      hwaiters kind victim (Finset.nonempty_iff_ne_empty.mp ⟨blocker,hkind⟩)
    have hafter := hstay victim hran
    have hsteps : LockStep (waiting.victimAborted victim txn message)
        (acquireTableLockFrom m.txns.size txnId table mode
          (waiting.victimAborted victim txn message)).2 :=
      (acquireTableLockFrom_requests _ _ _ _ _).steps fun _ _ hgrant => hgrant.steps
    exact not_active_victimAborted waiting victim txn message ((hsteps.txns victim).active hafter)
  | self hget message error' =>
    rw [Eff.bind_of_err hbreak] at hok
    cases hok
  | lost =>
    rw [Eff.bind_of_stuck hbreak] at hok
    cases hok

/-- In every run in which transactions are released before they end: a running
transaction that asks for a table lock it has, in the same mode or a weaker one, gets it
without harm to anybody exactly when nobody else stands at the front of the table's
queue. -/
theorem reenters_iff {nextTxnId : ℕ} {calls : List (ManagerCall P)} {m : TxnManager P}
    (hcare : Eff.Along ManagerCall.run EndsReleased calls (withNextTxnId nextTxnId))
    (hruns : ManagerCall.runs nextTxnId calls=some m) {lock : TableLock} {mode : TableLockMode}
    (hactive : m.Active lock.txnId) (hlock : lock∈m.tableLocks)
    (hmode : mode.strength ≤ lock.mode.strength) :
    m.Reenters lock.txnId lock.table mode ↔ MayPass (m.tableQueue lock.table) lock.txnId := by
  have htended := locksTended_of_runs hcare hruns
  constructor
  · intro hreenters
    by_contra hfront
    exact htended.not_reenters hactive (htended.holder_free hlock hmode) hfront hreenters
  · exact htended.reenters hactive hlock hmode

/-- A run in which nobody is ended. -/
theorem endsReleased_of_no_end
    (hcalls : ∀ call∈calls, ∀ txnId : TransactionId, ¬call.Ends txnId) (m : TxnManager P) :
    Eff.Along ManagerCall.run EndsReleased calls m := by
  induction calls generalizing m with
  | nil => trivial
  | cons call calls ih =>
    refine ⟨⟨fun txnId hends => ?_,fun txnId hends => ?_⟩,fun m' _ => ?_⟩
    · exact absurd hends (hcalls call List.mem_cons_self txnId)
    · exact absurd hends (hcalls call List.mem_cons_self txnId)
    · exact ih (fun other hmem => hcalls other (List.mem_cons_of_mem call hmem)) m'

/-- A writer asks again, and nobody waits for the table. -/
def heldLockRun : List (ManagerCall Unit) :=
  [.begin' .readCommitted,.acquireTableLock 1 "t" .intentionWrite]

/-- Who holds a lock gets a weaker one at once. -/
theorem reenters_iff_heldLock : ∃ m, ManagerCall.runs 1 heldLockRun=some m ∧
    m.Reenters 1 "t" .intentionRead := by
  have hreturns : (ManagerCall.runs 1 heldLockRun).map (fun m =>
      (m.tableLocks,m.txns[1]?.map TxnState.status,m.tableQueue "t"))=
      some ([⟨1,"t",.intentionWrite⟩],some .active,[]) := by
    decide +kernel
  obtain ⟨m,hruns,hfacts⟩ := Option.map_eq_some_iff.mp hreturns
  simp only [Prod.mk.injEq] at hfacts
  obtain ⟨hlocks,hstatus,hqueue⟩ := hfacts
  have hcalls : ∀ call∈heldLockRun, ∀ txnId : TransactionId, ¬call.Ends txnId := by
    intro call hcall txnId hends
    simp only [heldLockRun,List.mem_cons,List.not_mem_nil,or_false] at hcall
    rcases hcall with rfl | rfl <;> exact hends
  have hcare := endsReleased_of_no_end hcalls (withNextTxnId 1)
  have hactive : m.Active 1 := Option.map_eq_some_iff.mp hstatus
  have hlock : (⟨1,"t",.intentionWrite⟩ : TableLock)∈m.tableLocks := by simp [hlocks]
  refine ⟨m,hruns,(reenters_iff hcare hruns hactive hlock (by decide)).mpr ?_⟩
  unfold MayPass
  rw [hqueue]
  rfl

/-- Transaction 2 waits for a table that 1 writes to, 3 waits behind it, and 2 is
released: now 3 stands at the front and waits for nobody. -/
def overtakenRun : List (ManagerCall Unit) :=
  [.begin' .readCommitted,.begin' .readCommitted,.begin' .readCommitted,
    .acquireTableLock 1 "t" .intentionWrite,.acquireTableLock 2 "t" .exclusive,
    .acquireTableLock 3 "t" .intentionWrite,.releaseTransactionResources 2]

/-- Transaction 2 waits for a table that 1 writes to. -/
def queuedBehindRun : List (ManagerCall Unit) :=
  [.begin' .readCommitted,.begin' .readCommitted,.acquireTableLock 1 "t" .intentionWrite,
    .acquireTableLock 2 "t" .exclusive]

/-- Transaction 1 asks for its own lock again. It is refused when 3 is at the front, and
when 2 is there one of the two is aborted. -/
theorem holder_refused :
    (∃ m, ManagerCall.runs 1 overtakenRun=some m ∧ m.Active 1 ∧
      ⟨1,"t",.intentionWrite⟩∈m.tableLocks ∧
      (acquireTableLock 1 "t" .intentionWrite m).1=
        .err (.txn "table lock wait on t; transaction 3 is ahead in queue")) ∧
    ∃ m, ManagerCall.runs 1 queuedBehindRun=some m ∧ m.Active 1 ∧
      ⟨1,"t",.intentionWrite⟩∈m.tableLocks ∧ ¬m.Reenters 1 "t" .intentionWrite := by
  constructor
  · have hrun : (ManagerCall.runs 1 overtakenRun).map (fun m =>
        (m.tableLocks,m.txns[1]?.map TxnState.status,
          (acquireTableLock 1 "t" .intentionWrite m).1))=
        some ([⟨1,"t",.intentionWrite⟩],some .active,
          .err (.txn "table lock wait on t; transaction 3 is ahead in queue")) := by
      decide +kernel
    obtain ⟨m,hm,hfacts⟩ := Option.map_eq_some_iff.mp hrun
    simp only [Prod.mk.injEq] at hfacts
    obtain ⟨hlocks,hstatus,herror⟩ := hfacts
    exact ⟨m,hm,Option.map_eq_some_iff.mp hstatus,by simp [hlocks],herror⟩
  · have hrun : (ManagerCall.runs 1 queuedBehindRun).map (fun m =>
        (m.tableLocks,m.txns[1]?.map TxnState.status,m.tableQueue "t"))=
        some ([⟨1,"t",.intentionWrite⟩],some .active,[2]) := by
      decide +kernel
    obtain ⟨m,hm,hfacts⟩ := Option.map_eq_some_iff.mp hrun
    simp only [Prod.mk.injEq] at hfacts
    obtain ⟨hlocks,hstatus,hqueue⟩ := hfacts
    have hcalls : ∀ call∈queuedBehindRun, ∀ txnId : TransactionId, ¬call.Ends txnId := by
      intro call hcall txnId hends
      simp only [queuedBehindRun,List.mem_cons,List.not_mem_nil,or_false] at hcall
      rcases hcall with rfl | rfl | rfl | rfl <;> exact hends
    have htended := locksTended_of_runs (endsReleased_of_no_end hcalls _) hm
    have hactive : m.Active 1 := Option.map_eq_some_iff.mp hstatus
    have hlock : (⟨1,"t",.intentionWrite⟩ : TableLock)∈m.tableLocks := by simp [hlocks]
    refine ⟨m,hm,hactive,hlock,?_⟩
    refine htended.not_reenters hactive (htended.holder_free hlock (Nat.le_refl _)) ?_
    unfold MayPass
    rw [hqueue]
    decide

end RustSql.V2.TxnManager
