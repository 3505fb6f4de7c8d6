import RustSql.Base.Completes
import RustSql.V2.TxnFacts

/-!
# What lock requests do

A lock request changes the lock tables, the queues and the wait edges. It leaves
the counters alone, and of the transactions it changes only the victims of the
deadlocks it breaks: they are aborted and their locks are released.
-/

namespace RustSql.V2.TxnManager

variable {P : Type}

/-- What a lock request does to one transaction: nothing, or it makes it a
victim. -/
def MayAbort (before after : Option (TxnState P)) : Prop :=
  after=before ∨ ∃ txn message, before=some txn ∧ txn.status=.active ∧
    after=some {txn with status := .aborted, terminalError := some message}

/-- First it may abort, then it may abort again. -/
theorem MayAbort.trans {a b c : Option (TxnState P)} (hab : MayAbort a b) (hbc : MayAbort b c) :
    MayAbort a c := by
  rcases hab with rfl | ⟨txn,message,rfl,hactive,rfl⟩
  · exact hbc
  · rcases hbc with rfl | ⟨txn',_,heq,hactive',-⟩
    · exact Or.inr ⟨txn,message,rfl,hactive,rfl⟩
    · obtain rfl := Option.some.inj heq
      cases hactive'

/-- What a lock request may do to the manager. -/
structure LockStep (m m' : TxnManager P) : Prop where
  nextTxnId : m'.nextTxnId=m.nextTxnId
  nextCommitTs : m'.nextCommitTs=m.nextCommitTs
  nextRowIds : m'.nextRowIds=m.nextRowIds
  txns : ∀ txnId : TransactionId, MayAbort m.txns[txnId]? m'.txns[txnId]?
  /-- A page lock is lost only by transactions that do not run any more. -/
  owners : ∀ {pageId : PageId} {txnId : TransactionId}, m.pageWriteOwners[pageId]?=some txnId →
    m'.pageWriteOwners[pageId]?=some txnId ∨ ¬m'.Active txnId

/-- Nobody starts to run. -/
theorem MayAbort.active {m m' : TxnManager P} {txnId : TransactionId}
    (h : MayAbort m.txns[txnId]? m'.txns[txnId]?) (hactive : m'.Active txnId) :
    m.Active txnId := by
  obtain ⟨txn,hget,hstatus⟩ := hactive
  rcases h with h | ⟨txn',_,-,-,hafter⟩
  · exact ⟨txn,by rw [← h,hget],hstatus⟩
  · rw [hget] at hafter
    obtain rfl := Option.some.inj hafter
    cases hstatus

/-- Nothing happens. -/
theorem LockStep.refl (m : TxnManager P) : LockStep m m :=
  ⟨rfl,rfl,rfl,fun _ => Or.inl rfl,Or.inl⟩

/-- One step after another. -/
theorem LockStep.trans {m m' m'' : TxnManager P} (h : LockStep m m') (h' : LockStep m' m'') :
    LockStep m m'' where
  nextTxnId := h'.nextTxnId.trans h.nextTxnId
  nextCommitTs := h'.nextCommitTs.trans h.nextCommitTs
  nextRowIds := h'.nextRowIds.trans h.nextRowIds
  txns txnId := (h.txns txnId).trans (h'.txns txnId)
  owners howner := by
    rcases h.owners howner with howner' | hstopped
    · exact h'.owners howner'
    · exact Or.inr fun hactive => hstopped ((h'.txns _).active hactive)

instance : IsPreorder (TxnManager P) LockStep where
  refl := LockStep.refl
  trans _ _ _ := LockStep.trans

/-- A step that changes nothing of what is watched. -/
theorem LockStep.of_eq {m m' : TxnManager P} (h₁ : m'.nextTxnId=m.nextTxnId)
    (h₂ : m'.nextCommitTs=m.nextCommitTs) (h₃ : m'.nextRowIds=m.nextRowIds)
    (h₄ : m'.txns=m.txns) (h₅ : m'.pageWriteOwners=m.pageWriteOwners) : LockStep m m' :=
  ⟨h₁,h₂,h₃,fun _ => Or.inl (by rw [h₄]),fun h => Or.inl (by rw [h₅]; exact h)⟩

/-- Lock requests register nobody. -/
theorem LockStep.registered {m m' : TxnManager P} (h : LockStep m m') (hm : m.Registered) :
    m'.Registered := by
  have hbefore : ∀ {txnId : ℕ} {txn : TxnState P}, m'.txns[txnId]?=some txn →
      ∃ old, m.txns[txnId]?=some old ∧ txn.id=old.id := by
    intro txnId txn hget
    rcases h.txns txnId with hsame | ⟨old,_,hold,-,hnew⟩
    · exact ⟨txn,by rw [← hsame,hget],rfl⟩
    · rw [hget] at hnew
      obtain rfl := Option.some.inj hnew
      exact ⟨old,hold,rfl⟩
  constructor
  · intro txnId txn hget
    obtain ⟨old,hold,heq⟩ := hbefore hget
    rw [heq]
    exact hm.keyed hold
  · intro txnId txn hget
    obtain ⟨old,hold,-⟩ := hbefore hget
    rw [h.nextTxnId]
    exact hm.known hold

/-! ## Releasing -/

/-- Everything but the wait edges. -/
structure SameButEdges (m m' : TxnManager P) : Prop where
  nextTxnId : m'.nextTxnId=m.nextTxnId
  nextCommitTs : m'.nextCommitTs=m.nextCommitTs
  nextRowIds : m'.nextRowIds=m.nextRowIds
  txns : m'.txns=m.txns
  pageWriteOwners : m'.pageWriteOwners=m.pageWriteOwners
  tableLocks : m'.tableLocks=m.tableLocks
  predicateLocks : m'.predicateLocks=m.predicateLocks
  tableWaitQueues : m'.tableWaitQueues=m.tableWaitQueues
  pageWriteWaitQueues : m'.pageWriteWaitQueues=m.pageWriteWaitQueues
  predicateWriteWaitQueues : m'.predicateWriteWaitQueues=m.predicateWriteWaitQueues

/-- Only wait edges are removed. -/
theorem removeWaitDependencyOn_same (m : TxnManager P) (blocker : TransactionId) :
    SameButEdges m (m.removeWaitDependencyOn blocker) := by
  unfold removeWaitDependencyOn
  generalize (m.txns.toList.map Prod.fst).filter (·≠blocker)=waiters
  induction waiters generalizing m with
  | nil => exact ⟨rfl,rfl,rfl,rfl,rfl,rfl,rfl,rfl,rfl,rfl⟩
  | cons waiter waiters ih =>
    obtain ⟨h₁,h₂,h₃,h₄,h₅,h₆,h₇,h₈,h₉,h₁₀⟩ := ih ({m with
      tableWaitBlockers := m.tableWaitBlockers.modify waiter (·.erase blocker)
      pageWaitBlockers := m.pageWaitBlockers.modify waiter (·.erase blocker)
      predicateWaitBlockers := m.predicateWaitBlockers.modify waiter (·.erase blocker)
      }.refreshWaitsFor waiter)
    exact ⟨h₁,h₂,h₃,h₄,h₅,h₆,h₇,h₈,h₉,h₁₀⟩

/-- What is left of the manager when a transaction's locks are gone. -/
structure Released (m m' : TxnManager P) (txnId : TransactionId) : Prop where
  nextTxnId : m'.nextTxnId=m.nextTxnId
  nextCommitTs : m'.nextCommitTs=m.nextCommitTs
  nextRowIds : m'.nextRowIds=m.nextRowIds
  txns : m'.txns=m.txns
  pageWriteOwners : m'.pageWriteOwners=m.pageWriteOwners.filter fun _ owner => owner≠txnId
  tableLocks : m'.tableLocks=m.tableLocks.filter fun lock => lock.txnId≠txnId
  predicateLocks : m'.predicateLocks=m.predicateLocks.filter fun lock => lock.txnId≠txnId
  tableWaitQueues : m'.tableWaitQueues=removeFromQueues m.tableWaitQueues txnId
  pageWriteWaitQueues : m'.pageWriteWaitQueues=removeFromQueues m.pageWriteWaitQueues txnId
  predicateWriteWaitQueues : m'.predicateWriteWaitQueues=
    fun key => (m.predicateWriteWaitQueues key).filter (·≠txnId)

/-- What is released is what the transaction had, and nothing else. -/
theorem released_spec (m : TxnManager P) (txnId : TransactionId) :
    Released m (m.released txnId) txnId := by
  unfold released
  dsimp only
  obtain ⟨h₁,h₂,h₃,h₄,h₅,h₆,h₇,h₈,h₉,h₁₀⟩ := removeWaitDependencyOn_same _ txnId
  exact ⟨h₁,h₂,h₃,h₄,h₅,h₆,h₇,h₈,h₉,h₁₀⟩

/-- The locks of the others stay. -/
theorem Released.owners {m m' : TxnManager P} {txnId other : TransactionId} {pageId : PageId}
    (h : Released m m' txnId) (howner : m.pageWriteOwners[pageId]?=some other)
    (hne : other≠txnId) : m'.pageWriteOwners[pageId]?=some other := by
  rw [h.pageWriteOwners,Std.ExtTreeMap.getElem?_filter,howner]
  simp [hne]

/-! ## The moves of a lock request -/

/-- What becomes of a victim's record. -/
def markVictim (message : String) (txn : TxnState P) : TxnState P :=
  if txn.status=.active then {txn with status := .aborted, terminalError := some message}
  else txn

/-- A victim is no longer active. -/
theorem markVictim_not_active (message : String) (txn : TxnState P) :
    (markVictim message txn).status≠.active := by
  unfold markVictim
  split
  · exact TxnStatus.noConfusion
  · assumption

/-- The manager after a victim has been aborted. -/
def victimAborted (m : TxnManager P) (victim : TransactionId) (txn : TxnState P)
    (message : String) : TxnManager P :=
  ({m with txns := m.txns.insert victim (markVictim message txn)} : TxnManager P).released victim

/-- The manager after a page lock has been granted. -/
def pageGranted (m : TxnManager P) (txnId : TransactionId) (pageId : PageId) : TxnManager P :=
  let m := m.dequeueFrontWaiter pageId txnId
  ({m with pageWriteOwners := m.pageWriteOwners.insert pageId txnId} :
    TxnManager P).setPageWaitEdges txnId ∅

/-- The manager after a table lock has been granted. -/
def tableGranted (m : TxnManager P) (txnId : TransactionId) (table : String)
    (mode : TableLockMode) : TxnManager P :=
  ((m.dequeueTableWaiter table txnId).setTableWaitEdges txnId ∅).upsertTableLock txnId table mode

/-- Nobody but the transaction itself stands at the front. -/
def MayPass (queue : List TransactionId) (txnId : TransactionId) : Prop :=
  queue.head?.filter (·≠txnId)=none

instance (queue : List TransactionId) (txnId : TransactionId) : Decidable (MayPass queue txnId) :=
  inferInstanceAs (Decidable (_=_))

/-- The queue of a page. -/
def pageQueue (m : TxnManager P) (pageId : PageId) : List TransactionId :=
  (m.pageWriteWaitQueues[pageId]?).getD []

/-- The queue of a table. -/
def tableQueue (m : TxnManager P) (table : String) : List TransactionId :=
  (m.tableWaitQueues[table]?).getD []

/-- Only the queues of pages change. -/
theorem dequeueFrontWaiter_eq (m : TxnManager P) (pageId : PageId) (txnId : TransactionId) :
    m.dequeueFrontWaiter pageId txnId={m with
      pageWriteWaitQueues := (m.dequeueFrontWaiter pageId txnId).pageWriteWaitQueues} := by
  unfold dequeueFrontWaiter
  split <;> rfl

/-- Only the queues of tables change. -/
theorem dequeueTableWaiter_eq (m : TxnManager P) (table : String) (txnId : TransactionId) :
    m.dequeueTableWaiter table txnId={m with
      tableWaitQueues := (m.dequeueTableWaiter table txnId).tableWaitQueues} := by
  unfold dequeueTableWaiter
  split <;> rfl

/-- Only the table locks change. -/
theorem upsertTableLock_eq (m : TxnManager P) (txnId : TransactionId) (table : String)
    (mode : TableLockMode) : m.upsertTableLock txnId table mode={m with
      tableLocks := (m.upsertTableLock txnId table mode).tableLocks} := by
  unfold upsertTableLock
  split <;> rfl

/-- The moves of a transaction that does not get its lock: it joins a queue, or a
victim is aborted. -/
inductive WaitMove (txnId : TransactionId) : TxnManager P → TxnManager P → Prop
  | page {m : TxnManager P} (pageId : PageId) (blockers : Finset TransactionId)
      (hactive : m.Active txnId) (hother : m.pageWriteOwners[pageId]?≠some txnId) :
      WaitMove txnId m ((m.enqueuePageWaiter pageId txnId).setPageWaitEdges txnId blockers)
  | table {m : TxnManager P} (table : String) (blockers : Finset TransactionId)
      (hactive : m.Active txnId) :
      WaitMove txnId m ((m.enqueueTableWaiter table txnId).setTableWaitEdges txnId blockers)
  | predicate {m : TxnManager P} (waitKey : PredicateWriteKey)
      (blockers : Finset TransactionId) (hactive : m.Active txnId) :
      WaitMove txnId m
        ((m.enqueuePredicateWaiter waitKey txnId).setPredicateWaitEdges txnId blockers)
  | abortVictim {m : TxnManager P} (victim : TransactionId) {txn : TxnState P}
      (hget : m.txns[victim]?=some txn) (message : String) :
      WaitMove txnId m (m.victimAborted victim txn message)

/-- Any number of moves without a grant. -/
abbrev Waits (txnId : TransactionId) : TxnManager P → TxnManager P → Prop :=
  Relation.ReflTransGen (WaitMove txnId)

/-- A page lock is granted, or held already. -/
inductive PageGrant (txnId : TransactionId) (pageId : PageId) :
    TxnManager P → TxnManager P → Prop
  | grant {m : TxnManager P} (hactive : m.Active txnId)
      (hfree : m.pageWriteOwners[pageId]?=none) (hfront : MayPass (m.pageQueue pageId) txnId) :
      PageGrant txnId pageId m (m.pageGranted txnId pageId)
  | keep {m : TxnManager P} (howner : m.pageWriteOwners[pageId]?=some txnId) :
      PageGrant txnId pageId m ((m.dequeueFrontWaiter pageId txnId).setPageWaitEdges txnId ∅)

/-- A table lock is granted. -/
inductive TableGrant (txnId : TransactionId) (table : String) (mode : TableLockMode) :
    TxnManager P → TxnManager P → Prop
  | grant {m : TxnManager P} (hactive : m.Active txnId)
      (hfree : m.conflictingTableLockTxns txnId table mode=.ok ∅)
      (hfront : MayPass (m.tableQueue table) txnId) :
      TableGrant txnId table mode m (m.tableGranted txnId table mode)

/-- A write passes the predicate locks. -/
inductive PredicatePass (txnId : TransactionId) (table : String)
    (indexKeys : List (String × List Value)) : TxnManager P → TxnManager P → Prop
  | pass {m : TxnManager P} (hactive : m.Active txnId)
      (hfree : m.conflictingPredicateLockTxns txnId table indexKeys=.ok ∅) :
      PredicatePass txnId table indexKeys m
        ((m.dequeuePredicateWaiter (predicateWriteKey table indexKeys) txnId).setPredicateWaitEdges
          txnId ∅)

/-- A lock request waits, and then it is granted and returns, or it is not and
does not return a value. -/
def Requests (txnId : TransactionId) (Grant : TxnManager P → TxnManager P → Prop)
    (m : TxnManager P) (x : Eff (TxnManager P) Unit) : Prop :=
  ∃ m₁, Waits txnId m m₁ ∧ (((x m).1=.ok () ∧ Grant m₁ (x m).2) ∨ ((x m).1≠.ok () ∧ (x m).2=m₁))

section Requests

variable {txnId : TransactionId} {Grant : TxnManager P → TxnManager P → Prop} {m : TxnManager P}

/-- A request that is granted at once. -/
theorem Requests.grant {x : Eff (TxnManager P) Unit} {m' : TxnManager P}
    (hrun : x m=(.ok (),m')) (hgrant : Grant m m') : Requests txnId Grant m x :=
  ⟨m,.refl,Or.inl (by rw [hrun]; exact ⟨rfl,hgrant⟩)⟩

/-- A request that is refused and changes nothing. -/
theorem Requests.refuse {x : Eff (TxnManager P) Unit} (hrun : (x m).2=m)
    (hrefused : (x m).1≠.ok ()) : Requests txnId Grant m x :=
  ⟨m,.refl,Or.inr ⟨hrefused,hrun⟩⟩

/-- A request that reads the state first. -/
theorem Requests.bind_reads {α : Type} {f : TxnManager P → Except DbError α}
    {x : α → Eff (TxnManager P) Unit}
    (h : ∀ a, f m=.ok a → Requests txnId Grant m (x a)) :
    Requests txnId Grant m (Eff.reads f >>= x) := by
  cases hf : f m with
  | ok a =>
    have hrun : (Eff.reads f >>= x) m=x a m := by rw [Eff.bind_eq,Eff.reads,hf]
    have hrequest := h a hf
    unfold Requests at hrequest ⊢
    rw [hrun]
    exact hrequest
  | error e =>
    have hrun : (Eff.reads f >>= x) m=(.err e,m) := by rw [Eff.bind_eq,Eff.reads,hf]
    exact Requests.refuse (by rw [hrun]) (by rw [hrun]; exact Outcome.err_ne_ok)

/-- A request that looks at the state. -/
theorem Requests.bind_get {x : TxnManager P → Eff (TxnManager P) Unit}
    (h : Requests txnId Grant m (x m)) : Requests txnId Grant m (Eff.get >>= x) :=
  h

/-- A request that goes on after some waiting. -/
theorem Requests.of_waits {m₁ : TxnManager P} {x y : Eff (TxnManager P) Unit}
    (hwaits : Waits txnId m m₁) (hrun : x m=y m₁) (h : Requests txnId Grant m₁ y) :
    Requests txnId Grant m x := by
  obtain ⟨m₂,hmoves,hend⟩ := h
  refine ⟨m₂,hwaits.trans hmoves,?_⟩
  rw [hrun]
  exact hend

end Requests

/-- Aborting a registered victim. -/
theorem abortDeadlockVictim_run {m : TxnManager P} {victim : TransactionId} {txn : TxnState P}
    (hget : m.txns[victim]?=some txn) (message : String) :
    abortDeadlockVictim victim message m=(.ok (),m.victimAborted victim txn message) := by
  have hmarked : ({m with txns := m.txns.insert victim (markVictim message txn)} :
      TxnManager P).get victim=.ok (markVictim message txn) := by simp [get]
  simp only [abortDeadlockVictim,Eff.bind_eq,modifyTxn,get,hget]
  change releaseTransactionResources victim
    {m with txns := m.txns.insert victim (markVictim message txn)}=_
  rw [releaseTransactionResources,Eff.bind_eq,Eff.reads,hmarked]
  rfl

/-- Aborting a victim is a move. -/
theorem abortDeadlockVictim_waits (m : TxnManager P) (txnId victim : TransactionId)
    (message : String) :
    Guarantee (Waits txnId) m (abortDeadlockVictim victim message) fun _ _ => True := by
  refine ⟨?_,fun _ _ => trivial⟩
  cases hget : m.txns[victim]? with
  | none =>
    simp only [abortDeadlockVictim,Eff.bind_eq,modifyTxn,get,hget]
    exact Relation.ReflTransGen.refl
  | some txn =>
    rw [abortDeadlockVictim_run hget]
    exact Relation.ReflTransGen.single (WaitMove.abortVictim victim hget message)

/-- Choosing a victim changes nothing. -/
theorem chooseDeadlockVictim_state (m : TxnManager P) (requester blocker : TransactionId) :
    (chooseDeadlockVictim requester blocker m).2=m := by
  unfold chooseDeadlockVictim
  split
  · rfl
  · dsimp only
    split <;> rfl

/-- Breaking one cycle is a part of waiting. -/
theorem resolveDeadlock_waits (m : TxnManager P) (txnId requester blocker : TransactionId)
    (context : TransactionId → String) :
    Guarantee (Waits txnId) m (resolveDeadlock requester blocker context) fun _ _ => True := by
  have hchoose : Guarantee (Waits txnId) m (chooseDeadlockVictim requester blocker)
      fun _ _ => True := by
    refine ⟨?_,fun _ _ => trivial⟩
    rw [chooseDeadlockVictim_state]
  unfold resolveDeadlock
  refine hchoose.bind fun chosen m₁ _ _ => ?_
  cases chosen with
  | none => exact Guarantee.ret trivial
  | some victim =>
    refine (abortDeadlockVictim_waits m₁ txnId victim (context victim)).bind
      fun _ m₂ _ _ => ?_
    split
    · exact Guarantee.fail _
    · exact Guarantee.ret trivial

/-- So is breaking all of them. -/
theorem breakDeadlocks_waits (m : TxnManager P) (txnId requester : TransactionId)
    (context : TransactionId → TransactionId → String) (blockers : List TransactionId) :
    Guarantee (Waits txnId) m (breakDeadlocks requester context blockers)
      fun _ _ => True := by
  induction blockers generalizing m with
  | nil => exact Guarantee.ret trivial
  | cons blocker blockers ih =>
    unfold breakDeadlocks
    refine Guarantee.bind_get ?_
    split
    · refine (resolveDeadlock_waits m txnId requester blocker (context blocker)).bind
        fun resolved m₁ _ _ => ?_
      cases resolved with
      | false => exact ih m₁
      | true => exact Guarantee.ret trivial
    · exact ih m

/-- Waiting in a queue: the wait is registered and deadlocks are broken; the
request is tried again or the caller has to wait. -/
theorem Requests.wait {m : TxnManager P} {txnId : TransactionId}
    {Grant : TxnManager P → TxnManager P → Prop} {enqueue setEdges : TxnManager P → TxnManager P}
    (hwait : WaitMove txnId m (setEdges (enqueue m)))
    (context : TransactionId → TransactionId → String) (blockers : List TransactionId)
    {retry : Eff (TxnManager P) Unit} (error : DbError)
    (hretry : ∀ m, Requests txnId Grant m retry) :
    Requests txnId Grant m (do
      Eff.modify enqueue
      Eff.modify setEdges
      if ← breakDeadlocks txnId context blockers then retry else Eff.fail error) := by
  obtain ⟨hmoves,-⟩ := breakDeadlocks_waits (setEdges (enqueue m)) txnId txnId context blockers
  have hwaits := Relation.ReflTransGen.head hwait hmoves
  set rest : Eff (TxnManager P) Unit :=
    do if ← breakDeadlocks txnId context blockers then retry else Eff.fail error with hrest
  rcases hbroken : breakDeadlocks txnId context blockers (setEdges (enqueue m)) with ⟨o,m₁⟩
  rw [hbroken] at hwaits
  cases o with
  | ok broken =>
    have hgoes : rest (setEdges (enqueue m))=
        (if broken then retry else Eff.fail error) m₁ := Eff.bind_of_ok hbroken
    refine Requests.of_waits hwaits hgoes ?_
    cases broken with
    | false => exact Requests.refuse rfl Outcome.err_ne_ok
    | true => exact hretry m₁
  | err e =>
    have hends : rest (setEdges (enqueue m))=(.err e,m₁) := Eff.bind_of_err hbroken
    exact Requests.of_waits (y := fun m => (.err e,m)) hwaits hends
      (Requests.refuse rfl Outcome.err_ne_ok)
  | stuck =>
    have hends : rest (setEdges (enqueue m))=(.stuck,m₁) := Eff.bind_of_stuck hbroken
    exact Requests.of_waits (y := fun m => (.stuck,m)) hwaits hends
      (Requests.refuse rfl Outcome.stuck_ne_ok)

/-- A request for a page waits, then it is granted or refused. -/
theorem acquirePageWriteFrom_requests (fuel : ℕ) (m : TxnManager P) (txnId : TransactionId)
    (pageId : PageId) :
    Requests txnId (PageGrant txnId pageId) m (acquirePageWriteFrom fuel txnId pageId) := by
  induction fuel generalizing m with
  | zero => exact Requests.refuse rfl Outcome.stuck_ne_ok
  | succ fuel ih =>
    unfold acquirePageWriteFrom
    refine Requests.bind_get ?_
    dsimp only
    split
    · next hfree =>
      refine Requests.bind_reads fun _ hactive => ?_
      have hactive := ensureActive_ok hactive
      split
      · next front hfront =>
        exact Requests.wait (WaitMove.page pageId {front} hactive (by rw [hfree]; simp))
          _ [front] _ ih
      · next hfront => exact Requests.grant rfl (PageGrant.grant hactive hfree hfront)
    · next owner howner =>
      split
      · next heq =>
        subst heq
        exact Requests.grant rfl (PageGrant.keep howner)
      · next hne =>
        refine Requests.bind_reads fun _ hactive => Requests.bind_reads fun _ _ => ?_
        refine Requests.wait (WaitMove.page pageId {owner} (ensureActive_ok hactive) ?_)
          _ [owner] _ ih
        rw [howner]
        exact fun h => hne (Option.some.inj h)

/-- `acquire_page_write` is such a request. -/
theorem acquirePageWrite_requests (m : TxnManager P) (txnId : TransactionId) (pageId : PageId) :
    Requests txnId (PageGrant txnId pageId) m (acquirePageWrite txnId pageId) :=
  acquirePageWriteFrom_requests (m.txns.size+1) m txnId pageId

/-- A request for a table waits, then it is granted or refused. -/
theorem acquireTableLockFrom_requests (fuel : ℕ) (m : TxnManager P) (txnId : TransactionId)
    (table : String) (mode : TableLockMode) :
    Requests txnId (TableGrant txnId table mode) m
      (acquireTableLockFrom fuel txnId table mode) := by
  induction fuel generalizing m with
  | zero => exact Requests.refuse rfl Outcome.stuck_ne_ok
  | succ fuel ih =>
    unfold acquireTableLockFrom
    refine Requests.bind_reads fun _ hactive => Requests.bind_reads fun blockers hfree => ?_
    refine Requests.bind_get ?_
    have hactive := ensureActive_ok hactive
    split
    · next hnone =>
      subst hnone
      dsimp only
      split
      · next front hfront =>
        exact Requests.wait (WaitMove.table table {front} hactive) _ [front] _ ih
      · next hfront => exact Requests.grant rfl (TableGrant.grant hactive hfree hfront)
    · exact Requests.wait (WaitMove.table table blockers hactive) _ _ _ ih

/-- `acquire_table_lock` is such a request. -/
theorem acquireTableLock_requests (m : TxnManager P) (txnId : TransactionId) (table : String)
    (mode : TableLockMode) :
    Requests txnId (TableGrant txnId table mode) m (acquireTableLock txnId table mode) :=
  acquireTableLockFrom_requests (m.txns.size+1) m txnId table mode

/-- A writer waits for the predicates in its way, then it passes or is refused. -/
theorem checkWriteConflictsFrom_requests (fuel : ℕ) (m : TxnManager P) (txnId : TransactionId)
    (table : String) (indexKeys : List (String × List Value)) :
    Requests txnId (PredicatePass txnId table indexKeys) m
      (checkWriteConflictsFrom fuel txnId table indexKeys) := by
  induction fuel generalizing m with
  | zero => exact Requests.refuse rfl Outcome.stuck_ne_ok
  | succ fuel ih =>
    unfold checkWriteConflictsFrom
    refine Requests.bind_reads fun _ hactive => Requests.bind_reads fun blockers hfree => ?_
    refine Requests.bind_get ?_
    have hactive := ensureActive_ok hactive
    split
    · next hnone =>
      subst hnone
      split
      · next front hfront =>
        exact Requests.wait (WaitMove.predicate _ {front} hactive) _ [front] _ ih
      · exact Requests.grant rfl (PredicatePass.pass hactive hfree)
    · exact Requests.wait (WaitMove.predicate _ blockers hactive) _ _ _ ih

/-- `check_write_conflicts` is such a request. -/
theorem checkWriteConflicts_requests (m : TxnManager P) (txnId : TransactionId) (table : String)
    (indexKeys : List (String × List Value)) :
    Requests txnId (PredicatePass txnId table indexKeys) m
      (checkWriteConflicts txnId table indexKeys) :=
  checkWriteConflictsFrom_requests (m.txns.size+1) m txnId table indexKeys

/-- A predicate lock is recorded for a serializable transaction, and for no
other; the call does not ask whether the transaction still runs. -/
theorem acquirePredicateLock_cases (m : TxnManager P) (lock : PredicateLock) :
    (acquirePredicateLock lock.txnId lock m).2=m ∨
      acquirePredicateLock lock.txnId lock m=
        (.ok (),{m with predicateLocks := m.predicateLocks++[lock]}) ∧
      m.isolationLevel lock.txnId=.ok .serializable := by
  unfold acquirePredicateLock
  rw [Eff.bind_eq,Eff.reads]
  cases hlevel : m.isolationLevel lock.txnId with
  | error e => exact Or.inl rfl
  | ok level =>
    dsimp only
    split
    · exact Or.inl rfl
    · next hserializable =>
      rw [Eff.modify_eq]
      by_cases hmem : lock∈m.predicateLocks
      · exact Or.inl (by rw [if_pos hmem])
      · exact Or.inr ⟨by rw [if_neg hmem],by rw [not_not.mp hserializable]⟩

/-- After the call a serializable transaction has the lock. -/
theorem acquirePredicateLock_mem {m m' : TxnManager P} {lock : PredicateLock} {txn : TxnState P}
    (hrun : acquirePredicateLock lock.txnId lock m=(.ok (),m'))
    (hget : m.txns[lock.txnId]?=some txn) (hlevel : txn.isolationLevel=.serializable) :
    lock∈m'.predicateLocks := by
  have hread : m.isolationLevel lock.txnId=.ok .serializable := by
    rw [isolationLevel,get,hget,← hlevel]
    rfl
  rw [acquirePredicateLock,Eff.bind_eq,Eff.reads,hread] at hrun
  have hrun : ((.ok (),if lock∈m.predicateLocks then m
      else {m with predicateLocks := m.predicateLocks++[lock]}) :
        Outcome Unit × TxnManager P)=(.ok (),m') := hrun
  obtain ⟨-,rfl⟩ := Prod.mk.inj hrun
  split
  · assumption
  · exact List.mem_append_right _ List.mem_cons_self

/-! ## Every move is a lock step -/

/-- Who leaves a queue changes no locks. -/
theorem dequeueFrontWaiter_steps (m : TxnManager P) (pageId : PageId) (txnId : TransactionId) :
    LockStep m (m.dequeueFrontWaiter pageId txnId) := by
  rw [dequeueFrontWaiter_eq]
  exact LockStep.of_eq rfl rfl rfl rfl rfl

/-- An aborted victim loses its locks, and nobody else does. -/
theorem victimAborted_steps {m : TxnManager P} {victim : TransactionId} {txn : TxnState P}
    (hget : m.txns[victim]?=some txn) (message : String) :
    LockStep m (m.victimAborted victim txn message) := by
  have hrelease := released_spec
    {m with txns := m.txns.insert victim (markVictim message txn)} victim
  refine ⟨hrelease.nextTxnId,hrelease.nextCommitTs,hrelease.nextRowIds,fun txnId => ?_,?_⟩
  · rw [victimAborted,hrelease.txns,Std.ExtTreeMap.getElem?_insert]
    split
    · next heq =>
      obtain rfl := Std.LawfulEqCmp.eq_of_compare heq
      by_cases hactive : txn.status=.active
      · exact Or.inr ⟨txn,message,hget,hactive,by rw [markVictim,if_pos hactive]⟩
      · exact Or.inl (by rw [markVictim,if_neg hactive,hget])
    · exact Or.inl rfl
  · intro pageId txnId howner
    by_cases heq : txnId=victim
    · subst heq
      refine Or.inr fun ⟨found,hfound,hactive⟩ => markVictim_not_active message txn ?_
      rw [victimAborted,hrelease.txns] at hfound
      simp only [Std.ExtTreeMap.getElem?_insert_self,Option.some.injEq] at hfound
      rw [hfound,hactive]
    · exact Or.inl (hrelease.owners howner heq)

/-- One move of a waiting transaction, as a step of the locks. -/
theorem WaitMove.steps {m m' : TxnManager P} {txnId : TransactionId}
    (h : WaitMove txnId m m') : LockStep m m' := by
  cases h with
  | page | table | predicate => exact LockStep.of_eq rfl rfl rfl rfl rfl
  | abortVictim victim hget message => exact victimAborted_steps hget message

/-- All its moves, as a step of the locks. -/
theorem Waits.steps {m m' : TxnManager P} {txnId : TransactionId} (h : Waits txnId m m') :
    LockStep m m' := by
  induction h with
  | refl => exact LockStep.refl m
  | tail _ hmove ih => exact ih.trans hmove.steps

/-- A granted page, as a step of the locks. -/
theorem PageGrant.steps {m m' : TxnManager P} {txnId : TransactionId} {pageId : PageId}
    (h : PageGrant txnId pageId m m') : LockStep m m' := by
  cases h with
  | grant hactive hfree hfront =>
    refine (dequeueFrontWaiter_steps m pageId txnId).trans
      ⟨rfl,rfl,rfl,fun _ => Or.inl rfl,fun {other} holder howner => Or.inl ?_⟩
    rw [dequeueFrontWaiter_eq] at howner
    have howner : m.pageWriteOwners[other]?=some holder := howner
    change ((m.dequeueFrontWaiter pageId txnId).pageWriteOwners.insert pageId txnId)[other]?=_
    rw [dequeueFrontWaiter_eq,Std.ExtTreeMap.getElem?_insert]
    split
    · next heq =>
      obtain rfl := Std.LawfulEqCmp.eq_of_compare heq
      rw [hfree] at howner
      cases howner
    · exact howner
  | keep howner =>
    exact (dequeueFrontWaiter_steps m pageId txnId).trans (LockStep.of_eq rfl rfl rfl rfl rfl)

/-- A granted table lock, as a step of the locks. -/
theorem TableGrant.steps {m m' : TxnManager P} {txnId : TransactionId} {table : String}
    {mode : TableLockMode} (h : TableGrant txnId table mode m m') : LockStep m m' := by
  cases h with
  | grant hactive hfree hfront =>
    rw [tableGranted,upsertTableLock_eq,dequeueTableWaiter_eq]
    exact LockStep.of_eq rfl rfl rfl rfl rfl

/-- Who has been given a table lock runs. -/
theorem TableGrant.active {m m' : TxnManager P} {txnId : TransactionId} {table : String}
    {mode : TableLockMode} (h : TableGrant txnId table mode m m') : m'.Active txnId := by
  cases h with
  | grant hactive hfree hfront =>
    rw [tableGranted,upsertTableLock_eq,dequeueTableWaiter_eq]
    exact hactive

/-- A writer that passes, as a step of the locks. -/
theorem PredicatePass.steps {m m' : TxnManager P} {txnId : TransactionId} {table : String}
    {indexKeys : List (String × List Value)} (h : PredicatePass txnId table indexKeys m m') :
    LockStep m m' := by
  cases h with
  | pass hactive hfree => exact LockStep.of_eq rfl rfl rfl rfl rfl

/-- A lock request is a lock step when its grant is one. -/
theorem Requests.steps {m : TxnManager P} {txnId : TransactionId}
    {Grant : TxnManager P → TxnManager P → Prop} {x : Eff (TxnManager P) Unit}
    (h : Requests txnId Grant m x) (hgrant : ∀ m m', Grant m m' → LockStep m m') :
    LockStep m (x m).2 := by
  obtain ⟨m₁,hwaits,⟨-,hmove⟩ | ⟨-,hend⟩⟩ := h
  · exact hwaits.steps.trans (hgrant _ _ hmove)
  · rw [hend]
    exact hwaits.steps

/-- However it ends, a request for a table is a step of the locks. -/
theorem acquireTableLock_steps (m : TxnManager P) (txnId : TransactionId) (table : String)
    (mode : TableLockMode) :
    Guarantee LockStep m (acquireTableLock txnId table mode) fun _ _ => True :=
  ⟨(acquireTableLock_requests m txnId table mode).steps fun _ _ h => h.steps,
    fun _ _ => trivial⟩

/-! ## The errors of a page request -/

/-- An error of the transaction manager. -/
def IsTxn (e : DbError) : Prop := ∃ message, e=.txn message

/-- An unknown transaction is a transaction error. -/
theorem get_raises (m : TxnManager P) (txnId : TransactionId) {e : DbError}
    (h : m.get txnId=.error e) : IsTxn e := by
  unfold get at h
  split at h
  · cases h
  · cases h
    exact ⟨_,rfl⟩

/-- So is one that has ended. -/
theorem ensureActive_raises (m : TxnManager P) (txnId : TransactionId) {e : DbError}
    (h : m.ensureActive txnId=.error e) : IsTxn e := by
  unfold ensureActive at h
  cases hget : m.get txnId with
  | error e' =>
    rw [hget] at h
    cases h
    exact get_raises m txnId hget
  | ok txn =>
    rw [hget] at h
    change (if txn.status=.active then Except.ok () else _)=_ at h
    split at h
    · cases h
    · cases h
      exact ⟨_,rfl⟩

/-- A change of a transaction raises no other error. -/
theorem modifyTxn_raises (txnId : TransactionId) (f : TxnState P → TxnState P) :
    Eff.Raises IsTxn (modifyTxn txnId f) := by
  intro m e m' herror
  unfold modifyTxn at herror
  split at herror
  · cases (Prod.mk.inj herror).1
  · next hget =>
    cases (Prod.mk.inj herror).1
    exact get_raises m txnId hget

/-- Nor does breaking a cycle. -/
theorem resolveDeadlock_raises (requester blocker : TransactionId)
    (context : TransactionId → String) :
    Eff.Raises IsTxn (resolveDeadlock requester blocker context : Eff (TxnManager P) Bool) := by
  refine Eff.Raises.bind (fun m e m' herror => ?_) fun victim => ?_
  · unfold chooseDeadlockVictim at herror
    split at herror
    · cases (Prod.mk.inj herror).1
    · dsimp only at herror
      split at herror <;> cases (Prod.mk.inj herror).1
  · cases victim with
    | none => exact Eff.Raises.ret false
    | some victim =>
      refine Eff.Raises.bind (Eff.Raises.bind (modifyTxn_raises _ _) fun _ => ?_) fun _ => ?_
      · exact Eff.Raises.bind (Eff.Raises.reads fun m _ => get_raises m victim) fun _ =>
          Eff.Raises.modify _
      · split
        · exact Eff.Raises.fail ⟨_,rfl⟩
        · exact Eff.Raises.ret true

/-- Nor does breaking all of them. -/
theorem breakDeadlocks_raises (requester : TransactionId)
    (context : TransactionId → TransactionId → String) (blockers : List TransactionId) :
    Eff.Raises IsTxn (breakDeadlocks requester context blockers : Eff (TxnManager P) Bool) := by
  induction blockers with
  | nil => exact Eff.Raises.ret false
  | cons blocker rest ih =>
    refine Eff.Raises.bind Eff.Raises.get fun m => ?_
    split
    · refine Eff.Raises.bind (resolveDeadlock_raises _ _ _) fun resolved => ?_
      split
      · exact Eff.Raises.ret true
      · exact ih
    · exact ih

/-- Nor does a request for a page. -/
theorem acquirePageWrite_raises (txnId : TransactionId) (pageId : PageId) :
    Eff.Raises IsTxn (acquirePageWrite txnId pageId : Eff (TxnManager P) Unit) := by
  have hfrom : ∀ fuel : ℕ, Eff.Raises IsTxn
      (acquirePageWriteFrom fuel txnId pageId : Eff (TxnManager P) Unit) := by
    intro fuel
    induction fuel with
    | zero => exact Eff.Raises.hang
    | succ fuel ih =>
      have hwait : ∀ (context : TransactionId → TransactionId → String)
          (blockers : List TransactionId) (edges : TxnManager P → TxnManager P) (message : String),
          Eff.Raises IsTxn (do
            Eff.modify fun m => m.enqueuePageWaiter pageId txnId
            Eff.modify edges
            if ← breakDeadlocks txnId context blockers then acquirePageWriteFrom fuel txnId pageId
            else Eff.fail (.txn message)) := by
        intro context blockers edges message
        refine Eff.Raises.bind (Eff.Raises.modify _) fun _ => ?_
        refine Eff.Raises.bind (Eff.Raises.modify _) fun _ => ?_
        refine Eff.Raises.bind (breakDeadlocks_raises _ _ _) fun broken => ?_
        split
        · exact ih
        · exact Eff.Raises.fail ⟨_,rfl⟩
      refine Eff.Raises.bind Eff.Raises.get fun m => ?_
      dsimp only
      split
      · refine Eff.Raises.bind (Eff.Raises.reads fun m _ => ensureActive_raises m txnId) fun _ => ?_
        split
        · exact hwait _ _ _ _
        · exact Eff.Raises.bind (Eff.Raises.modify _) fun _ =>
            Eff.Raises.bind (Eff.Raises.modify _) fun _ => Eff.Raises.modify _
      · split
        · exact Eff.Raises.bind (Eff.Raises.modify _) fun _ => Eff.Raises.modify _
        · have hactive : Eff.Raises IsTxn (Eff.reads fun m : TxnManager P => m.ensureActive txnId) :=
            Eff.Raises.reads fun m _ => ensureActive_raises m txnId
          refine Eff.Raises.bind hactive fun _ => ?_
          exact Eff.Raises.bind (Eff.Raises.reads fun m _ => get_raises m _) fun _ => hwait _ _ _ _
  exact fun m => hfrom (m.txns.size+1) m

end RustSql.V2.TxnManager
