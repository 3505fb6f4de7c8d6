import Mathlib.Data.List.TakeWhile
import RustSql.V2.ManagerCalls

/-!
# The wait queues

Who waits for a page or a table, and in which order. A transaction joins a queue at
its end, leaves it from the front when its lock is granted, and leaves it from any
place when its locks are released. Everybody else keeps the order in which they
came.
-/

namespace RustSql.V2.TxnManager

variable {P : Type}

/-- One transaction stands in the queue before another one, which may not have
come yet. -/
def Ahead (queue : List TransactionId) (txnId other : TransactionId) : Prop :=
  txnId∈queue.takeWhile (·≠other)

variable {txnId other leaver : TransactionId} {m m' : TxnManager P}

section

variable {queue : List TransactionId}

/-- Who is ahead stands in the queue. -/
theorem Ahead.mem (h : Ahead queue txnId other) : txnId∈queue :=
  List.takeWhile_subset _ h

/-- Somebody who has not come yet stands behind everybody. -/
theorem ahead_of_not_mem (h : txnId∈queue) (hother : other∉queue) : Ahead queue txnId other := by
  unfold Ahead
  rwa [List.takeWhile_eq_self_iff.mpr fun x hx => by
    simpa using fun heq : x=other => hother (heq ▸ hx)]

/-- Whoever stands at the front of a queue is ahead of nobody's turn: a
transaction that may pass has nobody ahead of it. -/
theorem Ahead.not_mayPass (h : Ahead queue txnId other) : ¬MayPass queue other := by
  intro hpass
  cases queue with
  | nil => cases h
  | cons front rest =>
    unfold MayPass at hpass
    have hfront : front=other := by
      by_contra hne
      simp [hne] at hpass
    subst hfront
    simp [Ahead] at h

/-- Joining a queue puts nobody back. -/
theorem Ahead.enqueue {queue : List TransactionId} {txnId other : TransactionId}
    (h : Ahead queue txnId other) (newcomer : TransactionId) :
    Ahead (enqueue queue newcomer) txnId other := by
  unfold TxnManager.enqueue
  split
  · exact h
  · unfold Ahead
    rw [List.takeWhile_append]
    split
    · exact List.mem_append_left _ h.mem
    · exact h

/-- Leaving from the front puts nobody back. -/
theorem Ahead.dequeueFront {queue : List TransactionId} {txnId other leaver : TransactionId}
    (h : Ahead queue txnId other) (hnodup : queue.Nodup)
    (hstays : txnId∈dequeueFront queue leaver) : Ahead (dequeueFront queue leaver) txnId other := by
  unfold TxnManager.dequeueFront at hstays ⊢
  split
  · next hfront =>
    rw [if_pos hfront] at hstays
    cases queue with
    | nil => cases hstays
    | cons front rest =>
      have hne : front≠txnId := fun heq => (List.nodup_cons.mp hnodup).1 (heq ▸ hstays)
      unfold Ahead at h ⊢
      rw [List.takeWhile_cons] at h
      split at h
      · rcases List.mem_cons.mp h with heq | hrest
        · exact absurd heq.symm hne
        · exact hrest
      · cases h
  · exact h

/-- Leaving from any place puts nobody back. -/
theorem Ahead.filter (h : Ahead queue txnId other) (hne : txnId≠leaver) :
    Ahead (queue.filter (·≠leaver)) txnId other := by
  induction queue with
  | nil => cases h
  | cons front rest ih =>
    unfold Ahead at h ih ⊢
    rw [List.takeWhile_cons] at h
    split at h
    · next hfront =>
      by_cases hleaver : front=leaver
      · subst hleaver
        rcases List.mem_cons.mp h with heq | hrest
        · exact absurd heq hne
        · simpa using ih hrest
      · rw [List.filter_cons_of_pos (by simpa using hleaver),List.takeWhile_cons,if_pos hfront]
        rcases List.mem_cons.mp h with heq | hrest
        · exact heq ▸ List.mem_cons_self
        · exact List.mem_cons_of_mem _ (ih hrest)
    · cases h

/-- Nobody stands in a queue twice. -/
theorem enqueue_nodup (h : queue.Nodup) (txnId : TransactionId) :
    (enqueue queue txnId).Nodup := by
  unfold enqueue
  split
  · exact h
  · next hmem =>
    refine List.nodup_append.mpr ⟨h,List.nodup_singleton _,fun waiter hwaiter other hother heq => ?_⟩
    rw [heq,List.mem_singleton.mp hother] at hwaiter
    exact hmem hwaiter

/-- Nor when the first one leaves. -/
theorem dequeueFront_nodup (h : queue.Nodup)
    (txnId : TransactionId) : (dequeueFront queue txnId).Nodup := by
  unfold dequeueFront
  split
  · exact h.tail
  · exact h

/-- Only the newcomer enters. -/
theorem not_mem_enqueue {txnId newcomer : TransactionId}
    (h : txnId∉queue) (hne : txnId≠newcomer) : txnId∉enqueue queue newcomer := by
  unfold enqueue
  split
  · exact h
  · simp [h,hne]

/-- Who is left stood there before. -/
theorem dequeueFront_subset (h : txnId∈dequeueFront queue leaver) : txnId∈queue := by
  unfold dequeueFront at h
  split at h
  · exact List.mem_of_mem_tail h
  · exact h

end

/-! ## What the calls do to a queue -/

/-- One queue is put, the others stay. -/
theorem getD_putQueue {K : Type} [Ord K] [Std.TransOrd K] [Std.LawfulEqOrd K] [DecidableEq K]
    (queues : Std.ExtTreeMap K (List TransactionId) compare) (key other : K)
    (queue : List TransactionId) :
    ((putQueue queues key queue)[other]?).getD []=
      if other=key then queue else (queues[other]?).getD [] := by
  unfold putQueue
  by_cases heq : other=key
  · subst heq
    split
    · next h => simp [List.isEmpty_iff.mp h]
    · simp
  · have hne : compare key other≠.eq := fun h =>
      heq (Std.LawfulEqCmp.eq_of_compare h).symm
    rw [if_neg heq]
    split
    · rw [Std.ExtTreeMap.getElem?_erase,if_neg hne]
    · rw [Std.ExtTreeMap.getElem?_insert,if_neg hne]

/-- One transaction leaves all queues. -/
theorem getD_removeFromQueues {K : Type} [Ord K] [Std.TransOrd K] [Std.LawfulEqOrd K]
    (queues : Std.ExtTreeMap K (List TransactionId) compare) (txnId : TransactionId) (key : K) :
    ((removeFromQueues queues txnId)[key]?).getD []=
      ((queues[key]?).getD []).filter (·≠txnId) := by
  unfold removeFromQueues
  rw [Std.ExtTreeMap.getElem?_filter',Std.ExtTreeMap.getElem?_map]
  cases queues[key]? with
  | none => rfl
  | some queue =>
    simp only [Option.map_some,Option.filter_some,Option.getD_some]
    split
    · rfl
    · next h => simpa using h

/-- The queue of a page or of a table. -/
inductive QueueId where
  | page (pageId : PageId)
  | table (table : String)
  deriving DecidableEq

/-- The transactions that wait in a queue, in their order. -/
def queue (m : TxnManager P) : QueueId → List TransactionId
  | .page pageId => m.pageQueue pageId
  | .table table => m.tableQueue table

/-- Edges for pages leave the queues alone. -/
@[simp] theorem queue_setPageWaitEdges (m : TxnManager P) (txnId : TransactionId)
    (blockers : Finset TransactionId) (id : QueueId) :
    (m.setPageWaitEdges txnId blockers).queue id=m.queue id := by
  cases id <;> rfl

/-- So do edges for tables. -/
@[simp] theorem queue_setTableWaitEdges (m : TxnManager P) (txnId : TransactionId)
    (blockers : Finset TransactionId) (id : QueueId) :
    (m.setTableWaitEdges txnId blockers).queue id=m.queue id := by
  cases id <;> rfl

/-- So do edges for predicates. -/
@[simp] theorem queue_setPredicateWaitEdges (m : TxnManager P) (txnId : TransactionId)
    (blockers : Finset TransactionId) (id : QueueId) :
    (m.setPredicateWaitEdges txnId blockers).queue id=m.queue id := by
  cases id <;> rfl

/-- Waiters for predicates stand in no such queue. -/
@[simp] theorem queue_enqueuePredicateWaiter (m : TxnManager P) (waitKey : PredicateWriteKey)
    (txnId : TransactionId) (id : QueueId) :
    (m.enqueuePredicateWaiter waitKey txnId).queue id=m.queue id := by
  cases id <;> rfl

/-- And leave none. -/
@[simp] theorem queue_dequeuePredicateWaiter (m : TxnManager P) (waitKey : PredicateWriteKey)
    (txnId : TransactionId) (id : QueueId) :
    (m.dequeuePredicateWaiter waitKey txnId).queue id=m.queue id := by
  cases id <;> rfl

/-- A waiter for a page goes to its queue. -/
theorem queue_enqueuePageWaiter (m : TxnManager P) (pageId : PageId) (txnId : TransactionId)
    (id : QueueId) : (m.enqueuePageWaiter pageId txnId).queue id=
      if id=.page pageId then enqueue (m.queue id) txnId else m.queue id := by
  cases id with
  | table => simp [queue,tableQueue,enqueuePageWaiter]
  | page other =>
    simp only [queue,pageQueue,enqueuePageWaiter,Std.ExtTreeMap.getElem?_insert,
      Std.LawfulEqCmp.compare_eq_iff_eq,QueueId.page.injEq]
    by_cases heq : pageId=other
    · subst heq
      simp
    · rw [if_neg heq,if_neg (fun h => heq h.symm)]

/-- A waiter for a table goes to its queue. -/
theorem queue_enqueueTableWaiter (m : TxnManager P) (table : String) (txnId : TransactionId)
    (id : QueueId) : (m.enqueueTableWaiter table txnId).queue id=
      if id=.table table then enqueue (m.queue id) txnId else m.queue id := by
  cases id with
  | page => simp [queue,pageQueue,enqueueTableWaiter]
  | table other =>
    simp only [queue,tableQueue,enqueueTableWaiter,Std.ExtTreeMap.getElem?_insert,
      Std.LawfulEqCmp.compare_eq_iff_eq,QueueId.table.injEq]
    by_cases heq : table=other
    · subst heq
      simp
    · rw [if_neg heq,if_neg (fun h => heq h.symm)]

/-- The first one leaves the queue of its page. -/
theorem queue_dequeueFrontWaiter (m : TxnManager P) (pageId : PageId) (txnId : TransactionId)
    (id : QueueId) : (m.dequeueFrontWaiter pageId txnId).queue id=
      if id=.page pageId then dequeueFront (m.queue id) txnId else m.queue id := by
  cases id with
  | table other =>
    rw [dequeueFrontWaiter_eq,if_neg (by simp)]
    rfl
  | page other =>
    unfold dequeueFrontWaiter
    cases hqueue : m.pageWriteWaitQueues[pageId]? with
    | none =>
      dsimp only
      split
      · next heq =>
        obtain rfl := QueueId.page.inj heq
        simp [queue,pageQueue,hqueue,dequeueFront]
      · rfl
    | some found =>
      simp only [queue,pageQueue,getD_putQueue,QueueId.page.injEq]
      split
      · next heq =>
        subst heq
        rw [hqueue,Option.getD_some]
      · rfl

/-- The first one leaves the queue of its table. -/
theorem queue_dequeueTableWaiter (m : TxnManager P) (table : String) (txnId : TransactionId)
    (id : QueueId) : (m.dequeueTableWaiter table txnId).queue id=
      if id=.table table then dequeueFront (m.queue id) txnId else m.queue id := by
  cases id with
  | page other =>
    rw [dequeueTableWaiter_eq,if_neg (by simp)]
    rfl
  | table other =>
    unfold dequeueTableWaiter
    cases hqueue : m.tableWaitQueues[table]? with
    | none =>
      dsimp only
      split
      · next heq =>
        obtain rfl := QueueId.table.inj heq
        simp [queue,tableQueue,hqueue,dequeueFront]
      · rfl
    | some found =>
      simp only [queue,tableQueue,getD_putQueue,QueueId.table.injEq]
      split
      · next heq =>
        subst heq
        rw [hqueue,Option.getD_some]
      · rfl

/-- A release takes the transaction out of every queue. -/
theorem Released.queue (h : Released m m' txnId)
    (id : QueueId) : m'.queue id=(m.queue id).filter (·≠txnId) := by
  cases id with
  | page pageId =>
    simp only [TxnManager.queue,pageQueue,h.pageWriteWaitQueues,getD_removeFromQueues]
  | table table =>
    simp only [TxnManager.queue,tableQueue,h.tableWaitQueues,getD_removeFromQueues]

/-- A victim leaves all queues. -/
theorem queue_victimAborted (m : TxnManager P) (victim : TransactionId) (txn : TxnState P)
    (message : String) (id : QueueId) :
    (m.victimAborted victim txn message).queue id=(m.queue id).filter (·≠victim) := by
  rw [victimAborted,(released_spec _ victim).queue]
  cases id <;> rfl

/-- The same locks have the same queues. -/
theorem SameLocks.queue (h : SameLocks m m') (id : QueueId) :
    m'.queue id=m.queue id := by
  cases id with
  | page pageId => simp only [TxnManager.queue,pageQueue,h.pageWriteWaitQueues]
  | table table => simp only [TxnManager.queue,tableQueue,h.tableWaitQueues]

/-- A granted lock takes the transaction from the front of its queue. -/
theorem PageGrant.queue {pageId : PageId} (h : PageGrant txnId pageId m m') (id : QueueId) :
    m'.queue id=if id=.page pageId then dequeueFront (m.queue id) txnId else m.queue id := by
  have hsame : m'.queue id=(m.dequeueFrontWaiter pageId txnId).queue id := by
    cases h <;> cases id <;> rfl
  rw [hsame,queue_dequeueFrontWaiter]

/-- Who gets a table lock leaves its queue. -/
theorem TableGrant.queue {table : String}
    {mode : TableLockMode} (h : TableGrant txnId table mode m m') (id : QueueId) :
    m'.queue id=if id=.table table then dequeueFront (m.queue id) txnId else m.queue id := by
  have hsame : m'.queue id=(m.dequeueTableWaiter table txnId).queue id := by
    cases h
    rw [tableGranted,upsertTableLock_eq]
    cases id <;> rfl
  rw [hsame,queue_dequeueTableWaiter]

/-- A writer that passes leaves the queues alone. -/
theorem PredicatePass.queue {table : String}
    {indexKeys : List (String × List Value)} (h : PredicatePass txnId table indexKeys m m')
    (id : QueueId) : m'.queue id=m.queue id := by
  cases h
  simp

end RustSql.V2.TxnManager
