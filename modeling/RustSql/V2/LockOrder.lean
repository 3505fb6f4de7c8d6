import RustSql.V2.LockConflicts

/-!
# Runs of the lock tables

Running transactions hold table locks that go together, a page has one owner at a
time, and whoever waits for a page or a table is served before those who came later.
A waiter that is aborted to break a deadlock loses its place, and in the same call
the place may go to somebody else.
-/

namespace RustSql.V2.TxnManager

variable {P : Type}

/-! ## Table locks along a run -/

/-- Nobody is started under the id of somebody who has left table locks. -/
def StartsClean (call : ManagerCall P) (m : TxnManager P) : Prop :=
  ∀ (txnId : TransactionId) (level : IsolationLevel), call=.beginWithId txnId level →
    ¬m.HasLock txnId .table

/-- What keeps table locks together: they agree, and their owners' ids have been
handed out. -/
structure TableLocksKept (m : TxnManager P) : Prop where
  registered : m.Registered
  known : ∀ lock∈m.tableLocks, lock.txnId < max m.nextTxnId 1
  compatible : m.TableLocksCompatible

variable {m m' m₁ : TxnManager P} {txnId waiter other holder : TransactionId} {table : String}
    {mode : TableLockMode} {pageId : PageId} {call : ManagerCall P} {calls : List (ManagerCall P)}
    {id : QueueId}

/-- A step after which there are no more table locks than before. -/
theorem TableLocksKept.of_fewer (h : m.TableLocksKept)
    (hregistered : m'.Registered) (hcounts : max m.nextTxnId 1 ≤ max m'.nextTxnId 1)
    (hlocks : ∀ lock∈m'.tableLocks, lock∈m.tableLocks)
    (hactive : ∀ lock∈m'.tableLocks, m'.Active lock.txnId → m.Active lock.txnId) :
    m'.TableLocksKept where
  registered := hregistered
  known lock hlock := (h.known lock (hlocks lock hlock)).trans_le hcounts
  compatible := h.compatible.of_fewer hlocks hactive

/-- A step that brings no lock. -/
theorem TableLocksKept.lockStep (h : m.TableLocksKept)
    (hstep : LockStep m m') (hlocks : ∀ lock∈m'.tableLocks, lock∈m.tableLocks) :
    m'.TableLocksKept :=
  h.of_fewer (hstep.registered h.registered) (by rw [hstep.nextTxnId]) hlocks
    fun _ _ => (hstep.txns _).active

/-- Waiting brings none. -/
theorem TableLocksKept.waits
    (h : m.TableLocksKept) (hwaits : Waits txnId m m') : m'.TableLocksKept := by
  induction hwaits with
  | refl => exact h
  | tail _ hmove ih => exact ih.lockStep hmove.steps hmove.tableLocks

/-- A granted lock goes with the others. -/
theorem TableLocksKept.tableGrant (h : m.TableLocksKept)
    (hgrant : TableGrant txnId table mode m m') :
    m'.TableLocksKept where
  registered := hgrant.steps.registered h.registered
  known lock hlock := by
    rw [hgrant.steps.nextTxnId]
    rcases hgrant.mem hlock with hold | rfl
    · exact h.known lock hold
    · exact ((hgrant.steps.txns _).active hgrant.active).known h.registered
  compatible := h.compatible.tableGrant hgrant

/-- A page leaves the table locks alone. -/
theorem PageGrant.tableLocks (h : PageGrant txnId pageId m m') : m'.tableLocks=m.tableLocks := by
  cases h with
  | grant hactive hfree hfront =>
    unfold pageGranted
    rw [dequeueFrontWaiter_eq]
    rfl
  | keep howner =>
    rw [dequeueFrontWaiter_eq]
    rfl

/-- So does a writer that passes. -/
theorem PredicatePass.tableLocks
    {indexKeys : List (String × List Value)} (h : PredicatePass txnId table indexKeys m m') :
    m'.tableLocks=m.tableLocks := by
  cases h
  rfl

/-- Every call keeps it. -/
theorem TableLocksKept.callStep
    (h : m.TableLocksKept) (hclean : StartsClean call m) (hstep : CallStep call m m') :
    m'.TableLocksKept := by
  cases hstep with
  | books hcall hbooks =>
    have hlocks := hbooks.sameLocks.tableLocks
    refine h.of_fewer (hbooks.registered h.registered) hbooks.counts
      (fun lock hlock => hlocks ▸ hlock) fun lock hlock hactive => ?_
    rw [hlocks] at hlock
    rcases hbooks.starts hactive with hbefore | hstarts
    · exact hbefore
    · cases call with
      | begin' level => exact absurd (h.known lock hlock) (by rw [hstarts]; exact lt_irrefl _)
      | beginWithId other level => exact absurd ⟨lock,hlock,hstarts.symm⟩ (hclean other level rfl)
      | _ => exact hstarts.elim
  | release hcall hrelease =>
    refine h.of_fewer ?_ (by rw [hrelease.nextTxnId]) (fun lock hlock => ?_)
      fun lock hlock hactive => ?_
    · constructor
      · intro txnId txn hget
        exact h.registered.keyed (by rw [← hrelease.txns]; exact hget)
      · intro txnId txn hget
        rw [hrelease.nextTxnId]
        exact h.registered.known (by rw [← hrelease.txns]; exact hget)
    · rw [hrelease.tableLocks] at hlock
      exact (List.mem_filter.mp hlock).1
    · obtain ⟨txn,hget,hruns⟩ := hactive
      exact ⟨txn,by rw [← hrelease.txns]; exact hget,hruns⟩
  | wait hwaits => exact h.waits hwaits
  | page hwaits hgrant =>
    exact (h.waits hwaits).lockStep hgrant.steps fun lock hlock => hgrant.tableLocks ▸ hlock
  | table hwaits hgrant => exact (h.waits hwaits).tableGrant hgrant
  | read hwaits hgrant =>
    exact ((h.waits hwaits).tableGrant hgrant).lockStep (LockStep.of_eq rfl rfl rfl rfl rfl)
      fun _ hlock => hlock
  | write hwaits hpass =>
    exact (h.waits hwaits).lockStep hpass.steps fun lock hlock => hpass.tableLocks ▸ hlock
  | record hcall hlevel =>
    exact h.lockStep (LockStep.of_eq rfl rfl rfl rfl rfl) fun _ hlock => hlock

/-- It holds at first. -/
theorem tableLocksKept_new (nextTxnId : ℕ) :
    (withNextTxnId nextTxnId : TxnManager P).TableLocksKept where
  registered := registered_new nextTxnId
  known _ hlock := by cases hlock
  compatible _ hlock := by cases hlock

/-- It holds in every run. -/
theorem tableLocksKept_of_runs {nextTxnId : ℕ}
    (hclean : Eff.Along ManagerCall.run StartsClean calls (withNextTxnId nextTxnId))
    (hruns : ManagerCall.runs nextTxnId calls=some m) : m.TableLocksKept := by
  refine Eff.Along.invariant (I := TableLocksKept) ?_ hclean (tableLocksKept_new nextTxnId) hruns
  intro call m₁ m₂ h hcall hreturns
  exact h.callStep hcall (callStep_of_returns hreturns)

/-! ## The order of the waiters -/

/-- Nobody stands in a queue twice. -/
def QueuesNodup (m : TxnManager P) : Prop := ∀ id : QueueId, (m.queue id).Nodup

/-- Waiting puts nobody in a queue twice. -/
theorem QueuesNodup.waitMove (h : m.QueuesNodup)
    (hmove : WaitMove txnId m m') : m'.QueuesNodup := by
  intro id
  cases hmove with
  | page pageId blockers hactive hother =>
    rw [queue_setPageWaitEdges,queue_enqueuePageWaiter]
    split
    · exact enqueue_nodup (h id) txnId
    · exact h id
  | table table blockers hactive =>
    rw [queue_setTableWaitEdges,queue_enqueueTableWaiter]
    split
    · exact enqueue_nodup (h id) txnId
    · exact h id
  | predicate waitKey blockers hactive =>
    rw [queue_setPredicateWaitEdges,queue_enqueuePredicateWaiter]
    exact h id
  | abortVictim victim hget message =>
    rw [queue_victimAborted]
    exact (h id).filter _

/-- However long. -/
theorem QueuesNodup.waits (h : m.QueuesNodup) (hwaits : Waits txnId m m') : m'.QueuesNodup := by
  induction hwaits with
  | refl => exact h
  | tail _ hmove ih => exact ih.waitMove hmove

/-- What a call does to one queue: some waiting, and then it may leave from the
front or, by a release, from any place. -/
theorem CallStep.queue {m m' : TxnManager P} {call : ManagerCall P} (h : CallStep call m m')
    (id : QueueId) : ∃ txnId m₁, Waits txnId m m₁ ∧ (m'.queue id=m₁.queue id ∨
      m'.queue id=dequeueFront (m₁.queue id) txnId ∨
      (m₁=m ∧ m'.queue id=(m.queue id).filter (·≠txnId))) := by
  have hgrant : ∀ {txnId : TransactionId} {m₁ : TxnManager P} {queue₁ : List TransactionId}
      {key : QueueId}, m₁.queue id=queue₁ →
      m'.queue id=(if id=key then dequeueFront queue₁ txnId else queue₁) →
      m'.queue id=m₁.queue id ∨ m'.queue id=dequeueFront (m₁.queue id) txnId := by
    intro txnId m₁ queue₁ key hqueue hafter
    split at hafter
    · exact Or.inr (hqueue ▸ hafter)
    · exact Or.inl (hqueue ▸ hafter)
  cases h with
  | books hcall hbooks => exact ⟨0,m,.refl,Or.inl (hbooks.sameLocks.queue id)⟩
  | release hcall hrelease =>
    exact ⟨_,m,.refl,Or.inr (Or.inr ⟨rfl,hrelease.queue id⟩)⟩
  | wait hwaits => exact ⟨_,m',hwaits,Or.inl rfl⟩
  | page hwaits hpage =>
    refine ⟨_,_,hwaits,?_⟩
    rcases hgrant rfl (hpage.queue id) with hsame | hleave
    · exact Or.inl hsame
    · exact Or.inr (Or.inl hleave)
  | table hwaits htable =>
    refine ⟨_,_,hwaits,?_⟩
    rcases hgrant rfl (htable.queue id) with hsame | hleave
    · exact Or.inl hsame
    · exact Or.inr (Or.inl hleave)
  | @read m₁ m₂ txnId table hwaits htable =>
    refine ⟨txnId,m₁,hwaits,?_⟩
    have hqueue : ({m₂ with predicateLocks := m₂.predicateLocks++[⟨txnId,table,none,.table⟩]} :
        TxnManager P).queue id=m₂.queue id := by cases id <;> rfl
    rcases hgrant rfl (hqueue.trans (htable.queue id)) with hsame | hleave
    · exact Or.inl hsame
    · exact Or.inr (Or.inl hleave)
  | write hwaits hpass => exact ⟨_,_,hwaits,Or.inl (hpass.queue id)⟩
  | record => exact ⟨0,m,.refl,Or.inl (by cases id <;> rfl)⟩

/-- Nor does any call. -/
theorem QueuesNodup.callStep (h : m.QueuesNodup) (hstep : CallStep call m m') : m'.QueuesNodup := by
  intro id
  obtain ⟨txnId,m₁,hwaits,hsame | hleave | ⟨-,hrelease⟩⟩ := hstep.queue id
  · rw [hsame]
    exact h.waits hwaits id
  · rw [hleave]
    exact dequeueFront_nodup (h.waits hwaits id) txnId
  · rw [hrelease]
    exact (h id).filter _

/-- Nor does a run. -/
theorem queuesNodup_of_runs {nextTxnId : ℕ}
    (hruns : ManagerCall.runs nextTxnId calls=some m) : m.QueuesNodup :=
  Eff.runs_invariant (I := QueuesNodup)
    (fun _ _ _ h hreturns => h.callStep (callStep_of_returns hreturns))
    (fun id => by cases id <;> simp [queue,pageQueue,tableQueue,withNextTxnId]) hruns

/-- While a request waits, whoever is ahead stays ahead, or is a victim and loses
its place. -/
theorem Ahead.waits (h : Ahead (m.queue id) waiter other) (hwaits : Waits txnId m m') :
    Ahead (m'.queue id) waiter other ∨ (waiter∉m'.queue id ∧ ¬m'.Active waiter) := by
  induction hwaits with
  | refl => exact Or.inl h
  | @tail m₁ m₂ _ hmove ih =>
    rcases ih with hahead | ⟨hout,hended⟩
    · cases hmove with
      | page pageId blockers hactive hother =>
        rw [queue_setPageWaitEdges,queue_enqueuePageWaiter]
        split
        · exact Or.inl (hahead.enqueue txnId)
        · exact Or.inl hahead
      | table table blockers hactive =>
        rw [queue_setTableWaitEdges,queue_enqueueTableWaiter]
        split
        · exact Or.inl (hahead.enqueue txnId)
        · exact Or.inl hahead
      | predicate waitKey blockers hactive =>
        rw [queue_setPredicateWaitEdges,queue_enqueuePredicateWaiter]
        exact Or.inl hahead
      | @abortVictim victim txn hget message =>
        rw [queue_victimAborted]
        by_cases heq : waiter=victim
        · subst heq
          exact Or.inr ⟨by simp,not_active_victimAborted _ _ _ message⟩
        · exact Or.inl (hahead.filter heq)
    · have hended' : ¬m₂.Active waiter := fun hactive => hended ((hmove.steps.txns _).active hactive)
      refine Or.inr ⟨?_,hended'⟩
      cases hmove with
      | page pageId blockers hactive hother =>
        rw [queue_setPageWaitEdges,queue_enqueuePageWaiter]
        split
        · exact not_mem_enqueue hout fun heq => hended (heq ▸ hactive)
        · exact hout
      | table table blockers hactive =>
        rw [queue_setTableWaitEdges,queue_enqueueTableWaiter]
        split
        · exact not_mem_enqueue hout fun heq => hended (heq ▸ hactive)
        · exact hout
      | predicate waitKey blockers hactive =>
        rw [queue_setPredicateWaitEdges,queue_enqueuePredicateWaiter]
        exact hout
      | abortVictim victim hget message =>
        rw [queue_victimAborted]
        exact fun hmem => hout (List.mem_filter.mp hmem).1

/-- Every call: whoever is ahead stays ahead, or does not wait any more. -/
theorem Ahead.callStep (h : Ahead (m.queue id) waiter other) (hnodup : m.QueuesNodup)
    (hstep : CallStep call m m') (hstays : waiter∈m'.queue id) :
    Ahead (m'.queue id) waiter other := by
  obtain ⟨txnId,m₁,hwaits,hqueue⟩ := hstep.queue id
  rcases h.waits hwaits with hahead | ⟨hout,-⟩
  · rcases hqueue with hsame | hleave | ⟨-,hrelease⟩
    · rw [hsame]
      exact hahead
    · rw [hleave] at hstays ⊢
      exact hahead.dequeueFront (hnodup.waits hwaits id) hstays
    · rw [hrelease] at hstays ⊢
      exact h.filter (by simpa using (List.mem_filter.mp hstays).2)
  · rcases hqueue with hsame | hleave | ⟨rfl,-⟩
    · exact absurd (hsame ▸ hstays) hout
    · exact absurd (dequeueFront_subset (hleave ▸ hstays)) hout
    · exact absurd h.mem hout

/-- The order of two waiters along a run in which the first one keeps waiting. -/
theorem ahead_of_runs (hnodup : m.QueuesNodup) (hahead : Ahead (m.queue id) waiter other)
    (hstays : Eff.Along ManagerCall.run (fun _ s => waiter∈s.queue id) calls m)
    (hruns : Eff.runs ManagerCall.run calls m=some m') (hwaits : waiter∈m'.queue id) :
    Ahead (m'.queue id) waiter other := by
  induction calls generalizing m with
  | nil =>
    obtain rfl := Option.some.inj hruns
    exact hahead
  | cons call calls ih =>
    rw [Eff.runs] at hruns
    obtain ⟨m₁,hreturns,hrest⟩ := Option.bind_eq_some_iff.mp hruns
    have hstep := callStep_of_returns hreturns
    have hstays₁ := hstays.2 m₁ hreturns
    have hmem : waiter∈m₁.queue id := by
      cases calls with
      | nil =>
        obtain rfl := Option.some.inj hrest
        exact hwaits
      | cons => exact hstays₁.1
    exact ih (hnodup.callStep hstep) (hahead.callStep hnodup hstep hmem) hstays₁ hrest

/-! ## Grants -/

/-- The transaction has got the lock of a queue that it did not have. -/
def Granted (m m' : TxnManager P) (txnId : TransactionId) : QueueId → Prop
  | .page pageId => m'.pageWriteOwners[pageId]?=some txnId ∧ m.pageWriteOwners[pageId]?≠some txnId
  | .table table => ∃ lock∈m'.tableLocks, lock.txnId=txnId ∧ lock.table=table ∧ lock∉m.tableLocks

/-- Waiting gives nobody a page. -/
theorem WaitMove.owner
    (h : WaitMove txnId m m') (howner : m'.pageWriteOwners[pageId]?=some holder) :
    m.pageWriteOwners[pageId]?=some holder := by
  cases h with
  | page | table | predicate => exact howner
  | abortVictim victim hget message =>
    rw [victimAborted,(released_spec _ victim).pageWriteOwners,
      Std.ExtTreeMap.getElem?_filter'] at howner
    exact (Option.filter_eq_some_iff.mp howner).1

/-- Who waits has not been granted the lock. -/
theorem Waits.not_granted (h : Waits txnId m m') (id : QueueId) : ¬Granted m m' holder id := by
  cases id with
  | page pageId =>
    rintro ⟨howner,hnew⟩
    refine hnew ?_
    clear hnew
    induction h with
    | refl => exact howner
    | tail _ hmove ih => exact ih (hmove.owner howner)
  | table table =>
    rintro ⟨lock,hlock,-,-,hnew⟩
    refine hnew ?_
    clear hnew
    induction h with
    | refl => exact hlock
    | tail _ hmove ih => exact ih (hmove.tableLocks lock hlock)

/-- A step that leaves page owners and table locks grants nothing. -/
theorem not_granted_of_eq
    (hwaits : Waits txnId m m₁) (hpage : m'.pageWriteOwners=m₁.pageWriteOwners)
    (htable : m'.tableLocks=m₁.tableLocks) (id : QueueId) : ¬Granted m m' holder id := by
  intro hgranted
  have hno : ¬Granted m m₁ holder id := hwaits.not_granted id
  refine hno ?_
  cases id with
  | page pageId => exact ⟨hpage ▸ hgranted.1,hgranted.2⟩
  | table table =>
    obtain ⟨lock,hlock,hfacts⟩ := hgranted
    exact ⟨lock,htable ▸ hlock,hfacts⟩

/-- A page lock goes to the caller, who may pass. -/
theorem PageGrant.granted (hwaits : Waits txnId m m₁)
    (h : PageGrant txnId pageId m₁ m') (hgranted : Granted m m' holder id) :
    holder=txnId ∧ MayPass (m₁.queue id) txnId := by
  have htable := h.tableLocks
  cases h with
  | keep howner =>
    refine absurd hgranted (not_granted_of_eq hwaits ?_ htable id)
    rw [dequeueFrontWaiter_eq]
    rfl
  | grant hactive hfree hfront =>
    have howners : (m₁.pageGranted txnId pageId).pageWriteOwners=
        m₁.pageWriteOwners.insert pageId txnId := by
      unfold pageGranted
      rw [dequeueFrontWaiter_eq]
      rfl
    cases id with
    | table table =>
      refine absurd hgranted fun ⟨lock,hlock,hfacts⟩ => ?_
      exact hwaits.not_granted (.table table) ⟨lock,htable ▸ hlock,hfacts⟩
    | page other =>
      obtain ⟨howner,hnew⟩ := hgranted
      rw [howners,Std.ExtTreeMap.getElem?_insert] at howner
      split at howner
      · next heq =>
        obtain rfl := Std.LawfulEqCmp.eq_of_compare heq
        exact ⟨(Option.some.inj howner).symm,hfront⟩
      · have hno : ¬Granted m m₁ holder (.page other) := hwaits.not_granted (.page other)
        exact absurd ⟨howner,hnew⟩ hno

/-- A table lock goes to the caller, who may pass. -/
theorem TableGrant.granted (hwaits : Waits txnId m m₁)
    (h : TableGrant txnId table mode m₁ m') (hgranted : Granted m m' holder id) :
    holder=txnId ∧ MayPass (m₁.queue id) txnId := by
  have hmem : ∀ lock∈m'.tableLocks, lock∈m₁.tableLocks ∨ lock=⟨txnId,table,mode⟩ :=
    fun _ hlock => h.mem hlock
  cases h with
  | grant hactive hfree hfront =>
    cases id with
    | page pageId =>
      refine absurd hgranted fun ⟨howner,hnew⟩ => ?_
      rw [tableGranted,upsertTableLock_eq,dequeueTableWaiter_eq] at howner
      exact hwaits.not_granted (.page pageId) ⟨howner,hnew⟩
    | table other =>
      obtain ⟨lock,hlock,rfl,rfl,hnew⟩ := hgranted
      rcases hmem lock hlock with hold | rfl
      · exact absurd ⟨lock,hold,rfl,rfl,hnew⟩ (hwaits.not_granted (.table lock.table))
      · exact ⟨rfl,hfront⟩

/-- A grant passes nobody who waits and runs. -/
theorem CallStep.granted_in_order (hstep : CallStep call m m')
    (hahead : Ahead (m.queue id) waiter other) (hgranted : Granted m m' other id) :
    waiter∉m'.queue id ∧ ¬m'.Active waiter := by
  -- Whoever was ahead when the lock was given has been aborted by then.
  have hpassed : ∀ {m₁ : TxnManager P}, Waits other m m₁ → MayPass (m₁.queue id) other →
      LockStep m₁ m' → (∀ t∈m'.queue id, t∈m₁.queue id) →
        waiter∉m'.queue id ∧ ¬m'.Active waiter := by
    intro m₁ hwaits hpass hlock hqueue
    rcases hahead.waits hwaits with hstill | ⟨hout,hended⟩
    · exact absurd hpass hstill.not_mayPass
    · constructor
      · exact fun hmem => hout (hqueue waiter hmem)
      · exact fun hactive => hended ((hlock.txns waiter).active hactive)
  have hsubset : ∀ {txnId : TransactionId} {m₁ : TxnManager P} {key : QueueId},
      m'.queue id=(if id=key then dequeueFront (m₁.queue id) txnId else m₁.queue id) →
        ∀ t∈m'.queue id, t∈m₁.queue id := by
    intro txnId m₁ key hqueue t ht
    rw [hqueue] at ht
    split at ht
    · exact dequeueFront_subset ht
    · exact ht
  cases hstep with
  | books hcall hbooks =>
    exact absurd hgranted (not_granted_of_eq (.refl : Waits 0 m m) hbooks.sameLocks.pageWriteOwners
      hbooks.sameLocks.tableLocks id)
  | release hcall hrelease =>
    refine absurd hgranted ?_
    cases id with
    | page pageId =>
      rintro ⟨howner,hnew⟩
      rw [hrelease.pageWriteOwners,Std.ExtTreeMap.getElem?_filter'] at howner
      exact hnew (Option.filter_eq_some_iff.mp howner).1
    | table table =>
      rintro ⟨lock,hlock,-,-,hnew⟩
      rw [hrelease.tableLocks] at hlock
      exact hnew (List.mem_filter.mp hlock).1
  | wait hwaits => exact absurd hgranted (hwaits.not_granted id)
  | page hwaits hpage =>
    obtain ⟨rfl,hpass⟩ := hpage.granted hwaits hgranted
    exact hpassed hwaits hpass hpage.steps (hsubset (hpage.queue id))
  | table hwaits htable =>
    obtain ⟨rfl,hpass⟩ := htable.granted hwaits hgranted
    exact hpassed hwaits hpass htable.steps (hsubset (htable.queue id))
  | @read m₁ m₂ txnId table hwaits htable =>
    have hqueue : ({m₂ with predicateLocks := m₂.predicateLocks++[⟨txnId,table,none,.table⟩]} :
        TxnManager P).queue id=m₂.queue id := by cases id <;> rfl
    have hgranted : Granted m m₂ other id := by cases id <;> exact hgranted
    obtain ⟨rfl,hpass⟩ := htable.granted hwaits hgranted
    exact hpassed hwaits hpass (htable.steps.trans (LockStep.of_eq rfl rfl rfl rfl rfl))
      (hsubset (hqueue.trans (htable.queue id)))
  | write hwaits hpass =>
    refine absurd hgranted (not_granted_of_eq hwaits ?_ hpass.tableLocks id)
    cases hpass
    rfl
  | record =>
    exact absurd hgranted (not_granted_of_eq (.refl : Waits 0 m m) rfl rfl id)

/-- A page goes from one owner to another within a call only when the first one
has been aborted. -/
theorem CallStep.page_owner {owner other : TransactionId} (hstep : CallStep call m m')
    (hbefore : m.pageWriteOwners[pageId]?=some owner)
    (hafter : m'.pageWriteOwners[pageId]?=some other) (hne : other≠owner) :
    ¬m'.Active owner := by
  have hlock : LockStep m m' → ¬m'.Active owner := by
    intro h
    rcases h.owners hbefore with hstill | hended
    · rw [hafter] at hstill
      exact absurd (Option.some.inj hstill) hne
    · exact hended
  cases hstep with
  | books hcall hbooks =>
    rw [hbooks.sameLocks.pageWriteOwners,hbefore] at hafter
    exact absurd (Option.some.inj hafter).symm hne
  | release hcall hrelease =>
    rw [hrelease.pageWriteOwners,Std.ExtTreeMap.getElem?_filter'] at hafter
    have hsame := (Option.filter_eq_some_iff.mp hafter).1
    rw [hbefore] at hsame
    exact absurd (Option.some.inj hsame).symm hne
  | wait hwaits => exact hlock hwaits.steps
  | page hwaits hgrant => exact hlock (hwaits.steps.trans hgrant.steps)
  | table hwaits hgrant => exact hlock (hwaits.steps.trans hgrant.steps)
  | read hwaits hgrant =>
    exact hlock ((hwaits.steps.trans hgrant.steps).trans (LockStep.of_eq rfl rfl rfl rfl rfl))
  | write hwaits hpass => exact hlock (hwaits.steps.trans hpass.steps)
  | record => exact hlock (LockStep.of_eq rfl rfl rfl rfl rfl)

/-- A free page goes to a running transaction with nobody before it. -/
theorem acquirePageWrite_front (hactive : m.Active txnId) (hfree : m.pageWriteOwners[pageId]?=none)
    (hfront : MayPass (m.pageQueue pageId) txnId) :
    acquirePageWrite txnId pageId m=(.ok (),m.pageGranted txnId pageId) := by
  have hfront : ((m.pageWriteWaitQueues[pageId]?).getD []).head?.filter (·≠txnId)=none := hfront
  simp only [acquirePageWrite,acquirePageWriteFrom,Eff.bind_eq,Eff.get_eq,hfree,Eff.reads,
    ensureActive_of_active hactive,hfront,Eff.modify_eq]
  rfl

/-- A table lock that agrees with the running owners goes to a running transaction
with nobody before it. -/
theorem acquireTableLock_front (hactive : m.Active txnId)
    (hfree : m.conflictingTableLockTxns txnId table mode=.ok ∅)
    (hfront : MayPass (m.tableQueue table) txnId) :
    acquireTableLock txnId table mode m=(.ok (),m.tableGranted txnId table mode) := by
  have hfront : ((m.tableWaitQueues[table]?).getD []).head?.filter (·≠txnId)=none := hfront
  simp only [acquireTableLock,acquireTableLockFrom,Eff.bind_eq,Eff.get_eq,Eff.reads,
    ensureActive_of_active hactive,hfree,if_true,hfront,Eff.modify_eq]
  rfl

/-- In every run of the manager, ending with `m`: running transactions hold table
locks that go together, unless an id that has left locks is used again; owners run,
unless somebody is ended before its locks are released; a page changes hands only
when its owner has released it or was aborted; who waits is passed by nobody who
came later, unless it is aborted by that very call; and who is first gets the lock
it asks for when it is free. -/
theorem locks_of_run {nextTxnId : ℕ} {calls : List (ManagerCall P)} {m : TxnManager P}
    (hruns : ManagerCall.runs nextTxnId calls=some m) :
    (Eff.Along ManagerCall.run StartsClean calls (withNextTxnId nextTxnId) →
      m.TableLocksCompatible) ∧
    (∀ kind : LockKind, kind≠.predicate →
      Eff.Along ManagerCall.run (OwnersCare kind) calls (withNextTxnId nextTxnId) →
      m.OwnersActive kind) ∧
    (∀ (call : ManagerCall P) (m' : TxnManager P) (pageId : PageId)
      (owner other : TransactionId), Eff.returns call.run m=some m' →
      m.pageWriteOwners[pageId]?=some owner → m'.pageWriteOwners[pageId]?=some other →
      other≠owner → ¬m'.Active owner) ∧
    (∀ (id : QueueId) (waiter other : TransactionId), waiter∈m.queue id → other∉m.queue id →
      ∀ (later : List (ManagerCall P)) (m₁ m₂ : TxnManager P) (call : ManagerCall P),
      Eff.Along ManagerCall.run (fun _ s => waiter∈s.queue id) later m →
      Eff.runs ManagerCall.run later m=some m₁ → waiter∈m₁.queue id →
      Eff.returns call.run m₁=some m₂ → Granted m₁ m₂ other id →
      waiter∉m₂.queue id ∧ ¬m₂.Active waiter) ∧
    (∀ (txnId : TransactionId) (pageId : PageId), m.Active txnId →
      m.pageWriteOwners[pageId]?=none → MayPass (m.pageQueue pageId) txnId →
      (acquirePageWrite txnId pageId m).1=.ok ()) ∧
    (∀ (txnId : TransactionId) (table : String) (mode : TableLockMode), m.Active txnId →
      m.conflictingTableLockTxns txnId table mode=.ok ∅ → MayPass (m.tableQueue table) txnId →
      (acquireTableLock txnId table mode m).1=.ok ()) := by
  have hnodup := queuesNodup_of_runs hruns
  refine ⟨fun hclean => ?_,fun kind _ hcare => ownersActive_of_runs hcare hruns,
    fun call m' pageId owner other hreturns hbefore hafter hne =>
      (callStep_of_returns hreturns).page_owner hbefore hafter hne,?_,
    fun txnId pageId hactive hfree hfront => by
      rw [acquirePageWrite_front hactive hfree hfront],
    fun txnId table mode hactive hfree hfront => by
      rw [acquireTableLock_front hactive hfree hfront]⟩
  · exact (tableLocksKept_of_runs hclean hruns).compatible
  · intro id waiter other hwaiter hother later m₁ m₂ call hstays hlater hwaits hreturns hgranted
    -- While the waiter waits, the other one can only come in behind it.
    have hahead : Ahead (m₁.queue id) waiter other :=
      ahead_of_runs hnodup (ahead_of_not_mem hwaiter hother) hstays hlater hwaits
    exact (callStep_of_returns hreturns).granted_in_order hahead hgranted

/-- Two transactions want one page: the second one waits until the first one lets it go. -/
def sharedPageRun : List (ManagerCall Unit) :=
  [.begin' .readCommitted,.begin' .readCommitted,.acquirePageWrite 1 7,.acquirePageWrite 2 7,
    .releaseTransactionResources 1,.commit 1]

/-- Every call of this run returns. -/
theorem sharedPageRun_returns : (ManagerCall.runs 1 sharedPageRun).isSome := by
  decide +kernel

/-! ## Waiters, an end and a deadlock -/

/-- Who is ended or started owns no table or page lock. -/
def tidyTest (call : ManagerCall Unit) (m : TxnManager Unit) : Bool :=
  match call with
  | .commit txnId | .finalizeCommit txnId _ | .abort txnId | .beginWithId txnId _ =>
    m.tableLocks.all (·.txnId≠txnId) && m.pageWriteOwners.toList.all (·.2≠txnId)
  | _ => true

/-- Who passes the test has no lock. -/
theorem noLock_of_test {m : TxnManager Unit} {txnId : TransactionId}
    (h : (m.tableLocks.all (·.txnId≠txnId) && m.pageWriteOwners.toList.all (·.2≠txnId))=true)
    {kind : LockKind} (hkind : kind≠.predicate) : ¬m.HasLock txnId kind := by
  rw [Bool.and_eq_true,List.all_eq_true,List.all_eq_true] at h
  cases kind with
  | predicate => exact absurd rfl hkind
  | table =>
    rintro ⟨lock,hlock,rfl⟩
    simpa using h.1 lock hlock
  | page =>
    rintro ⟨pageId,howner⟩
    simpa using h.2 (pageId,txnId) (Std.ExtTreeMap.mem_toList_iff_getElem?_eq_some.mpr howner)

/-- Such calls take care of the owners. -/
theorem ownersCare_of_test {call : ManagerCall Unit} {m : TxnManager Unit}
    (h : tidyTest call m) {kind : LockKind} (hkind : kind≠.predicate) : OwnersCare kind call m where
  released txnId hends := by
    cases call <;> first | exact hends.elim | (cases hends; exact noLock_of_test h hkind)
  running _ hpredicate := absurd hpredicate hkind

/-- Such calls start clean. -/
theorem startsClean_of_test {call : ManagerCall Unit} {m : TxnManager Unit}
    (h : tidyTest call m) : StartsClean call m := by
  rintro txnId level rfl
  exact noLock_of_test h fun hkind => nomatch hkind

/-- Transactions 1 and 3 write to one table and to a page each, and 2 waits for the
page of 1. -/
def waitingRun : List (ManagerCall Unit) :=
  [.begin' .readCommitted,.begin' .readCommitted,.begin' .readCommitted,
    .acquireTableLock 1 "t" .intentionWrite,.acquireTableLock 3 "t" .intentionWrite,
    .acquirePageWrite 1 7,.acquirePageWrite 3 8,.acquirePageWrite 2 7]

/-- The manager when 2 waits. -/
@[irreducible] def waitingManager : TxnManager Unit :=
  (ManagerCall.runs 1 waitingRun).getD (withNextTxnId 1)

/-- Transaction 2 waits for the page of 3 as well, and 1 ends. -/
def releasingRun : List (ManagerCall Unit) :=
  [.acquirePageWrite 2 8,.releaseTransactionResources 1,.commit 1]

/-- The manager when the page of 1 is free. -/
@[irreducible] def releasedManager : TxnManager Unit :=
  (Eff.runs ManagerCall.run releasingRun waitingManager).getD waitingManager

/-- The manager after 3 asked for that page: 2, who stood before it, has been aborted. -/
@[irreducible] def passedManager : TxnManager Unit :=
  (Eff.returns (ManagerCall.acquirePageWrite 3 7).run releasedManager).getD releasedManager

/-- Transactions 1 and 2 own a page each, and 2 waits for the one of 1. -/
def swapRun : List (ManagerCall Unit) :=
  [.begin' .readCommitted,.begin' .readCommitted,.acquirePageWrite 1 7,.acquirePageWrite 2 8,
    .acquirePageWrite 2 7]

/-- The manager when 2 waits for 1. -/
@[irreducible] def swapManager : TxnManager Unit :=
  (ManagerCall.runs 1 swapRun).getD (withNextTxnId 1)

/-- The manager after 1 asked for the page of 2. -/
@[irreducible] def swappedManager : TxnManager Unit :=
  (Eff.returns (ManagerCall.acquirePageWrite 1 8).run swapManager).getD swapManager

/-- Everything the run theorem says, on runs with waiters: the table locks of a run with
an end go together and all owners are active; the waiter that another one passes has been
aborted, and so has the owner whose page goes to somebody else; who stands at the front
gets the page, and a table lock nobody is in the way of is granted. -/
theorem locks_of_run_waiters :
    ManagerCall.runs 1 (waitingRun++releasingRun)=some releasedManager ∧
    ManagerCall.runs 1 swapRun=some swapManager ∧
    releasedManager.TableLocksCompatible ∧ releasedManager.OwnersActive .table ∧
    releasedManager.OwnersActive .page ∧
    (swapManager.pageWriteOwners[8]?=some 2 ∧ swappedManager.pageWriteOwners[8]?=some 1 ∧
      ¬swappedManager.Active 2) ∧
    (2∈waitingManager.queue (.page 7) ∧ Granted releasedManager passedManager 3 (.page 7) ∧
      2∉passedManager.queue (.page 7) ∧ ¬passedManager.Active 2) ∧
    (releasedManager.queue (.page 7)=[2] ∧ (acquirePageWrite 2 7 releasedManager).1=.ok ()) ∧
    (acquireTableLock 3 "t" .exclusive releasedManager).1=.ok () := by
  have hwaiting : ManagerCall.runs 1 waitingRun=some waitingManager := by
    rw [waitingManager]
    exact (Option.getD_of_ne_none (by decide +kernel) _).symm
  have hreleased : Eff.runs ManagerCall.run releasingRun waitingManager=some releasedManager := by
    rw [releasedManager]
    exact (Option.getD_of_ne_none (by decide +kernel) _).symm
  have hpassing : Eff.returns (ManagerCall.acquirePageWrite 3 7).run releasedManager=
      some passedManager := by
    rw [passedManager]
    exact (Option.getD_of_ne_none (by decide +kernel) _).symm
  have hswap : ManagerCall.runs 1 swapRun=some swapManager := by
    rw [swapManager]
    exact (Option.getD_of_ne_none (by decide +kernel) _).symm
  have hswaps : Eff.returns (ManagerCall.acquirePageWrite 1 8).run swapManager=
      some swappedManager := by
    rw [swappedManager]
    exact (Option.getD_of_ne_none (by decide +kernel) _).symm
  have hruns : ManagerCall.runs 1 (waitingRun++releasingRun)=some releasedManager := by
    rw [ManagerCall.runs,Eff.runs_append,← ManagerCall.runs,hwaiting]
    exact hreleased
  have hclean : Eff.Along ManagerCall.run StartsClean (waitingRun++releasingRun)
      (withNextTxnId 1) :=
    Eff.Along.of_test (fun _ _ => startsClean_of_test) (by decide +kernel)
  have hcare : ∀ kind : LockKind, kind≠.predicate → Eff.Along ManagerCall.run (OwnersCare kind)
      (waitingRun++releasingRun) (withNextTxnId 1) := fun kind hkind =>
    Eff.Along.of_test (fun _ _ h => ownersCare_of_test h hkind) (by decide +kernel)
  have hwaiter : 2∈waitingManager.queue (.page 7) := by decide +kernel
  have hgranted : Granted releasedManager passedManager 3 (.page 7) :=
    ⟨by decide +kernel,by decide +kernel⟩
  have hstays : Eff.Along ManagerCall.run (fun _ s => 2∈s.queue (.page 7)) releasingRun
      waitingManager :=
    Eff.Along.of_test (fun _ _ => of_decide_eq_true) (by decide +kernel)
  have hactive : releasedManager.Active 2 ∧ releasedManager.Active 3 :=
    ⟨Option.map_eq_some_iff.mp (by decide +kernel),Option.map_eq_some_iff.mp (by decide +kernel)⟩
  obtain ⟨hcompatible,howners,-,-,hpage,htable⟩ := locks_of_run hruns
  have hpassed := (locks_of_run hwaiting).2.2.2.1 (.page 7) 2 3 hwaiter (by decide +kernel)
    releasingRun releasedManager passedManager (.acquirePageWrite 3 7) hstays hreleased
    (by decide +kernel) hpassing hgranted
  have howned : swapManager.pageWriteOwners[8]?=some 2 ∧
      swappedManager.pageWriteOwners[8]?=some 1 := by decide +kernel
  have hswapped := (locks_of_run hswap).2.2.1 (.acquirePageWrite 1 8) swappedManager 8 2 1 hswaps
    howned.1 howned.2 (by decide)
  exact ⟨hruns,hswap,hcompatible hclean,howners .table (fun h => nomatch h) (hcare .table fun h => nomatch h),
    howners .page (fun h => nomatch h) (hcare .page fun h => nomatch h),
    ⟨howned.1,howned.2,hswapped⟩,⟨hwaiter,hgranted,hpassed⟩,
    ⟨by decide +kernel,hpage 2 7 hactive.1 (by decide +kernel) (by decide +kernel)⟩,
    htable 3 "t" .exclusive hactive.2 (by decide +kernel) (by decide +kernel)⟩

/-- A transaction ends with a page lock; and the id of one that ended with a table
lock is used again, when the table has another owner. -/
theorem locks_left_behind :
    (∃ m, ManagerCall.runs 1 ([.begin' .readCommitted,.acquirePageWrite 1 7,.commit 1] :
        List (ManagerCall Unit))=some m ∧ m.pageWriteOwners[7]?=some 1 ∧ ¬m.Active 1) ∧
    ∃ m, ManagerCall.runs 1 ([.begin' .readCommitted,.acquireTableLock 1 "t" .exclusive,
        .commit 1,.begin' .readCommitted,.acquireTableLock 2 "t" .exclusive,
        .purgeFinishedTransactionsUpTo 9,.beginWithId 1 .readCommitted] :
        List (ManagerCall Unit))=some m ∧
      ⟨1,"t",.exclusive⟩∈m.tableLocks ∧ ⟨2,"t",.exclusive⟩∈m.tableLocks ∧
      m.Active 1 ∧ m.Active 2 := by
  constructor
  · have hrun : (ManagerCall.runs 1 ([.begin' .readCommitted,.acquirePageWrite 1 7,.commit 1] :
        List (ManagerCall Unit))).map (fun m =>
          (m.pageWriteOwners[7]?,m.txns[1]?.map TxnState.status))=
        some (some 1,some .committed) := by
      decide +kernel
    obtain ⟨m,hm,hfacts⟩ := Option.map_eq_some_iff.mp hrun
    obtain ⟨howner,hstatus⟩ := Prod.mk.inj hfacts
    refine ⟨m,hm,howner,fun ⟨txn,hget,hactive⟩ => ?_⟩
    rw [hget,Option.map_some,hactive] at hstatus
    cases hstatus
  · have hrun : (ManagerCall.runs 1 ([.begin' .readCommitted,.acquireTableLock 1 "t" .exclusive,
        .commit 1,.begin' .readCommitted,.acquireTableLock 2 "t" .exclusive,
        .purgeFinishedTransactionsUpTo 9,.beginWithId 1 .readCommitted] :
        List (ManagerCall Unit))).map (fun m =>
          (m.tableLocks,m.txns[1]?.map TxnState.status,m.txns[2]?.map TxnState.status))=
        some ([⟨1,"t",.exclusive⟩,⟨2,"t",.exclusive⟩],some .active,some .active) := by
      decide +kernel
    obtain ⟨m,hm,hfacts⟩ := Option.map_eq_some_iff.mp hrun
    simp only [Prod.mk.injEq] at hfacts
    obtain ⟨hlocks,hfirst,hsecond⟩ := hfacts
    obtain ⟨txn,hget,hactive⟩ := Option.map_eq_some_iff.mp hfirst
    obtain ⟨txn',hget',hactive'⟩ := Option.map_eq_some_iff.mp hsecond
    exact ⟨m,hm,by simp [hlocks],by simp [hlocks],⟨txn,hget,hactive⟩,⟨txn',hget',hactive'⟩⟩

end RustSql.V2.TxnManager
