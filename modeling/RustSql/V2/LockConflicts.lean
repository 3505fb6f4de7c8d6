import RustSql.V2.LockOwners

/-!
# Which locks stand in the way

A request asks for the running owners of conflicting locks. Owners that have ended
are passed over, but one the manager has forgotten is an error. For predicate locks
this is where a lock of somebody who had already ended comes back.
-/

namespace RustSql.V2.TxnManager

variable {P : Type}

variable {m m' : TxnManager P} {owners : List TransactionId} {blockers : Finset TransactionId}
    {txnId : TransactionId} {table : String} {mode : TableLockMode}
    {indexKeys : List (String × List Value)}

/-- One owner after the other: the running ones are collected. -/
theorem conflictingTxns_fold {found blockers : Finset TransactionId}
    (h : owners.foldlM (fun blockers owner => do
      let txn ← m.get owner
      if txn.status=.active then .ok (insert owner blockers) else .ok blockers) found=
        (.ok blockers : Except DbError (Finset TransactionId))) (txnId : TransactionId) :
    txnId∈blockers ↔ txnId∈found ∨ txnId∈owners ∧ m.Active txnId := by
  induction owners generalizing found with
  | nil =>
    obtain rfl := Except.ok.inj h
    simp
  | cons owner owners ih =>
    rw [List.foldlM_cons] at h
    obtain ⟨next,hnext,hrest⟩ := except_bind_ok h
    obtain ⟨txn,hget,hnext⟩ := except_bind_ok hnext
    have hget := get_ok hget
    rw [ih hrest]
    simp only [List.mem_cons]
    split at hnext
    · next hactive =>
      obtain rfl := Except.ok.inj hnext
      have hruns : m.Active owner := ⟨txn,hget,hactive⟩
      rw [Finset.mem_insert]
      constructor
      · rintro ((rfl | hfound) | ⟨hmem,hother⟩)
        · exact Or.inr ⟨Or.inl rfl,hruns⟩
        · exact Or.inl hfound
        · exact Or.inr ⟨Or.inr hmem,hother⟩
      · rintro (hfound | ⟨rfl | hmem,hother⟩)
        · exact Or.inl (Or.inr hfound)
        · exact Or.inl (Or.inl rfl)
        · exact Or.inr ⟨hmem,hother⟩
    · next hactive =>
      obtain rfl := Except.ok.inj hnext
      have hended : ¬m.Active owner := fun ⟨other,hother,hruns⟩ => by
        rw [hget] at hother
        obtain rfl := Option.some.inj hother
        exact hactive hruns
      constructor
      · rintro (hfound | ⟨hmem,hother⟩)
        · exact Or.inl hfound
        · exact Or.inr ⟨Or.inr hmem,hother⟩
      · rintro (hfound | ⟨rfl | hmem,hother⟩)
        · exact Or.inl hfound
        · exact absurd hother hended
        · exact Or.inr ⟨hmem,hother⟩

/-- What the lookup returns are the owners that run. -/
theorem conflictingTxns_ok (h : m.conflictingTxns owners=.ok blockers)
    (txnId : TransactionId) : txnId∈blockers ↔ txnId∈owners ∧ m.Active txnId := by
  rw [conflictingTxns_fold h]
  simp

/-- The lookup returns when every owner is on file, and only then. -/
theorem conflictingTxns_total :
    (∃ blockers, m.conflictingTxns owners=.ok blockers) ↔ ∀ owner∈owners, m.Knows owner := by
  unfold conflictingTxns
  generalize (∅ : Finset TransactionId)=found
  induction owners generalizing found with
  | nil =>
    constructor
    · exact fun _ _ h => nomatch h
    · exact fun _ => ⟨found,rfl⟩
  | cons owner owners ih =>
    rw [List.foldlM_cons]
    constructor
    · rintro ⟨blockers,h⟩
      obtain ⟨next,hnext,hrest⟩ := except_bind_ok h
      obtain ⟨txn,hget,-⟩ := except_bind_ok hnext
      intro other hother
      rcases List.mem_cons.mp hother with rfl | hother
      · exact ⟨txn,get_ok hget⟩
      · exact (ih next).mp ⟨blockers,hrest⟩ other hother
    · intro h
      obtain ⟨txn,hget⟩ := get_of_knows (h owner List.mem_cons_self)
      have hstep : ∃ next, (do
          let txn ← m.get owner
          if txn.status=.active then .ok (insert owner found) else .ok found :
            Except DbError (Finset TransactionId))=.ok next := by
        rw [hget]
        by_cases hactive : txn.status=.active
        · exact ⟨_,if_pos hactive⟩
        · exact ⟨_,if_neg hactive⟩
      obtain ⟨next,hnext⟩ := hstep
      obtain ⟨blockers,hrest⟩ := (ih next).mpr fun other hother =>
        h other (List.mem_cons_of_mem owner hother)
      refine ⟨blockers,?_⟩
      rw [hnext]
      exact hrest

/-- Looking up all owners and then the ones in the way: both return when all owners
are on file, and only then. -/
theorem lookups_total {β : Type} {others : List β}
    {owner : β → TransactionId} {inTheWay : β → Bool} :
    (∃ blockers, (do
      let _ ← m.conflictingTxns (others.map owner)
      m.conflictingTxns ((others.filter inTheWay).map owner))=.ok blockers) ↔
        ∀ lock∈others, m.Knows (owner lock) := by
  constructor
  · rintro ⟨blockers,h⟩ lock hlock
    obtain ⟨all,hall,-⟩ := except_bind_ok h
    exact conflictingTxns_total.mp ⟨all,hall⟩ _ (List.mem_map_of_mem hlock)
  · intro h
    obtain ⟨all,hall⟩ : ∃ all, m.conflictingTxns (others.map owner)=.ok all := by
      refine conflictingTxns_total.mpr fun txnId hmem => ?_
      obtain ⟨lock,hlock,rfl⟩ := List.mem_map.mp hmem
      exact h lock hlock
    obtain ⟨blockers,hblockers⟩ : ∃ blockers,
        m.conflictingTxns ((others.filter inTheWay).map owner)=.ok blockers := by
      refine conflictingTxns_total.mpr fun txnId hmem => ?_
      obtain ⟨lock,hlock,rfl⟩ := List.mem_map.mp hmem
      exact h lock (List.mem_filter.mp hlock).1
    refine ⟨blockers,?_⟩
    rw [hall]
    exact hblockers

/-- Somebody else has a lock on the table. -/
def MeetsTable (txnId : TransactionId) (table : String) (m : TxnManager P)
    (owner : TransactionId) : Prop :=
  ∃ lock∈m.tableLocks, lock.txnId=owner ∧ owner≠txnId ∧ lock.table=table

/-- Somebody else has a predicate lock on the table. -/
def MeetsPredicate (txnId : TransactionId) (table : String) (m : TxnManager P)
    (owner : TransactionId) : Prop :=
  ∃ lock∈m.predicateLocks, lock.txnId=owner ∧ owner≠txnId ∧ lock.table=table

theorem conflictingTableLockTxns_total :
    (∃ blockers, m.conflictingTableLockTxns txnId table mode=.ok blockers) ↔
      ∀ owner, MeetsTable txnId table m owner → m.Knows owner := by
  refine lookups_total.trans ⟨fun h owner howner => ?_,fun h lock hlock => ?_⟩
  · obtain ⟨lock,hmem,rfl,hne,htable⟩ := howner
    exact h lock (List.mem_filter.mpr ⟨hmem,by simpa using ⟨hne,htable⟩⟩)
  · obtain ⟨hmem,hfacts⟩ := List.mem_filter.mp hlock
    obtain ⟨hne,htable⟩ : lock.txnId≠txnId ∧ lock.table=table := by simpa using hfacts
    exact h _ ⟨lock,hmem,rfl,hne,htable⟩

theorem conflictingPredicateLockTxns_total :
    (∃ blockers, m.conflictingPredicateLockTxns txnId table indexKeys=.ok blockers) ↔
      ∀ owner, MeetsPredicate txnId table m owner → m.Knows owner := by
  refine lookups_total.trans ⟨fun h owner howner => ?_,fun h lock hlock => ?_⟩
  · obtain ⟨lock,hmem,rfl,hne,htable⟩ := howner
    exact h lock (List.mem_filter.mpr ⟨hmem,by simpa using ⟨hne,htable⟩⟩)
  · obtain ⟨hmem,hfacts⟩ := List.mem_filter.mp hlock
    obtain ⟨hne,htable⟩ : lock.txnId≠txnId ∧ lock.table=table := by simpa using hfacts
    exact h _ ⟨lock,hmem,rfl,hne,htable⟩

/-- Somebody else has a table lock that does not go with a request. -/
def TableBlocker (m : TxnManager P) (txnId : TransactionId) (table : String)
    (mode : TableLockMode) (owner : TransactionId) : Prop :=
  ∃ lock∈m.tableLocks, lock.txnId=owner ∧ owner≠txnId ∧ lock.table=table ∧
    tableLockModesConflict lock.mode mode

/-- Somebody else has a predicate lock that a write would disturb. -/
def PredicateBlocker (m : TxnManager P) (txnId : TransactionId) (table : String)
    (indexKeys : List (String × List Value)) (owner : TransactionId) : Prop :=
  ∃ lock∈m.predicateLocks, lock.txnId=owner ∧ owner≠txnId ∧ lock.table=table ∧
    predicateLockConflicts lock indexKeys

theorem conflictingTableLockTxns_ok
    (h : m.conflictingTableLockTxns txnId table mode=.ok blockers) (owner : TransactionId) :
    owner∈blockers ↔ m.TableBlocker txnId table mode owner ∧ m.Active owner := by
  obtain ⟨_,-,hlookup⟩ := except_bind_ok h
  rw [conflictingTxns_ok hlookup]
  refine and_congr ?_ Iff.rfl
  simp only [TableBlocker,List.mem_map,List.mem_filter,decide_eq_true_eq]
  constructor
  · rintro ⟨lock,⟨⟨hmem,hne,htable⟩,hconflict⟩,rfl⟩
    exact ⟨lock,hmem,rfl,hne,htable,hconflict⟩
  · rintro ⟨lock,hmem,rfl,hne,htable,hconflict⟩
    exact ⟨lock,⟨⟨hmem,hne,htable⟩,hconflict⟩,rfl⟩

theorem conflictingPredicateLockTxns_ok
    (h : m.conflictingPredicateLockTxns txnId table indexKeys=.ok blockers)
    (owner : TransactionId) :
    owner∈blockers ↔ m.PredicateBlocker txnId table indexKeys owner ∧ m.Active owner := by
  obtain ⟨_,-,hlookup⟩ := except_bind_ok h
  rw [conflictingTxns_ok hlookup]
  refine and_congr ?_ Iff.rfl
  simp only [PredicateBlocker,List.mem_map,List.mem_filter,decide_eq_true_eq]
  constructor
  · rintro ⟨lock,⟨⟨hmem,hne,htable⟩,hconflict⟩,rfl⟩
    exact ⟨lock,hmem,rfl,hne,htable,hconflict⟩
  · rintro ⟨lock,hmem,rfl,hne,htable,hconflict⟩
    exact ⟨lock,⟨⟨hmem,hne,htable⟩,hconflict⟩,rfl⟩

/-! ## Predicate locks of the running -/

/-- Nobody ends with predicate locks, and who asks for one runs: then at the end of
the run, and at every moment of a check that is made there, each predicate lock is
owned by a running transaction, and a check finds out which of them are in its way. -/
theorem predicateLocks_of_running {nextTxnId : ℕ} {calls : List (ManagerCall P)} {m : TxnManager P}
    (hcare : Eff.Along ManagerCall.run (OwnersCare .predicate) calls (withNextTxnId nextTxnId))
    (hruns : ManagerCall.runs nextTxnId calls=some m) (writer : TransactionId) {m₁ : TxnManager P}
    (hwaits : Waits writer m m₁) :
    m₁.OwnersActive .predicate ∧
    ∀ (table : String) (indexKeys : List (String × List Value)), ∃ blockers,
      m₁.conflictingPredicateLockTxns writer table indexKeys=.ok blockers ∧
      ∀ owner : TransactionId, owner∈blockers ↔
        m₁.PredicateBlocker writer table indexKeys owner ∧ m₁.Active owner := by
  have howners := (ownersActive_of_runs hcare hruns).waits hwaits
  refine ⟨howners,fun table indexKeys => ?_⟩
  obtain ⟨blockers,hlookup⟩ : ∃ blockers,
      m₁.conflictingPredicateLockTxns writer table indexKeys=.ok blockers := by
    refine conflictingPredicateLockTxns_total.mpr fun owner howner => ?_
    obtain ⟨lock,hmem,heq,-⟩ := howner
    exact (howners owner ⟨lock,hmem,heq⟩).knows
  exact ⟨blockers,hlookup,conflictingPredicateLockTxns_ok hlookup⟩

/-- A serializable transaction takes its predicate lock while it runs. -/
def trackedLockRun : List (ManagerCall Unit) :=
  [.begin' .serializable,.begin' .readCommitted,.acquirePredicateLock ⟨1,"t",none,.table⟩]

/-- A running reader blocks a writer of its table. -/
theorem predicateLocks_of_running_tracked : ∃ m, ManagerCall.runs 1 trackedLockRun=some m ∧
    m.OwnersActive .predicate ∧
    ∃ blockers, m.conflictingPredicateLockTxns 2 "t" []=.ok blockers ∧
      ∀ owner : TransactionId, owner∈blockers ↔ m.PredicateBlocker 2 "t" [] owner ∧
        m.Active owner := by
  have hcare : Eff.Along ManagerCall.run (OwnersCare .predicate) trackedLockRun
      (withNextTxnId 1) := by
    have hnone : ∀ {call : ManagerCall Unit} {m : TxnManager Unit},
        (∀ txnId : TransactionId, ¬call.Ends txnId) →
        (∀ lock, call=.acquirePredicateLock lock → m.Active lock.txnId) →
        OwnersCare .predicate call m := fun hends hactive =>
      ⟨fun txnId h => absurd h (hends txnId),fun lock _ hcall _ => hactive lock hcall⟩
    refine ⟨hnone (fun _ h => h) (fun _ h => nomatch h),fun m₁ h₁ =>
      ⟨hnone (fun _ h => h) (fun _ h => nomatch h),fun m₂ h₂ =>
        ⟨hnone (fun _ h => h) fun lock hlock => ?_,fun _ _ => trivial⟩⟩⟩
    obtain rfl := ManagerCall.acquirePredicateLock.inj hlock
    obtain rfl := Option.some.inj h₁
    obtain rfl := Option.some.inj h₂
    exact ⟨_,rfl,rfl⟩
  have hreturns : (ManagerCall.runs 1 trackedLockRun).isSome := by decide +kernel
  obtain ⟨m,hruns⟩ := Option.isSome_iff_exists.mp hreturns
  obtain ⟨howners,hlookup⟩ := predicateLocks_of_running hcare hruns 2 .refl
  exact ⟨m,hruns,howners,hlookup "t" []⟩

/-- A transaction that has ended asks for a predicate lock and is forgotten. -/
def strayLockRun : List (ManagerCall Unit) :=
  [.begin' .serializable,.begin' .readCommitted,.releaseTransactionResources 1,.abort 1,
    .acquirePredicateLock ⟨1,"t",none,.table⟩,.purgeFinishedTransactionsUpTo 0]

/-- Its lock is there, its owner is not, and no write to the table gets past it. -/
theorem predicateLock_left_behind : ∃ m, ManagerCall.runs 1 strayLockRun=some m ∧
    m.predicateLocks=[⟨1,"t",none,.table⟩] ∧ ¬m.OwnersActive .predicate ∧ m.Active 2 ∧
    (checkWriteConflicts 2 "t" [] m).1=.err (.txn "transaction 1 is not active") := by
  have hrun : (ManagerCall.runs 1 strayLockRun).map (fun m =>
      (m.predicateLocks,m.txns[1]?.isSome,m.txns[2]?.map TxnState.status,
        (checkWriteConflicts 2 "t" [] m).1))=
      some ([⟨1,"t",none,.table⟩],false,some .active,
        .err (.txn "transaction 1 is not active")) := by
    decide +kernel
  obtain ⟨m,hm,hfacts⟩ := Option.map_eq_some_iff.mp hrun
  simp only [Prod.mk.injEq] at hfacts
  obtain ⟨hlocks,hgone,hstatus,hcheck⟩ := hfacts
  refine ⟨m,hm,hlocks,fun howners => ?_,?_,hcheck⟩
  · obtain ⟨txn,hget,-⟩ := howners 1 ⟨⟨1,"t",none,.table⟩,by simp [hlocks],rfl⟩
    simp [hget] at hgone
  · obtain ⟨txn,hget,hactive⟩ := Option.map_eq_some_iff.mp hstatus
    exact ⟨txn,hget,hactive⟩

/-! ## Table locks that go together -/

/-- No two running transactions own table locks on one table in modes that
conflict. -/
def TableLocksCompatible (m : TxnManager P) : Prop :=
  ∀ lock∈m.tableLocks, ∀ other∈m.tableLocks, lock.txnId≠other.txnId → lock.table=other.table →
    m.Active lock.txnId → m.Active other.txnId → tableLockModesConflict lock.mode other.mode=false

theorem tableLockModesConflict_symm (mode other : TableLockMode) :
    tableLockModesConflict mode other=tableLockModesConflict other mode := by
  unfold tableLockModesConflict
  exact Bool.or_comm _ _

/-- Fewer locks and fewer running transactions. -/
theorem TableLocksCompatible.of_fewer (h : m.TableLocksCompatible)
    (hlocks : ∀ lock∈m'.tableLocks, lock∈m.tableLocks)
    (hactive : ∀ lock∈m'.tableLocks, m'.Active lock.txnId → m.Active lock.txnId) :
    m'.TableLocksCompatible := by
  intro lock hlock other hother hne htable hruns hruns'
  exact h lock (hlocks lock hlock) other (hlocks other hother) hne htable
    (hactive lock hlock hruns) (hactive other hother hruns')

theorem WaitMove.tableLocks
    (h : WaitMove txnId m m') : ∀ lock∈m'.tableLocks, lock∈m.tableLocks := by
  cases h with
  | page | table | predicate => exact fun _ h => h
  | abortVictim victim hget message =>
    intro lock hlock
    rw [victimAborted,(released_spec _ victim).tableLocks] at hlock
    exact (List.mem_filter.mp hlock).1

/-- The locks after a grant. -/
theorem TableGrant.mem (h : TableGrant txnId table mode m m') {lock : TableLock}
    (hlock : lock∈m'.tableLocks) : lock∈m.tableLocks ∨ lock=⟨txnId,table,mode⟩ := by
  cases h with
  | grant hactive hfree hfront =>
    have hcases := mem_upsertTableLock hlock
    rw [dequeueTableWaiter_eq] at hcases
    exact hcases

/-- A lock is only given where the running owners agree with it. -/
theorem TableLocksCompatible.tableGrant (h : m.TableLocksCompatible)
    (hgrant : TableGrant txnId table mode m m') : m'.TableLocksCompatible := by
  have hmem : ∀ lock∈m'.tableLocks, lock∈m.tableLocks ∨ lock=⟨txnId,table,mode⟩ :=
    fun _ hlock => hgrant.mem hlock
  cases hgrant with
  | grant hactive hfree hfront =>
    have hactive' : ∀ owner : TransactionId,
        (m.tableGranted txnId table mode).Active owner ↔ m.Active owner := by
      intro owner
      rw [tableGranted,upsertTableLock_eq,dequeueTableWaiter_eq]
      exact Iff.rfl
    -- Whoever else owns a lock there was asked before the grant.
    have hagree : ∀ other∈m.tableLocks, other.txnId≠txnId → other.table=table →
        m.Active other.txnId → tableLockModesConflict other.mode mode=false := by
      intro other hother hne htable hruns
      by_contra hconflict
      have hblocks := (conflictingTableLockTxns_ok hfree other.txnId).mpr
        ⟨⟨other,hother,rfl,hne,htable,by simpa using hconflict⟩,hruns⟩
      exact absurd hblocks (Finset.notMem_empty _)
    intro lock hlock other hother hne htable hruns hruns'
    rw [hactive'] at hruns hruns'
    rcases hmem lock hlock with hold | rfl
    · rcases hmem other hother with hold' | rfl
      · exact h lock hold other hold' hne htable hruns hruns'
      · exact hagree lock hold hne htable hruns
    · rcases hmem other hother with hold' | rfl
      · rw [tableLockModesConflict_symm]
        exact hagree other hold' hne.symm htable.symm hruns'
      · exact absurd rfl hne

end RustSql.V2.TxnManager
