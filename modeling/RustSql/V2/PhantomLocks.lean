import RustSql.V2.TableStore
import RustSql.V2.LockOrder
import RustSql.V2.StorageTxn
import RustSql.V2.Tree

/-!
# Phantoms

A serializable transaction locks what its scans match, and a write of another
transaction asks whether such a lock matches one of its keys. The lock of a prefix
scan looks at the value behind the prefix, so it matches no key that ends there.
-/

namespace RustSql.V2

open FileStorage TxnManager

/-! ## What a scan matches and what its lock matches -/

/-- The scans that lock what they match. -/
inductive Scan where
  | rows
  | lookup (index : String) (key : List Value)
  | byPrefix (index : String) (keyPrefix : List Value)
  | range (index : String) (keyPrefix : List Value) (lower upper : Option (CompareOp × Value))

namespace Scan

/-- The scan, without the rows it finds. -/
def run {S C : Type} [TableSchema S C] [StoreText S] (txnId : TransactionId) (table : String) :
    Scan → Eff (FileStorage S) Unit
  | rows => do
    let _ ← scanRows txnId table
    pure ()
  | lookup index key => do
    let _ ← lookupIndex txnId table index key
    pure ()
  | byPrefix index keyPrefix => do
    let _ ← scanIndexPrefix txnId table index keyPrefix
    pure ()
  | range index keyPrefix lower upper => do
    let _ ← scanIndexRange txnId table index keyPrefix lower upper
    pure ()

/-- The lock the scan takes. -/
def lock (txnId : TransactionId) (table : String) : Scan → PredicateLock
  | rows => ⟨txnId,table,none,.table⟩
  | lookup index key => ⟨txnId,table,some index,.record key⟩
  | byPrefix index keyPrefix => ⟨txnId,table,some index,.nextKey keyPrefix none none⟩
  | range index keyPrefix lower upper => ⟨txnId,table,some index,.nextKey keyPrefix lower upper⟩

/-- The test of the scan: it would return a row with one of these index keys. -/
def Matches (indexKeys : List (String × List Value)) : Scan → Prop
  | rows => True
  | lookup index key => (index,key)∈indexKeys
  | byPrefix index keyPrefix => ∃ key, (index,key)∈indexKeys ∧ keyPrefix.isPrefixOf key
  | range index keyPrefix lower upper =>
    ∃ key, (index,key)∈indexKeys ∧ inIndexRange keyPrefix lower upper key

/-- A prefix scan gives fewer values than the keys have. -/
def LeavesColumn (indexKeys : List (String × List Value)) : Scan → Prop
  | byPrefix index keyPrefix => ∀ key, (index,key)∈indexKeys → keyPrefix.length < key.length
  | _ => True

variable {indexKeys : List (String × List Value)}

/-- The test a range lock makes is the scan's. -/
theorem rangeConflicts_eq (lock : PredicateLock) (keyPrefix : List Value)
    (lower upper : Option (CompareOp × Value)) :
    rangeConflicts lock keyPrefix lower upper indexKeys=indexKeys.any fun entry =>
      lock.index=some entry.1 && inIndexRange keyPrefix lower upper entry.2 := by
  unfold rangeConflicts inIndexRange
  refine congrArg indexKeys.any (funext fun entry => ?_)
  cases entry.2[keyPrefix.length]? with
  | none => exact Bool.and_assoc _ _ _
  | some candidate => exact Bool.and_assoc _ _ _

/-- A range lock matches the keys the range scan would return. -/
theorem rangeConflicts_iff {txnId : TransactionId} {table index : String}
    {kind : PredicateLockKind} {keyPrefix : List Value}
    {lower upper : Option (CompareOp × Value)} :
    rangeConflicts ⟨txnId,table,some index,kind⟩ keyPrefix lower upper indexKeys ↔
      ∃ key, (index,key)∈indexKeys ∧ inIndexRange keyPrefix lower upper key := by
  rw [rangeConflicts_eq,List.any_eq_true]
  constructor
  · rintro ⟨⟨name,key⟩,hmem,htest⟩
    obtain ⟨rfl,hrange⟩ : index=name ∧ inIndexRange keyPrefix lower upper key := by
      simpa using htest
    exact ⟨key,hmem,hrange⟩
  · rintro ⟨key,hmem,hrange⟩
    exact ⟨(index,key),hmem,by simp [hrange]⟩

/-- Without bounds every value behind the prefix will do. -/
theorem inIndexRange_unbounded {keyPrefix key : List Value} :
    inIndexRange keyPrefix none none key ↔
      keyPrefix.isPrefixOf key ∧ keyPrefix.length < key.length := by
  unfold inIndexRange
  rw [Bool.and_eq_true]
  refine and_congr_right fun _ => ?_
  constructor
  · intro htest
    by_contra hshort
    rw [List.getElem?_eq_none (by omega)] at htest
    exact Bool.false_ne_true htest
  · intro hlong
    rw [List.getElem?_eq_getElem hlong]
    rfl

/-- The lock of a prefix scan matches the keys that go on behind the prefix. -/
theorem byPrefix_conflicts (txnId : TransactionId) (table index : String) (keyPrefix : List Value) :
    predicateLockConflicts ((byPrefix index keyPrefix).lock txnId table) indexKeys ↔
      ∃ key, (index,key)∈indexKeys ∧ keyPrefix.isPrefixOf key ∧ keyPrefix.length < key.length := by
  refine rangeConflicts_iff.trans (exists_congr fun key => and_congr_right fun _ => ?_)
  exact inIndexRange_unbounded

/-- The lock of a scan that leaves a column matches what the scan matches. -/
theorem conflicts_iff_matches {scan : Scan} (hleaves : scan.LeavesColumn indexKeys)
    (txnId : TransactionId) (table : String) :
    predicateLockConflicts (scan.lock txnId table) indexKeys ↔ scan.Matches indexKeys := by
  cases scan with
  | rows => exact iff_of_true rfl trivial
  | lookup index key =>
    change (indexKeys.any fun entry => some index=some entry.1 && entry.2=key) ↔
      (index,key)∈indexKeys
    rw [List.any_eq_true]
    constructor
    · rintro ⟨⟨name,found⟩,hmem,htest⟩
      obtain ⟨rfl,rfl⟩ : index=name ∧ found=key := by simpa using htest
      exact hmem
    · intro hmem
      exact ⟨(index,key),hmem,by simp⟩
  | byPrefix index keyPrefix =>
    rw [byPrefix_conflicts]
    constructor
    · rintro ⟨key,hmem,hbegins,-⟩
      exact ⟨key,hmem,hbegins⟩
    · rintro ⟨key,hmem,hbegins⟩
      exact ⟨key,hmem,hbegins,hleaves key hmem⟩
  | range index keyPrefix lower upper => exact rangeConflicts_iff

end Scan

/-! ## A scan takes its lock -/

section Reading

variable {S C : Type}

/-- The locks are as they were. -/
def KeepsLocks (s s' : FileStorage S) : Prop := SameLocks s.txnManager s'.txnManager

instance isPreorder_keepsLocks : IsPreorder (FileStorage S) KeepsLocks where
  refl s := SameLocks.refl s.txnManager
  trans _ _ _ h h' := SameLocks.trans h h'

variable {α : Type} {u : Unit} {table : String} {keyPrefix : List Value}

/-- A call of the manager that keeps the locks. -/
theorem onManager_keepsLocks {x : Eff (TxnManager (StorePage S)) α}
    {s : FileStorage S} (h : SameLocks s.txnManager (x s.txnManager).2) :
    Guarantee KeepsLocks s (onManager x) fun _ _ => True :=
  ⟨h,fun _ _ => trivial⟩

/-- A read of the pager keeps them. -/
theorem onPager_keepsLocks {x : Eff (StorePager S) α} {s : FileStorage S}
    (h : BTree.ReadsOnly s.pager x) : Guarantee KeepsLocks s (onPager x) fun _ _ => True := by
  refine Guarantee.zoom h (fun p hsame => ?_) fun _ _ _ _ => trivial
  obtain rfl := hsame
  exact SameLocks.refl _

/-- A read of the manager keeps them. -/
theorem reads_sameLocks (f : TxnManager (StorePage S) → Except DbError α)
    (m : TxnManager (StorePage S)) : SameLocks m (Eff.reads f m).2 := by
  unfold Eff.reads
  cases f m <;> exact SameLocks.refl m

/-- So does a new snapshot. -/
theorem refreshSnapshot_sameLocks (m : TxnManager (StorePage S)) (txnId : TransactionId) :
    SameLocks m (refreshSnapshot txnId m).2 := by
  unfold refreshSnapshot
  rw [Eff.bind_of_ok (Eff.get_eq m),Eff.bind_eq]
  unfold modifyTxn
  cases m.get txnId with
  | ok txn => exact SameLocks.of_eq rfl
  | error e => exact SameLocks.refl m

/-- So does the snapshot of a statement. -/
theorem snapshotForTransaction_keepsLocks (s : FileStorage S) (txnId : TransactionId) :
    Guarantee KeepsLocks s (snapshotForTransaction txnId) fun _ _ => True := by
  refine (onManager_keepsLocks (reads_sameLocks _ _)).bind fun level t _ _ => ?_
  split
  · exact onManager_keepsLocks (refreshSnapshot_sameLocks _ txnId)
  · exact onManager_keepsLocks (reads_sameLocks _ _)

/-- What a call of the manager returns. -/
theorem onManager_ok {x : Eff (TxnManager (StorePage S)) α} {s s' : FileStorage S}
    {a : α} (h : onManager x s=(.ok a,s')) : x s.txnManager=(.ok a,s'.txnManager) := by
  obtain ⟨hvalue,rfl⟩ := Prod.mk.inj h
  exact Prod.ext hvalue rfl

/-- A wait for a lock that returns has been granted. -/
theorem waitFor_ok {request : Eff (TxnManager (StorePage S)) Unit} {s s' : FileStorage S}
    (h : waitFor request s=(.ok u,s')) :
    request s.txnManager=(.ok (),s'.txnManager) := by
  unfold waitFor Eff.attempt at h
  rcases hrun : onManager request s with ⟨outcome,t⟩
  rw [hrun] at h
  cases outcome with
  | ok v =>
    obtain rfl := (Prod.mk.inj h).2
    exact onManager_ok hrun
  | err e =>
    dsimp only at h
    split at h
    · exact absurd (congrArg Prod.fst h) Outcome.err_ne_ok
    · split at h
      · exact absurd (congrArg Prod.fst h) Outcome.stuck_ne_ok
      · exact absurd (congrArg Prod.fst h) Outcome.err_ne_ok
  | stuck => exact absurd (congrArg Prod.fst h) Outcome.stuck_ne_ok

/-- The transaction is a serializable one. -/
def IsSerializable (m : TxnManager (StorePage S)) (txnId : TransactionId) : Prop :=
  m.isolationLevel txnId=.ok .serializable

/-- The isolation level stays. -/
theorem IsSerializable.lockStep {m m' : TxnManager (StorePage S)} {txnId : TransactionId}
    (h : IsSerializable m txnId) (hstep : LockStep m m') : IsSerializable m' txnId := by
  unfold IsSerializable isolationLevel TxnManager.get at h ⊢
  rcases hstep.txns txnId with hsame | ⟨txn,message,hbefore,-,hafter⟩
  · rwa [hsame]
  · rw [hafter]
    rw [hbefore] at h
    exact h

/-- A serializable transaction is registered. -/
theorem IsSerializable.get {m : TxnManager (StorePage S)} {txnId : TransactionId}
    (h : IsSerializable m txnId) :
    ∃ txn, m.txns[txnId]?=some txn ∧ txn.isolationLevel=.serializable := by
  unfold IsSerializable isolationLevel at h
  cases hread : m.get txnId with
  | ok txn =>
    rw [hread] at h
    exact ⟨txn,get_ok hread,Except.ok.inj h⟩
  | error e =>
    rw [hread] at h
    cases h

/-- A wait for a table lock leaves who is serializable. -/
theorem IsSerializable.acquireTableLock {m m' : TxnManager (StorePage S)}
    {txnId : TransactionId} {mode : TableLockMode}
    (h : IsSerializable m txnId)
    (hrun : TxnManager.acquireTableLock txnId table mode m=(.ok u,m')) :
    IsSerializable m' txnId := by
  have hsteps := (acquireTableLock_steps m txnId table mode).1
  rw [hrun] at hsteps
  exact h.lockStep hsteps

/-- A serializable transaction that asks for a predicate lock keeps it while it reads. -/
theorem lock_kept_reading {lock : PredicateLock} {s₁ t : FileStorage S} {a : α}
    {rest : Eff (FileStorage S) α} {m : TxnManager (StorePage S)}
    (hlevel : IsSerializable m lock.txnId)
    (hlock : acquirePredicateLock lock.txnId lock m=(.ok u,s₁.txnManager))
    (hrest : Guarantee KeepsLocks s₁ rest fun _ _ => True) (h : rest s₁=(.ok a,t)) :
    lock∈t.txnManager.predicateLocks := by
  obtain ⟨txn,hget,htxn⟩ := hlevel.get
  have htaken := acquirePredicateLock_mem hlock hget htxn
  have hkept : KeepsLocks s₁ t := by
    have hmoves := hrest.1
    rwa [h] at hmoves
  rw [hkept.predicateLocks]
  exact htaken

/-- The front part of the index scans: who was serializable still is when the locks
are asked for. -/
theorem readLocked {s s₁ s₂ : FileStorage S} {txnId : TransactionId}
    {u v : Unit} (hlevel : IsSerializable s.txnManager txnId)
    (hvalid : FileStorage.validateTransaction txnId s=(.ok u,s₁))
    (hwait : waitForTableReadLock txnId table s₁=(.ok v,s₂)) :
    IsSerializable s₂.txnManager txnId := by
  have hread := waitFor_ok hwait
  rw [(reads_ok (onManager_ok hvalid)).2] at hread
  exact hlevel.acquireTableLock hread

variable [TableSchema S C] [StoreText S]

/-- Reading a row keeps the locks. -/
theorem visibleRowAtRoot_keepsLocks (s : FileStorage S) (txnId : TransactionId) (root : PageId)
    (rowId : RowId) : Guarantee KeepsLocks s (visibleRowAtRoot txnId root rowId)
      fun _ _ => True := by
  refine (snapshotForTransaction_keepsLocks s txnId).bind fun snapshot t _ _ => ?_
  refine (onPager_keepsLocks (BTree.get_readsOnly t.pager root rowId)).bind fun bytes u _ _ => ?_
  exact Guarantee.ret trivial

/-- So does reading the rows of a key. -/
theorem filterIndexRowIdsForKey_keepsLocks (s : FileStorage S) (txnId : TransactionId)
    (schema : S) (tableRoot : PageId) (index : IndexMeta) (keyValues : List Value)
    (rowIds : List RowId) : Guarantee KeepsLocks s
      (filterIndexRowIdsForKey txnId schema tableRoot index keyValues rowIds)
      fun _ _ => True := by
  induction rowIds generalizing s with
  | nil => exact Guarantee.ret trivial
  | cons rowId rowIds ih =>
    refine (visibleRowAtRoot_keepsLocks s txnId tableRoot rowId).bind fun row t _ _ => ?_
    cases row with
    | none => exact ih t
    | some row =>
      refine Guarantee.bind_lift fun key _ => ?_
      exact (ih t).bind fun visible u _ _ => Guarantee.ret trivial

/-- So does reading the rows of many. -/
theorem collectIndexRows_keepsLocks (s : FileStorage S) (txnId : TransactionId) (schema : S)
    (tableRoot : PageId) (index : IndexMeta) (test : List Value → Bool)
    (entries : List (IndexKey × List RowId)) : Guarantee KeepsLocks s
      (collectIndexRows txnId schema tableRoot index test entries) fun _ _ => True := by
  induction entries generalizing s with
  | nil => exact Guarantee.ret trivial
  | cons entry entries ih =>
    refine Guarantee.bind_lift fun key _ => ?_
    have hothers : ∀ (here : List RowId) (t : FileStorage S), Guarantee KeepsLocks t
        (collectIndexRows txnId schema tableRoot index test entries >>= fun others =>
          pure (here++others)) fun _ _ => True :=
      fun here t => (ih t).bind fun others u _ _ => Guarantee.ret trivial
    dsimp only
    split
    · exact (filterIndexRowIdsForKey_keepsLocks s txnId schema tableRoot index key entry.2).bind
        fun here t _ _ => hothers here t
    · exact hothers [] s

/-- A table scan that returns has locked the table. -/
theorem scanRows_locks {s t : FileStorage S} {txnId : TransactionId}
    {rows : List (RowId × Row)} (hlevel : IsSerializable s.txnManager txnId)
    (h : scanRows txnId table s=(.ok rows,t)) :
    ⟨txnId,table,none,.table⟩∈t.txnManager.predicateLocks := by
  obtain ⟨u,s₁,hvalid,h⟩ := Eff.bind_ok_inv h
  obtain ⟨v,s₂,hwait,h⟩ := Eff.bind_ok_inv h
  obtain ⟨w,m,hread,hlock⟩ := Eff.bind_ok_inv (waitFor_ok hwait)
  rw [(reads_ok (onManager_ok hvalid)).2] at hread
  refine lock_kept_reading (hlevel.acquireTableLock hread) hlock ?_ h
  refine Guarantee.bind_get ?_
  split
  · exact Guarantee.ret trivial
  · next root _ =>
    refine (snapshotForTransaction_keepsLocks s₂ txnId).bind fun snapshot s₃ _ _ => ?_
    refine (onPager_keepsLocks (BTree.scanAll_readsOnly s₃.pager root)).bind fun _ _ _ _ => ?_
    exact Guarantee.ret trivial

/-- A lookup leaves a lock on its key. -/
theorem lookupIndex_locks {s t : FileStorage S} {txnId : TransactionId} {table index : String}
    {key : List Value} {rowIds : List RowId} (hlevel : IsSerializable s.txnManager txnId)
    (h : lookupIndex txnId table index key s=(.ok rowIds,t)) :
    ⟨txnId,table,some index,.record key⟩∈t.txnManager.predicateLocks := by
  obtain ⟨u,s₁,hvalid,h⟩ := Eff.bind_ok_inv h
  obtain ⟨v,s₂,hwait,h⟩ := Eff.bind_ok_inv h
  obtain ⟨⟨schema,tableRoot⟩,s₃,htable,h⟩ := Eff.bind_ok_inv h
  obtain ⟨⟨found,root⟩,s₄,hindex,hbody⟩ := Eff.bind_ok_inv h
  obtain rfl := (reads_ok htable).2
  obtain rfl := (reads_ok hindex).2
  dsimp only at hbody
  split at hbody
  · exact absurd (congrArg Prod.fst hbody) Outcome.err_ne_ok
  obtain ⟨w,s₅,hlock,hrest⟩ := Eff.bind_ok_inv hbody
  refine lock_kept_reading (readLocked hlevel hvalid hwait) (onManager_ok hlock) ?_ hrest
  refine (onPager_keepsLocks (BTree.get_readsOnly s₅.pager root _)).bind fun entry s₆ _ _ => ?_
  cases entry with
  | none => exact Guarantee.ret trivial
  | some rowIds => exact filterIndexRowIdsForKey_keepsLocks s₆ txnId schema tableRoot found key _

/-- The part of the prefix and range scans behind the lock. -/
theorem collect_keepsLocks (s : FileStorage S) (txnId : TransactionId) (schema : S)
    (tableRoot root : PageId) (index : IndexMeta) (test : List Value → Bool) :
    Guarantee KeepsLocks s (do
      let entries ← onPager (BTree.scanAll root)
      let rowIds ← collectIndexRows txnId schema tableRoot index test entries
      pure (sortRowIds rowIds)) fun _ _ => True := by
  refine (onPager_keepsLocks (BTree.scanAll_readsOnly s.pager root)).bind fun entries t _ _ => ?_
  refine (collectIndexRows_keepsLocks t txnId schema tableRoot index test entries).bind
    fun _ _ _ _ => ?_
  exact Guarantee.ret trivial

/-- A scan by a prefix leaves a lock on it. -/
theorem scanIndexPrefix_locks {s t : FileStorage S} {txnId : TransactionId}
    {table index : String} {rowIds : List RowId}
    (hlevel : IsSerializable s.txnManager txnId)
    (h : scanIndexPrefix txnId table index keyPrefix s=(.ok rowIds,t)) :
    ⟨txnId,table,some index,.nextKey keyPrefix none none⟩∈t.txnManager.predicateLocks := by
  obtain ⟨u,s₁,hvalid,h⟩ := Eff.bind_ok_inv h
  obtain ⟨v,s₂,hwait,h⟩ := Eff.bind_ok_inv h
  obtain ⟨⟨schema,tableRoot⟩,s₃,htable,h⟩ := Eff.bind_ok_inv h
  obtain ⟨⟨found,root⟩,s₄,hindex,hbody⟩ := Eff.bind_ok_inv h
  obtain rfl := (reads_ok htable).2
  obtain rfl := (reads_ok hindex).2
  dsimp only at hbody
  split at hbody
  · exact absurd (congrArg Prod.fst hbody) Outcome.err_ne_ok
  obtain ⟨w,s₅,hlock,hrest⟩ := Eff.bind_ok_inv hbody
  exact lock_kept_reading (readLocked hlevel hvalid hwait) (onManager_ok hlock)
    (collect_keepsLocks s₅ txnId schema tableRoot root found _) hrest

/-- A scan of a range leaves a lock on it. -/
theorem scanIndexRange_locks {s t : FileStorage S} {txnId : TransactionId}
    {table index : String} {lower upper : Option (CompareOp × Value)}
    {rowIds : List RowId} (hlevel : IsSerializable s.txnManager txnId)
    (h : scanIndexRange txnId table index keyPrefix lower upper s=(.ok rowIds,t)) :
    ⟨txnId,table,some index,.nextKey keyPrefix lower upper⟩∈t.txnManager.predicateLocks := by
  obtain ⟨u,s₁,hvalid,h⟩ := Eff.bind_ok_inv h
  obtain ⟨v,s₂,hwait,h⟩ := Eff.bind_ok_inv h
  obtain ⟨⟨schema,tableRoot⟩,s₃,htable,h⟩ := Eff.bind_ok_inv h
  obtain ⟨⟨found,root⟩,s₄,hindex,hbody⟩ := Eff.bind_ok_inv h
  obtain rfl := (reads_ok htable).2
  obtain rfl := (reads_ok hindex).2
  dsimp only at hbody
  split at hbody
  · exact absurd (congrArg Prod.fst hbody) Outcome.err_ne_ok
  obtain ⟨w,s₅,hlock,hrest⟩ := Eff.bind_ok_inv hbody
  exact lock_kept_reading (readLocked hlevel hvalid hwait) (onManager_ok hlock)
    (collect_keepsLocks s₅ txnId schema tableRoot root found _) hrest

/-- A scan of a serializable transaction that returns has taken its lock. -/
theorem Scan.locks {scan : Scan} {s t : FileStorage S} {txnId : TransactionId}
    (hlevel : IsSerializable s.txnManager txnId)
    (h : scan.run txnId table s=(.ok u,t)) :
    scan.lock txnId table∈t.txnManager.predicateLocks := by
  cases scan with
  | rows =>
    obtain ⟨rows,s₁,hscan,hret⟩ := Eff.bind_ok_inv h
    obtain rfl := (Prod.mk.inj hret).2
    exact scanRows_locks hlevel hscan
  | lookup index key =>
    obtain ⟨rowIds,s₁,hscan,hret⟩ := Eff.bind_ok_inv h
    obtain rfl := (Prod.mk.inj hret).2
    exact lookupIndex_locks hlevel hscan
  | byPrefix index keyPrefix =>
    obtain ⟨rowIds,s₁,hscan,hret⟩ := Eff.bind_ok_inv h
    obtain rfl := (Prod.mk.inj hret).2
    exact scanIndexPrefix_locks hlevel hscan
  | range index keyPrefix lower upper =>
    obtain ⟨rowIds,s₁,hscan,hret⟩ := Eff.bind_ok_inv h
    obtain rfl := (Prod.mk.inj hret).2
    exact scanIndexRange_locks hlevel hscan

end Reading

/-! ## The lock stays -/

namespace TxnManager

variable {P : Type} {m m' : TxnManager P} {lock : PredicateLock}

/-- Waiting takes no lock of a running transaction. -/
theorem WaitMove.predicateLock {txnId : TransactionId} (h : WaitMove txnId m m')
    (hlock : lock∈m.predicateLocks) (hactive : m'.Active lock.txnId) :
    lock∈m'.predicateLocks := by
  cases h with
  | page | table | predicate => exact hlock
  | @abortVictim victim txn hget message =>
    rw [victimAborted,(released_spec _ victim).predicateLocks]
    refine List.mem_filter.mpr ⟨hlock,?_⟩
    have hother : lock.txnId≠victim := by
      rintro rfl
      exact not_active_victimAborted m _ txn message hactive
    simpa using hother

/-- Whoever still runs after some waiting has kept its predicate locks. -/
theorem Waits.predicateLock {txnId : TransactionId} (h : Waits txnId m m')
    (hlock : lock∈m.predicateLocks) (hactive : m'.Active lock.txnId) :
    lock∈m'.predicateLocks := by
  induction h with
  | refl => exact hlock
  | tail _ hmove ih =>
    have hbefore := (hmove.steps.txns lock.txnId).active hactive
    exact hmove.predicateLock (ih hbefore) hactive

/-- A table lock leaves the predicate locks alone. -/
theorem TableGrant.predicateLocks {txnId : TransactionId} {table : String}
    {mode : TableLockMode} (h : TableGrant txnId table mode m m') :
    m'.predicateLocks=m.predicateLocks := by
  cases h with
  | grant =>
    rw [tableGranted,upsertTableLock_eq,dequeueTableWaiter_eq]
    rfl

/-- Every call but the release: whoever still runs has kept its predicate locks. -/
theorem CallStep.predicateLock {call : ManagerCall P} (h : CallStep call m m')
    (hopen : call≠.releaseTransactionResources lock.txnId) (hlock : lock∈m.predicateLocks)
    (hactive : m'.Active lock.txnId) : lock∈m'.predicateLocks := by
  cases h with
  | books hcall hbooks => exact hbooks.sameLocks.predicateLocks ▸ hlock
  | @release _ other hcall hrelease =>
    rw [hrelease.predicateLocks]
    refine List.mem_filter.mpr ⟨hlock,?_⟩
    have hother : lock.txnId≠other := fun heq => hopen (heq ▸ hcall)
    simpa using hother
  | wait hwaits => exact hwaits.predicateLock hlock hactive
  | page hwaits hgrant =>
    have hbefore := (hgrant.steps.txns lock.txnId).active hactive
    have hkept := hwaits.predicateLock hlock hbefore
    cases hgrant with
    | grant =>
      unfold pageGranted
      rw [dequeueFrontWaiter_eq]
      exact hkept
    | keep =>
      rw [dequeueFrontWaiter_eq]
      exact hkept
  | table hwaits hgrant =>
    have hbefore := (hgrant.steps.txns lock.txnId).active hactive
    exact hgrant.predicateLocks ▸ hwaits.predicateLock hlock hbefore
  | read hwaits hgrant =>
    have hbefore := (hgrant.steps.txns lock.txnId).active hactive
    refine List.mem_append_left _ ?_
    exact hgrant.predicateLocks ▸ hwaits.predicateLock hlock hbefore
  | write hwaits hpass =>
    have hbefore := (hpass.steps.txns lock.txnId).active hactive
    have hkept := hwaits.predicateLock hlock hbefore
    cases hpass
    exact hkept
  | record => exact List.mem_append_left _ hlock

/-- The transaction runs and does not let its locks go. -/
def StaysOpen (txnId : TransactionId) (call : ManagerCall P) (m : TxnManager P) : Prop :=
  m.Active txnId ∧ call≠.releaseTransactionResources txnId

/-- A transaction that stays open keeps its predicate locks over any calls. -/
theorem predicateLock_of_runs {calls : List (ManagerCall P)}
    (hopen : Eff.Along ManagerCall.run (StaysOpen lock.txnId) calls m)
    (hruns : Eff.runs ManagerCall.run calls m=some m') (hactive : m'.Active lock.txnId)
    (hlock : lock∈m.predicateLocks) : lock∈m'.predicateLocks := by
  induction calls generalizing m with
  | nil =>
    obtain rfl := Option.some.inj hruns
    exact hlock
  | cons call calls ih =>
    rw [Eff.runs] at hruns
    obtain ⟨m₁,hreturns,hrest⟩ := Option.bind_eq_some_iff.mp hruns
    have hopen₁ := hopen.2 m₁ hreturns
    have hactive₁ : m₁.Active lock.txnId := by
      cases calls with
      | nil =>
        obtain rfl := Option.some.inj hrest
        exact hactive
      | cons => exact hopen₁.1.1
    exact ih hopen₁ hrest
      ((callStep_of_returns hreturns).predicateLock hopen.1.2 hlock hactive₁)

/-- A write does not get past a lock in its way while the owner runs. -/
theorem checkWriteConflicts_blocked {writer : TransactionId} {indexKeys : List (String × List Value)}
    (hother : writer≠lock.txnId) (hlock : lock∈m.predicateLocks)
    (hconflict : predicateLockConflicts lock indexKeys)
    (hok : (checkWriteConflicts writer lock.table indexKeys m).1=.ok ()) :
    ¬(checkWriteConflicts writer lock.table indexKeys m).2.Active lock.txnId := by
  intro hactive
  obtain ⟨m₁,hwaits,⟨-,hpass⟩ | ⟨hno,-⟩⟩ :=
    checkWriteConflicts_requests m writer lock.table indexKeys
  · have hruns := (hpass.steps.txns lock.txnId).active hactive
    have hkept := hwaits.predicateLock hlock hruns
    generalize (checkWriteConflicts writer lock.table indexKeys m).2=m₂ at hpass
    cases hpass with
    | pass _ hfree =>
      have hblocks := (conflictingPredicateLockTxns_ok hfree lock.txnId).mpr
        ⟨⟨lock,hkept,rfl,hother.symm,rfl,hconflict⟩,hruns⟩
      exact absurd hblocks (Finset.notMem_empty _)
  · exact hno hok

end TxnManager

/-! ## Phantoms -/

/-- A serializable transaction has made a scan, and has stayed open since, whatever
calls the manager got: a write of another transaction with a key the scan matches
meets the scan's lock, and does not pass while the reader runs. Of the prefix scans
this holds when the prefix leaves a column of the index. -/
theorem phantom_protected {S C : Type} [TableSchema S C] [StoreText S] {scan : Scan}
    {s s' : FileStorage S} {reader writer : TransactionId} {table : String} {u : Unit}
    {calls : List (ManagerCall (StorePage S))} {m : TxnManager (StorePage S)}
    {indexKeys : List (String × List Value)}
    (hlevel : s.txnManager.isolationLevel reader=.ok .serializable)
    (hscan : scan.run reader table s=(.ok u,s'))
    (hopen : Eff.Along ManagerCall.run (StaysOpen reader) calls s'.txnManager)
    (hruns : Eff.runs ManagerCall.run calls s'.txnManager=some m) (hactive : m.Active reader)
    (hother : writer≠reader) (hmatches : scan.Matches indexKeys)
    (hleaves : scan.LeavesColumn indexKeys) :
    m.PredicateBlocker writer table indexKeys reader ∧
    ((checkWriteConflicts writer table indexKeys m).1=.ok () →
      ¬(checkWriteConflicts writer table indexKeys m).2.Active reader) := by
  have howner : (scan.lock reader table).txnId=reader := by cases scan <;> rfl
  have htable : (scan.lock reader table).table=table := by cases scan <;> rfl
  have hconflict := (Scan.conflicts_iff_matches hleaves reader table).mpr hmatches
  have hlock : scan.lock reader table∈m.predicateLocks :=
    predicateLock_of_runs (by rwa [howner]) hruns (by rwa [howner]) (Scan.locks hlevel hscan)
  constructor
  · exact ⟨scan.lock reader table,hlock,howner,hother.symm,htable,hconflict⟩
  · have hblocked := checkWriteConflicts_blocked (by rwa [howner]) hlock hconflict
    rwa [howner,htable] at hblocked

/-! ## A prefix of every column -/

/-- A table without constraints. -/
structure BareSchema where
  name : String
  columns : List String
  deriving DecidableEq

instance instTableSchemaBareSchema : TableSchema BareSchema String where
  name := BareSchema.name
  withName schema name := {schema with name := name}
  columnNames := BareSchema.columns
  pushColumn schema column := {schema with columns := schema.columns++[column]}
  columnName := id
  defaultValue _ := .ok .null
  validateRowValues _ _ := .ok ()
  validateCheckConstraints _ _ := .ok ()
  validatePrimaryKeyUniqueness _ _ _ := .ok ()
  validateConstraintsMetadata _ := .ok ()
  normalizeStrictRowValues _ row := .ok row
  dropColumn schema column := .ok (
    {schema with columns := schema.columns.erase column},schema.columns.idxOf column)
  renameColumnReferences schema oldName newName :=
    {schema with columns := schema.columns.map fun column =>
      if column=oldName then newName else column}
  renameForeignKeyRefTable schema _ _ := schema
  renameForeignKeyRefColumn schema _ _ _ := schema

/-- Keys of small integers, a byte each, and pages that always fit. -/
instance instStoreTextBareSchema : StoreText BareSchema where
  encodeIndexKey key := key.map fun
    | .integer value => value.toInt.toNat.toUInt8
    | _ => 0
  decodeIndexKey bytes := .ok (bytes.map fun byte => .integer (Int64.ofNat byte.toNat))
  rowNodeLength _ := 0
  indexNodeLength _ := 0
  catalogLength _ := 0

/-- A handle over a new database. -/
def newHandle : FileStorage BareSchema := ⟨Pager.opened bootstrapNewFile ∅ [],.empty,∅⟩

/-- A table with an index on its only column. Transaction 2 is serializable, transaction
3 is not. -/
def readerAndWriter : Eff (FileStorage BareSchema) Unit := do
  let setup ← beginWithIsolation .readCommitted
  createSchema setup ⟨"t",["k"]⟩
  createIndex setup "t" ⟨"i",["k"],none,false,none⟩
  FileStorage.commit setup
  let _ ← beginWithIsolation .serializable
  let _ ← beginWithIsolation .readCommitted
  pure ()

/-- The handle when both have begun. -/
def openedHandle : FileStorage BareSchema := (readerAndWriter newHandle).2

/-- The handle after a scan of the reader. -/
def scannedHandle (scan : Scan) : FileStorage BareSchema := (scan.run 2 "t" openedHandle).2

/-- Who has the status is active. -/
theorem active_of_status {P : Type} {m : TxnManager P} {txnId : TransactionId}
    (h : m.txns[txnId]?.map TxnState.status=some .active) : m.Active txnId := by
  obtain ⟨txn,hget,hactive⟩ := Option.map_eq_some_iff.mp h
  exact ⟨txn,hget,hactive⟩

/-- Both have begun, and the reader is serializable. -/
theorem openedHandle_facts : (readerAndWriter newHandle).1=.ok () ∧
    openedHandle.txnManager.isolationLevel 2=.ok .serializable := by
  have hrun : (readerAndWriter newHandle).1=.ok () ∧
      openedHandle.txnManager.txns[2]?.map TxnState.isolationLevel=some .serializable := by
    decide +kernel
  obtain ⟨txn,hget,hlevel⟩ := Option.map_eq_some_iff.mp hrun.2
  refine ⟨hrun.1,?_⟩
  rw [isolationLevel,TxnManager.get,hget,← hlevel]
  rfl

/-- After a scan by an empty prefix a writer of the index is stopped. -/
theorem phantom_protected_emptyPrefix : ∃ m : TxnManager (StorePage BareSchema),
    Eff.runs ManagerCall.run [.begin' .readCommitted]
      (scannedHandle (.byPrefix "i" [])).txnManager=some m ∧
    m.PredicateBlocker 3 "t" [("i",[.integer 1])] 2 := by
  have hscan : ((Scan.byPrefix "i" []).run 2 "t" openedHandle).1=.ok () := by decide +kernel
  have hstatus : (scannedHandle (.byPrefix "i" [])).txnManager.txns[2]?.map TxnState.status=
      some .active := by
    decide +kernel
  have hafter : (Eff.runs ManagerCall.run [.begin' .readCommitted]
      (scannedHandle (.byPrefix "i" [])).txnManager).map
        (fun m => m.txns[2]?.map TxnState.status)=some (some .active) := by
    decide +kernel
  obtain ⟨m,hruns,hactive⟩ := Option.map_eq_some_iff.mp hafter
  have hopen : Eff.Along ManagerCall.run (StaysOpen 2) [.begin' .readCommitted]
      (scannedHandle (.byPrefix "i" [])).txnManager :=
    ⟨⟨active_of_status hstatus,by simp⟩,fun _ _ => trivial⟩
  have hleaves : (Scan.byPrefix "i" []).LeavesColumn [("i",[.integer 1])] := by
    intro key hkey
    obtain ⟨-,rfl⟩ := Prod.mk.inj (List.mem_singleton.mp hkey)
    exact Nat.zero_lt_one
  exact ⟨m,hruns,(phantom_protected openedHandle_facts.2 (Eff.eq_of_fst hscan) hopen hruns
    (active_of_status hactive) (by decide) ⟨[.integer 1],List.mem_cons_self,rfl⟩ hleaves).1⟩

/-- A prefix scan with a value for every column locks nothing: another transaction
inserts a row the scan would have found, while the reader runs. -/
theorem phantom_of_every_column : ∃ s : FileStorage BareSchema,
    scanIndexPrefix 2 "t" "i" [.integer 1] openedHandle=(.ok [],s) ∧
    openedHandle.txnManager.isolationLevel 2=.ok .serializable ∧
    s.txnManager.Active 2 ∧
    (Scan.byPrefix "i" [.integer 1]).Matches [("i",[.integer 1])] ∧
    (checkWriteConflicts 3 "t" [("i",[.integer 1])] s.txnManager).1=.ok () ∧
    (insertRow 3 "t" [.integer 1] s).1=.ok 1 ∧
    (insertRow 3 "t" [.integer 1] s).2.txnManager.Active 2 := by
  let s := (scanIndexPrefix 2 "t" "i" [.integer 1] openedHandle).2
  have hrun : ((scanIndexPrefix 2 "t" "i" [.integer 1] openedHandle).1,
      s.txnManager.txns[2]?.map TxnState.status,
      (checkWriteConflicts 3 "t" [("i",[.integer 1])] s.txnManager).1,
      (insertRow 3 "t" [.integer 1] s).1,
      (insertRow 3 "t" [.integer 1] s).2.txnManager.txns[2]?.map TxnState.status)=
        (.ok [],some .active,.ok (),.ok 1,some .active) := by
    decide +kernel
  simp only [Prod.mk.injEq] at hrun
  obtain ⟨hscan,hstatus,hcheck,hinsert,hafter⟩ := hrun
  exact ⟨s,Eff.eq_of_fst hscan,openedHandle_facts.2,active_of_status hstatus,
    ⟨[.integer 1],List.mem_cons_self,rfl⟩,hcheck,hinsert,active_of_status hafter⟩

end RustSql.V2
