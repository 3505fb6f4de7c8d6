import RustSql.V2.TxnManager

/-!
# What the transaction calls do

For each call that changes a transaction's standing: when it succeeds, and the
manager it leaves. Everything later about snapshots, timestamps and the set of
running transactions follows from these.
-/

namespace RustSql.V2.TxnManager

variable {P : Type}

/-- The transaction is registered and running. -/
def Active (m : TxnManager P) (txnId : TransactionId) : Prop :=
  ∃ txn, m.txns[txnId]?=some txn ∧ txn.status=.active

/-- The manager has the transaction on file. -/
def Knows (m : TxnManager P) (txnId : TransactionId) : Prop := ∃ txn, m.txns[txnId]?=some txn

variable {m m' : TxnManager P} {txnId w r : TransactionId} {snapshot S : TxnSnapshot} {u : Unit}
    {txn txn' : TxnState P} {commitTs : ℕ}

/-- An active transaction is known. -/
theorem Active.knows (h : m.Active txnId) :
    m.Knows txnId := by
  obtain ⟨txn,hget,-⟩ := h
  exact ⟨txn,hget⟩

/-- The snapshot a running transaction reads with. -/
def Holds (m : TxnManager P) (txnId : TransactionId) (snapshot : TxnSnapshot) : Prop :=
  ∃ txn, m.txns[txnId]?=some txn ∧ txn.status=.active ∧ txn.snapshot=snapshot

/-- Transactions are filed under their own ids, all of them handed out. -/
structure Registered (m : TxnManager P) : Prop where
  keyed : ∀ {txnId : ℕ} {txn : TxnState P}, m.txns[txnId]?=some txn → txn.id=txnId
  known : ∀ {txnId : ℕ} {txn : TxnState P},
    m.txns[txnId]?=some txn → txnId < max m.nextTxnId 1

/-- A new manager has nobody on file. -/
theorem registered_new (nextTxnId : ℕ) : (withNextTxnId nextTxnId : TxnManager P).Registered := by
  constructor
  · intro txnId txn hget
    simp [withNextTxnId] at hget
  · intro txnId txn hget
    simp [withNextTxnId] at hget

/-- Who holds a snapshot is active. -/
theorem Holds.active (h : m.Holds txnId snapshot) : m.Active txnId := by
  obtain ⟨txn,hget,hstatus,-⟩ := h
  exact ⟨txn,hget,hstatus⟩

/-- The active set lists the running transactions. -/
theorem mem_activeIds (hm : m.Registered) :
    txnId∈m.activeIds ↔ m.Active txnId := by
  simp only [activeIds,List.mem_toFinset,List.mem_map,List.mem_filter,decide_eq_true_eq]
  constructor
  · rintro ⟨⟨key,txn⟩,⟨hmem,hstatus⟩,rfl⟩
    have hget := Std.ExtTreeMap.mem_toList_iff_getElem?_eq_some.mp hmem
    exact ⟨txn,(hm.keyed hget) ▸ hget,hstatus⟩
  · rintro ⟨txn,hget,hstatus⟩
    exact ⟨⟨txnId,txn⟩,⟨Std.ExtTreeMap.mem_toList_iff_getElem?_eq_some.mpr hget,hstatus⟩,
      hm.keyed hget⟩

/-- The snapshot a transaction would take now. -/
def currentSnapshot (m : TxnManager P) (txnId : TransactionId) : TxnSnapshot :=
  ⟨m.nextCommitTs,m.activeIds.erase txnId⟩

/-- The new transaction of `begin'`. -/
def newTxn (m : TxnManager P) (isolationLevel : IsolationLevel) : TxnState P where
  id := max m.nextTxnId 1
  isolationLevel := isolationLevel
  status := .active
  terminalError := none
  startTs := max m.nextTxnId 1
  commitTs := none
  snapshot := ⟨m.nextCommitTs,m.activeIds⟩
  writeSet := ⟨∅,[]⟩
  undoRecords := []
  purgeRecords := []

/-- `begin'` registers one transaction, hands out its id and changes neither
the clock nor the other transactions. -/
theorem begin'_facts (m : TxnManager P) (isolationLevel : IsolationLevel) :
    (begin' isolationLevel m).1=.ok (max m.nextTxnId 1) ∧
    (begin' isolationLevel m).2.txns=
      m.txns.insert (max m.nextTxnId 1) (m.newTxn isolationLevel) ∧
    (begin' isolationLevel m).2.nextCommitTs=m.nextCommitTs ∧
    (begin' isolationLevel m).2.nextTxnId=max m.nextTxnId 1+1 :=
  ⟨rfl,rfl,rfl,rfl⟩

/-- What `modifyTxn` does when it succeeds. -/
theorem modifyTxn_ok {f : TxnState P → TxnState P} (h : modifyTxn txnId f m=(.ok u,m')) :
    ∃ txn, m.txns[txnId]?=some txn ∧ m'={m with txns := m.txns.insert txnId (f txn)} := by
  unfold modifyTxn get at h
  cases hget : m.txns[txnId]? with
  | none => rw [hget] at h; simp at h
  | some txn =>
    rw [hget] at h
    exact ⟨txn,rfl,(Prod.mk.inj h).2.symm⟩

/-- Reading a value off the manager succeeds without changing it. -/
theorem reads_ok {σ α : Type} {f : σ → Except DbError α} {s s' : σ} {a : α}
    (h : Eff.reads f s=(.ok a,s')) : f s=.ok a ∧ s'=s := by
  unfold Eff.reads at h
  cases hf : f s with
  | ok b =>
    rw [hf] at h
    obtain ⟨hb,hs⟩ := Prod.mk.inj h
    obtain rfl := Outcome.ok.inj hb
    exact ⟨rfl,hs.symm⟩
  | error e => rw [hf] at h; simp at h

/-- What `get` returns is registered. -/
theorem get_ok (h : m.get txnId=.ok txn) : m.txns[txnId]?=some txn := by
  unfold get at h
  cases hget : m.txns[txnId]? with
  | none => rw [hget] at h; simp at h
  | some found =>
    rw [hget] at h
    rw [Except.ok.inj h]

/-- Who passes is active. -/
theorem ensureActive_ok (h : m.ensureActive txnId=.ok ()) : m.Active txnId := by
  unfold ensureActive at h
  cases hget : m.get txnId with
  | error e => rw [hget] at h; simp [bind,Except.bind] at h
  | ok txn =>
    rw [hget] at h
    by_cases hs : txn.status=.active
    · exact ⟨txn,get_ok hget,hs⟩
    · simp [bind,Except.bind,hs] at h

/-- A known transaction is found. -/
theorem get_of_knows (h : m.Knows txnId) :
    ∃ txn, m.get txnId=.ok txn := by
  obtain ⟨txn,hget⟩ := h
  exact ⟨txn,by rw [get,hget]⟩

/-- An active one passes. -/
theorem ensureActive_of_active (h : m.Active txnId) : m.ensureActive txnId=.ok () := by
  obtain ⟨txn,hget,hactive⟩ := h
  have hread : m.get txnId=.ok txn := by rw [get,hget]
  unfold ensureActive
  rw [hread]
  exact if_pos hactive

/-- Who passes this check is active, too. -/
theorem requireActive_ok (h : m.requireActive txnId=.ok ()) : m.Active txnId := by
  unfold requireActive at h
  cases hget : m.get txnId with
  | error e => rw [hget] at h; simp [bind,Except.bind] at h
  | ok txn =>
    rw [hget] at h
    by_cases hs : txn.status=.active
    · exact ⟨txn,get_ok hget,hs⟩
    · simp [bind,Except.bind,hs] at h

/-- A refresh replaces one transaction's snapshot by the current one. -/
theorem refreshSnapshot_ok (h : refreshSnapshot txnId m=(.ok snapshot,m')) :
    snapshot=m.currentSnapshot txnId ∧ ∃ txn, m.txns[txnId]?=some txn ∧
      m'={m with txns := m.txns.insert txnId {txn with snapshot := m.currentSnapshot txnId}} := by
  unfold refreshSnapshot at h
  rw [Eff.bind_of_ok (Eff.get_eq m)] at h
  obtain ⟨u,m1,hmod,hret⟩ := Eff.bind_ok_inv h
  obtain ⟨txn,hget,rfl⟩ := modifyTxn_ok hmod
  obtain ⟨hs,hm⟩ := Prod.mk.inj hret
  exact ⟨(Outcome.ok.inj hs).symm,txn,hget,hm.symm⟩

/-- A refresh of a known transaction succeeds. -/
theorem refreshSnapshot_eq (hget : m.txns[txnId]?=some txn) :
    refreshSnapshot txnId m=(.ok (m.currentSnapshot txnId),
      {m with txns := m.txns.insert txnId {txn with snapshot := m.currentSnapshot txnId}}) := by
  have hknown : m.get txnId=.ok txn := by rw [get,hget]
  unfold refreshSnapshot
  rw [Eff.bind_of_ok (Eff.get_eq m)]
  have hmodify : ∀ f, modifyTxn txnId f m=(.ok (),{m with txns := m.txns.insert txnId (f txn)}) := by
    intro f
    rw [modifyTxn,hknown]
  exact Eff.bind_of_ok (hmodify _)

/-- A reservation advances the clock by one and nothing else. -/
theorem reserveCommitTs_ok (h : reserveCommitTs txnId m=(.ok commitTs,m')) :
    m.Active txnId ∧ commitTs=m.nextCommitTs+1 ∧ m'={m with nextCommitTs := commitTs} := by
  unfold reserveCommitTs at h
  obtain ⟨u,m1,hreads,hrest⟩ := Eff.bind_ok_inv h
  obtain ⟨hact,rfl⟩ := reads_ok hreads
  have hrun : ((.ok (m1.nextCommitTs+1),{m1 with nextCommitTs := m1.nextCommitTs+1}) :
      Outcome ℕ × TxnManager P)=(.ok commitTs,m') := hrest
  obtain ⟨hts,hm⟩ := Prod.mk.inj hrun
  obtain rfl := Outcome.ok.inj hts
  exact ⟨ensureActive_ok hact,rfl,hm.symm⟩

/-- A finished commit changes the transaction's status. -/
theorem finalizeCommit_ok (h : finalizeCommit txnId commitTs m=(.ok u,m')) :
    m.Active txnId ∧ ∃ txn txn', m.txns[txnId]?=some txn ∧ txn'.id=txn.id ∧
      txn'.isolationLevel=txn.isolationLevel ∧ txn'.status=.committed ∧
      m'={m with txns := m.txns.insert txnId txn'} := by
  unfold finalizeCommit at h
  obtain ⟨u1,m1,hreads,hrest⟩ := Eff.bind_ok_inv h
  obtain ⟨hact,rfl⟩ := reads_ok hreads
  obtain ⟨txn,hget,hm⟩ := modifyTxn_ok hrest
  refine ⟨requireActive_ok hact,txn,_,hget,?_,?_,?_,hm⟩ <;> rfl

/-- An abort changes the transaction's status. -/
theorem abort_ok (h : abort txnId m=(.ok u,m')) :
    m.Active txnId ∧ ∃ txn txn', m.txns[txnId]?=some txn ∧ txn'.id=txn.id ∧
      txn'.isolationLevel=txn.isolationLevel ∧ txn'.status=.aborted ∧
      m'={m with txns := m.txns.insert txnId txn'} := by
  unfold abort at h
  obtain ⟨u1,m1,hreads,hrest⟩ := Eff.bind_ok_inv h
  obtain ⟨hact,rfl⟩ := reads_ok hreads
  obtain ⟨txn,hget,hm⟩ := modifyTxn_ok hrest
  refine ⟨requireActive_ok hact,txn,_,hget,?_,?_,?_,hm⟩ <;> rfl

/-- Forgetting finished transactions keeps the running ones. -/
theorem purgeFinishedTransactionsUpTo_get (m : TxnManager P) (purgeHorizon : ℕ)
    (txnId : TransactionId) :
    (m.purgeFinishedTransactionsUpTo purgeHorizon).txns[txnId]?=
      (m.txns[txnId]?).filter fun txn => keptByPurge purgeHorizon txn := by
  unfold purgeFinishedTransactionsUpTo
  simp only [Std.ExtTreeMap.getElem?_filter']

/-! ## How the calls move time forward -/

/-- A snapshot taken at this moment: all that is committed, except for the
transactions still running. -/
def Current (m : TxnManager P) (txnId : TransactionId) (snapshot : TxnSnapshot) : Prop :=
  snapshot.visibleUpTo=m.nextCommitTs ∧
    ∀ w, w∈snapshot.activeTxns ↔ m.Active w ∧ w≠txnId

/-- Time moves forward: the clock and the ids grow, no finished transaction
runs again, every snapshot is an old one or a current one, and isolation levels
stay. -/
structure Advances (m m' : TxnManager P) : Prop where
  clock : m.nextCommitTs ≤ m'.nextCommitTs
  ids : max m.nextTxnId 1 ≤ max m'.nextTxnId 1
  active : ∀ {w : ℕ}, w < max m.nextTxnId 1 → m'.Active w → m.Active w
  holds : ∀ {r S}, m'.Holds r S → m.Holds r S ∨ m'.Current r S
  level : ∀ {w : ℕ} {txn' : TxnState P}, w < max m.nextTxnId 1 → m'.txns[w]?=some txn' →
    ∃ txn, m.txns[w]?=some txn ∧ txn.isolationLevel=txn'.isolationLevel
  registered : m'.Registered

/-- Nothing happens. -/
theorem Advances.refl (hm : m.Registered) : Advances m m :=
  ⟨le_refl _,le_refl _,fun _ h => h,.inl,fun _ h => ⟨_,h,rfl⟩,hm⟩

/-- An active id has been given out. -/
theorem Active.known (hm : m.Registered) {w : ℕ} (h : m.Active w) : w < max m.nextTxnId 1 := by
  obtain ⟨txn,hget,-⟩ := h
  exact hm.known hget

/-- A call that files one running or finished transaction under its own id
again, with its old snapshot or a current one. -/
theorem Advances.of_insert (hm : m.Registered) (hget : m.txns[txnId]?=some txn)
    (hid : txn'.id=txn.id)
    (hlevel : txn'.isolationLevel=txn.isolationLevel)
    (htxns : m'.txns=m.txns.insert txnId txn') (hclock : m'.nextCommitTs=m.nextCommitTs)
    (hnext : m'.nextTxnId=m.nextTxnId)
    (hstatus : txn'.status=.active → txn.status=.active ∧
      (txn'.snapshot=txn.snapshot ∨ m'.Current txnId txn'.snapshot)) : Advances m m' := by
  have hlook : ∀ w : ℕ,
      m'.txns[w]?=if txnId=w then some txn' else m.txns[w]? := by
    intro w
    rw [htxns,Std.ExtTreeMap.getElem?_insert]
    simp only [compare_eq_iff_eq]
  refine ⟨hclock.ge,by rw [hnext],?_,?_,?_,⟨?_,?_⟩⟩
  · rintro w - ⟨found,hf,hs⟩
    rw [hlook] at hf
    split at hf
    · next he =>
      obtain rfl := Option.some.inj hf
      exact ⟨txn,he ▸ hget,(hstatus hs).1⟩
    · exact ⟨found,hf,hs⟩
  · rintro r S ⟨found,hf,hs,hS⟩
    rw [hlook] at hf
    split at hf
    · next he =>
      obtain rfl := Option.some.inj hf
      subst he
      obtain ⟨hact,hsame | hcur⟩ := hstatus hs
      · exact .inl ⟨txn,hget,hact,hsame ▸ hS⟩
      · exact .inr (hS ▸ hcur)
    · exact .inl ⟨found,hf,hs,hS⟩
  · intro w found _ hf
    rw [hlook] at hf
    split at hf
    · next he =>
      obtain rfl := Option.some.inj hf
      exact ⟨txn,he ▸ hget,hlevel.symm⟩
    · exact ⟨found,hf,rfl⟩
  · intro w found hf
    rw [hlook] at hf
    split at hf
    · next he =>
      obtain rfl := Option.some.inj hf
      rw [hid,hm.keyed hget,he]
    · exact hm.keyed hf
  · intro w found hf
    rw [hlook] at hf
    rw [hnext]
    split at hf
    · next he => exact he ▸ hm.known hget
    · exact hm.known hf

/-- `begin` goes forward. -/
theorem Advances.begin' (hm : m.Registered) (isolationLevel : IsolationLevel) :
    Advances m (TxnManager.begin' isolationLevel m).2 := by
  obtain ⟨-,htxns,hclock,hnext⟩ := begin'_facts m isolationLevel
  generalize (TxnManager.begin' isolationLevel m).2=m' at htxns hclock hnext ⊢
  have hlook : ∀ w : ℕ, m'.txns[w]?=
      if max m.nextTxnId 1=w then some (m.newTxn isolationLevel) else m.txns[w]? := by
    intro w
    rw [htxns,Std.ExtTreeMap.getElem?_insert]
    simp only [compare_eq_iff_eq]
  have hactive : ∀ w, m'.Active w ↔ m.Active w ∨ w=max m.nextTxnId 1 := by
    intro w
    unfold Active
    rw [hlook]
    split
    · next he =>
      refine ⟨fun _ => .inr he.symm,fun _ => ⟨_,rfl,rfl⟩⟩
    · next he =>
      refine ⟨.inl,fun h => h.resolve_right fun hw => he hw.symm⟩
  refine ⟨hclock.ge,by omega,?_,?_,?_,⟨?_,?_⟩⟩
  · intro w hw h
    exact ((hactive w).mp h).resolve_right (Nat.ne_of_lt hw)
  · rintro r S ⟨found,hf,hs,hS⟩
    rw [hlook] at hf
    split at hf
    · next he =>
      obtain rfl := Option.some.inj hf
      subst hS he
      refine .inr ⟨hclock.symm,fun w => ?_⟩
      simp only [newTxn,mem_activeIds hm,hactive]
      constructor
      · intro h
        have hlt := h.known hm
        exact ⟨.inl h,Nat.ne_of_lt hlt⟩
      · rintro ⟨h | h,hne⟩
        · exact h
        · exact absurd h hne
    · exact .inl ⟨found,hf,hs,hS⟩
  · intro w found hw hf
    rw [hlook,if_neg (Nat.ne_of_gt hw)] at hf
    exact ⟨found,hf,rfl⟩
  · intro w found hf
    rw [hlook] at hf
    split at hf
    · next he =>
      obtain rfl := Option.some.inj hf
      exact he
    · exact hm.keyed hf
  · intro w found hf
    rw [hlook] at hf
    split at hf
    · next he =>
      rw [hnext,← he]
      omega
    · exact (hm.known hf).trans_le (by omega)

/-- So does a new snapshot. -/
theorem Advances.refreshSnapshot (hm : m.Registered)
    (h : TxnManager.refreshSnapshot txnId m=(.ok snapshot,m')) : Advances m m' := by
  obtain ⟨-,txn,hget,rfl⟩ := refreshSnapshot_ok h
  refine Advances.of_insert hm hget (by rfl) (by rfl) rfl rfl rfl
    fun hs => ⟨hs,.inr ⟨by rfl,fun w => ?_⟩⟩
  -- the refreshed transaction runs exactly when it ran before
  let txn' : TxnState P := {txn with snapshot := m.currentSnapshot txnId}
  have hsame : ∀ w, Active {m with txns := m.txns.insert txnId txn'} w ↔ m.Active w := by
    intro w
    unfold Active
    simp only [Std.ExtTreeMap.getElem?_insert,compare_eq_iff_eq]
    split
    · next he =>
      subst he
      rw [hget]
      constructor
      · rintro ⟨found,hf,hs⟩
        obtain rfl := Option.some.inj hf
        exact ⟨txn,rfl,hs⟩
      · rintro ⟨found,hf,hs⟩
        obtain rfl := Option.some.inj hf
        exact ⟨_,rfl,hs⟩
    · rfl
  rw [hsame]
  simp only [currentSnapshot,Finset.mem_erase,mem_activeIds hm]
  exact and_comm

/-- So does a reserved commit timestamp. -/
theorem Advances.reserveCommitTs (hm : m.Registered)
    (h : TxnManager.reserveCommitTs txnId m=(.ok commitTs,m')) : Advances m m' := by
  obtain ⟨-,hts,rfl⟩ := reserveCommitTs_ok h
  refine ⟨?_,le_refl _,fun _ h => h,.inl,fun _ h => ⟨_,h,rfl⟩,⟨hm.keyed,hm.known⟩⟩
  change m.nextCommitTs ≤ commitTs
  omega

/-- So does a commit. -/
theorem Advances.finalizeCommit (hm : m.Registered)
    (h : TxnManager.finalizeCommit txnId commitTs m=(.ok u,m')) : Advances m m' := by
  obtain ⟨-,txn,txn',hget,hid,hlevel,hst,rfl⟩ := finalizeCommit_ok h
  exact Advances.of_insert hm hget hid hlevel rfl rfl rfl fun hs => absurd (hst.symm.trans hs) (by simp)

/-- So does an abort. -/
theorem Advances.abort (hm : m.Registered)
    (h : TxnManager.abort txnId m=(.ok u,m')) : Advances m m' := by
  obtain ⟨-,txn,txn',hget,hid,hlevel,hst,rfl⟩ := abort_ok h
  exact Advances.of_insert hm hget hid hlevel rfl rfl rfl fun hs => absurd (hst.symm.trans hs) (by simp)

/-- So does a purge. -/
theorem Advances.purgeFinished (hm : m.Registered) (purgeHorizon : ℕ) :
    Advances m (m.purgeFinishedTransactionsUpTo purgeHorizon) := by
  have hold : ∀ {w : TransactionId} {txn : TxnState P},
      (m.purgeFinishedTransactionsUpTo purgeHorizon).txns[w]?=some txn →
        m.txns[w]?=some txn := by
    intro w txn h
    rw [purgeFinishedTransactionsUpTo_get] at h
    exact (Option.filter_eq_some_iff.mp h).1
  refine ⟨le_refl _,le_refl _,?_,?_,fun _ h => ⟨_,hold h,rfl⟩,
    ⟨fun h => hm.keyed (hold h),fun h => hm.known (hold h)⟩⟩
  · rintro w - ⟨txn,hget,hs⟩
    exact ⟨txn,hold hget,hs⟩
  · rintro r S ⟨txn,hget,hs,hS⟩
    exact .inl ⟨txn,hold hget,hs,hS⟩

/-! ## Who keeps running -/

/-- A snapshot taken now is current. -/
theorem currentSnapshot_current (hm : m.Registered) (r : TransactionId) :
    m.Current r (m.currentSnapshot r) := by
  refine ⟨rfl,fun w => ?_⟩
  simp only [currentSnapshot,Finset.mem_erase,mem_activeIds hm]
  exact and_comm

/-- Filing a transaction again with its status keeps everyone running. -/
theorem Active.insert
    (h : m.Active w) (hget : m.txns[txnId]?=some txn) (htxns : m'.txns=m.txns.insert txnId txn')
    (hs : w=txnId → txn'.status=txn.status) : m'.Active w := by
  obtain ⟨found,hf,hact⟩ := h
  unfold Active
  rw [htxns,Std.ExtTreeMap.getElem?_insert]
  simp only [compare_eq_iff_eq]
  split
  · next he =>
    subst he
    rw [hget] at hf
    obtain rfl := Option.some.inj hf
    exact ⟨txn',rfl,(hs rfl).trans hact⟩
  · exact ⟨found,hf,hact⟩

/-- Others stay active when one begins. -/
theorem Active.begin' (hm : m.Registered) (h : m.Active w) (isolationLevel : IsolationLevel) :
    (TxnManager.begin' isolationLevel m).2.Active w := by
  have hlt := h.known hm
  obtain ⟨found,hf,hact⟩ := h
  obtain ⟨-,htxns,-,-⟩ := begin'_facts m isolationLevel
  unfold Active
  rw [htxns,Std.ExtTreeMap.getElem?_insert,if_neg]
  · exact ⟨found,hf,hact⟩
  · rw [compare_eq_iff_eq]
    exact Nat.ne_of_gt hlt

/-- The transaction a `begin'` registers, and the snapshot it holds. -/
theorem Holds.begin' (hm : m.Registered) (isolationLevel : IsolationLevel)
    (h : (TxnManager.begin' isolationLevel m).2.Holds r S) :
    (r≠max m.nextTxnId 1 ∧ m.Holds r S) ∨ (r=max m.nextTxnId 1 ∧ m.Current r S) := by
  obtain ⟨-,htxns,-,-⟩ := begin'_facts m isolationLevel
  obtain ⟨found,hf,hact,rfl⟩ := h
  rw [htxns,Std.ExtTreeMap.getElem?_insert] at hf
  simp only [compare_eq_iff_eq] at hf
  split at hf
  · next he =>
    obtain rfl := Option.some.inj hf
    refine .inr ⟨he.symm,rfl,fun w => ?_⟩
    simp only [newTxn,mem_activeIds hm]
    refine ⟨fun h => ⟨h,fun hw => ?_⟩,And.left⟩
    have hlt := h.known hm
    exact absurd (hw.trans he.symm) (Nat.ne_of_lt hlt)
  · next he => exact .inl ⟨Ne.symm he,found,hf,hact,rfl⟩

/-- Or when one refreshes its snapshot. -/
theorem Active.refreshSnapshot (h : m.Active w)
    (hx : TxnManager.refreshSnapshot txnId m=(.ok snapshot,m')) : m'.Active w := by
  obtain ⟨-,txn,hget,rfl⟩ := refreshSnapshot_ok hx
  exact h.insert hget rfl fun _ => rfl

/-- A refresh changes the snapshot of one transaction. -/
theorem Holds.refreshSnapshot (h : m'.Holds r S)
    (hx : TxnManager.refreshSnapshot txnId m=(.ok snapshot,m')) :
    (r≠txnId ∧ m.Holds r S) ∨ (r=txnId ∧ S=m.currentSnapshot txnId) := by
  obtain ⟨-,txn,hget,rfl⟩ := refreshSnapshot_ok hx
  obtain ⟨found,hf,hact,rfl⟩ := h
  simp only [Std.ExtTreeMap.getElem?_insert,compare_eq_iff_eq] at hf
  split at hf
  · next he =>
    obtain rfl := Option.some.inj hf
    exact .inr ⟨he.symm,rfl⟩
  · next he => exact .inl ⟨Ne.symm he,found,hf,hact,rfl⟩

/-- Or when one reserves its timestamp. -/
theorem Active.reserveCommitTs
    (h : m.Active w) (hx : TxnManager.reserveCommitTs txnId m=(.ok commitTs,m')) :
    m'.Active w := by
  obtain ⟨-,-,rfl⟩ := reserveCommitTs_ok hx
  exact h

/-- Snapshots held then were held before. -/
theorem Holds.reserveCommitTs (h : m'.Holds r S)
    (hx : TxnManager.reserveCommitTs txnId m=(.ok commitTs,m')) : m.Holds r S := by
  obtain ⟨-,-,rfl⟩ := reserveCommitTs_ok hx
  exact h

/-- Who runs and with which snapshot once one transaction has ended. -/
structure Ends (m m' : TxnManager P) (txnId : TransactionId) : Prop where
  active : ∀ {w}, m.Active w → w≠txnId → m'.Active w
  ended : ¬m'.Active txnId
  holds : ∀ {r S}, m'.Holds r S → r≠txnId ∧ m.Holds r S

/-- A status that is no longer active ends the transaction. -/
theorem Ends.of_insert (htxns : m'.txns=m.txns.insert txnId txn') (hs : txn'.status≠.active) :
    Ends m m' txnId := by
  have hlook : ∀ w : ℕ, m'.txns[w]?=if txnId=w then some txn' else m.txns[w]? := by
    intro w
    rw [htxns,Std.ExtTreeMap.getElem?_insert]
    simp only [compare_eq_iff_eq]
  refine ⟨?_,?_,?_⟩
  · rintro w ⟨found,hf,hact⟩ hne
    exact ⟨found,by rw [hlook,if_neg (Ne.symm hne)]; exact hf,hact⟩
  · rintro ⟨found,hf,hact⟩
    rw [hlook,if_pos rfl] at hf
    exact hs (Option.some.inj hf ▸ hact)
  · rintro r S ⟨found,hf,hact,rfl⟩
    rw [hlook] at hf
    split at hf
    · exact absurd hact (Option.some.inj hf ▸ hs)
    · next he => exact ⟨Ne.symm he,found,hf,hact,rfl⟩

/-- A commit ends it. -/
theorem Ends.finalizeCommit
    (h : TxnManager.finalizeCommit txnId commitTs m=(.ok u,m')) : Ends m m' txnId := by
  obtain ⟨-,txn,txn',-,-,-,hst,rfl⟩ := finalizeCommit_ok h
  exact Ends.of_insert rfl (by rw [hst]; decide)

/-- An abort ends it. -/
theorem Ends.abort (h : TxnManager.abort txnId m=(.ok u,m')) : Ends m m' txnId := by
  obtain ⟨-,txn,txn',-,-,-,hst,rfl⟩ := abort_ok h
  exact Ends.of_insert rfl (by rw [hst]; decide)

/-- A purge takes no active transaction. -/
theorem Active.purgeFinished (h : m.Active w)
    (purgeHorizon : ℕ) : (m.purgeFinishedTransactionsUpTo purgeHorizon).Active w := by
  obtain ⟨found,hf,hact⟩ := h
  refine ⟨found,?_,hact⟩
  rw [purgeFinishedTransactionsUpTo_get,hf,Option.filter_some,if_pos]
  rw [keptByPurge,hact]

/-- A snapshot held after a purge was held before. -/
theorem Holds.purgeFinished
    {purgeHorizon : ℕ} (h : (m.purgeFinishedTransactionsUpTo purgeHorizon).Holds r S) :
    m.Holds r S := by
  obtain ⟨found,hf,hact,hS⟩ := h
  rw [purgeFinishedTransactionsUpTo_get] at hf
  exact ⟨found,(Option.filter_eq_some_iff.mp hf).1,hact,hS⟩

/-- The purge horizon lies below every snapshot in use. -/
theorem Holds.purgeHorizon_le (h : m.Holds r S) : m.purgeHorizon ≤ S.visibleUpTo := by
  obtain ⟨txn,hget,hact,rfl⟩ := h
  have hmem : txn.snapshot.visibleUpTo∈(m.txns.toList.filter fun entry =>
      entry.2.status=.active).map fun entry => entry.2.snapshot.visibleUpTo := by
    refine List.mem_map.mpr ⟨(r,txn),List.mem_filter.mpr ⟨?_,decide_eq_true hact⟩,rfl⟩
    exact Std.ExtTreeMap.mem_toList_iff_getElem?_eq_some.mpr hget
  unfold purgeHorizon
  split
  · next horizon hmin => exact (List.min?_eq_some_iff.mp hmin).2 _ hmem
  · next hnone =>
    rw [List.min?_eq_none_iff.mp hnone] at hmem
    cases hmem

end RustSql.V2.TxnManager
