import RustSql.Base.Search
import RustSql.V2.LockConflicts

/-!
# The graph of waits

Whom a transaction waits for, for each kind of lock, and the union of the three that
the search for deadlocks follows. The union is kept in step by every edit.
-/

namespace RustSql.V2.TxnManager

variable {P : Type}

/-- Whom a transaction waits for on account of one kind of lock. -/
def blockers (m : TxnManager P) : LockKind → TransactionId → Finset TransactionId
  | .table, txnId => (m.tableWaitBlockers[txnId]?).getD ∅
  | .page, txnId => (m.pageWaitBlockers[txnId]?).getD ∅
  | .predicate, txnId => (m.predicateWaitBlockers[txnId]?).getD ∅

/-- Whom a transaction waits for. -/
def waits (m : TxnManager P) (txnId : TransactionId) : Finset TransactionId :=
  (m.waitsFor[txnId]?).getD ∅

/-- The waits are the blockers of the three kinds together. -/
def WaitsInStep (m : TxnManager P) : Prop :=
  ∀ txnId : TransactionId, m.waits txnId=
    m.blockers .table txnId ∪ m.blockers .page txnId ∪ m.blockers .predicate txnId

/-- One transaction waits for another one. -/
def WaitsOn (m : TxnManager P) (txnId blocker : TransactionId) : Prop := blocker∈m.waits txnId

/-- One transaction waits for another one, leaving aside what one of them waits for
on account of one kind of lock. -/
def WaitsBut (m : TxnManager P) (kind : LockKind) (requester : TransactionId)
    (txnId blocker : TransactionId) : Prop :=
  ∃ other : LockKind, blocker∈m.blockers other txnId ∧ ¬(txnId=requester ∧ other=kind)

variable {m m' : TxnManager P} {txnId blocker requester : TransactionId}

/-- Who waits has an edge of some kind. -/
theorem WaitsInStep.waitsOn (h : m.WaitsInStep) :
    m.WaitsOn txnId blocker ↔ ∃ kind : LockKind, blocker∈m.blockers kind txnId := by
  rw [WaitsOn,h txnId]
  simp only [Finset.mem_union]
  constructor
  · rintro ((hmem | hmem) | hmem)
    · exact ⟨.table,hmem⟩
    · exact ⟨.page,hmem⟩
    · exact ⟨.predicate,hmem⟩
  · rintro ⟨kind,hmem⟩
    cases kind with
    | table => exact Or.inl (Or.inl hmem)
    | page => exact Or.inl (Or.inr hmem)
    | predicate => exact Or.inr hmem

/-- Edges of the other kinds are waits, too. -/
theorem WaitsInStep.waitsBut (h : m.WaitsInStep) {kind : LockKind}
    (hedge : m.WaitsBut kind requester txnId blocker) :
    m.WaitsOn txnId blocker := by
  obtain ⟨other,hmem,-⟩ := hedge
  exact h.waitsOn.mpr ⟨other,hmem⟩

/-! ## Setting edges -/

/-- `set_table_wait_edges`, `set_page_wait_edges` and `set_predicate_wait_edges`. -/
def setWaitEdges (m : TxnManager P) (kind : LockKind) (txnId : TransactionId)
    (blockers : Finset TransactionId) : TxnManager P :=
  match kind with
  | .table => m.setTableWaitEdges txnId blockers
  | .page => m.setPageWaitEdges txnId blockers
  | .predicate => m.setPredicateWaitEdges txnId blockers

/-- The edges of one transaction are set. -/
theorem getD_insert (edges : Std.ExtTreeMap ℕ (Finset ℕ) compare) (txnId other : ℕ)
    (blockers : Finset ℕ) : ((edges.insert txnId blockers)[other]?).getD ∅=
      if other=txnId then blockers else (edges[other]?).getD ∅ := by
  rw [Std.ExtTreeMap.getElem?_insert]
  by_cases heq : other=txnId
  · subst heq
    simp
  · rw [if_neg heq,if_neg]
    rw [Std.LawfulEqCmp.compare_eq_iff_eq]
    exact fun h => heq h.symm

/-- Those of one kind are set. -/
theorem blockers_setWaitEdges (m : TxnManager P) (kind other : LockKind)
    (txnId waiter : TransactionId) (edges : Finset TransactionId) :
    (m.setWaitEdges kind txnId edges).blockers other waiter=
      if other=kind ∧ waiter=txnId then edges else m.blockers other waiter := by
  have hkind : ∀ old : Std.ExtTreeMap ℕ (Finset ℕ) compare,
      ((old.insert txnId edges)[waiter]?).getD ∅=
        if waiter=txnId then edges else (old[waiter]?).getD ∅ :=
    fun old => getD_insert old txnId waiter edges
  cases kind <;> cases other <;>
    simp [setWaitEdges,blockers,setTableWaitEdges,setPageWaitEdges,setPredicateWaitEdges,
      refreshWaitsFor,hkind]

/-- Bringing one transaction's waits up to date. -/
theorem waits_refreshWaitsFor (m : TxnManager P) (txnId waiter : TransactionId) :
    (m.refreshWaitsFor txnId).waits waiter=if waiter=txnId then
      m.blockers .table txnId ∪ m.blockers .page txnId ∪ m.blockers .predicate txnId
      else m.waits waiter :=
  getD_insert m.waitsFor txnId waiter _

/-- The union brings no edges of its own. -/
theorem blockers_refreshWaitsFor (m : TxnManager P) (txnId waiter : TransactionId)
    (kind : LockKind) : (m.refreshWaitsFor txnId).blockers kind waiter=m.blockers kind waiter := by
  cases kind <;> rfl

/-- The waits stay in step when one transaction's blockers change and are brought up
to date. -/
theorem WaitsInStep.refresh (h : m.WaitsInStep) (m' : TxnManager P)
    (hwaits : ∀ waiter : TransactionId, m'.waits waiter=m.waits waiter)
    (hothers : ∀ (kind : LockKind) (waiter : TransactionId), waiter≠txnId →
      m'.blockers kind waiter=m.blockers kind waiter) :
    (m'.refreshWaitsFor txnId).WaitsInStep := by
  intro waiter
  rw [waits_refreshWaitsFor]
  simp only [blockers_refreshWaitsFor]
  split
  · next heq => rw [heq]
  · next hne => rw [hwaits,h waiter,hothers _ _ hne,hothers _ _ hne,hothers _ _ hne]

/-- The union stays in step. -/
theorem WaitsInStep.setWaitEdges (h : m.WaitsInStep) (kind : LockKind)
    (txnId : TransactionId) (edges : Finset TransactionId) :
    (m.setWaitEdges kind txnId edges).WaitsInStep := by
  have hothers : ∀ (other : LockKind) (waiter : TransactionId), waiter≠txnId →
      (m.setWaitEdges kind txnId edges).blockers other waiter=m.blockers other waiter := by
    intro other waiter hne
    rw [blockers_setWaitEdges,if_neg fun hboth => hne hboth.2]
  cases kind with
  | table =>
    refine h.refresh {m with
      tableWaitBlockers := m.tableWaitBlockers.insert txnId edges} (fun _ => rfl) ?_
    intro other waiter hne
    rw [← hothers other waiter hne]
    exact (blockers_refreshWaitsFor _ txnId waiter other).symm
  | page =>
    refine h.refresh {m with
      pageWaitBlockers := m.pageWaitBlockers.insert txnId edges} (fun _ => rfl) ?_
    intro other waiter hne
    rw [← hothers other waiter hne]
    exact (blockers_refreshWaitsFor _ txnId waiter other).symm
  | predicate =>
    refine h.refresh {m with
      predicateWaitBlockers := m.predicateWaitBlockers.insert txnId edges} (fun _ => rfl) ?_
    intro other waiter hne
    rw [← hothers other waiter hne]
    exact (blockers_refreshWaitsFor _ txnId waiter other).symm

/-! ## Taking edges away -/

/-- Fewer edges, and the waits still in step with them. -/
structure FewerWaits (m m' : TxnManager P) : Prop where
  inStep : m.WaitsInStep → m'.WaitsInStep
  sub : ∀ (kind : LockKind) (txnId : TransactionId), m'.blockers kind txnId⊆m.blockers kind txnId

/-- Fewer, and fewer again. -/
theorem FewerWaits.trans {m m' m'' : TxnManager P} (h : FewerWaits m m')
    (h' : FewerWaits m' m'') : FewerWaits m m'' where
  inStep hm := h'.inStep (h.inStep hm)
  sub kind txnId := (h'.sub kind txnId).trans (h.sub kind txnId)

/-- Where nothing about the edges is different. -/
theorem FewerWaits.of_eq (hblockers : ∀ (kind : LockKind) (txnId : TransactionId),
      m'.blockers kind txnId=m.blockers kind txnId)
    (hwaits : ∀ txnId : TransactionId, m'.waits txnId=m.waits txnId) : FewerWaits m m' where
  inStep hm txnId := by
    rw [hwaits,hm txnId,hblockers,hblockers,hblockers]
  sub kind txnId := by rw [hblockers]

/-- The same locks have the same waits. -/
theorem SameLocks.fewerWaits (h : SameLocks m m') : FewerWaits m m' := by
  refine FewerWaits.of_eq (fun kind txnId => ?_) h.waitsFor
  cases kind with
  | table => exact h.tableWaitBlockers txnId
  | page => exact h.pageWaitBlockers txnId
  | predicate => exact h.predicateWaitBlockers txnId

/-- One edge is erased. -/
theorem getD_modify_erase (edges : Std.ExtTreeMap ℕ (Finset ℕ) compare)
    (txnId blocker other : ℕ) : ((edges.modify txnId (·.erase blocker))[other]?).getD ∅=
      if other=txnId then ((edges[other]?).getD ∅).erase blocker else (edges[other]?).getD ∅ := by
  rw [Std.ExtTreeMap.getElem?_modify]
  by_cases heq : other=txnId
  · subst heq
    rw [if_pos rfl,if_pos (Std.LawfulEqCmp.compare_eq_iff_eq.mpr rfl)]
    cases edges[other]? with
    | none => simp
    | some found => rfl
  · rw [if_neg heq,if_neg]
    rw [Std.LawfulEqCmp.compare_eq_iff_eq]
    exact fun h => heq h.symm

/-- Nobody waits for the transaction any more. -/
theorem removeWaitDependencyOn_fewerWaits (m : TxnManager P) (blocker : TransactionId) :
    FewerWaits m (m.removeWaitDependencyOn blocker) := by
  unfold removeWaitDependencyOn
  generalize (m.txns.toList.map Prod.fst).filter (·≠blocker)=waiters
  induction waiters generalizing m with
  | nil => exact FewerWaits.of_eq (fun _ _ => rfl) fun _ => rfl
  | cons waiter waiters ih =>
    set edited : TxnManager P := {m with
      tableWaitBlockers := m.tableWaitBlockers.modify waiter (·.erase blocker)
      pageWaitBlockers := m.pageWaitBlockers.modify waiter (·.erase blocker)
      predicateWaitBlockers := m.predicateWaitBlockers.modify waiter (·.erase blocker)}
      with hedited
    have hblockers : ∀ (kind : LockKind) (txnId : TransactionId), edited.blockers kind txnId=
        if txnId=waiter then (m.blockers kind txnId).erase blocker
        else m.blockers kind txnId := by
      intro kind txnId
      cases kind <;> exact getD_modify_erase _ waiter blocker txnId
    refine FewerWaits.trans ⟨fun hm => ?_,fun kind txnId => ?_⟩
      (ih (edited.refreshWaitsFor waiter))
    · exact hm.refresh edited (fun _ => rfl) fun kind txnId hne => by
        rw [hblockers,if_neg hne]
    · rw [blockers_refreshWaitsFor,hblockers]
      split
      · exact Finset.erase_subset _ _
      · exact Finset.Subset.refl _

/-- All edges of a transaction are erased. -/
theorem getD_erase (edges : Std.ExtTreeMap ℕ (Finset ℕ) compare) (txnId other : ℕ) :
    ((edges.erase txnId)[other]?).getD ∅=
      if other=txnId then ∅ else (edges[other]?).getD ∅ := by
  rw [Std.ExtTreeMap.getElem?_erase]
  by_cases heq : other=txnId
  · subst heq
    simp
  · rw [if_neg heq,if_neg]
    rw [Std.LawfulEqCmp.compare_eq_iff_eq]
    exact fun h => heq h.symm

/-- A release leaves fewer edges, and none from the transaction. -/
theorem released_fewerWaits (m : TxnManager P) (txnId : TransactionId) :
    FewerWaits m (m.released txnId) ∧
      ∀ kind : LockKind, (m.released txnId).blockers kind txnId=∅ := by
  unfold released
  dsimp only
  set erased : TxnManager P := {m with
    tableLocks := m.tableLocks.filter fun lock => lock.txnId≠txnId
    pageWriteOwners := m.pageWriteOwners.filter fun _ owner => owner≠txnId
    tableWaitQueues := removeFromQueues m.tableWaitQueues txnId
    pageWriteWaitQueues := removeFromQueues m.pageWriteWaitQueues txnId
    predicateWriteWaitQueues := fun key => (m.predicateWriteWaitQueues key).filter (·≠txnId)
    predicateLocks := m.predicateLocks.filter fun lock => lock.txnId≠txnId
    tableWaitBlockers := m.tableWaitBlockers.erase txnId
    pageWaitBlockers := m.pageWaitBlockers.erase txnId
    predicateWaitBlockers := m.predicateWaitBlockers.erase txnId
    waitsFor := m.waitsFor.erase txnId} with herased
  have hblockers : ∀ (kind : LockKind) (waiter : TransactionId), erased.blockers kind waiter=
      if waiter=txnId then ∅ else m.blockers kind waiter := by
    intro kind waiter
    cases kind <;> exact getD_erase _ txnId waiter
  have hwaits : ∀ waiter : TransactionId, erased.waits waiter=
      if waiter=txnId then ∅ else m.waits waiter := fun waiter => getD_erase _ txnId waiter
  have herase : FewerWaits m erased := by
    constructor
    · intro hm waiter
      rw [hwaits,hblockers,hblockers,hblockers]
      split
      · rfl
      · exact hm waiter
    · intro kind waiter
      rw [hblockers]
      split
      · exact Finset.empty_subset _
      · exact Finset.Subset.refl _
  have hremove := removeWaitDependencyOn_fewerWaits erased txnId
  have hepoch : FewerWaits (erased.removeWaitDependencyOn txnId)
      {erased.removeWaitDependencyOn txnId with
        lockWaitEpoch := (erased.removeWaitDependencyOn txnId).lockWaitEpoch+1} :=
    FewerWaits.of_eq (fun kind _ => by cases kind <;> rfl) fun _ => rfl
  refine ⟨(herase.trans hremove).trans hepoch,fun kind => ?_⟩
  have hsub := (hremove.trans hepoch).sub kind txnId
  rw [hblockers,if_pos rfl] at hsub
  exact Finset.subset_empty.mp hsub

/-- The victim of a deadlock waits for nobody, and nobody waits for more. -/
theorem victimAborted_fewerWaits (m : TxnManager P) (victim : TransactionId)
    (txn : TxnState P) (message : String) :
    FewerWaits m (m.victimAborted victim txn message) ∧
      ∀ kind : LockKind, (m.victimAborted victim txn message).blockers kind victim=∅ := by
  obtain ⟨hfewer,hgone⟩ := released_fewerWaits
    {m with txns := m.txns.insert victim (markVictim message txn)} victim
  refine ⟨FewerWaits.trans ?_ hfewer,hgone⟩
  exact FewerWaits.of_eq (fun kind _ => by cases kind <;> rfl) fun _ => rfl

/-- Fewer edges close no cycle. -/
theorem FewerWaits.acyclic (h : FewerWaits m m') (hm : m.WaitsInStep)
    (hacyclic : Acyclic m.WaitsOn) : Acyclic m'.WaitsOn := by
  refine hacyclic.mono fun txnId blocker hedge => ?_
  obtain ⟨kind,hmem⟩ := (h.inStep hm).waitsOn.mp hedge
  exact hm.waitsOn.mpr ⟨kind,h.sub kind txnId hmem⟩

/-- Fewer edges make no cycle. -/
theorem FewerWaits.waitsBut (h : FewerWaits m m') {kind : LockKind}
    (hacyclic : Acyclic (m.WaitsBut kind requester)) :
    Acyclic (m'.WaitsBut kind requester) := by
  refine hacyclic.mono fun txnId blocker hedge => ?_
  obtain ⟨other,hmem,hkept⟩ := hedge
  exact ⟨other,h.sub other txnId hmem,hkept⟩

end RustSql.V2.TxnManager
