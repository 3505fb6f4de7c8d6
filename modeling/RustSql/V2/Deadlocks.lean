import RustSql.V2.LockOrder
import RustSql.V2.WaitEdges

/-!
# Deadlocks are broken

A request that has to wait adds edges from itself, follows the graph from each of its
blockers, and when it comes back to itself aborts a member of the cycle. It is tried
again until it closes no cycle, so the graph has none when the request returns.
-/

namespace RustSql.V2.TxnManager

variable {P : Type}

/-! ## The search -/

/-- The search is the one for paths in a graph. -/
theorem waitPathFrom_eq (m : TxnManager P) (fuel : ℕ) :
    m.waitPathFrom fuel=pathFrom m.waitSuccessors fuel := by
  induction fuel with
  | zero => rfl
  | succ fuel ih =>
    funext current target visited
    simp only [waitPathFrom,pathFrom,ih]
    refine ite_congr rfl (fun _ => rfl) fun _ => ite_congr rfl (fun _ => rfl) fun _ => ?_
    congr 1
    funext found next
    obtain ⟨_ | path,v⟩ := found
    · dsimp only
      rcases pathFrom m.waitSuccessors fuel next target v with ⟨_ | path,w⟩ <;> rfl
    · rfl

/-- The successors are whom a transaction waits for. -/
theorem mem_waitSuccessors {m : TxnManager P} {txnId blocker : TransactionId} :
    blocker∈m.waitSuccessors txnId ↔ m.WaitsOn txnId blocker :=
  mem_ascending

variable {current target requester victim : TransactionId} {kind : LockKind} {txn : TxnState P}
    {Meets : TxnManager P → TransactionId → Prop}

/-- When the search finds no path there is none. -/
theorem no_path_of_waitPath {m : TxnManager P} (h : m.waitPath current target=none) :
    ¬Relation.ReflTransGen m.WaitsOn current target := by
  have hsources : ∀ txnId : TransactionId, m.waitSuccessors txnId≠[] →
      txnId∈(m.waitsFor.toList.map Prod.fst).toFinset := by
    intro txnId hsome
    rw [List.mem_toFinset,List.mem_map]
    cases hget : m.waitsFor[txnId]? with
    | none => exact absurd (by rw [waitSuccessors,hget]; rfl) hsome
    | some blockers =>
      exact ⟨⟨txnId,blockers⟩,Std.ExtTreeMap.mem_toList_iff_getElem?_eq_some.mpr hget,rfl⟩
  have hcard : (m.waitsFor.toList.map Prod.fst).toFinset.card < m.waitsFor.size+2 := by
    have hle := List.toFinset_card_le (m.waitsFor.toList.map Prod.fst)
    rw [List.length_map,Std.ExtTreeMap.length_toList] at hle
    omega
  have hnone : (pathFrom m.waitSuccessors (m.waitsFor.size+2) current target ∅).1=none := by
    rw [← waitPathFrom_eq]
    exact h
  have hpath := no_path_of_pathFrom_none hsources hcard hnone
  intro hreach
  exact hpath (Relation.ReflTransGen.mono (fun _ _ => mem_waitSuccessors.mpr) _ _ hreach)

/-- Whoever is on a path waits for somebody, except for its end. -/
theorem waits_of_mem_waitPath {m : TxnManager P} {current target txnId : TransactionId}
    {path : List TransactionId} (h : m.waitPath current target=some path) (hmem : txnId∈path) :
    txnId=target ∨ m.waits txnId≠∅ := by
  rcases hsearch : pathFrom m.waitSuccessors (m.waitsFor.size+2) current target ∅ with
    ⟨found,visited⟩
  have hfound : found=some path := by
    rw [waitPath,waitPathFrom_eq,hsearch] at h
    exact h
  rw [hfound] at hsearch
  rcases pathFrom_some hsearch txnId hmem with heq | hsome
  · exact Or.inl heq
  · refine Or.inr fun hnone => hsome ?_
    unfold waits at hnone
    rw [waitSuccessors,hnone]
    rfl

/-! ## The victim -/

/-- Looking up every element of a list. -/
theorem mem_of_mapM {α β : Type} {f : α → Option β} {xs : List α} {ys : List β}
    (h : xs.mapM f=some ys) : ys.length=xs.length ∧ ∀ y∈ys, ∃ x∈xs, f x=some y := by
  induction xs generalizing ys with
  | nil =>
    simp only [List.mapM_nil] at h
    obtain rfl := Option.some.inj h
    exact ⟨rfl,fun _ h => nomatch h⟩
  | cons x xs ih =>
    rw [List.mapM_cons] at h
    obtain ⟨y,hy,h⟩ := Option.bind_eq_some_iff.mp h
    obtain ⟨rest,hrest,h⟩ := Option.bind_eq_some_iff.mp h
    obtain rfl := Option.some.inj h
    obtain ⟨hlength,hmem⟩ := ih hrest
    refine ⟨by simp [hlength],fun z hz => ?_⟩
    rcases List.mem_cons.mp hz with rfl | hz
    · exact ⟨x,List.mem_cons_self,hy⟩
    · obtain ⟨w,hw,hfw⟩ := hmem z hz
      exact ⟨w,List.mem_cons_of_mem x hw,hfw⟩

/-- Keeping one of two candidates, one after the other. -/
theorem foldl_choice {α : Type} {choose : Option α → α → Option α}
    (hchoose : ∀ kept candidate, choose (some kept) candidate=some kept ∨
      choose (some kept) candidate=some candidate) (xs : List α) (first : α) :
    ∃ best, xs.foldl choose (some first)=some best ∧ (best=first ∨ best∈xs) := by
  induction xs generalizing first with
  | nil => exact ⟨first,rfl,Or.inl rfl⟩
  | cons x xs ih =>
    rw [List.foldl_cons]
    rcases hchoose first x with hkept | htaken
    · rw [hkept]
      obtain ⟨best,hbest,heq | hmem⟩ := ih first
      · exact ⟨best,hbest,Or.inl heq⟩
      · exact ⟨best,hbest,Or.inr (List.mem_cons_of_mem x hmem)⟩
    · rw [htaken]
      obtain ⟨best,hbest,hmem⟩ := ih x
      exact ⟨best,hbest,Or.inr (List.mem_cons.mpr hmem)⟩

/-- A cycle has a victim: a registered member that waits for somebody, or the
requester. -/
theorem chooseDeadlockVictim_spec {m : TxnManager P} (hm : m.Registered)
    {requester blocker : TransactionId} (hcycle : m.waitPath blocker requester≠none) :
    (chooseDeadlockVictim requester blocker m).1=.stuck ∨
    ∃ victim txn, chooseDeadlockVictim requester blocker m=(.ok (some victim),m) ∧
      m.txns[victim]?=some txn ∧ (victim=requester ∨ m.waits victim≠∅) := by
  unfold chooseDeadlockVictim
  cases hpath : m.waitPath blocker requester with
  | none => exact absurd hpath hcycle
  | some path =>
    dsimp only
    cases hmembers : (ascending (path++[requester]).toFinset).mapM fun txnId =>
        m.txns[txnId]? with
    | none => exact Or.inl rfl
    | some members =>
      dsimp only
      obtain ⟨hlength,hmem⟩ := mem_of_mapM hmembers
      have hsome : members≠[] := by
        rintro rfl
        have hin : requester∈ascending (path++[requester]).toFinset := by
          rw [mem_ascending,List.mem_toFinset]
          exact List.mem_append_right path List.mem_cons_self
        exact List.ne_nil_of_mem hin (List.length_eq_zero_iff.mp hlength.symm)
      cases members with
      | nil => exact absurd rfl hsome
      | cons first rest =>
        rw [List.map_cons,List.foldl_cons]
        dsimp only
        generalize hchoose : List.foldl _ _ _=chosen
        obtain ⟨best,hbest,hin⟩ : ∃ best, chosen=some best ∧
            (best=(m.rollbackCost first,first) ∨
              best∈rest.map fun txn => (m.rollbackCost txn,txn)) := by
          rw [← hchoose]
          refine foldl_choice (fun kept candidate => ?_) _ _
          by_cases hbetter : victimBefore requester candidate kept
          · exact Or.inr (if_pos hbetter)
          · exact Or.inl (if_neg hbetter)
        subst hbest
        have hmember : best.2∈first::rest := by
          rcases hin with rfl | hin
          · exact List.mem_cons_self
          · obtain ⟨txn,htxn,rfl⟩ := List.mem_map.mp hin
            exact List.mem_cons_of_mem first htxn
        obtain ⟨txnId,htxnId,hget⟩ := hmem best.2 hmember
        have hkey := hm.keyed hget
        rw [mem_ascending,List.mem_toFinset,List.mem_append] at htxnId
        refine Or.inr ⟨best.2.id,best.2,rfl,by rw [hkey]; exact hget,?_⟩
        rw [hkey]
        rcases htxnId with hinpath | hend
        · exact waits_of_mem_waitPath hpath hinpath
        · exact Or.inl (List.mem_singleton.mp hend)

/-! ## Breaking deadlocks -/

/-- How the search from the blockers of a request ends. -/
inductive Broken (requester : TransactionId) (blockers : List TransactionId)
    (m : TxnManager P) : Outcome Bool × TxnManager P → Prop
  /-- Nobody ahead waits for the requester. -/
  | free (h : ∀ blocker∈blockers, ¬Relation.ReflTransGen m.WaitsOn blocker requester) :
      Broken requester blockers m (.ok false,m)
  /-- Somebody else, who waited, has been aborted. -/
  | other {victim : TransactionId} {txn : TxnState P} (hget : m.txns[victim]?=some txn)
      (message : String) (hne : victim≠requester) (hwaits : m.waits victim≠∅) :
      Broken requester blockers m (.ok true,m.victimAborted victim txn message)
  /-- The requester has been aborted. -/
  | self {txn : TxnState P} (hget : m.txns[requester]?=some txn) (message : String)
      (error : DbError) :
      Broken requester blockers m (.err error,m.victimAborted requester txn message)
  /-- A member of the cycle is not registered. -/
  | lost (m' : TxnManager P) : Broken requester blockers m (.stuck,m')

/-- No path leads back to the requester when the cycles are broken. -/
theorem breakDeadlocks_broken {m : TxnManager P} (hm : m.Registered) (requester : TransactionId)
    (context : TransactionId → TransactionId → String) (blockers : List TransactionId) :
    Broken requester blockers m (breakDeadlocks requester context blockers m) := by
  induction blockers with
  | nil => exact Broken.free fun _ h => nomatch h
  | cons blocker blockers ih =>
    unfold breakDeadlocks
    rw [Eff.bind_eq,Eff.get_eq]
    dsimp only
    by_cases hpath : m.hasWaitPath blocker requester
    · rw [if_pos hpath]
      have hcycle : m.waitPath blocker requester≠none := by
        intro hnone
        simp [hasWaitPath,hnone] at hpath
      rcases chooseDeadlockVictim_spec hm hcycle with hpanic | ⟨victim,txn,hchoose,hget,hwaits⟩
      · have hends : ∃ m', resolveDeadlock requester blocker (context blocker) m=(.stuck,m') := by
          rcases hrun : chooseDeadlockVictim requester blocker m with ⟨o,m'⟩
          rw [hrun] at hpanic
          obtain rfl : o=.stuck := hpanic
          exact ⟨m',Eff.bind_of_stuck hrun⟩
        obtain ⟨m',hends⟩ := hends
        rw [Eff.bind_of_stuck hends]
        exact Broken.lost m'
      · have hresolve : resolveDeadlock requester blocker (context blocker) m=
            (if victim=requester then Eff.fail (.txn (context blocker victim)) else pure true)
              (m.victimAborted victim txn (context blocker victim)) := by
          rw [resolveDeadlock,Eff.bind_of_ok hchoose]
          dsimp only
          rw [Eff.bind_of_ok (abortDeadlockVictim_run hget (context blocker victim))]
        by_cases heq : victim=requester
        · subst heq
          rw [if_pos rfl] at hresolve
          rw [Eff.bind_of_err hresolve]
          exact Broken.self hget (context blocker victim) _
        · rw [if_neg heq] at hresolve
          rw [Eff.bind_of_ok hresolve]
          exact Broken.other hget (context blocker victim) heq (hwaits.resolve_left heq)
    · rw [if_neg hpath]
      have hnone : m.waitPath blocker requester=none := by
        unfold hasWaitPath at hpath
        simpa using hpath
      generalize breakDeadlocks requester context blockers m=result at ih ⊢
      cases ih with
      | free h =>
        refine Broken.free fun other hother => ?_
        rcases List.mem_cons.mp hother with rfl | hother
        · exact no_path_of_waitPath hnone
        · exact h other hother
      | other hget message hne hwaits => exact Broken.other hget message hne hwaits
      | self hget message error => exact Broken.self hget message error
      | lost m' => exact Broken.lost m'

/-! ## Requests -/

/-- Transactions are on file, the waits are in step, and nobody waits for itself. -/
structure WaitsOk (m : TxnManager P) : Prop where
  registered : m.Registered
  inStep : m.WaitsInStep
  acyclic : Acyclic m.WaitsOn

/-- The same, leaving aside what a request has just added and will replace. -/
structure AlmostOk (m : TxnManager P) (kind : LockKind) (requester : TransactionId) : Prop where
  registered : m.Registered
  inStep : m.WaitsInStep
  acyclic : Acyclic (m.WaitsBut kind requester)

/-- All is well but for the requester's edges. -/
theorem WaitsOk.almost {m : TxnManager P} (h : m.WaitsOk) (kind : LockKind)
    (requester : TransactionId) : m.AlmostOk kind requester :=
  ⟨h.registered,h.inStep,h.acyclic.mono fun _ _ hedge => h.inStep.waitsBut hedge⟩

/-- Where the call returns, nobody waits for itself. -/
def Settles (m : TxnManager P) (x : Eff (TxnManager P) Unit) : Prop :=
  ∀ m', Eff.returns x m=some m' → m'.WaitsOk

/-- A step that leaves transactions and edges as they are. -/
structure SameEdges (m m' : TxnManager P) : Prop where
  txns : m'.txns=m.txns
  nextTxnId : m'.nextTxnId=m.nextTxnId
  blockers : ∀ (kind : LockKind) (txnId : TransactionId),
    m'.blockers kind txnId=m.blockers kind txnId
  waits : ∀ txnId : TransactionId, m'.waits txnId=m.waits txnId

/-- The same transactions are registered. -/
theorem SameEdges.registered {m m' : TxnManager P} (h : SameEdges m m') (hm : m.Registered) :
    m'.Registered := by
  constructor
  · intro txnId txn hget
    exact hm.keyed (by rw [← h.txns]; exact hget)
  · intro txnId txn hget
    rw [h.nextTxnId]
    exact hm.known (by rw [← h.txns]; exact hget)

/-- The same edges are as good as before. -/
theorem SameEdges.almost {m m' : TxnManager P}
    (h : SameEdges m m') (hm : m.AlmostOk kind requester) : m'.AlmostOk kind requester where
  registered := h.registered hm.registered
  inStep := (FewerWaits.of_eq h.blockers h.waits).inStep hm.inStep
  acyclic := (FewerWaits.of_eq h.blockers h.waits).waitsBut hm.acyclic

/-- New edges register nobody. -/
theorem registered_setWaitEdges {m : TxnManager P} (hm : m.Registered) (kind : LockKind)
    (txnId : TransactionId) (edges : Finset TransactionId) :
    (m.setWaitEdges kind txnId edges).Registered := by
  cases kind <;> exact ⟨hm.keyed,hm.known⟩

/-- New edges of the requester are left aside. -/
theorem AlmostOk.setWaitEdges {m : TxnManager P}
    (h : m.AlmostOk kind requester) (edges : Finset TransactionId) :
    (m.setWaitEdges kind requester edges).AlmostOk kind requester where
  registered := registered_setWaitEdges h.registered kind requester edges
  inStep := h.inStep.setWaitEdges kind requester edges
  acyclic := by
    refine h.acyclic.mono fun txnId blocker hedge => ?_
    obtain ⟨other,hmem,hkept⟩ := hedge
    rw [blockers_setWaitEdges,if_neg fun hboth => hkept ⟨hboth.2,hboth.1⟩] at hmem
    exact ⟨other,hmem,hkept⟩

/-- A requester that waits for nobody any more on account of the kind. -/
theorem AlmostOk.clear {m : TxnManager P}
    (h : m.AlmostOk kind requester) (hnone : m.blockers kind requester=∅) : m.WaitsOk where
  registered := h.registered
  inStep := h.inStep
  acyclic := by
    refine h.acyclic.mono fun txnId blocker hedge => ?_
    obtain ⟨other,hmem⟩ := h.inStep.waitsOn.mp hedge
    refine ⟨other,hmem,?_⟩
    rintro ⟨rfl,rfl⟩
    rw [hnone] at hmem
    exact Finset.notMem_empty _ hmem

/-- Without the requester's edges all is well. -/
theorem AlmostOk.granted {m : TxnManager P}
    (h : m.AlmostOk kind requester) : (m.setWaitEdges kind requester ∅).WaitsOk :=
  (h.setWaitEdges ∅).clear (by rw [blockers_setWaitEdges,if_pos ⟨rfl,rfl⟩])

/-- Edges that cannot be followed back to the requester close no cycle. -/
theorem AlmostOk.free {m : TxnManager P}
    (h : m.AlmostOk kind requester) (hfree : ∀ blocker∈m.blockers kind requester,
      ¬Relation.ReflTransGen m.WaitsOn blocker requester) : m.WaitsOk where
  registered := h.registered
  inStep := h.inStep
  acyclic := by
    refine h.acyclic.extend fun txnId blocker hedge hnew => ?_
    obtain ⟨other,hmem⟩ := h.inStep.waitsOn.mp hedge
    have hadded : txnId=requester ∧ other=kind := by
      by_contra hkept
      exact hnew ⟨other,hmem,hkept⟩
    obtain ⟨rfl,rfl⟩ := hadded
    exact hfree blocker hmem

/-- Aborting a member leaves less. -/
theorem AlmostOk.victimAborted {m : TxnManager P} (h : m.AlmostOk kind requester)
    (hget : m.txns[victim]?=some txn) (message : String) :
    (m.victimAborted victim txn message).AlmostOk kind requester where
  registered := (victimAborted_steps hget message).registered h.registered
  inStep := (victimAborted_fewerWaits m victim txn message).1.inStep h.inStep
  acyclic := (victimAborted_fewerWaits m victim txn message).1.waitsBut h.acyclic

/-- Waiting: the new edges close no cycle, or the requester is aborted, or the request
is tried again after somebody else who waited has been. -/
theorem Settles.wait {m : TxnManager P}
    {enqueue : TxnManager P → TxnManager P} (h : m.AlmostOk kind requester)
    (henqueue : SameEdges m (enqueue m)) {edges : Finset TransactionId}
    {blockers : List TransactionId} (hedges : ∀ blocker∈edges, blocker∈blockers)
    (context : TransactionId → TransactionId → String) {retry : Eff (TxnManager P) Unit}
    (error : DbError)
    (hretry : ∀ (victim : TransactionId) (txn : TxnState P) (message : String),
      victim≠requester → ((enqueue m).setWaitEdges kind requester edges).txns[victim]?=some txn →
      Settles (((enqueue m).setWaitEdges kind requester edges).victimAborted victim txn message)
        retry) :
    Settles m (do
      Eff.modify enqueue
      Eff.modify fun m => m.setWaitEdges kind requester edges
      if ← breakDeadlocks requester context blockers then retry else Eff.fail error) := by
  set waiting := (enqueue m).setWaitEdges kind requester edges with hwaiting
  have hbroken := breakDeadlocks_broken (registered_setWaitEdges
    (henqueue.registered h.registered) kind requester edges) requester context blockers
  have halmost : waiting.AlmostOk kind requester := (henqueue.almost h).setWaitEdges edges
  rw [← hwaiting] at hbroken
  intro m' hreturns
  set rest : Eff (TxnManager P) Unit :=
    do if ← breakDeadlocks requester context blockers then retry else Eff.fail error with hrest
  have hreturns : Eff.returns rest waiting=some m' := hreturns
  rcases hrun : breakDeadlocks requester context blockers waiting with ⟨o,m₁⟩
  rw [hrun] at hbroken
  cases hbroken with
  | free hfree =>
    have hends : rest waiting=(.err error,waiting) := Eff.bind_of_ok hrun
    rw [Eff.returns,hends] at hreturns
    obtain rfl := Option.some.inj hreturns
    refine halmost.free fun blocker hmem => hfree blocker (hedges blocker ?_)
    rwa [hwaiting,blockers_setWaitEdges,if_pos ⟨rfl,rfl⟩] at hmem
  | @other victim txn hget message hne hwaits =>
    have hgoes : rest waiting=retry (waiting.victimAborted victim txn message) :=
      Eff.bind_of_ok hrun
    rw [Eff.returns,hgoes] at hreturns
    exact hretry victim txn message hne hget m' hreturns
  | @self txn hget message error' =>
    have hends : rest waiting=(.err error',waiting.victimAborted requester txn message) :=
      Eff.bind_of_err hrun
    rw [Eff.returns,hends] at hreturns
    obtain rfl := Option.some.inj hreturns
    exact (halmost.victimAborted hget message).clear
      ((victimAborted_fewerWaits waiting requester txn message).2 kind)
  | lost =>
    have hends : rest waiting=(.stuck,m₁) := Eff.bind_of_stuck hrun
    rw [Eff.returns,hends] at hreturns
    cases hreturns

/-- Reading the state first, where a failed reading leaves everything in order. -/
theorem Settles.bind_reads {α : Type} {m : TxnManager P} {f : TxnManager P → Except DbError α}
    {x : α → Eff (TxnManager P) Unit} (hok : ∀ a, f m=.ok a → Settles m (x a))
    (herror : ∀ e, f m=.error e → m.WaitsOk) : Settles m (Eff.reads f >>= x) := by
  intro m' hreturns
  rw [Eff.returns,Eff.bind_eq,Eff.reads] at hreturns
  cases hf : f m with
  | ok a =>
    rw [hf] at hreturns
    exact hok a hf m' hreturns
  | error e =>
    rw [hf] at hreturns
    obtain rfl := Option.some.inj hreturns
    exact herror e hf

/-- The state is read first. -/
theorem Settles.bind_get {m : TxnManager P} {x : TxnManager P → Eff (TxnManager P) Unit}
    (h : Settles m (x m)) : Settles m (Eff.get >>= x) :=
  h

/-- An aborted victim is still known. -/
theorem Knows.victimAborted {m : TxnManager P} {victim txnId : TransactionId}
    (h : m.Knows txnId) (message : String) :
    (m.victimAborted victim txn message).Knows txnId := by
  obtain ⟨found,hget⟩ := h
  unfold Knows
  rw [TxnManager.victimAborted,(released_spec _ victim).txns,Std.ExtTreeMap.getElem?_insert]
  split
  · exact ⟨_,rfl⟩
  · exact ⟨found,hget⟩

/-- A request that is tried again gets past its first checks: the requester runs and
the owners it meets are on file. -/
structure Passes (m : TxnManager P) (requester : TransactionId)
    (Meets : TxnManager P → TransactionId → Prop) : Prop where
  active : m.Active requester
  known : ∀ owner : TransactionId, Meets m owner → m.Knows owner

/-- Who passes is active. -/
theorem Passes.ensureActive {m : TxnManager P} (h : m.Passes requester Meets) (e : DbError) :
    m.ensureActive requester≠.error e := by
  rw [ensureActive_of_active h.active]
  exact fun h => nomatch h

/-- Aborting somebody else does not stop the requester. -/
theorem Passes.victimAborted {m m' : TxnManager P}
    (h : m.Passes requester Meets) (hsame : m'.txns=m.txns) (hne : victim≠requester)
    (message : String)
    (hmeets : ∀ owner, Meets (m'.victimAborted victim txn message) owner → Meets m owner) :
    (m'.victimAborted victim txn message).Passes requester Meets where
  active := by
    refine (active_victimAborted message hne.symm).mpr ?_
    obtain ⟨found,hget,hactive⟩ := h.active
    exact ⟨found,by rw [hsame]; exact hget,hactive⟩
  known owner howner := by
    obtain ⟨found,hget⟩ := h.known owner (hmeets owner howner)
    have hknows : m'.Knows owner := ⟨found,by rw [hsame]; exact hget⟩
    exact hknows.victimAborted message

/-- The owner of the page. -/
def MeetsPage (pageId : PageId) (m : TxnManager P) (owner : TransactionId) : Prop :=
  m.pageWriteOwners[pageId]?=some owner

/-- Waiting in a queue, before the edges are set. -/
theorem sameEdges_enqueuePageWaiter (m : TxnManager P) (pageId : PageId)
    (txnId : TransactionId) : SameEdges m (m.enqueuePageWaiter pageId txnId) :=
  ⟨rfl,rfl,fun kind _ => by cases kind <;> rfl,fun _ => rfl⟩

/-- Leaving a queue changes no edges. -/
theorem sameEdges_dequeueFrontWaiter (m : TxnManager P) (pageId : PageId)
    (txnId : TransactionId) : SameEdges m (m.dequeueFrontWaiter pageId txnId) := by
  rw [dequeueFrontWaiter_eq]
  exact ⟨rfl,rfl,fun kind _ => by cases kind <;> rfl,fun _ => rfl⟩

/-- A request for a page leaves no cycle. -/
theorem acquirePageWriteFrom_settles (fuel : ℕ) {m : TxnManager P} {txnId : TransactionId}
    {pageId : PageId} (h : m.AlmostOk .page txnId)
    (hearly : m.WaitsOk ∨ m.Passes txnId (MeetsPage pageId)) :
    Settles m (acquirePageWriteFrom fuel txnId pageId) := by
  induction fuel generalizing m with
  | zero => exact fun m' hreturns => nomatch hreturns
  | succ fuel ih =>
    have hactive : ∀ e, m.ensureActive txnId=.error e → m.WaitsOk := fun e he =>
      hearly.resolve_right fun hpasses => hpasses.ensureActive e he
    have hqueued := sameEdges_enqueuePageWaiter m pageId txnId
    -- The request is tried again when somebody else has been aborted.
    have hagain : m.Passes txnId (MeetsPage pageId) →
        ∀ (edges : Finset TransactionId) (victim : TransactionId) (txn : TxnState P)
          (message : String), victim≠txnId →
        ((m.enqueuePageWaiter pageId txnId).setWaitEdges .page txnId edges).txns[victim]?=
          some txn →
        Settles (((m.enqueuePageWaiter pageId txnId).setWaitEdges .page txnId
          edges).victimAborted victim txn message) (acquirePageWriteFrom fuel txnId pageId) := by
      intro hpasses edges victim txn message hne hget
      have hwaiting := (hqueued.almost h).setWaitEdges edges
      have hsame : ((m.enqueuePageWaiter pageId txnId).setWaitEdges .page txnId edges).txns=
          m.txns := rfl
      refine ih (hwaiting.victimAborted hget message) (Or.inr ?_)
      refine hpasses.victimAborted hsame hne message fun owner howner => ?_
      unfold MeetsPage at howner
      rw [TxnManager.victimAborted,(released_spec _ victim).pageWriteOwners,
        Std.ExtTreeMap.getElem?_filter'] at howner
      exact (Option.filter_eq_some_iff.mp howner).1
    have hgranted : ∀ {m₁ : TxnManager P}, SameEdges (m.dequeueFrontWaiter pageId txnId) m₁ →
        (m₁.setPageWaitEdges txnId ∅).WaitsOk := fun hsame =>
      (hsame.almost ((sameEdges_dequeueFrontWaiter m pageId txnId).almost h)).granted
    unfold acquirePageWriteFrom
    refine Settles.bind_get ?_
    dsimp only
    split
    · next hfree =>
      refine Settles.bind_reads (fun _ hok => ?_) hactive
      split
      · next front hfront =>
        refine Settles.wait h hqueued (by simp) _ _ (hagain ⟨ensureActive_ok hok,?_⟩ {front})
        intro owner howner
        rw [MeetsPage,hfree] at howner
        cases howner
      · intro m' hreturns
        obtain rfl := Eff.returns_eq_some hreturns
        exact hgranted ⟨rfl,rfl,fun kind _ => by cases kind <;> rfl,fun _ => rfl⟩
    · next owner howner =>
      split
      · intro m' hreturns
        obtain rfl := Eff.returns_eq_some hreturns
        exact hgranted ⟨rfl,rfl,fun _ _ => rfl,fun _ => rfl⟩
      · refine Settles.bind_reads (fun _ hok => ?_) hactive
        refine Settles.bind_reads (fun txn hknown => ?_) fun e he => ?_
        · refine Settles.wait h hqueued (by simp) _ _ (hagain ⟨ensureActive_ok hok,?_⟩ {owner})
          intro other hother
          rw [MeetsPage,howner] at hother
          obtain rfl := Option.some.inj hother
          exact ⟨txn,get_ok hknown⟩
        · refine hearly.resolve_right fun hpasses => ?_
          obtain ⟨txn,hget⟩ := get_of_knows (hpasses.known owner howner)
          rw [hget] at he
          cases he

/-- A request for a lock that has been looked up: the owners it meets decide whether
the lookup returns. -/
theorem Passes.lookup {m : TxnManager P} {requester : TransactionId}
    {Meets : TxnManager P → TransactionId → Prop} (h : m.Passes requester Meets)
    {lookup : Except DbError (Finset TransactionId)}
    (htotal : (∃ blockers, lookup=.ok blockers) ↔ ∀ owner, Meets m owner → m.Knows owner)
    (e : DbError) : lookup≠.error e := by
  obtain ⟨blockers,hok⟩ := htotal.mpr h.known
  rw [hok]
  exact fun h => nomatch h

/-- Nor does a queue for a table have any. -/
theorem sameEdges_enqueueTableWaiter (m : TxnManager P) (table : String)
    (txnId : TransactionId) : SameEdges m (m.enqueueTableWaiter table txnId) :=
  ⟨rfl,rfl,fun kind _ => by cases kind <;> rfl,fun _ => rfl⟩

/-- A request for a table leaves no cycle. -/
theorem acquireTableLockFrom_settles (fuel : ℕ) {m : TxnManager P} {txnId : TransactionId}
    {table : String} {mode : TableLockMode} (h : m.AlmostOk .table txnId)
    (hearly : m.WaitsOk ∨ m.Passes txnId (MeetsTable txnId table)) :
    Settles m (acquireTableLockFrom fuel txnId table mode) := by
  induction fuel generalizing m with
  | zero => exact fun m' hreturns => nomatch hreturns
  | succ fuel ih =>
    have hqueued := sameEdges_enqueueTableWaiter m table txnId
    have hagain : m.Passes txnId (MeetsTable txnId table) →
        ∀ (edges : Finset TransactionId) (victim : TransactionId) (txn : TxnState P)
          (message : String), victim≠txnId →
        ((m.enqueueTableWaiter table txnId).setWaitEdges .table txnId edges).txns[victim]?=
          some txn →
        Settles (((m.enqueueTableWaiter table txnId).setWaitEdges .table txnId
          edges).victimAborted victim txn message)
          (acquireTableLockFrom fuel txnId table mode) := by
      intro hpasses edges victim txn message hne hget
      have hwaiting := (hqueued.almost h).setWaitEdges edges
      have hsame : ((m.enqueueTableWaiter table txnId).setWaitEdges .table txnId edges).txns=
          m.txns := rfl
      refine ih (hwaiting.victimAborted hget message) (Or.inr ?_)
      refine hpasses.victimAborted hsame hne message fun owner howner => ?_
      obtain ⟨lock,hmem,hfacts⟩ := howner
      rw [TxnManager.victimAborted,(released_spec _ victim).tableLocks] at hmem
      exact ⟨lock,(List.mem_filter.mp hmem).1,hfacts⟩
    unfold acquireTableLockFrom
    refine Settles.bind_reads (fun _ hok => ?_) fun e he =>
      hearly.resolve_right fun hpasses => hpasses.ensureActive e he
    refine Settles.bind_reads (fun blockers hlookup => ?_) fun e he =>
      hearly.resolve_right fun hpasses =>
        hpasses.lookup conflictingTableLockTxns_total e he
    have hpasses : m.Passes txnId (MeetsTable txnId table) :=
      ⟨ensureActive_ok hok,conflictingTableLockTxns_total.mp ⟨blockers,hlookup⟩⟩
    refine Settles.bind_get ?_
    split
    · dsimp only
      split
      · next front hfront =>
        exact Settles.wait h hqueued (by simp) _ _ (hagain hpasses {front})
      · intro m' hreturns
        obtain rfl := Eff.returns_eq_some hreturns
        change (((m.dequeueTableWaiter table txnId).setTableWaitEdges txnId ∅).upsertTableLock
          txnId table mode).WaitsOk
        rw [upsertTableLock_eq,dequeueTableWaiter_eq]
        have hgranted := h.granted
        exact ⟨⟨hgranted.registered.keyed,hgranted.registered.known⟩,hgranted.inStep,
          hgranted.acyclic⟩
    · exact Settles.wait h hqueued (fun blocker hmem => mem_ascending.mpr hmem) _ _
        (hagain hpasses blockers)

/-- A queue for a predicate has no edges. -/
theorem sameEdges_enqueuePredicateWaiter (m : TxnManager P) (waitKey : PredicateWriteKey)
    (txnId : TransactionId) : SameEdges m (m.enqueuePredicateWaiter waitKey txnId) :=
  ⟨rfl,rfl,fun kind _ => by cases kind <;> rfl,fun _ => rfl⟩

/-- A writer that checks predicates leaves no cycle. -/
theorem checkWriteConflictsFrom_settles (fuel : ℕ) {m : TxnManager P} {txnId : TransactionId}
    {table : String} {indexKeys : List (String × List Value)} (h : m.AlmostOk .predicate txnId)
    (hearly : m.WaitsOk ∨ m.Passes txnId (MeetsPredicate txnId table)) :
    Settles m (checkWriteConflictsFrom fuel txnId table indexKeys) := by
  induction fuel generalizing m with
  | zero => exact fun m' hreturns => nomatch hreturns
  | succ fuel ih =>
    set waitKey := predicateWriteKey table indexKeys with hwaitKey
    have hqueued := sameEdges_enqueuePredicateWaiter m waitKey txnId
    have hagain : m.Passes txnId (MeetsPredicate txnId table) →
        ∀ (edges : Finset TransactionId) (victim : TransactionId) (txn : TxnState P)
          (message : String), victim≠txnId →
        ((m.enqueuePredicateWaiter waitKey txnId).setWaitEdges .predicate txnId
          edges).txns[victim]?=some txn →
        Settles (((m.enqueuePredicateWaiter waitKey txnId).setWaitEdges .predicate txnId
          edges).victimAborted victim txn message)
          (checkWriteConflictsFrom fuel txnId table indexKeys) := by
      intro hpasses edges victim txn message hne hget
      have hwaiting := (hqueued.almost h).setWaitEdges edges
      have hsame : ((m.enqueuePredicateWaiter waitKey txnId).setWaitEdges .predicate txnId
          edges).txns=m.txns := rfl
      refine ih (hwaiting.victimAborted hget message) (Or.inr ?_)
      refine hpasses.victimAborted hsame hne message fun owner howner => ?_
      obtain ⟨lock,hmem,hfacts⟩ := howner
      rw [TxnManager.victimAborted,(released_spec _ victim).predicateLocks] at hmem
      exact ⟨lock,(List.mem_filter.mp hmem).1,hfacts⟩
    unfold checkWriteConflictsFrom
    refine Settles.bind_reads (fun _ hok => ?_) fun e he =>
      hearly.resolve_right fun hpasses => hpasses.ensureActive e he
    refine Settles.bind_reads (fun blockers hlookup => ?_) fun e he =>
      hearly.resolve_right fun hpasses =>
        hpasses.lookup conflictingPredicateLockTxns_total e he
    have hpasses : m.Passes txnId (MeetsPredicate txnId table) :=
      ⟨ensureActive_ok hok,conflictingPredicateLockTxns_total.mp ⟨blockers,hlookup⟩⟩
    refine Settles.bind_get ?_
    split
    · split
      · next front hfront =>
        exact Settles.wait h hqueued (by simp) _ _ (hagain hpasses {front})
      · intro m' hreturns
        obtain rfl := Eff.returns_eq_some hreturns
        have hgranted := h.granted
        exact ⟨⟨hgranted.registered.keyed,hgranted.registered.known⟩,hgranted.inStep,
          hgranted.acyclic⟩
    · exact Settles.wait h hqueued (fun blocker hmem => mem_ascending.mpr hmem) _ _
        (hagain hpasses blockers)

/-! ## Runs -/

/-- Fewer edges make no cycle. -/
theorem WaitsOk.fewer {m m' : TxnManager P} (h : m.WaitsOk) (hregistered : m'.Registered)
    (hfewer : FewerWaits m m') : m'.WaitsOk :=
  ⟨hregistered,hfewer.inStep h.inStep,hfewer.acyclic h.inStep h.acyclic⟩

/-- A predicate lock makes none. -/
theorem acquirePredicateLock_waitsOk {m : TxnManager P} (h : m.WaitsOk) (lock : PredicateLock) :
    (acquirePredicateLock lock.txnId lock m).2.WaitsOk := by
  rcases acquirePredicateLock_cases m lock with hsame | ⟨hrun,-⟩
  · rw [hsame]
    exact h
  · rw [hrun]
    exact ⟨⟨h.registered.keyed,h.registered.known⟩,h.inStep,h.acyclic⟩

/-- `acquire_table_lock` leaves no cycle. -/
theorem acquireTableLock_settles {m : TxnManager P} (h : m.WaitsOk) (txnId : TransactionId)
    (table : String) (mode : TableLockMode) : Settles m (acquireTableLock txnId table mode) :=
  acquireTableLockFrom_settles (m.txns.size+1) (h.almost .table txnId) (Or.inl h)

/-- Every call that returns leaves nobody waiting for itself. -/
theorem WaitsOk.call {m m' : TxnManager P} (h : m.WaitsOk) {call : ManagerCall P}
    (hreturns : Eff.returns call.run m=some m') : m'.WaitsOk := by
  by_cases hcall : call.IsBookkeeping
  · have hbooks := Eff.guarantee_returns (run_books m hcall) hreturns
    exact h.fewer (hbooks.registered h.registered) hbooks.sameLocks.fewerWaits
  cases call with
  | begin' | beginWithId | commit | reserveCommitTs | finalizeCommit | abort | refreshSnapshot |
    purgeFinishedTransactionsUpTo | syncNextRowIds | allocateRowId | replacePageWriteSet |
    recordUndo | takeUndoRecords | clearTerminalError | completePurgeBatch =>
    exact absurd trivial hcall
  | acquirePageWrite txnId pageId =>
    exact acquirePageWriteFrom_settles (m.txns.size+1) (h.almost .page txnId) (Or.inl h) m'
      hreturns
  | acquireTableLock txnId table mode =>
    exact acquireTableLock_settles h txnId table mode m' hreturns
  | checkWriteConflicts txnId table indexKeys =>
    exact checkWriteConflictsFrom_settles (m.txns.size+1) (h.almost .predicate txnId)
      (Or.inl h) m' hreturns
  | acquirePredicateLock lock =>
    obtain rfl := Eff.returns_eq_some hreturns
    exact acquirePredicateLock_waitsOk h lock
  | releaseTransactionResources txnId =>
    obtain rfl := Eff.returns_eq_some hreturns
    rcases releaseTransactionResources_cases m txnId with hsame | hrun
    · rw [ManagerCall.run,hsame]
      exact h
    · rw [ManagerCall.run,hrun]
      refine h.fewer ?_ (released_fewerWaits m txnId).1
      have hrelease := released_spec m txnId
      constructor
      · intro other txn hget
        exact h.registered.keyed (by rw [← hrelease.txns]; exact hget)
      · intro other txn hget
        rw [hrelease.nextTxnId]
        exact h.registered.known (by rw [← hrelease.txns]; exact hget)
  | acquireTableReadLock txnId table =>
    have hsettles := acquireTableLock_settles h txnId table .intentionRead
    change Eff.returns (acquireTableReadLock txnId table) m=some m' at hreturns
    rcases hrun : acquireTableLock txnId table .intentionRead m with ⟨o,m₁⟩
    cases o with
    | ok u =>
      have hmid := hsettles m₁ (Eff.returns_of_ok hrun)
      have hgoes : acquireTableReadLock txnId table m=
          acquirePredicateLock txnId ⟨txnId,table,none,.table⟩ m₁ := Eff.bind_of_ok hrun
      rw [Eff.returns,hgoes] at hreturns
      obtain rfl := Eff.returns_eq_some hreturns
      exact acquirePredicateLock_waitsOk hmid ⟨txnId,table,none,.table⟩
    | err e =>
      have hends : acquireTableReadLock txnId table m=(.err e,m₁) := Eff.bind_of_err hrun
      rw [Eff.returns,hends] at hreturns
      obtain rfl := Option.some.inj hreturns
      exact hsettles m₁ (by rw [Eff.returns,hrun])
    | stuck =>
      have hends : acquireTableReadLock txnId table m=(.stuck,m₁) := Eff.bind_of_stuck hrun
      rw [Eff.returns,hends] at hreturns
      cases hreturns

/-- Nobody waits at first. -/
theorem waitsOk_new (nextTxnId : ℕ) : (withNextTxnId nextTxnId : TxnManager P).WaitsOk where
  registered := registered_new nextTxnId
  inStep txnId := by simp [waits,blockers,withNextTxnId]
  acyclic txnId hcycle := by
    obtain ⟨blocker,hstep,-⟩ := Relation.TransGen.head'_iff.mp hcycle
    simp [WaitsOn,waits,withNextTxnId] at hstep

/-- After every call of a run has returned, no transaction waits for itself, through
running transactions or through any. -/
theorem no_wait_cycle {nextTxnId : ℕ} {calls : List (ManagerCall P)} {m : TxnManager P}
    (hruns : ManagerCall.runs nextTxnId calls=some m) :
    Acyclic (fun txnId blocker => m.Active txnId ∧ m.Active blocker ∧ m.WaitsOn txnId blocker) ∧
      Acyclic m.WaitsOn := by
  have hok : m.WaitsOk :=
    Eff.runs_invariant (I := WaitsOk) (fun _ _ _ h hreturns => h.call hreturns)
      (waitsOk_new nextTxnId) hruns
  exact ⟨hok.acyclic.mono fun _ _ hedge => hedge.2.2,hok.acyclic⟩

/-- Three transactions own a page each, and each asks for the page of the next one. -/
def cycleRun : List (ManagerCall Unit) :=
  [.begin' .readCommitted,.begin' .readCommitted,.begin' .readCommitted,
    .acquirePageWrite 1 7,.acquirePageWrite 2 8,.acquirePageWrite 3 9,
    .acquirePageWrite 1 8,.acquirePageWrite 2 9,.acquirePageWrite 3 7]

/-- The last request closes the cycle: its transaction is aborted, 1 still waits for 2,
and nobody waits for itself. -/
theorem no_wait_cycle_cycleRun : ∃ m, ManagerCall.runs 1 cycleRun=some m ∧
    m.WaitsOn 1 2 ∧ m.Active 1 ∧ m.Active 2 ∧ ¬m.Active 3 ∧ Acyclic m.WaitsOn := by
  have hrun : (ManagerCall.runs 1 cycleRun).map (fun m =>
      (m.waitSuccessors 1,m.txns[1]?.map TxnState.status,m.txns[2]?.map TxnState.status,
        m.txns[3]?.map TxnState.status))=
      some ([2],some .active,some .active,some .aborted) := by
    decide +kernel
  obtain ⟨m,hruns,hfacts⟩ := Option.map_eq_some_iff.mp hrun
  simp only [Prod.mk.injEq] at hfacts
  obtain ⟨hwaits,hfirst,hsecond,hthird⟩ := hfacts
  have hwaiting : m.WaitsOn 1 2 := mem_waitSuccessors.mp (by rw [hwaits]; exact List.mem_cons_self)
  have haborted : ¬m.Active 3 := by
    rintro ⟨txn,hget,hactive⟩
    rw [hget,Option.map_some,hactive] at hthird
    cases hthird
  exact ⟨m,hruns,hwaiting,Option.map_eq_some_iff.mp hfirst,Option.map_eq_some_iff.mp hsecond,
    haborted,(no_wait_cycle hruns).2⟩

end RustSql.V2.TxnManager
