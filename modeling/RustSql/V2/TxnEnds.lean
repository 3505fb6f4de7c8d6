import RustSql.V2.LockOrder

/-!
# Ends of transactions

A transaction that has ended, be it as the victim of a deadlock, does not run again whatever calls
follow, and its number is given to nobody else.
-/

namespace RustSql.V2.TxnManager

variable {P : Type} {m m' : TxnManager P} {txnId : TransactionId}

/-- The number has been given out, and nobody runs under it. -/
structure Ended (m : TxnManager P) (txnId : TransactionId) : Prop where
  known : txnId < max m.nextTxnId 1
  stopped : ¬m.Active txnId

theorem Ended.lockStep (h : m.Ended txnId) (hsteps : LockStep m m') : m'.Ended txnId where
  known := hsteps.nextTxnId.symm▸h.known
  stopped hactive := h.stopped ((hsteps.txns _).active hactive)

theorem Ended.callStep {call : ManagerCall P} (h : m.Ended txnId)
    (hother : ∀ level, call≠.beginWithId txnId level) (hstep : CallStep call m m') :
    m'.Ended txnId := by
  cases hstep with
  | books hcall hbooks =>
    refine ⟨h.known.trans_le hbooks.counts,fun hactive => ?_⟩
    have hstarts := (hbooks.starts hactive).resolve_left h.stopped
    cases call with
    | begin' level => exact h.known.ne hstarts
    | beginWithId other level => exact hother level (hstarts▸rfl)
    | _ => exact hstarts.elim
  | release hcall hrelease =>
    refine ⟨hrelease.nextTxnId.symm▸h.known,fun ⟨txn,hget,hruns⟩ => h.stopped ⟨txn,?_,hruns⟩⟩
    rw [←hrelease.txns]
    exact hget
  | wait hwaits => exact h.lockStep hwaits.steps
  | page hwaits hgrant => exact (h.lockStep hwaits.steps).lockStep hgrant.steps
  | table hwaits hgrant => exact (h.lockStep hwaits.steps).lockStep hgrant.steps
  | read hwaits hgrant =>
    exact ((h.lockStep hwaits.steps).lockStep hgrant.steps).lockStep (.of_eq rfl rfl rfl rfl rfl)
  | write hwaits hpass => exact (h.lockStep hwaits.steps).lockStep hpass.steps
  | record hcall hlevel => exact h.lockStep (.of_eq rfl rfl rfl rfl rfl)

/-- After any calls that return, save one that asks for the number itself, the transaction has
still ended, and the next one gets a greater number. -/
theorem ended_for_good {calls : List (ManagerCall P)}
    (hruns : Eff.runs ManagerCall.run calls m=some m') (h : m.Ended txnId)
    (hother : ∀ level, .beginWithId txnId level∉calls) :
    m'.Ended txnId ∧ ∀ level, ∃ next, (begin' level m').1=.ok next ∧ txnId < next := by
  have hended : m'.Ended txnId := by
    induction calls generalizing m with
    | nil =>
      cases hruns
      exact h
    | cons call calls ih =>
      obtain ⟨m₁,hcall,hruns⟩ := Option.bind_eq_some_iff.mp hruns
      exact ih hruns (h.callStep (fun level heq => hother level (heq▸List.mem_cons_self))
        (callStep_of_returns hcall)) fun level hmem => hother level (List.mem_cons_of_mem call hmem)
  exact ⟨hended,fun level => ⟨_,(begin'_facts m' level).1,hended.known⟩⟩

/-- A transaction that has committed, and one that begins after it. -/
theorem ended_for_good_sharedPage : ∃ m m', ManagerCall.runs 1 sharedPageRun=some m ∧
    Eff.runs ManagerCall.run [.begin' .readCommitted] m=some m' ∧ m'.Ended 1 ∧
      ∀ level, ∃ next, (begin' level m').1=.ok next ∧ 1 < next := by
  have hstatus : (ManagerCall.runs 1 sharedPageRun).map (fun m =>
      ((m.txns[1]?).map TxnState.status,m.nextTxnId))=some (some .committed,3) := by decide +kernel
  obtain ⟨m,hruns⟩ := Option.isSome_iff_exists.mp sharedPageRun_returns
  rw [hruns,Option.map_some,Option.some.injEq,Prod.mk.injEq] at hstatus
  have hended : m.Ended 1 := by
    refine ⟨by rw [hstatus.2]; decide,fun ⟨txn,hget,hactive⟩ => ?_⟩
    have hcommitted := hstatus.1
    rw [hget,Option.map_some,hactive] at hcommitted
    cases hcommitted
  have hnext : Eff.runs ManagerCall.run [.begin' .readCommitted] m=some _ := rfl
  refine ⟨m,_,hruns,hnext,ended_for_good hnext hended fun level hmem => ?_⟩
  cases List.mem_singleton.mp hmem

end RustSql.V2.TxnManager
