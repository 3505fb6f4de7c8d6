import RustSql.V2.RowRunSafety

/-!
# Calls on one row

The calls of a storage handle, as far as they touch one row. A handle belongs to
one thread, so nothing gets in between the steps of a call: no commit is half
over when a call starts. An update or a delete then replaces the version that
the newest snapshot shows exactly when no commit has closed the version it
replaces; the engine does not check this, and updates are lost.
-/

namespace RustSql.V2

open TxnManager

/-- The calls of a storage handle, as far as they touch one row. -/
inductive RowCall where
  | begin' (isolationLevel : IsolationLevel)
  /-- A read-committed transaction starts a statement. -/
  | refresh (txnId : TransactionId)
  | insert (txnId : TransactionId) (row : Row)
  | update (txnId : TransactionId) (row : Row)
  | delete (txnId : TransactionId)
  | commit (txnId : TransactionId)
  /-- A commit that fails, before or after it has stamped the row. -/
  | failedCommit (txnId : TransactionId) (stamped : Bool)
  | rollback (txnId : TransactionId)
  /-- `maybe_purge_garbage`, when the row is in its batch. -/
  | purge
  | forget (purgeHorizon : ℕ)
  deriving DecidableEq

/-- The steps of a call. -/
def RowCall.acts {P : Type} (s : RowRun P) : RowCall → List RowAct
  | .begin' isolationLevel => [.begin' isolationLevel]
  | .refresh txnId => [.refresh txnId]
  | .insert txnId row => [.insert txnId row]
  | .update txnId row => [.update txnId row]
  | .delete txnId => [.delete txnId]
  | .commit txnId => [.reserve txnId,.publish txnId,.finish txnId]
  | .failedCommit txnId stamped =>
    if stamped then [.reserve txnId,.stamp txnId] else [.reserve txnId]
  | .rollback txnId => [.undo txnId,.abort txnId]
  | .purge =>
    let purgeTxn := max s.manager.nextTxnId 1
    [.begin' .readCommitted,.purge purgeTxn s.manager.purgeHorizon,.reserve purgeTxn,
      .publish purgeTxn,.finish purgeTxn]
  | .forget purgeHorizon => [.forget purgeHorizon]

/-- Who edits an existing row in the call. -/
def RowCall.editor : RowCall → Option TransactionId
  | .update txnId _ => some txnId
  | .delete txnId => some txnId
  | _ => none

namespace RowRun

variable {P : Type} {s s' : RowRun P}

/-- One call. -/
def call (c : RowCall) (s : RowRun P) : Option (RowRun P) := steps (c.acts s) s

/-- An update or a delete replaces only a version that no other transaction's
commit has closed since the caller's snapshot. -/
def CallEditsLatest (s : RowRun P) : RowCall → Prop
  | .update txnId row => s.EditsLatest (.update txnId row)
  | .delete txnId => s.EditsLatest (.delete txnId)
  | _ => True

instance (s : RowRun P) (c : RowCall) : Decidable (s.CallEditsLatest c) := by
  cases c <;> unfold CallEditsLatest <;> infer_instance

/-- A call that does so. -/
def CurrentCall (s s' : RowRun P) : Prop := ∃ c, s.CallEditsLatest c ∧ s.call c=some s'

theorem steps_cons {act : RowAct} {rest : List RowAct} (h : s.steps (act::rest)=some s') :
    ∃ q, s.step act=some q ∧ q.steps rest=some s' := by
  rw [steps] at h
  exact Option.bind_eq_some_iff.mp h

theorem steps_nil (h : s.steps []=some s') : s'=s := (Option.some.inj h).symm

/-- Steps that are no updates or deletes form a run. -/
theorem steps_run {acts : List RowAct} (hl : ∀ act∈acts, ∀ q : RowRun P, q.EditsLatest act)
    (hs : s.steps acts=some s') : Relation.ReflTransGen CurrentStep s s' := by
  induction acts generalizing s with
  | nil =>
    rw [steps_nil hs]
  | cons act rest ih =>
    obtain ⟨q,hq,hrest⟩ := steps_cons hs
    have htail := ih (fun a ha => hl a (List.mem_cons_of_mem _ ha)) hrest
    exact .head ⟨act,hl act List.mem_cons_self s,hq⟩ htail

variable {c : RowCall} {T : TransactionId} {v : RowVersion}

/-- The steps of a call form a run. -/
theorem call_run (hl : s.CallEditsLatest c) (hs : s.call c=some s') :
    Relation.ReflTransGen CurrentStep s s' := by
  have hone : ∀ (act : RowAct), s.EditsLatest act → s.steps [act]=some s' →
      Relation.ReflTransGen CurrentStep s s' := by
    intro act hact hs
    obtain ⟨q,hq,hnil⟩ := steps_cons hs
    rw [steps_nil hnil]
    exact .single ⟨act,hact,hq⟩
  cases c with
  | update T row => exact hone (.update T row) hl hs
  | delete T => exact hone (.delete T) hl hs
  | failedCommit T stamped =>
    cases stamped <;> exact steps_run (by simp [RowCall.acts,EditsLatest]) hs
  | _ => exact steps_run (by simp [RowCall.acts,EditsLatest]) hs

theorem step_published {act : RowAct} (hs : s.step act=some s') :
    s'.published=s.publishedAfter act := by
  have hstore : ∀ {T stored} {q : RowRun P}, s.store T stored=some q →
      q.published=s.published := by
    intro T stored q hq
    rcases store_some hq with ⟨-,rfl⟩ | ⟨-,rfl⟩ <;> rfl
  cases step_did hs with
  | managed _ hpublished => exact hpublished.symm
  | finished _ _ => rfl
  | reserved _ => rfl
  | inserted hs => exact hstore hs
  | updated _ _ _ hs => exact hstore hs
  | deleted _ _ _ hs => exact hstore hs
  | purged _ hs => exact hstore hs
  | stamped _ _ hs => exact hstore hs
  | published _ _ hq => exact congrArg (insert _) (hstore hq)
  | undone _ => rfl

/-- No commit is half over between two calls. -/
theorem call_published (hp : s.published=∅) (hs : s.call c=some s') :
    s'.published=∅ := by
  have hone : ∀ {act : RowAct} {q : RowRun P}, q.published=∅ → q.steps [act]=some s' →
      (∀ T, act≠.publish T) → (∀ T, act≠.finish T) → s'.published=∅ := by
    intro act q hq hs hpub hfin
    obtain ⟨q',hstep,hnil⟩ := steps_cons hs
    rw [steps_nil hnil,step_published hstep]
    cases act with
    | publish T => exact absurd rfl (hpub T)
    | finish T => exact absurd rfl (hfin T)
    | _ => exact hq
  -- a commit is over when its last step is done
  have hcommit : ∀ {T : TransactionId} {q : RowRun P}, q.published=∅ →
      q.steps [.reserve T,.publish T,.finish T]=some s' → s'.published=∅ := by
    intro T q hq hs
    obtain ⟨q₁,h₁,hs⟩ := steps_cons hs
    obtain ⟨q₂,h₂,hs⟩ := steps_cons hs
    obtain ⟨q₃,h₃,hnil⟩ := steps_cons hs
    have hp₁ : q₁.published=q.published := step_published h₁
    have hp₂ : q₂.published=insert T q₁.published := step_published h₂
    have hp₃ : q₃.published=q₂.published.erase T := step_published h₃
    rw [steps_nil hnil,hp₃,hp₂,hp₁,hq]
    simp
  cases c with
  | commit T => exact hcommit hp hs
  | failedCommit T stamped =>
    cases stamped with
    | false => exact hone hp hs (by simp) (by simp)
    | true =>
      obtain ⟨q,hq,hs⟩ := steps_cons hs
      exact hone ((step_published hq).trans hp) hs (by simp) (by simp)
  | rollback T =>
    obtain ⟨q,hq,hs⟩ := steps_cons hs
    exact hone ((step_published hq).trans hp) hs (by simp) (by simp)
  | purge =>
    obtain ⟨q₁,h₁,hs⟩ := steps_cons hs
    obtain ⟨q₂,h₂,hs⟩ := steps_cons hs
    exact hcommit ((step_published h₂).trans ((step_published h₁).trans hp)) hs
  | _ => exact hone hp hs (by simp) (by simp)

/-- The state between two calls: the invariant of a run, and no commit half
over. -/
structure Between (s : RowRun P) : Prop where
  inv : s.Inv
  quiet : s.published=∅

theorem Between.start (nextTxnId : ℕ) : (start nextTxnId : RowRun P).Between :=
  ⟨Inv.start nextTxnId,rfl⟩

theorem Between.call (h : s.Between) (hl : s.CallEditsLatest c)
    (hs : s.call c=some s') : s'.Between :=
  ⟨h.inv.run (call_run hl hs),call_published h.quiet hs⟩

theorem Between.run (h : s.Between) (hrun : Relation.ReflTransGen CurrentCall s s') :
    s'.Between := by
  induction hrun with
  | refl => exact h
  | tail _ hcall ih =>
    obtain ⟨c,hl,hs⟩ := hcall
    exact ih.call hl hs

/-! ## Lost updates -/

/-- The version an edit replaces is one the newest snapshot shows its writer. -/
def ReplacesLatest (s : RowRun P) (c : RowCall) : Prop :=
  ∀ T, c.editor=some T → ∀ v, s.target T=some v →
    v.visible T (s.manager.currentSnapshot T)

/-- An edit that changes something had the lock. -/
theorem mayWrite_of_edit (hc : c.editor=some T)
    (hs : s.call c=some s') (hne : s'≠s) : s.mayWrite T := by
  have hstore : ∀ {stored}, s.store T stored=some s' → s.mayWrite T := by
    intro stored hq
    rcases store_some hq with ⟨-,hsame⟩ | ⟨hm,-⟩
    · exact absurd hsame hne
    · exact hm
  cases c with
  | update W row =>
    obtain rfl := Option.some.inj hc
    obtain ⟨q,hq,hnil⟩ := steps_cons hs
    obtain rfl := steps_nil hnil
    simp only [RowRun.step,Option.bind_eq_bind,Option.bind_eq_some_iff] at hq
    obtain ⟨txn,-,bytes,-,hq⟩ := hq
    split at hq
    · exact absurd (Option.some.inj hq).symm hne
    · split at hq
      · exact hstore hq
      · exact absurd (Option.some.inj hq).symm hne
  | delete W =>
    obtain rfl := Option.some.inj hc
    obtain ⟨q,hq,hnil⟩ := steps_cons hs
    obtain rfl := steps_nil hnil
    simp only [RowRun.step,Option.bind_eq_bind,Option.bind_eq_some_iff] at hq
    obtain ⟨txn,-,bytes,-,hq⟩ := hq
    split at hq
    · exact hstore hq
    · exact absurd (Option.some.inj hq).symm hne
  | _ => cases hc

/-- What `target` finds is in the list and visible. -/
theorem target_some (h : s.target T=some v) :
    ∃ txn bytes, s.caller T=some txn ∧ s.stored=some bytes ∧
      v∈(decodeVersionedRow bytes).versions ∧ v.visible T txn.snapshot := by
  unfold target at h
  simp only [Option.bind_eq_bind,Option.bind_eq_some_iff] at h
  obtain ⟨txn,hc,bytes,hb,hf⟩ := h
  exact ⟨txn,bytes,hc,hb,List.mem_of_find?_eq_some hf,
    List.find?_some (p := fun v : RowVersion => v.visible T txn.snapshot) hf⟩

/-- A visible version that no commit has closed is visible to the newest
snapshot as well. -/
theorem Between.visible_now (h : s.Between) (ht : s.target T=some v) (hl : v.deletedCommitTs=none) :
    v.visible T (s.manager.currentSnapshot T) := by
  obtain ⟨txn,bytes,hc,hb,hv,hvis⟩ := target_some ht
  have hS := (caller_some hc).1
  have hcur := currentSnapshot_current h.inv.registered T
  obtain ⟨hcreated,hby,-⟩ := visible_iff.mp hvis
  refine visible_iff.mpr ⟨?_,hby,fun hd => ?_⟩
  · rcases creatorVisible_iff.mp hcreated with ⟨ts,hts,hsees⟩ | hown
    · refine creatorVisible_iff.mpr (.inl ⟨ts,hts,?_⟩)
      rcases (h.inv.row hb).creator_settled hv hS hcreated with he | ⟨ts',hts',-,hset⟩
      · -- the writer's own stamp, left by a commit that failed
        have hup := h.inv.upTo hS
        refine ⟨(hsees.1.trans hup).trans hcur.1.ge,fun hmem => ?_⟩
        exact ((hcur.2 _).mp hmem).2 he
      · rw [hts] at hts'
        obtain rfl := Option.some.inj hts'
        exact hset.sees (.refl h.inv.registered) hcur
    · exact creatorVisible_iff.mpr (.inr hown)
  · obtain ⟨d,ts,-,hts,-⟩ := deletedInSnapshot_iff.mp hd
    rw [hl] at hts
    cases hts

/-- A version the writer may replace and the newest snapshot shows is closed by
no commit. -/
theorem Between.not_closed (h : s.Between) (ht : s.target T=some v) (hm : s.mayWrite T)
    (hvis : v.visible T (s.manager.currentSnapshot T)) : v.deletedCommitTs=none := by
  obtain ⟨txn,bytes,hc,hb,hv,-⟩ := target_some ht
  have hcur := currentSnapshot_current h.inv.registered T
  obtain ⟨-,hby,hnot⟩ := visible_iff.mp hvis
  cases hts : v.deletedCommitTs with
  | none => rfl
  | some ts =>
    exfalso
    obtain ⟨d,hd⟩ := Option.isSome_iff_exists.mp
      ((h.inv.row hb).deleted v hv (by rw [hts]; rfl))
    have hst := (h.inv.row hb).stamp v hv d ts (.inr ⟨hd,hts⟩)
    refine hnot (deletedInSnapshot_iff.mpr ⟨d,ts,hd,hts,?_,fun hmem => ?_⟩)
    · rw [hcur.1]
      exact hst.clock
    · -- a running transaction with a stamp in the row holds the lock
      obtain ⟨hact,hne⟩ := (hcur.2 d).mp hmem
      rcases hst.owned hact with ho | hp
      · exact hne (owner_of_mayWrite hm d ho)
      · rw [h.quiet] at hp
        exact absurd hp (Finset.notMem_empty d)

/-- Whenever an update or a delete changes something, it replaces a version the
newest snapshot shows exactly when no commit has closed that version. -/
theorem replacesLatest_iff {nextTxnId : ℕ} {c : RowCall}
    (hrun : Relation.ReflTransGen CurrentCall (start nextTxnId) s) (hs : s.call c=some s')
    (hne : s'≠s) : s.ReplacesLatest c ↔ s.CallEditsLatest c := by
  have h : s.Between := (Between.start nextTxnId).run hrun
  have hiff : ∀ T, c.editor=some T →
      ((∀ v, s.target T=some v → v.visible T (s.manager.currentSnapshot T)) ↔
        ∀ v, s.target T=some v → v.deletedCommitTs=none) := by
    intro T hc
    have hm := mayWrite_of_edit hc hs hne
    exact ⟨fun hr v ht => h.not_closed ht hm (hr v ht),
      fun hl v ht => h.visible_now ht (hl v ht)⟩
  cases c with
  | update W row =>
    refine Iff.trans ⟨fun hr => hr W rfl,fun hr T hT => ?_⟩ (hiff W rfl)
    exact Option.some.inj hT ▸ hr
  | delete W =>
    refine Iff.trans ⟨fun hr => hr W rfl,fun hr T hT => ?_⟩ (hiff W rfl)
    exact Option.some.inj hT ▸ hr
  | _ => exact ⟨fun _ => trivial,fun _ T hT => by cases hT⟩

end RowRun

end RustSql.V2
