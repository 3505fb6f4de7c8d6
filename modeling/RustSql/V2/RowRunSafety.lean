import RustSql.V2.RowVersions

/-!
# One visible version

The invariant of a row under concurrent transactions, kept by every step whose
updates and deletes replace only versions no commit has closed. From it: no
snapshot in use sees two versions of the row, and once a delete is committed no
later snapshot sees any. Without the condition both fail, on the run shown at
the end.
-/

namespace RustSql.V2

open TxnManager

namespace RowRun

variable {P : Type} {s s' : RowRun P}

/-- Who may have unstamped marks in the row. -/
def owner (s : RowRun P) : Option TransactionId := s.lock.map Prod.fst

/-- The invariant of a run. -/
structure Inv (s : RowRun P) : Prop where
  registered : s.manager.Registered
  upTo : ∀ {r S}, s.manager.Holds r S → S.visibleUpTo ≤ s.manager.nextCommitTs
  reserved : ∀ {w ts : ℕ}, s.reserved w=some ts →
    ts ≤ s.manager.nextCommitTs ∧ w < max s.manager.nextTxnId 1 ∧
      (s.manager.Active w → ∀ r S, s.manager.Holds r S → r≠w → ¬Sees S w ts)
  row : ∀ {bytes}, s.stored=some bytes → ListInv s s.owner (decodeVersionedRow bytes).versions
  before : ∀ {T bytes}, s.lock=some (T,some bytes) →
    ListInv s none (decodeVersionedRow bytes).versions

/-- A reserved timestamp may be stamped by its transaction. -/
theorem Inv.stampInv (h : s.Inv) {T ts : ℕ} (hr : s.reserved T=some ts) :
    StampInv s (some T) T ts :=
  let hr' := h.reserved hr
  ⟨hr'.1,hr'.2.1,fun _ => .inl rfl,fun _ => ⟨ts,hr,le_refl ts⟩,hr'.2.2⟩

variable {T : TransactionId} {txn : TxnState P} {stored : Option StoredRow} {m : TxnManager P}
    {bytes bytes' : StoredRow} {act : RowAct}

theorem caller_some (h : s.caller T=some txn) :
    s.manager.Holds T txn.snapshot ∧ s.manager.txns[T]?=some txn ∧ T∉s.published := by
  obtain ⟨hget,hc⟩ := Option.filter_eq_some_iff.mp h
  simp only [Bool.decide_and,Bool.and_eq_true,decide_eq_true_eq] at hc
  exact ⟨⟨txn,hget,hc.1,rfl⟩,hget,hc.2⟩

theorem manage_some {α : Type} {x : Eff (TxnManager P) α} {a : α}
    (h : s.manage x=some (a,s')) : ∃ m, x s.manager=(.ok a,m) ∧ s'={s with manager := m} := by
  unfold manage at h
  split at h
  · next b m hx =>
    obtain ⟨rfl,rfl⟩ := Prod.mk.inj (Option.some.inj h)
    exact ⟨m,hx,rfl⟩
  · cases h

theorem store_some (h : s.store T stored=some s') :
    (stored=s.stored ∧ s'=s) ∨ (s.mayWrite T ∧ s'=s.write T stored) := by
  unfold store at h
  split at h
  · next he => exact .inl ⟨he,(Option.some.inj h).symm⟩
  · split at h
    · next hm => exact .inr ⟨hm,(Option.some.inj h).symm⟩
    · cases h

/-- Whoever may write owns the marks that are in the row. -/
theorem owner_of_mayWrite (h : s.mayWrite T) :
    ∀ w, s.owner=some w → w=T := by
  intro w hw
  unfold mayWrite at h
  unfold owner at hw
  cases hl : s.lock with
  | none => rw [hl] at hw; cases hw
  | some lock =>
    rw [hl] at h hw
    obtain rfl := Option.some.inj hw
    simpa using h

/-! ## What one step keeps -/

/-- Steps of the manager. -/
theorem Inv.manage (h : s.Inv) (ha : Advances s.manager s'.manager)
    (hstored : s'.stored=s.stored) (hlock : s'.lock=s.lock) (hres : s'.reserved=s.reserved)
    (hpub : ∀ w∈s.published, s'.manager.Active w → w∈s'.published) : s'.Inv where
  registered := ha.registered
  upTo {r S} hS := by
    rcases ha.holds hS with hold | hcur
    · exact (h.upTo hold).trans ha.clock
    · exact hcur.1.le
  reserved {w ts} hr := by
    rw [hres] at hr
    obtain ⟨hts,hw,hhid⟩ := h.reserved hr
    refine ⟨hts.trans ha.clock,hw.trans_le ha.ids,fun hact r S hS hne hsees => ?_⟩
    rcases ha.holds hS with hold | hcur
    · exact hhid (ha.active hw hact) r S hold hne hsees
    · exact hsees.2 ((hcur.2 w).mpr ⟨hact,hne.symm⟩)
  row {bytes} hb := by
    have howner : s'.owner=s.owner := by rw [owner,owner,hlock]
    rw [hstored] at hb
    rw [howner]
    exact (h.row hb).advance ha hpub fun w t ht => ⟨t,by rw [hres,ht],le_refl t⟩
  before {T bytes} hb := by
    rw [hlock] at hb
    exact (h.before hb).advance ha hpub fun w t ht => ⟨t,by rw [hres,ht],le_refl t⟩

/-- A write by the transaction that may write. -/
theorem Inv.write (h : s.Inv) (hm : s.mayWrite T) (hnew : ∀ bytes, stored=some bytes →
      ListInv s (some T) (decodeVersionedRow bytes).versions) : (s.write T stored).Inv where
  registered := h.registered
  upTo := h.upTo
  reserved := h.reserved
  row {bytes} hb := by
    have howner : (s.write T stored).owner=some T := by
      unfold owner RowRun.write
      cases hl : s.lock with
      | none => rfl
      | some lock =>
        have hT := owner_of_mayWrite hm lock.1 (by rw [owner,hl]; rfl)
        rw [← hT]
        rfl
    rw [howner]
    exact (hnew bytes hb).congr rfl rfl rfl
  before {T' bytes} hb := by
    unfold RowRun.write at hb
    simp only at hb
    cases hl : s.lock with
    | none =>
      -- the lock is taken now: the row as it stands has no marks
      rw [hl] at hb
      obtain ⟨-,hst⟩ := Prod.mk.inj (Option.some.inj hb)
      have hrow := h.row hst
      rw [owner,hl] at hrow
      exact hrow.congr rfl rfl rfl
    | some lock =>
      rw [hl] at hb
      exact (h.before (hl.trans hb)).congr rfl rfl rfl

/-- A store that goes through. -/
theorem Inv.store (h : s.Inv)
    (hs : s.store T stored=some s') (hnew : s.mayWrite T → ∀ bytes, stored=some bytes →
      ListInv s (some T) (decodeVersionedRow bytes).versions) : s'.Inv := by
  rcases store_some hs with ⟨-,rfl⟩ | ⟨hm,rfl⟩
  · exact h
  · exact h.write hm (hnew hm)

theorem Inv.start (nextTxnId : ℕ) : (start nextTxnId : RowRun P).Inv where
  registered := ⟨fun h => by simp [RowRun.start,withNextTxnId] at h,
    fun h => by simp [RowRun.start,withNextTxnId] at h⟩
  upTo h := by
    obtain ⟨txn,hget,-⟩ := h
    simp [RowRun.start,withNextTxnId] at hget
  reserved h := by cases h
  row h := by cases h
  before h := by cases h

/-- A reservation. -/
theorem Inv.reserve (h : s.Inv) {commitTs : ℕ} (hm : reserveCommitTs T s.manager=(.ok commitTs,m)) :
    Inv {s with manager := m, reserved := Function.update s.reserved T (some commitTs)} := by
  have ha := Advances.reserveCommitTs h.registered hm
  obtain ⟨hact,hts,rfl⟩ := reserveCommitTs_ok hm
  have hmono : ∀ w t, s.reserved w=some t →
      ∃ t', Function.update s.reserved T (some commitTs) w=some t' ∧ t ≤ t' := by
    intro w t ht
    by_cases hw : w=T
    · subst hw
      refine ⟨commitTs,Function.update_self _ _ _,?_⟩
      have hle := (h.reserved ht).1
      omega
    · exact ⟨t,by rw [Function.update_of_ne hw,ht],le_refl t⟩
  refine ⟨ha.registered,fun hS => (h.upTo hS).trans ha.clock,?_,fun hb => ?_,fun hb => ?_⟩
  · intro w ts hr
    simp only at hr
    by_cases hw : w=T
    · subst hw
      rw [Function.update_self] at hr
      obtain rfl := Option.some.inj hr
      refine ⟨le_refl _,hact.known h.registered,fun _ r S hS _ hsees => ?_⟩
      have hup := h.upTo (r := r) (S := S) hS
      have hle := hsees.1
      omega
    · rw [Function.update_of_ne hw] at hr
      obtain ⟨hts',hw',hhid⟩ := h.reserved hr
      exact ⟨hts'.trans ha.clock,hw',hhid⟩
  · exact (h.row hb).advance ha (fun w hw _ => hw) hmono
  · exact (h.before hb).advance ha (fun w hw _ => hw) hmono

/-- The list an update stores. -/
theorem Inv.update (h : s.Inv) {row : Row} (hc : s.caller T=some txn) (hb : s.stored=some bytes)
    (hu : appendRowVersion bytes row T txn.snapshot=some bytes')
    (hl : ∀ v, (decodeVersionedRow bytes).versions.find?
      (fun v => v.visible T txn.snapshot)=some v → v.deletedCommitTs=none)
    (hm : s.mayWrite T) : ListInv s (some T) (decodeVersionedRow bytes').versions := by
  have hS := (caller_some hc).1
  have ho := owner_of_mayWrite hm
  have hrow := h.row hb
  cases hf : (decodeVersionedRow bytes).versions.find? (fun v => v.visible T txn.snapshot) with
  | none =>
    rw [appendRowVersion_eq_none hf] at hu
    cases hu
  | some v =>
    obtain ⟨hv,rest,hlist⟩ := hrow.target_first ho hf (hl v hf)
    have hcreated := (visible_iff.mp hv).1
    rw [hlist] at hrow
    rw [appendRowVersion_first hlist hv] at hu
    obtain rfl := Option.some.inj hu
    simp only [decodeVersionedRow]
    split
    · exact (hrow.own ho).replaceRow row
    · exact ((hrow.own ho).markDeleted hS hcreated).push hS hcreated rfl row

/-- The list a delete stores. -/
theorem Inv.delete (h : s.Inv) (hc : s.caller T=some txn) (hb : s.stored=some bytes)
    (hu : markRowDeleted bytes T txn.snapshot=some bytes')
    (hl : ∀ v, (decodeVersionedRow bytes).versions.find?
      (fun v => v.visible T txn.snapshot)=some v → v.deletedCommitTs=none)
    (hm : s.mayWrite T) : ListInv s (some T) (decodeVersionedRow bytes').versions := by
  have hS := (caller_some hc).1
  have ho := owner_of_mayWrite hm
  have hrow := h.row hb
  cases hf : (decodeVersionedRow bytes).versions.find? (fun v => v.visible T txn.snapshot) with
  | none =>
    rw [markRowDeleted_eq_none hf] at hu
    cases hu
  | some v =>
    obtain ⟨hv,rest,hlist⟩ := hrow.target_first ho hf (hl v hf)
    rw [hlist] at hrow
    rw [markRowDeleted_first hlist hv] at hu
    obtain rfl := Option.some.inj hu
    exact (hrow.own ho).markDeleted hS (visible_iff.mp hv).1

/-- What the stamping of a commit leaves: the invariant, and no unstamped mark
of the transaction. -/
theorem Inv.stamp (h : s.Inv) {ts : ℕ} (hc : s.caller T=some txn) (hr : s.reserved T=some ts)
    (hs : s.store T (s.stamped T ts)=some s') :
    s'.Inv ∧ ∀ bytes, s'.stored=some bytes →
      ∀ v∈(decodeVersionedRow bytes).versions, ¬v.Marked T := by
  have hact := (caller_some hc).1.active
  have hstored : s'.stored=s.stamped T ts := by
    rcases store_some hs with ⟨he,rfl⟩ | ⟨-,rfl⟩
    · exact he.symm
    · rfl
  refine ⟨h.store hs fun hm bytes hb => ?_,fun bytes hb v hv hmark => ?_⟩
  · obtain ⟨old,hold,rfl⟩ := Option.map_eq_some_iff.mp hb
    exact ((h.row hold).own (owner_of_mayWrite hm)).finalize (h.stampInv hr) hr hact
  · rw [hstored] at hb
    obtain ⟨old,hold,rfl⟩ := Option.map_eq_some_iff.mp hb
    obtain ⟨u,-,rfl⟩ := List.mem_map.mp hv
    exact (finalize_marked hmark).2 rfl

/-- Releasing the locks of a transaction whose marks are all stamped. -/
theorem Inv.release (h : s.Inv) (hn : ∀ bytes, s.stored=some bytes →
      ∀ v∈(decodeVersionedRow bytes).versions, ¬v.Marked T) :
    Inv {s with
      lock := s.lock.filter fun lock => lock.1≠T
      published := insert T s.published} := by
  have hkeep : ∀ {w : TransactionId}, s.owner=some w → w≠T →
      (s.lock.filter fun lock => lock.1≠T).map Prod.fst=some w := by
    intro w hw hne
    obtain ⟨lock,hl,rfl⟩ := Option.map_eq_some_iff.mp hw
    rw [hl,Option.filter_some,if_pos (by simpa using hne)]
    rfl
  refine ⟨h.registered,h.upTo,h.reserved,fun {bytes} hb => ?_,fun {T' bytes} hb => ?_⟩
  · have hrow := h.row hb
    refine ⟨fun v hv w ts hs => ?_,fun v hv w hm => ?_,hrow.deleted,hrow.ordered,hrow.pairs⟩
    · have hw := hrow.stamp v hv w ts hs
      refine ⟨hw.clock,hw.known,fun hact => ?_,hw.latest,hw.hidden⟩
      by_cases hT : w=T
      · exact .inr (Finset.mem_insert.mpr (.inl hT))
      · rcases hw.owned hact with ho | hp
        · exact .inl (hkeep ho hT)
        · exact .inr (Finset.mem_insert_of_mem hp)
    · have ho := hrow.mark v hv w hm
      exact hkeep ho fun hT => hn bytes hb v hv (hT ▸ hm)
  · have hl : s.lock=some (T',some bytes) := (Option.filter_eq_some_iff.mp hb).1
    exact (h.before hl).advance (.refl h.registered)
      (fun w hw _ => Finset.mem_insert_of_mem hw) fun w t ht => ⟨t,ht,le_refl t⟩

/-- The version an update or a delete would replace, as `target` names it. -/
theorem target_eq (hc : s.caller T=some txn) (hb : s.stored=some bytes) :
    s.target T=(decodeVersionedRow bytes).versions.find? fun v => v.visible T txn.snapshot := by
  unfold target
  simp only [hc,hb,Option.bind_eq_bind,Option.bind_some]

/-- The half-finished commits after a step. -/
def publishedAfter (s : RowRun P) : RowAct → Finset TransactionId
  | .publish txnId => insert txnId s.published
  | .finish txnId => s.published.erase txnId
  | _ => s.published

/-- What a step does to the run. -/
inductive Did (s : RowRun P) : RowAct → RowRun P → Prop where
  /-- At most the manager has changed. -/
  | managed {act : RowAct} {m : TxnManager P}
      (hadvances : s.manager.Registered → Advances s.manager m)
      (hpublished : s.publishedAfter act=s.published) : Did s act {s with manager := m}
  | finished {T : TransactionId} {m : TxnManager P}
      (hadvances : s.manager.Registered → Advances s.manager m) (hended : ¬m.Active T) :
      Did s (.finish T) {s with manager := m, published := s.published.erase T}
  | reserved {T : TransactionId} {commitTs : ℕ} {m : TxnManager P}
      (hreserve : reserveCommitTs T s.manager=(.ok commitTs,m)) :
      Did s (.reserve T) {s with
        manager := m, reserved := Function.update s.reserved T (some commitTs)}
  | inserted {T : TransactionId} {row : Row} {s' : RowRun P}
      (hstore : s.store T (some (encodeUncommittedRowVersion row T))=some s') :
      Did s (.insert T row) s'
  | updated {T : TransactionId} {row : Row} {txn : TxnState P} {bytes bytes' : StoredRow}
      {s' : RowRun P} (hcaller : s.caller T=some txn) (hstored : s.stored=some bytes)
      (hupdate : appendRowVersion bytes row T txn.snapshot=some bytes')
      (hstore : s.store T (some bytes')=some s') : Did s (.update T row) s'
  | deleted {T : TransactionId} {txn : TxnState P} {bytes bytes' : StoredRow} {s' : RowRun P}
      (hcaller : s.caller T=some txn) (hstored : s.stored=some bytes)
      (hdelete : markRowDeleted bytes T txn.snapshot=some bytes')
      (hstore : s.store T (some bytes')=some s') : Did s (.delete T) s'
  | purged {T : TransactionId} {purgeHorizon : ℕ} {bytes : StoredRow} {s' : RowRun P}
      (hstored : s.stored=some bytes) (hstore : s.store T (retained purgeHorizon bytes)=some s') :
      Did s (.purge T purgeHorizon) s'
  | stamped {T : TransactionId} {txn : TxnState P} {commitTs : ℕ} {s' : RowRun P}
      (hcaller : s.caller T=some txn) (hreserved : s.reserved T=some commitTs)
      (hstore : s.store T (s.stamped T commitTs)=some s') : Did s (.stamp T) s'
  | published {T : TransactionId} {txn : TxnState P} {commitTs : ℕ} {q : RowRun P}
      (hcaller : s.caller T=some txn) (hreserved : s.reserved T=some commitTs)
      (hstore : s.store T (s.stamped T commitTs)=some q) :
      Did s (.publish T) {q with
        lock := q.lock.filter fun lock => lock.1≠T, published := insert T q.published}
  | undone {T : TransactionId} {before : Option StoredRow} (hlock : s.lock=some (T,before)) :
      Did s (.undo T) {s with stored := before, lock := none}

theorem Did.unchanged (hpublished : s.publishedAfter act=s.published) :
    Did s act s :=
  .managed (m := s.manager) (fun h => .refl h) hpublished

/-- A step does what it stands for, or nothing. -/
theorem step_did (hs : s.step act=some s') : Did s act s' := by
  cases act with
  | begin' isolationLevel =>
    simp only [RowRun.step,Option.map_eq_some_iff] at hs
    obtain ⟨⟨T,q⟩,hm,rfl⟩ := hs
    obtain ⟨m,hx,rfl⟩ := manage_some hm
    have hmgr : m=(TxnManager.begin' isolationLevel s.manager).2 := by rw [hx]
    exact .managed (fun h => hmgr ▸ Advances.begin' h isolationLevel) rfl
  | refresh T =>
    simp only [RowRun.step,Option.bind_eq_bind,Option.bind_eq_some_iff] at hs
    obtain ⟨txn,-,hs⟩ := hs
    split at hs
    · obtain ⟨⟨S,q⟩,hm,rfl⟩ := Option.map_eq_some_iff.mp hs
      obtain ⟨m,hx,rfl⟩ := manage_some hm
      exact .managed (fun h => Advances.refreshSnapshot h hx) rfl
    · cases hs
  | insert T row =>
    simp only [RowRun.step,Option.bind_eq_bind,Option.bind_eq_some_iff] at hs
    obtain ⟨txn,-,hs⟩ := hs
    split at hs
    · exact .inserted hs
    · cases hs
  | update T row =>
    simp only [RowRun.step,Option.bind_eq_bind,Option.bind_eq_some_iff] at hs
    obtain ⟨txn,hc,bytes,hb,hs⟩ := hs
    split at hs
    · exact Option.some.inj hs ▸ .unchanged rfl
    · split at hs
      · next bytes' hu => exact .updated hc hb hu hs
      · exact Option.some.inj hs ▸ .unchanged rfl
  | delete T =>
    simp only [RowRun.step,Option.bind_eq_bind,Option.bind_eq_some_iff] at hs
    obtain ⟨txn,hc,bytes,hb,hs⟩ := hs
    split at hs
    · next bytes' hu => exact .deleted hc hb hu hs
    · exact Option.some.inj hs ▸ .unchanged rfl
  | purge T purgeHorizon =>
    simp only [RowRun.step,Option.bind_eq_bind,Option.bind_eq_some_iff] at hs
    obtain ⟨txn,-,bytes,hb,hs⟩ := hs
    split at hs
    · exact .purged hb hs
    · cases hs
  | reserve T =>
    simp only [RowRun.step,Option.bind_eq_bind,Option.bind_eq_some_iff] at hs
    obtain ⟨txn,-,⟨commitTs,q⟩,hm,hs⟩ := hs
    obtain ⟨m,hx,rfl⟩ := manage_some hm
    obtain rfl := Option.some.inj hs
    exact .reserved hx
  | stamp T =>
    simp only [RowRun.step,Option.bind_eq_bind,Option.bind_eq_some_iff] at hs
    obtain ⟨txn,hc,ts,hr,hs⟩ := hs
    exact .stamped hc hr hs
  | publish T =>
    simp only [RowRun.step,Option.bind_eq_bind,Option.bind_eq_some_iff] at hs
    obtain ⟨txn,hc,ts,hr,q,hq,hs⟩ := hs
    obtain rfl := Option.some.inj hs
    exact .published hc hr hq
  | finish T =>
    simp only [RowRun.step] at hs
    split at hs
    · simp only [Option.bind_eq_bind,Option.bind_eq_some_iff] at hs
      obtain ⟨ts,-,⟨u,q⟩,hm,hs⟩ := hs
      obtain ⟨m,hx,rfl⟩ := manage_some hm
      obtain rfl := Option.some.inj hs
      exact .finished (fun h => Advances.finalizeCommit h hx) (Ends.finalizeCommit hx).ended
    · cases hs
  | undo T =>
    simp only [RowRun.step,Option.bind_eq_bind,Option.bind_eq_some_iff] at hs
    obtain ⟨txn,-,hs⟩ := hs
    split at hs
    · next holder before hlock =>
      split at hs
      · next hholder =>
        obtain rfl := Option.some.inj hs
        exact .undone (hholder ▸ hlock)
      · exact Option.some.inj hs ▸ .unchanged rfl
    · exact Option.some.inj hs ▸ .unchanged rfl
  | abort T =>
    simp only [RowRun.step,Option.bind_eq_bind,Option.bind_eq_some_iff] at hs
    obtain ⟨txn,-,hs⟩ := hs
    split at hs
    · obtain ⟨⟨u,q⟩,hm,rfl⟩ := Option.map_eq_some_iff.mp hs
      obtain ⟨m,hx,rfl⟩ := manage_some hm
      exact .managed (fun h => Advances.abort h hx) rfl
    · cases hs
  | forget purgeHorizon =>
    simp only [RowRun.step,Option.some.injEq] at hs
    subst hs
    exact .managed (fun h => Advances.purgeFinished h purgeHorizon) rfl

/-- Every step of the engine keeps the invariant, provided updates and deletes
replace only versions no commit has closed. -/
theorem Inv.step (h : s.Inv) (hl : s.EditsLatest act) (hs : s.step act=some s') : s'.Inv := by
  cases step_did hs with
  | managed ha _ => exact h.manage (ha h.registered) rfl rfl rfl fun w hw _ => hw
  | finished ha hended =>
    refine h.manage (ha h.registered) rfl rfl rfl fun w hw hact => ?_
    -- the finished transaction is no longer running
    exact Finset.mem_erase.mpr ⟨fun hT => hended (hT ▸ hact),hw⟩
  | reserved hx => exact h.reserve hx
  | inserted hs =>
    refine h.store hs fun _ bytes hb => ?_
    obtain rfl := Option.some.inj hb
    exact ListInv.single s _ _
  | updated hc hb hu hs =>
    refine h.store hs fun hm found hf => ?_
    obtain rfl := Option.some.inj hf
    exact h.update hc hb hu (fun v hv => hl v (by rw [target_eq hc hb,hv])) hm
  | deleted hc hb hu hs =>
    refine h.store hs fun hm found hf => ?_
    obtain rfl := Option.some.inj hf
    exact h.delete hc hb hu (fun v hv => hl v (by rw [target_eq hc hb,hv])) hm
  | purged hb hs =>
    refine h.store hs fun hm found hf => ?_
    simp only [retained] at hf
    split at hf
    · cases hf
    · obtain rfl := Option.some.inj hf
      exact ((h.row hb).own (owner_of_mayWrite hm)).sublist List.filter_sublist
  | stamped hc hr hs => exact (h.stamp hc hr hs).1
  | published hc hr hq =>
    obtain ⟨hinv,hmarks⟩ := h.stamp hc hr hq
    exact hinv.release hmarks
  | undone hlock =>
    refine ⟨h.registered,h.upTo,h.reserved,fun {bytes} hb => ?_,fun hb => by cases hb⟩
    exact (h.before (hlock.trans (congrArg some (congrArg _ hb)))).congr rfl rfl rfl

theorem store_manager (hs : s.store T stored=some s') : s'.manager=s.manager := by
  rcases store_some hs with ⟨-,rfl⟩ | ⟨-,rfl⟩ <;> rfl

/-- Every step moves time forward. -/
theorem step_advances (hm : s.manager.Registered) (hs : s.step act=some s') :
    Advances s.manager s'.manager := by
  have hstay : ∀ {q : RowRun P}, q.manager=s.manager → Advances s.manager q.manager :=
    fun hq => by rw [hq]; exact Advances.refl hm
  cases step_did hs with
  | managed ha _ => exact ha hm
  | finished ha _ => exact ha hm
  | reserved hx => exact Advances.reserveCommitTs hm hx
  | inserted hs => exact hstay (store_manager hs)
  | updated _ _ _ hs => exact hstay (store_manager hs)
  | deleted _ _ _ hs => exact hstay (store_manager hs)
  | purged _ hs => exact hstay (store_manager hs)
  | stamped _ _ hs => exact hstay (store_manager hs)
  | published _ _ hq =>
    have hmanager := store_manager hq
    exact hstay hmanager
  | undone _ => exact hstay rfl

/-! ## Whole runs -/

/-- Runs in which every update and every delete replaces a version that no
commit has closed. -/
def CurrentStep (s s' : RowRun P) : Prop := ∃ act, s.EditsLatest act ∧ s.step act=some s'

/-- The same, and the row is not inserted again. -/
def CurrentStepNoInsert (s s' : RowRun P) : Prop :=
  ∃ act, s.EditsLatest act ∧ s.step act=some s' ∧ ∀ T row, act≠.insert T row

/-- Every state of such a run has the invariant. -/
theorem Inv.run (h : s.Inv) (hrun : Relation.ReflTransGen CurrentStep s s') : s'.Inv := by
  induction hrun with
  | refl => exact h
  | tail _ hstep ih =>
    obtain ⟨act,hl,hs⟩ := hstep
    exact ih.step hl hs

/-- The newest version of the list is deleted, and the deleting commit is over. -/
def Deleted (m : TxnManager P) (stored : Option StoredRow) : Prop :=
  ∃ bytes v rest d ts, stored=some bytes ∧ (decodeVersionedRow bytes).versions=v::rest ∧
    v.deletedByTxn=some d ∧ v.deletedCommitTs=some ts ∧ ¬m.Active d

/-- A delete of the row has committed: it shows in the row and in what a writer
under way would put back. -/
def DeleteCommitted (s : RowRun P) : Prop :=
  Deleted s.manager s.stored ∧ ∀ T before, s.lock=some (T,before) → Deleted s.manager before

/-- Every version is deleted by a commit that is over. -/
def Gone (m : TxnManager P) (stored : Option StoredRow) : Prop :=
  ∀ bytes, stored=some bytes → ∀ v∈(decodeVersionedRow bytes).versions,
    ∃ d ts, v.deletedByTxn=some d ∧ v.deletedCommitTs=some ts ∧ Settled m d ts

/-- When the newest version is deleted for good, all are. -/
theorem ListInv.gone {owner : Option TransactionId}
    (h : ListInv s owner (decodeVersionedRow bytes).versions)
    (hd : Deleted s.manager (some bytes)) : Gone s.manager (some bytes) := by
  obtain ⟨bytes',v,rest,d,ts,hb,hlist,hby,hts,hnot⟩ := hd
  obtain rfl := Option.some.inj hb
  rintro found hf u hu
  obtain rfl := Option.some.inj hf
  rw [hlist] at h hu
  have hstamp := h.stamp v List.mem_cons_self d ts (.inr ⟨hby,hts⟩)
  have hfirst : Settled s.manager d ts := ⟨hstamp.clock,hstamp.known,hnot⟩
  rcases List.mem_cons.mp hu with rfl | hu
  · exact ⟨d,ts,hby,hts,hfirst⟩
  · obtain ⟨e,he,⟨rfl,hown⟩ | ⟨tb,htb,hset,-⟩⟩ := List.rel_of_pairwise_cons h.pairs hu
    · -- `u` was closed by the creator of `v`, which is over as well
      have hcreated : ∃ ta, v.createdCommitTs=some ta ∧ Settled s.manager v.createdByTxn ta := by
        rcases h.ordered v List.mem_cons_self d hby with ⟨heq,himp⟩ | hset
        · obtain ⟨ta,hta⟩ := Option.isSome_iff_exists.mp (himp (by rw [hts]; rfl))
          have hs := h.stamp v List.mem_cons_self _ ta (.inl ⟨rfl,hta⟩)
          exact ⟨ta,hta,hs.clock,hs.known,heq ▸ hnot⟩
        · exact hset
      obtain ⟨ta,hta,hset⟩ := hcreated
      obtain ⟨tb,htb,hle⟩ := hown ta hta
      exact ⟨_,tb,he,htb,hle.trans hset.1,hset.2⟩
    · exact ⟨e,tb,he,htb,hset⟩

/-- The row and what a writer would put back are gone for good. -/
def AllGone (m : TxnManager P) (s : RowRun P) : Prop :=
  Gone m s.stored ∧ ∀ T before, s.lock=some (T,before) → Gone m before

theorem Inv.allGone (h : s.Inv) (hd : s.DeleteCommitted) : AllGone s.manager s := by
  refine ⟨fun bytes hb => ?_,fun T before hl bytes hb => ?_⟩
  · have hdel := hd.1
    rw [hb] at hdel
    exact ListInv.gone (h.row hb) hdel bytes rfl
  · subst hb
    exact ListInv.gone (h.before hl) (hd.2 T _ hl) bytes rfl

/-- A store of a list that is gone leaves everything gone. -/
theorem AllGone.store (h : AllGone m s) (hs : s.store T stored=some s') (hnew : Gone m stored) :
    AllGone m s' := by
  rcases store_some hs with ⟨-,rfl⟩ | ⟨-,rfl⟩
  · exact h
  · refine ⟨hnew,fun T' before hl => ?_⟩
    unfold RowRun.write at hl
    cases hlock : s.lock with
    | none =>
      rw [hlock] at hl
      obtain ⟨-,rfl⟩ := Prod.mk.inj (Option.some.inj hl)
      exact h.1
    | some lock =>
      rw [hlock] at hl
      exact h.2 T' before (hlock.trans hl)

/-- A version that is deleted for good has a stamped deletion. -/
theorem Gone.target (h : Gone m s.stored)
    (hl : ∀ v, s.target T=some v → v.deletedCommitTs=none) : s.target T=none := by
  cases ht : s.target T with
  | none => rfl
  | some v =>
    have hnone := hl v ht
    unfold RowRun.target at ht
    simp only [Option.bind_eq_bind,Option.bind_eq_some_iff] at ht
    obtain ⟨txn,-,bytes,hb,hf⟩ := ht
    obtain ⟨d,ts,-,hts,-⟩ := h bytes hb v (List.mem_of_find?_eq_some hf)
    rw [hnone] at hts
    cases hts

/-- Stamps do not bring a deleted row back. -/
theorem Gone.stamped (h : Gone m s.stored) (T : TransactionId) (ts : ℕ) :
    Gone m (s.stamped T ts) := by
  intro bytes hb v hv
  obtain ⟨old,hold,rfl⟩ := Option.map_eq_some_iff.mp hb
  obtain ⟨u,hu,rfl⟩ := List.mem_map.mp hv
  obtain ⟨d,tb,hd,htb,hset⟩ := h old hold u hu
  exact ⟨d,tb,hd,finalize_deleted_of_some htb,hset⟩

/-- No step but an insert brings a deleted row back. -/
theorem AllGone.step (h : AllGone m s)
    (hl : s.EditsLatest act) (hs : s.step act=some s') (hi : ∀ T row, act≠.insert T row) :
    AllGone m s' := by
  have hnone {T : TransactionId} {txn : TxnState P} {bytes : StoredRow}
      (hc : s.caller T=some txn) (hb : s.stored=some bytes)
      (hl : ∀ v, s.target T=some v → v.deletedCommitTs=none) :
      (decodeVersionedRow bytes).versions.find? (fun v => v.visible T txn.snapshot)=none :=
    (target_eq hc hb).symm.trans (h.1.target hl)
  cases step_did hs with
  | managed _ _ => exact h
  | finished _ _ => exact h
  | reserved _ => exact h
  | inserted _ => exact absurd rfl (hi _ _)
  | updated hc hb hu _ =>
    rw [appendRowVersion_eq_none (hnone hc hb hl)] at hu
    cases hu
  | deleted hc hb hu _ =>
    rw [markRowDeleted_eq_none (hnone hc hb hl)] at hu
    cases hu
  | purged hb hs =>
    refine h.store hs fun found hf v hv => ?_
    simp only [retained] at hf
    split at hf
    · cases hf
    · obtain rfl := Option.some.inj hf
      exact h.1 _ hb v (List.mem_of_mem_filter hv)
  | stamped _ _ hs => exact h.store hs (h.1.stamped _ _)
  | published _ _ hq =>
    have hgone := h.store hq (h.1.stamped _ _)
    exact ⟨hgone.1,fun T' before hl => hgone.2 T' before (Option.filter_eq_some_iff.mp hl).1⟩
  | undone hlock => exact ⟨h.2 _ _ hlock,fun T' b hl => by cases hl⟩

/-- Over a run without inserts a deleted row stays gone, and its deletions stay
settled. -/
theorem run_gone (h : s.Inv) (hg : AllGone m s)
    (hm : ∀ w ts, Settled m w ts → Settled s.manager w ts)
    (hrun : Relation.ReflTransGen CurrentStepNoInsert s s') :
    s'.Inv ∧ AllGone m s' ∧ ∀ w ts, Settled m w ts → Settled s'.manager w ts := by
  induction hrun with
  | refl => exact ⟨h,hg,hm⟩
  | tail _ hstep ih =>
    obtain ⟨hinv,hgone,hset⟩ := ih
    obtain ⟨act,hl,hs,hi⟩ := hstep
    exact ⟨hinv.step hl hs,hgone.step hl hs hi,
      fun w ts hw => (hset w ts hw).advance (step_advances hinv.registered hs)⟩

/-- No snapshot in use sees two versions of the row; and once a delete has
committed, no snapshot taken later ever sees one, unless the row is inserted
again. -/
def OneVisibleVersion (s : RowRun P) : Prop :=
  (∀ r S bytes, s.manager.Holds r S → s.stored=some bytes →
    ((decodeVersionedRow bytes).versions.filter fun v => v.visible r S).length ≤ 1) ∧
  (s.DeleteCommitted → ∀ s₁ s₂ r S bytes,
    Relation.ReflTransGen CurrentStepNoInsert s s₁ → s₁.manager.Current r S →
    Relation.ReflTransGen CurrentStepNoInsert s₁ s₂ → s₂.stored=some bytes →
    ∀ v∈(decodeVersionedRow bytes).versions, ¬v.visible r S)

/-- Every run whose updates and deletes replace only versions that no commit has
closed keeps one visible version. -/
theorem oneVisibleVersion_of_run {nextTxnId : ℕ}
    (hrun : Relation.ReflTransGen CurrentStep (start nextTxnId) s) : s.OneVisibleVersion := by
  have hinv : s.Inv := (Inv.start nextTxnId).run hrun
  refine ⟨fun r S bytes hS hb => (hinv.row hb).one_visible hS,?_⟩
  intro hdel s₁ s₂ r S bytes h₁ hS h₂ hb v hv hvis
  obtain ⟨hinv₁,hgone₁,hset₁⟩ := run_gone hinv (hinv.allGone hdel) (fun _ _ h => h) h₁
  obtain ⟨-,hgone₂,-⟩ := run_gone hinv₁ hgone₁ hset₁ h₂
  obtain ⟨d,ts,hd,hts,hset⟩ := hgone₂.1 bytes hb v hv
  have hsees := (hset₁ d ts hset).sees (.refl hinv₁.registered) hS
  exact (visible_iff.mp hvis).2.2 (deletedInSnapshot_iff.mpr ⟨d,ts,hd,hts,hsees⟩)

end RowRun

end RustSql.V2
