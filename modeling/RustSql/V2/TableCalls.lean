import RustSql.V2.TableRun

/-!
# Calls on a table

The calls of a storage handle, as far as they touch one row or the root of its table. In
place, every call whose conditions hold is a call on the row or leaves it alone, so what is
known of the calls on a row holds of them.
-/

namespace RustSql.V2

open TxnManager

/-- The calls of a storage handle that concern a row or the root of its table. -/
inductive TableCall where
  /-- A call that leaves the catalog alone: a statement on the row, a commit that fails
  before it stores the catalog, the purge, whose own transaction keeps no catalog. -/
  | row (c : RowCall)
  | begin' (isolationLevel : IsolationLevel)
  | commit (txnId : TransactionId)
  /-- A commit that fails after it has stored the catalog. -/
  | failedCommit (txnId : TransactionId)
  | rollback (txnId : TransactionId) (place : Place)
  /-- A read-committed transaction plans a statement. -/
  | plan (txnId : TransactionId) (same : Bool) (place : Place)
  | neighbour (txnId : TransactionId) (torn : Option Place)
  | grow (txnId : TransactionId) (root : PageId)
  | addColumn (txnId : TransactionId) (defaultValue : Value) (normalize : Row → Row)
  | retable (txnId : TransactionId) (root : Option PageId) (place : Place)
  | victim (txnId : TransactionId) (place : Place)
  /-- The rollback of a transaction that was a deadlock victim. -/
  | forgive (txnId : TransactionId) (place : Place)

namespace TableCall

/-- The steps of a call. -/
def acts {P : Type} (s : TableRun P) : TableCall → List TableAct
  | .row c => (c.acts s.row).map .row
  | .begin' isolationLevel =>
    [.row (.begin' isolationLevel),.openSession (max s.row.manager.nextTxnId 1)]
  | .commit txnId =>
    [.row (.reserve txnId),.storeCatalog txnId,.row (.publish txnId),.row (.finish txnId)]
  | .failedCommit txnId => [.row (.reserve txnId),.row (.stamp txnId),.storeCatalog txnId]
  | .rollback txnId place => [.undo txnId place,.row (.abort txnId)]
  | .plan txnId same place => [.row (.refresh txnId),.reload txnId same place]
  | .neighbour txnId torn => [.neighbour txnId torn]
  | .grow txnId root => [.grow txnId root]
  | .addColumn txnId defaultValue normalize => [.addColumn txnId defaultValue normalize]
  | .retable txnId root place => [.retable txnId root place]
  | .victim txnId place => [.victim txnId place]
  | .forgive txnId place => [.forgive txnId place]

/-- The call on the row that a call is, if it is one. -/
def rowCall : TableCall → Option RowCall
  | .row c => some c
  | .begin' isolationLevel => some (.begin' isolationLevel)
  | .commit txnId => some (.commit txnId)
  | .failedCommit txnId => some (.failedCommit txnId true)
  | .rollback txnId _ => some (.rollback txnId)
  | .plan txnId _ _ => some (.refresh txnId)
  | .victim txnId _ => some (.rollback txnId)
  | _ => none

end TableCall

namespace TableRun

variable {P : Type} {s s' : TableRun P} {c : TableCall}

/-- One call. -/
def call (c : TableCall) (s : TableRun P) : Option (TableRun P) := steps (c.acts s) s

/-- What has to hold of the state before a call. -/
def CallCareful (s : TableRun P) : TableCall → Prop
  | .row c => s.row.CallEditsLatest c
  | .addColumn txnId defaultValue normalize => s.Careful (.addColumn txnId defaultValue normalize)
  | .retable txnId root place => s.Careful (.retable txnId root place)
  | .plan txnId same place => s.Careful (.reload txnId same place)
  | .neighbour txnId torn => s.Careful (.neighbour txnId torn)
  | .rollback txnId place => s.Careful (.undo txnId place)
  | .victim txnId place => s.Careful (.victim txnId place)
  | .forgive txnId place => s.Careful (.forgive txnId place)
  | _ => True

theorem steps_cons {act : TableAct} {rest : List TableAct} (h : steps (act::rest) s=some s') :
    ∃ q, s.step act=some q ∧ steps rest q=some s' := by
  rw [steps] at h
  exact Option.bind_eq_some_iff.mp h

theorem steps_one {act : TableAct} (h : steps [act] s=some s') : s.step act=some s' := by
  obtain ⟨q,hq,hnil⟩ := steps_cons h
  rw [hq,← hnil]
  rfl

/-- Steps on the row, one after the other. -/
theorem steps_row {acts : List RowAct} (hin : s.roots.InPlace)
    (hs : steps (acts.map .row) s=some s') :
    s'.roots.InPlace ∧ s.row.steps acts=some s'.row := by
  induction acts generalizing s with
  | nil =>
    obtain rfl := Option.some.inj hs
    exact ⟨hin,rfl⟩
  | cons act rest ih =>
    obtain ⟨q,hq,hrest⟩ := steps_cons hs
    obtain ⟨hrow,hroots⟩ := row_step hq
    obtain ⟨hin',hsteps⟩ := ih (hroots.mpr hin) hrest
    refine ⟨hin',?_⟩
    rw [RowRun.steps,hrow]
    exact hsteps

/-- The steps of a commit: storing the catalog does not touch the row. -/
theorem storeCatalog_row {txnId : TransactionId} (hs : s.step (.storeCatalog txnId)=some s') :
    s'.row=s.row ∧ (s'.roots.InPlace ↔ s.roots.InPlace) := by
  simp only [step,Option.bind_eq_bind,Option.bind_eq_some_iff] at hs
  obtain ⟨txn,-,hs⟩ := hs
  split at hs
  · obtain rfl := Option.some.inj hs
    exact ⟨rfl,Iff.rfl⟩
  · cases hs

theorem commit_row {txnId : TransactionId} (hin : s.roots.InPlace)
    (hs : s.call (.commit txnId)=some s') :
    s'.roots.InPlace ∧ s.row.call (.commit txnId)=some s'.row := by
  obtain ⟨q₁,h₁,hs⟩ := steps_cons hs
  obtain ⟨q₂,h₂,hs⟩ := steps_cons hs
  obtain ⟨hrow₁,hroots₁⟩ := row_step h₁
  obtain ⟨hrow₂,hroots₂⟩ := storeCatalog_row h₂
  have hrest : steps ([RowAct.publish txnId,.finish txnId].map .row) q₂=some s' := hs
  obtain ⟨hin',hsteps⟩ := steps_row (hroots₂.mpr (hroots₁.mpr hin)) hrest
  refine ⟨hin',?_⟩
  rw [hrow₂] at hsteps
  change (s.row.step (.reserve txnId)).bind _=_
  rw [hrow₁]
  exact hsteps

theorem failedCommit_row {txnId : TransactionId} (hin : s.roots.InPlace)
    (hs : s.call (.failedCommit txnId)=some s') :
    s'.roots.InPlace ∧ s.row.call (.failedCommit txnId true)=some s'.row := by
  obtain ⟨q₁,h₁,hs⟩ := steps_cons hs
  obtain ⟨q₂,h₂,hs⟩ := steps_cons hs
  obtain ⟨hrow₁,hroots₁⟩ := row_step h₁
  obtain ⟨hrow₂,hroots₂⟩ := row_step h₂
  obtain ⟨hrow₃,hroots₃⟩ := storeCatalog_row (steps_one hs)
  refine ⟨hroots₃.mpr (hroots₂.mpr (hroots₁.mpr hin)),?_⟩
  change (s.row.step (.reserve txnId)).bind _=_
  rw [hrow₁,hrow₃]
  change (q₁.row.step (.stamp txnId)).bind _=_
  rw [hrow₂]
  rfl

/-- The end of a victim that has written nothing here is a rollback on the row. -/
theorem victim_row {txnId : TransactionId} {place : Place} (hin : s.roots.InPlace)
    (hcare : s.Untouched txnId) (hs : s.step (.victim txnId place)=some s') :
    s'.roots.InPlace ∧ s.row.call (.rollback txnId)=some s'.row := by
  obtain ⟨hin',-,habort⟩ := step_follows hin hs hcare
  refine ⟨hin',?_⟩
  have hundo : s.row.step (.undo txnId)=some s.row := by
    have hstep := habort
    simp only [RowRun.step,Option.bind_eq_bind,Option.bind_eq_some_iff] at hstep ⊢
    obtain ⟨txn,hcaller,-⟩ := hstep
    refine ⟨txn,hcaller,?_⟩
    cases hlock : s.row.lock with
    | none => rfl
    | some lock =>
      have hother : lock.1≠txnId := by simpa [hlock] using hcare.1
      exact if_neg hother
  change (s.row.step (.undo txnId)).bind _=_
  rw [hundo]
  change (s.row.step (.abort txnId)).bind _=_
  rw [habort]
  rfl

/-- In place, a careful call is a call on the row or leaves it alone, and the catalog goes on
leading to the row's tree. -/
structure CallFollows (s s' : TableRun P) (c : TableCall) : Prop where
  inPlace : s'.roots.InPlace
  row : match c.rowCall with
    | some c => s.row.CallEditsLatest c ∧ s.row.call c=some s'.row
    | none => s'.row=s.row

theorem call_follows (hin : s.roots.InPlace) (hcare : s.CallCareful c)
    (hs : s.call c=some s') : CallFollows s s' c := by
  -- a call of one step that is no step of the row
  have hone : ∀ {act : TableAct}, steps [act] s=some s' → rowAct act=none → s.Careful act →
      s'.roots.InPlace ∧ s'.row=s.row := by
    intro act hsteps hact hcareful
    obtain ⟨hin',hrow⟩ := step_follows hin (steps_one hsteps) hcareful
    rw [hact] at hrow
    exact ⟨hin',hrow⟩
  cases c with
  | row c =>
    obtain ⟨hin',hrow⟩ := steps_row hin hs
    exact ⟨hin',hcare,hrow⟩
  | begin' isolationLevel =>
    obtain ⟨q,hq,hrest⟩ := steps_cons hs
    obtain ⟨hrow,hroots⟩ := row_step hq
    obtain rfl := Option.some.inj (steps_one hrest)
    refine ⟨hroots.mpr hin,trivial,?_⟩
    change (s.row.step (.begin' isolationLevel)).bind _=_
    rw [hrow]
    rfl
  | commit txnId =>
    obtain ⟨hin',hrow⟩ := commit_row hin hs
    exact ⟨hin',trivial,hrow⟩
  | failedCommit txnId =>
    obtain ⟨hin',hrow⟩ := failedCommit_row hin hs
    exact ⟨hin',trivial,hrow⟩
  | rollback txnId place =>
    obtain ⟨q,hq,hrest⟩ := steps_cons hs
    obtain ⟨hinq,-,hundo⟩ := step_follows hin hq hcare
    obtain ⟨habort,hroots⟩ := row_step (steps_one hrest)
    refine ⟨hroots.mpr hinq,trivial,?_⟩
    change (s.row.step (.undo txnId)).bind _=_
    rw [hundo]
    change (q.row.step (.abort txnId)).bind _=_
    rw [habort]
    rfl
  | plan txnId same place =>
    obtain ⟨q,hq,hrest⟩ := steps_cons hs
    obtain ⟨row,hrow,rfl⟩ := Option.map_eq_some_iff.mp hq
    have hloads : Careful ({s with row := row} : TableRun P) (.reload txnId same place) :=
      hcare
    have hinq : ({s with row := row} : TableRun P).roots.InPlace := hin
    obtain ⟨hin',hsame⟩ := step_follows hinq (steps_one hrest) hloads
    refine ⟨hin',trivial,?_⟩
    change (s.row.step (.refresh txnId)).bind _=_
    rw [hrow,show s'.row=row from hsame]
    rfl
  | neighbour txnId torn =>
    obtain ⟨hin',hrow⟩ := hone hs rfl hcare
    exact ⟨hin',hrow⟩
  | grow txnId root =>
    obtain ⟨hin',hrow⟩ := hone hs rfl trivial
    exact ⟨hin',hrow⟩
  | addColumn txnId defaultValue normalize =>
    obtain ⟨hin',hrow⟩ := hone hs rfl hcare
    exact ⟨hin',hrow⟩
  | retable txnId root place =>
    obtain ⟨hin',hrow⟩ := hone hs rfl hcare
    exact ⟨hin',hrow⟩
  | victim txnId place =>
    obtain ⟨hin',hrow⟩ := victim_row hin hcare (steps_one hs)
    exact ⟨hin',trivial,hrow⟩
  | forgive txnId place =>
    obtain ⟨hin',hrow⟩ := hone hs rfl hcare
    exact ⟨hin',hrow⟩

/-! ## Lost updates -/

instance (s : TableRun P) (c : TableCall) : Decidable (s.CallCareful c) := by
  cases c <;> unfold CallCareful <;> infer_instance

/-- A careful call. -/
def CarefulCall (s s' : TableRun P) : Prop := ∃ c, s.CallCareful c ∧ s.call c=some s'

/-- A run of careful calls is a run of calls on the row. -/
theorem calls_row (hin : s.roots.InPlace) (hrun : Relation.ReflTransGen CarefulCall s s') :
    s'.roots.InPlace ∧ Relation.ReflTransGen RowRun.CurrentCall s.row s'.row := by
  induction hrun with
  | refl => exact ⟨hin,.refl⟩
  | tail _ hcall ih =>
    obtain ⟨c,hcare,hs⟩ := hcall
    obtain ⟨hin',hrow⟩ := call_follows ih.1 hcare hs
    refine ⟨hin',?_⟩
    split at hrow
    · exact ih.2.tail ⟨_,hrow⟩
    · rw [hrow]
      exact ih.2

/-- A sequence of careful calls. -/
def carefulCalls : List TableCall → TableRun P → Option (TableRun P)
  | [], s => some s
  | c::rest, s => if s.CallCareful c then (s.call c).bind (carefulCalls rest) else none

theorem carefulCalls_run {calls : List TableCall} (h : carefulCalls calls s=some s') :
    Relation.ReflTransGen CarefulCall s s' := by
  induction calls generalizing s with
  | nil =>
    obtain rfl := Option.some.inj h
    exact .refl
  | cons c rest ih =>
    rw [carefulCalls] at h
    split at h
    · next hcare =>
      obtain ⟨q,hq,hrest⟩ := Option.bind_eq_some_iff.mp h
      exact .head ⟨c,hcare,hq⟩ (ih hrest)
    · cases h

/-- A row is inserted and committed. Two transactions take their snapshots, the second of
them splits the table's root for another row and goes back, and a third one splits it and
commits. -/
def twoReaders : List TableCall :=
  [.begin' .repeatableRead,.row (.insert 1 [.integer 1]),.commit 1,
    .begin' .repeatableRead,.begin' .repeatableRead,.neighbour 3 none,.grow 3 8,
    .rollback 3 (none,none),.begin' .repeatableRead,.grow 4 9,.commit 4,
    .begin' .repeatableRead]

/-- A sequence of calls. -/
def calls : List TableCall → TableRun P → Option (TableRun P)
  | [], s => some s
  | c::rest, s => (s.call c).bind (calls rest)

end TableRun

end RustSql.V2
