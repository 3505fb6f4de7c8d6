import RustSql.Base.Runs
import RustSql.Memory.RowChanges
import RustSql.Memory.TableChanges

/-!
# Transaction control

What the calls that begin and end a transaction, and those that set, release and return to a
savepoint, do to the log and to the tables. Returning undoes a part of the log.
-/

namespace RustSql.Memory

open RustSql.Engine RustSql.Sql RustSql.V2

/-- The transaction is the active one. -/
def MemoryStorage.Active (storage : MemoryStorage) (tid : TransactionId) : Prop :=
  ∃ active, storage.activeTxn=some active ∧ active.id=tid

/-- The log of the active transaction leads back, from a place on, to some tables. -/
structure MemoryStorage.Since (storage : MemoryStorage) (undoLen : ℕ) (old : Tables) : Prop where
  within : undoLen ≤ storage.undoLog.length
  undoes : Undoes UndoOp.Back (storage.undoLog.drop undoLen) storage.tables old

/-- The records from a place of the log on are undone where their rows stand. -/
def MemoryStorage.UndoneInPlace (storage : MemoryStorage) (undoLen : ℕ) : Prop :=
  Allowed UndoOp.undo UndoOp.InPlace (storage.undoLog.drop undoLen) storage.tables

section Control

variable {s t : MemoryStorage} {tid : TransactionId} {name : String} {α : Type}

theorem savepoints_of_active {active : ActiveTransaction} (h : s.activeTxn=some active) :
    s.savepoints=active.savepoints := by
  unfold MemoryStorage.savepoints
  rw [h]

theorem undoLog_of_active {active : ActiveTransaction} (h : s.activeTxn=some active) :
    s.undoLog=active.undoLog := by
  unfold MemoryStorage.undoLog
  rw [h]

theorem validateTransaction_ok (h : s.Active tid) :
    MemoryStorage.validateTransaction tid s=(.ok (),s) := by
  obtain ⟨active,hactive,hid⟩ := h
  unfold MemoryStorage.validateTransaction
  rw [Eff.bind_of_ok (Eff.get_eq s),hactive]
  dsimp only
  rw [if_pos hid]
  rfl

/-- The check of a call's transaction lets it go on in the active transaction only. -/
theorem validateTransaction_cases (s : MemoryStorage) (tid : TransactionId) :
    (s.Active tid ∧ MemoryStorage.validateTransaction tid s=(.ok (),s)) ∨
    ∃ e, MemoryStorage.validateTransaction tid s=(.err e,s) := by
  cases hactive : s.activeTxn with
  | none =>
    refine Or.inr ⟨.txn "no active transaction",?_⟩
    unfold MemoryStorage.validateTransaction
    rw [Eff.bind_of_ok (Eff.get_eq s),hactive]
    rfl
  | some active =>
    by_cases hid : active.id=tid
    · have hopen : s.Active tid := ⟨active,hactive,hid⟩
      exact Or.inl ⟨hopen,validateTransaction_ok hopen⟩
    · refine Or.inr ⟨.txn s!"transaction {tid} is not active; current transaction is {active.id}",?_⟩
      unfold MemoryStorage.validateTransaction
      rw [Eff.bind_of_ok (Eff.get_eq s),hactive]
      dsimp only
      rw [if_neg hid]
      rfl

/-- A call goes on in the active transaction, or fails and leaves everything as it was. -/
theorem returns_validate {f : Unit → Eff MemoryStorage α}
    (h : Eff.returns (MemoryStorage.validateTransaction tid >>= f) s=some t) :
    t=s ∨ s.Active tid ∧ Eff.returns (f ()) s=some t := by
  rcases validateTransaction_cases s tid with ⟨hactive,hok⟩ | ⟨e,herr⟩
  · rw [Eff.returns,Eff.bind_of_ok hok] at h
    exact Or.inr ⟨hactive,h⟩
  · rw [Eff.returns,Eff.bind_of_err herr] at h
    exact Or.inl (Option.some.inj h).symm

theorem findSavepoint_ok {index : ℕ}
    (h : innermost (s.savepoints.map Savepoint.name) name=some index) :
    MemoryStorage.findSavepoint name s=(.ok index,s) := by
  unfold MemoryStorage.findSavepoint
  rw [Eff.bind_of_ok (Eff.get_eq s),h]
  rfl

/-- A call goes on with a savepoint that was found, or fails and leaves everything as it was. -/
theorem returns_findSavepoint {f : ℕ → Eff MemoryStorage α}
    (h : Eff.returns (MemoryStorage.findSavepoint name >>= f) s=some t) :
    t=s ∨ ∃ index, innermost (s.savepoints.map Savepoint.name) name=some index ∧
      Eff.returns (f index) s=some t := by
  cases hindex : innermost (s.savepoints.map Savepoint.name) name with
  | some index =>
    rw [Eff.returns,Eff.bind_of_ok (findSavepoint_ok hindex)] at h
    exact Or.inr ⟨index,rfl,h⟩
  | none =>
    have hfail : MemoryStorage.findSavepoint name s=
        (.err (.txn s!"no such savepoint: {name}"),s) := by
      unfold MemoryStorage.findSavepoint
      rw [Eff.bind_of_ok (Eff.get_eq s),hindex]
      rfl
    rw [Eff.returns,Eff.bind_of_err hfail] at h
    exact Or.inl (Option.some.inj h).symm

/-- A savepoint that was found is one of them. -/
theorem innermost_lt {names : List String} {index : ℕ} (h : innermost names name=some index) :
    index < names.length := by
  have hmem := List.mem_of_getLast? h
  obtain ⟨hbound,-⟩ := List.mem_findIdxs_iff_exists_getElem_pos.mp hmem
  exact hbound

/-- A part of a log is undone, and nothing else changes. -/
theorem undone_does {log : List UndoOp} {old : Tables} (hs : s.Sound)
    (hback : Undoes UndoOp.Back log s.tables old)
    (hplace : Allowed UndoOp.undo UndoOp.InPlace log s.tables) :
    undoAll UndoOp.undo log s.tables=old ∧
      ∃ t, Eff.forEach log.reverse MemoryStorage.applyUndo s=(.ok (),t) ∧ t.Sound ∧
        Grows [] s t ∧ t.tables=old := by
  obtain ⟨hall,t,ht,⟨hsound,hgrows⟩,htables⟩ := Undoes.run MemoryStorage.applyUndo
    MemoryStorage.tables (fun t => t.Sound ∧ Grows [] s t)
    (fun record new old hback hplace => (hback.2 hplace).2)
    (fun record t old ht hback hplace => by
      obtain ⟨table,new,hnew,htables,u,hu,hwrites⟩ := applyUndo_does ht.1 hback hplace
      exact ⟨u,hu,⟨hwrites.sound ht.1 hnew,ht.2.trans hwrites.toGrows⟩,
        hwrites.tables.trans htables⟩)
    hback hplace ⟨hs,Grows.of_same rfl rfl⟩
  exact ⟨hall,t,ht,hsound,hgrows,htables⟩

theorem Grows.same (h : Grows [] s t) : t.activeTxn=s.activeTxn := by
  rw [h.activeTxn]
  cases s.activeTxn with
  | none => rfl
  | some active => simp only [Option.map_some,List.append_nil]

/-- The log of a transaction that is active grows. -/
theorem Grows.undoLog {log : List UndoOp} (h : Grows log s t) (hactive : s.Active tid) :
    t.undoLog=s.undoLog++log := by
  obtain ⟨active,hactive,-⟩ := hactive
  have hlog := h.activeTxn
  rw [hactive] at hlog
  rw [undoLog_of_active hactive,undoLog_of_active hlog]

theorem Grows.savepoints {log : List UndoOp} (h : Grows log s t) :
    t.savepoints=s.savepoints := by
  cases hactive : s.activeTxn with
  | none =>
    have hnone := h.activeTxn
    rw [hactive] at hnone
    unfold MemoryStorage.savepoints
    rw [hnone,hactive]
    rfl
  | some active =>
    have hlog := h.activeTxn
    rw [hactive] at hlog
    rw [savepoints_of_active hactive,savepoints_of_active hlog]

theorem Grows.active {log : List UndoOp} (h : Grows log s t) (hactive : s.Active tid) :
    t.Active tid := by
  obtain ⟨active,hactive,rfl⟩ := hactive
  have hlog := h.activeTxn
  rw [hactive] at hlog
  exact ⟨_,hlog,rfl⟩

/-- A rollback undoes the whole log. -/
theorem rollback_does {old : Tables} (hs : s.Sound) (hactive : s.Active tid)
    (hback : Undoes UndoOp.Back s.undoLog s.tables old) (hplace : s.UndoneInPlace 0) :
    ∃ t, MemoryStorage.rollback tid s=(.ok (),t) ∧ t.Sound ∧ t.activeTxn=none ∧
      t.tables=old := by
  obtain ⟨active,hactive,hid⟩ := hactive
  rw [undoLog_of_active hactive] at hback
  unfold MemoryStorage.UndoneInPlace at hplace
  rw [List.drop_zero,undoLog_of_active hactive] at hplace
  obtain ⟨-,t,ht,hsound,hgrows,htables⟩ := undone_does
    (s := { s with activeTxn := none }) hs hback hplace
  refine ⟨t,?_,hsound,hgrows.same,htables⟩
  unfold MemoryStorage.rollback
  rw [Eff.bind_of_ok (Eff.get_eq s),hactive]
  dsimp only
  rw [if_neg (not_not_intro hid),Eff.bind_of_ok (Eff.modify_eq _ s)]
  exact ht

/-- A return to a savepoint undoes the log from where the savepoint was set. -/
theorem rollbackTo_does {index : ℕ} {savepoint : Savepoint} {old : Tables} (hs : s.Sound)
    (hactive : s.Active tid)
    (hindex : innermost (s.savepoints.map Savepoint.name) name=some index)
    (hsavepoint : s.savepoints[index]?=some savepoint)
    (hback : Undoes UndoOp.Back (s.undoLog.drop savepoint.undoLen) s.tables old)
    (hplace : s.UndoneInPlace savepoint.undoLen) :
    ∃ t, MemoryStorage.rollbackToSavepoint tid name s=(.ok (),t) ∧ t.Sound ∧
      (t.activeTxn=s.activeTxn.map fun active =>
        { active with
          undoLog := active.undoLog.take savepoint.undoLen
          savepoints := active.savepoints.take (index+1) }) ∧
      t.tables=old ∧
      undoAll UndoOp.undo (s.undoLog.drop savepoint.undoLen) s.tables=old := by
  obtain ⟨hall,t,ht,hsound,hgrows,htables⟩ := undone_does (s := { s with
    activeTxn := s.activeTxn.map fun active =>
      { active with
        undoLog := active.undoLog.take savepoint.undoLen
        savepoints := active.savepoints.take (index+1) } }) hs hback hplace
  refine ⟨t,?_,hsound,hgrows.same,htables,hall⟩
  unfold MemoryStorage.rollbackToSavepoint
  rw [Eff.bind_of_ok (validateTransaction_ok hactive),Eff.bind_of_ok (findSavepoint_ok hindex),Eff.bind_of_ok (Eff.get_eq s),hsavepoint]
  exact (Eff.bind_of_ok (Eff.modify_eq _ s)).trans ht

end Control

end RustSql.Memory
