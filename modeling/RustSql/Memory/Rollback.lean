import RustSql.Memory.CallMoves

/-!
# Rollbacks and indexes

A rollback brings back what there was when the transaction began, a return to a savepoint what
there was when it was set, as long as what is undone stands where it was put. The indexes are
those of the rows in every state that calls which fit lead to.
-/

namespace RustSql.Memory

open RustSql.Engine RustSql.Sql RustSql.V2

section Runs

variable (expressions : Expressions) (names : ExpressionNames)

/-- A transaction begins with an empty log that leads back to the tables as they are. -/
theorem begin_marked {s t : MemoryStorage} {tid : TransactionId} (hs : s.Kept)
    (h : MemoryStorage.begin' s=(.ok tid,t)) : t.Marked tid 0 s.tables := by
  have hmoves := begin_moves (Eff.returns_of_ok h)
  unfold MemoryStorage.begin' at h
  rw [Eff.bind_of_ok (Eff.get_eq s)] at h
  cases hactive : s.activeTxn with
  | some active =>
    rw [hactive] at h
    cases h
  | none =>
    rw [hactive] at h
    cases h
    exact ⟨hmoves.kept hs,⟨_,rfl,rfl⟩,Nat.zero_le _,rfl⟩

/-- A savepoint is set at the end of the log, which leads back to the tables as they are. -/
theorem savepoint_marked {s t : MemoryStorage} {tid : TransactionId} {name : String}
    (hs : s.Kept) (h : MemoryStorage.savepoint tid name s=(.ok (),t)) :
    t.Marked tid s.undoLog.length s.tables ∧
      t.savepoints[s.savepoints.length]?=some ⟨name,s.undoLog.length⟩ := by
  have hkept := (savepoint_moves (Eff.returns_of_ok h)).kept hs
  unfold MemoryStorage.savepoint at h
  rcases validateTransaction_cases s tid with ⟨⟨active,hactive,hid⟩,hok⟩ | ⟨e,herr⟩
  · rw [Eff.bind_of_ok hok] at h
    have ht : (MemoryStorage.modifyActive (fun active =>
        { active with savepoints := active.savepoints++[⟨name,active.undoLog.length⟩] }) s).2=t :=
      congrArg Prod.snd h
    have hnew : t.activeTxn=some
        { active with savepoints := active.savepoints++[⟨name,active.undoLog.length⟩] } := by
      rw [← ht]
      change s.activeTxn.map _=_
      rw [hactive]
      rfl
    have hstored : t.stored=s.stored := by
      rw [← ht]
      rfl
    have hlog : t.undoLog=s.undoLog := by
      rw [undoLog_of_active hnew,undoLog_of_active hactive]
    refine ⟨⟨hkept,⟨_,hnew,hid⟩,?_,?_⟩,?_⟩
    · rw [hlog]
    · rw [hlog,List.drop_length,tables_of_stored hstored]
      rfl
    · rw [savepoints_of_active hnew,savepoints_of_active hactive,undoLog_of_active hactive,
        List.getElem?_append_right le_rfl,Nat.sub_self]
      rfl
  · rw [Eff.bind_of_err herr] at h
    cases h

/-- From every state that calls which fit lead to, whatever calls that fit a transaction makes,
its rollback brings back the content at its begin; and while a savepoint is set, a return to it
brings back the content when it was set. -/
theorem rollback_exact (before calls : List StorageCall) (s t u : MemoryStorage)
    (tid : TransactionId)
    (hbefore : Eff.Along StorageCall.run StorageCall.Fits before
      (MemoryStorage.new expressions names))
    (hs : Eff.runs StorageCall.run before (MemoryStorage.new expressions names)=some s)
    (hfits : Eff.Along StorageCall.run StorageCall.Fits calls t)
    (hruns : Eff.runs StorageCall.run calls t=some u) :
    (MemoryStorage.begin' s=(.ok tid,t) →
      Eff.Throughout StorageCall.run (fun w => w.Active tid) calls t →
      (StorageCall.rollback tid).Fits u →
      ∃ v, MemoryStorage.rollback tid u=(.ok (),v) ∧ v.content=s.content) ∧
    ∀ name other, MemoryStorage.savepoint tid name s=(.ok (),t) →
      Eff.Throughout StorageCall.run (fun w => s.savepoints.length < w.savepoints.length) calls t →
      innermost (u.savepoints.map Savepoint.name) other=some s.savepoints.length →
      (StorageCall.rollbackToSavepoint tid other).Fits u →
      ∃ v, MemoryStorage.rollbackToSavepoint tid other u=(.ok (),v) ∧ v.content=s.content := by
  have hkept := run_kept hbefore (new_kept expressions names) hs
  constructor
  · intro hbegin hopen hfit
    have hmarked := run_marked hfits (begin_marked hkept hbegin) hopen hruns
    have hback := hmarked.since.undoes
    rw [List.drop_zero] at hback
    obtain ⟨v,hv,hsound,-,htables⟩ := rollback_does hmarked.kept.sound hmarked.active hback
      (hfit hmarked.active)
    exact ⟨v,hv,content_of_tables hsound hkept.sound htables⟩
  · intro name other hsave hset hfound hfit
    obtain ⟨hbegun,hplace⟩ := savepoint_marked hkept hsave
    obtain ⟨hmarked,hplace⟩ := run_saved ⟨name,s.undoLog.length⟩ hfits hbegun hplace
      hset hruns
    obtain ⟨v,hv,hsound,-,htables,-⟩ := rollbackTo_does hmarked.kept.sound hmarked.active hfound
      hplace hmarked.since.undoes (hfit hmarked.active _ _ hfound hplace)
    exact ⟨v,hv,content_of_tables hsound hkept.sound htables⟩

/-- In every state that calls which fit lead to, a table without a schema has neither rows nor
indexes, every index maps each key to the rows that have it, every row has a key in each of
them, no null-free key of a unique index has two rows, and a row stands under the number it
carries. A column that was dropped is in no index. -/
theorem indexes_exact (calls : List StorageCall) (t : MemoryStorage)
    (hfits : Eff.Along StorageCall.run StorageCall.Fits calls
      (MemoryStorage.new expressions names))
    (hruns : Eff.runs StorageCall.run calls (MemoryStorage.new expressions names)=some t) :
    (∀ table, t.schemas[table]?=none → t.tableRows table=∅ ∧ t.tableIndexes table=∅) ∧
    (∀ (table name : String) (index : IndexState) (schema : Schema),
      t.schemas[table]?=some schema → (t.tableIndexes table)[name]?=some index →
      (∀ key rowId, (key,rowId)∈index.entries ↔ ∃ row, (t.tableRows table)[rowId]?=some row ∧
        projectIndexKey schema index.indexMeta row=.ok key) ∧
      (∀ (rowId : RowId) (row : Row), (t.tableRows table)[rowId]?=some row →
        ∃ key, projectIndexKey schema index.indexMeta row=.ok key) ∧
      ∀ key rowId other, index.indexMeta.enforcesUniqueKey key → (key,rowId)∈index.entries →
        (key,other)∈index.entries → rowId=other) ∧
    (∀ (table : String) (schema : Schema) (position : ℕ), t.schemas[table]?=some schema →
      integerPrimaryKeyColumnIndex schema=some position → ∀ (rowId : RowId) (row : Row),
      (t.tableRows table)[rowId]?=some row →
      ∃ value : Int64, row[position]?=some (.integer value) ∧ value.toInt=(rowId : ℤ)) ∧
    ∀ (tid : TransactionId) (table column : String) (u : MemoryStorage),
      (StorageCall.dropColumn tid table column).Fits t →
      MemoryStorage.dropColumn tid table column t=(.ok (),u) →
      ∀ (name : String) (index : IndexState), (u.tableIndexes table)[name]?=some index →
        column∉index.indexMeta.columns := by
  have hsound := (run_kept hfits (new_kept expressions names) hruns).sound
  refine ⟨fun table hnone => ((hsound table).no_schema hnone).2,?_,?_,?_⟩
  · intro table name index schema hschema hindex
    have hfitting := (Table.valid_of_schema (hsound table).valid hschema).2
    have hlists := (hsound table).indexed schema hschema name index hindex
    have hmeta : (t.stored table).table.indexes name=some index.indexMeta :=
      Option.map_eq_some_iff.mpr ⟨index,hindex,rfl⟩
    refine ⟨hlists,fun rowId row hrow => hfitting.keyed name _ rowId row hmeta hrow,?_⟩
    intro key rowId other hunique hentry hother
    obtain ⟨row,hrow,hkey⟩ := (hlists key rowId).mp hentry
    obtain ⟨otherRow,hotherRow,hotherKey⟩ := (hlists key other).mp hother
    exact hfitting.unique name _ hmeta rowId row other otherRow key hrow hotherRow hkey hotherKey
      hunique
  · intro table schema position hschema halias rowId row hrow
    exact (Table.valid_of_schema (hsound table).valid hschema).2.numbered rowId row hrow position
      halias
  · intro tid table column u hfit hdrop name index hindex
    rcases validateTransaction_cases t tid with ⟨hactive,-⟩ | ⟨e,herr⟩
    · have hgone := (dropColumn_keeps tid (hfit hactive)).2 () (congrArg Prod.fst hdrop) hsound
      rw [hdrop] at hgone
      exact hgone name index hindex
    · unfold MemoryStorage.dropColumn at hdrop
      rw [Eff.bind_of_err herr] at hdrop
      cases hdrop

end Runs

/-! ## Rows that stay and a row that moves -/

section Runs

instance decidableInPlace :
    (record : UndoOp) → (tables : Tables) → Decidable (record.InPlace tables)
  | .dropSchema _, _ => .isTrue trivial
  | .dropIndex _ _, _ => .isTrue trivial
  | .restoreTable _ _ _ _, _ => .isTrue trivial
  | .restoreIndex _ _ _, _ => .isTrue trivial
  | .deleteRow _ _, _ => .isTrue trivial
  | .reinsertRow _ _ _, _ => .isTrue trivial
  | .restoreRow table rowId _, tables =>
    inferInstanceAs (Decidable ((tables table).rows rowId≠none))

instance decidableUndoneInPlace (storage : MemoryStorage) (undoLen : ℕ) :
    Decidable (storage.UndoneInPlace undoLen) :=
  inferInstanceAs (Decidable (Allowed UndoOp.undo UndoOp.InPlace _ _))

/-- A test of calls that fit: schemas stay, and rows come into tables without indexes that
stand for the primary key. -/
def fitsTest : StorageCall → MemoryStorage → Bool
  | .replaceSchema _ _, _ => false
  | .addColumn _ _ _, _ => false
  | .dropColumn _ _ _, _ => false
  | .insertRow _ table _, storage =>
    storage.schemas[table]?.all fun schema => (storage.tableIndexes table).toList.all fun entry =>
      !isPrimaryKeyBackingIndex schema entry.2.indexMeta table
  | .rollback _, storage => decide (storage.UndoneInPlace 0)
  | .rollbackToSavepoint _ name, storage =>
    (innermost (storage.savepoints.map Savepoint.name) name).all fun index =>
      storage.savepoints[index]?.all fun savepoint =>
        decide (storage.UndoneInPlace savepoint.undoLen)
  | _, _ => true

theorem fitsTest_fits (call : StorageCall) (storage : MemoryStorage)
    (h : fitsTest call storage=true) : call.Fits storage := by
  cases call with
  | insertRow tid table row =>
    intro _ schema resolved after hschema _ _ name index hindex hbacking
    have hfound : storage.schemas[table]?=some schema := hschema
    simp only [fitsTest,hfound,Option.all_some] at h
    have htest := List.all_eq_true.mp h (name,index)
      (Std.ExtTreeMap.mem_toList_iff_getElem?_eq_some.mpr hindex)
    rw [hbacking] at htest
    cases htest
  | rollback tid => exact fun _ => of_decide_eq_true h
  | rollbackToSavepoint tid name =>
    intro _ index savepoint hindex hsavepoint
    simp only [fitsTest,hindex,hsavepoint,Option.all_some] at h
    exact of_decide_eq_true h
  | replaceSchema tid schema => cases h
  | addColumn tid table column => cases h
  | dropColumn tid table column => cases h
  | _ => trivial

/-- A database whose expressions have no column names. -/
def noNames : ExpressionNames where
  renameCheckExprColumn _ _ text := text
  checkReferencesColumn _ _ := false
  sqlExprMentionsIdentifier _ _ := false
  validateCheckExprMetadata _ _ := .ok ()

/-- A new storage without expressions. -/
def newStorage : MemoryStorage := MemoryStorage.new noExpressions noNames

/-- A table of an integer primary key and one more column. -/
def twoColumns : Schema :=
  plainTable "t" [keyColumn "a",{ keyColumn "b" with primaryKey := false, nullable := true }] []

/-- The table with one row and a unique index of its second column. -/
def indexedRow : List StorageCall :=
  [.begin,.createSchema 1 twoColumns,.createIndex 1 "t" ⟨"b",["b"],none,true,none⟩,
    .insertRow 1 "t" [.integer 1,.integer 5],.commit 1]

/-- Where a run ends. -/
def endOf (calls : List StorageCall) (s : MemoryStorage)
    (h : (Eff.runs StorageCall.run calls s).isSome=true) : MemoryStorage :=
  (Eff.runs StorageCall.run calls s).get h

theorem runs_endOf (calls : List StorageCall) (s : MemoryStorage)
    (h : (Eff.runs StorageCall.run calls s).isSome=true) :
    Eff.runs StorageCall.run calls s=some (endOf calls s h) :=
  (Option.some_get h).symm

/-- The storage with the indexed row, and a transaction that begins there. -/
def oneRow : MemoryStorage := endOf indexedRow newStorage (by decide +kernel)

def begunRow : MemoryStorage := (MemoryStorage.begin' oneRow).2

theorem begin_oneRow : MemoryStorage.begin' oneRow=(.ok 2,begunRow) :=
  Eff.eq_of_fst (by decide +kernel)

/-- A transaction that adds a row, and under a savepoint changes the other one, removes the new
one and returns to the savepoint; then it drops the table. -/
def keptRows : List StorageCall :=
  [.insertRow 2 "t" [.null,.integer 6],.savepoint 2 "p",
    .updateRow 2 "t" 1 [.integer 1,.integer 7],.deleteRow 2 "t" 2,.rollbackToSavepoint 2 "p",
    .dropSchema 2 "t"]

def keptEnd : MemoryStorage := endOf keptRows begunRow (by decide +kernel)

/-- A transaction that has emptied and dropped its table is rolled back. -/
theorem rollback_exact_keptRows :
    (keptEnd.tableRows "t").toList=[] ∧
      ∃ v, MemoryStorage.rollback 2 keptEnd=(.ok (),v) ∧ v.content=oneRow.content := by
  have hbefore : Eff.Along StorageCall.run StorageCall.Fits indexedRow newStorage :=
    .of_test fitsTest_fits (by decide +kernel)
  have hfits : Eff.Along StorageCall.run StorageCall.Fits keptRows begunRow :=
    .of_test fitsTest_fits (by decide +kernel)
  have hactive : ∀ w : MemoryStorage, w.activeTxn.map ActiveTransaction.id==some 2 → w.Active 2 :=
    fun w hw => Option.map_eq_some_iff.mp (beq_iff_eq.mp hw)
  have hopen : Eff.Throughout StorageCall.run (fun w => w.Active 2) keptRows begunRow :=
    .of_test hactive (by decide +kernel)
  exact ⟨by decide +kernel,(rollback_exact noExpressions noNames indexedRow keptRows oneRow begunRow
    keptEnd 2 hbefore (runs_endOf ..) hfits (runs_endOf ..)).1 begin_oneRow hopen
    (fitsTest_fits (.rollback 2) keptEnd (by decide +kernel))⟩

/-- The same storage after a transaction gave the row another number, and its rollback. -/
def movedBack : MemoryStorage :=
  endOf [.updateRow 2 "t" 1 [.integer 2,.integer 5],.rollback 2] begunRow (by decide +kernel)

/-- The rollback brings the row back and leaves it where it moved to, too. -/
theorem moved_row_stays :
    Eff.runs StorageCall.run indexedRow newStorage=some oneRow ∧
    MemoryStorage.begin' oneRow=(.ok 2,begunRow) ∧
    Eff.runs StorageCall.run [.updateRow 2 "t" 1 [.integer 2,.integer 5],.rollback 2] begunRow=
      some movedBack ∧ movedBack.activeTxn.isNone=true ∧
    (oneRow.tableRows "t").toList=[(1,[.integer 1,.integer 5])] ∧
    (movedBack.tableRows "t").toList=
      [(1,[.integer 1,.integer 5]),(2,[.integer 2,.integer 5])] ∧
    movedBack.content≠oneRow.content := by
  have hone : (oneRow.tableRows "t").toList=[(1,[.integer 1,.integer 5])] := by decide +kernel
  have htwo : (movedBack.tableRows "t").toList=
      [(1,[.integer 1,.integer 5]),(2,[.integer 2,.integer 5])] := by decide +kernel
  refine ⟨runs_endOf ..,begin_oneRow,runs_endOf ..,by decide +kernel,hone,htwo,fun hsame => ?_⟩
  have hrows := congrArg (fun content : Content => (content.rows "t").toList) hsame
  exact absurd (htwo.symm.trans (hrows.trans hone)) (by decide +kernel)

/-- All these calls and the rollback, from the new storage on. -/
def keptRun : List StorageCall := indexedRow++.begin::(keptRows++[.rollback 2])

def keptBack : MemoryStorage := endOf keptRun newStorage (by decide +kernel)

/-- After that rollback the index agrees with the rows again. -/
theorem indexes_exact_keptBack : keptBack.schemas["t"]?=some twoColumns ∧
    ∀ (name : String) (index : IndexState), (keptBack.tableIndexes "t")[name]?=some index →
      ∀ key rowId, (key,rowId)∈index.entries ↔ ∃ row, (keptBack.tableRows "t")[rowId]?=some row ∧
        projectIndexKey twoColumns index.indexMeta row=.ok key := by
  have hfits : Eff.Along StorageCall.run StorageCall.Fits keptRun newStorage :=
    .of_test fitsTest_fits (by decide +kernel)
  have hschema : keptBack.schemas["t"]?=some twoColumns := by decide +kernel
  obtain ⟨-,hexact,-⟩ := indexes_exact noExpressions noNames keptRun keptBack hfits (runs_endOf ..)
  exact ⟨hschema,fun name index hindex => (hexact "t" name index twoColumns hschema hindex).1⟩

/-- An empty table with an index. -/
def emptyIndexed : List StorageCall :=
  [.begin,.createSchema 1 twoColumns,.createIndex 1 "t" ⟨"b",["b"],none,true,none⟩]

def emptyTable : MemoryStorage := endOf emptyIndexed newStorage (by decide +kernel)

/-- The index of the row that moved and came back. -/
def movedIndex : IndexState := ((movedBack.tableIndexes "t")["b"]?).get (by decide +kernel)

/-- The first row has no entry in the unique index, and both rows have its key. A column of an
index can be dropped from an empty table, and the index remains. -/
theorem moved_row_unindexed :
    Eff.runs StorageCall.run (indexedRow++[.begin,.updateRow 2 "t" 1 [.integer 2,.integer 5],
      .rollback 2]) newStorage=some movedBack ∧
    (movedBack.tableIndexes "t")["b"]?=some movedIndex ∧
    (movedBack.tableRows "t")[1]?=some [.integer 1,.integer 5] ∧
    (movedBack.tableRows "t")[2]?=some [.integer 2,.integer 5] ∧
    projectIndexKey twoColumns movedIndex.indexMeta [.integer 1,.integer 5]=.ok [.integer 5] ∧
    ([.integer 5],1)∉movedIndex.entries ∧
    Eff.runs StorageCall.run emptyIndexed newStorage=some emptyTable ∧
    (MemoryStorage.dropColumn 1 "t" "b" emptyTable).1=.ok () ∧
    ((MemoryStorage.dropColumn 1 "t" "b" emptyTable).2.tableIndexes "t")["b"]?.map
      (fun index => index.indexMeta.columns)=some ["b"] := by
  refine ⟨?_,(Option.some_get _).symm,?_,?_,?_,?_,runs_endOf ..,?_,?_⟩
  · have hbegun : Eff.runs StorageCall.run [.begin] oneRow=some begunRow := by
      have hreturns : Eff.returns StorageCall.begin.run oneRow=some begunRow := by
        change Eff.returns (MemoryStorage.begin' >>= fun _ => pure ()) oneRow=some begunRow
        rw [Eff.returns,Eff.bind_of_ok begin_oneRow]
        rfl
      have hnone : Eff.runs StorageCall.run [] oneRow=some oneRow := rfl
      exact Eff.runs_concat_of hnone hreturns
    rw [Eff.runs_append,runs_endOf indexedRow newStorage (by decide +kernel)]
    change Eff.runs StorageCall.run ([.begin]++_) oneRow=some movedBack
    rw [Eff.runs_append,hbegun]
    exact runs_endOf ..
  · decide +kernel
  · decide +kernel
  · decide +kernel
  · decide +kernel
  · decide +kernel
  · decide +kernel

end Runs

end RustSql.Memory
