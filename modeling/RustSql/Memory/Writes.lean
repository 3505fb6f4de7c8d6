import RustSql.Memory.IndexChanges

/-!
# What the steps of a call write

Each step of a call writes what stands under one table's name, or adds a record to the log.
The rules below follow a call step by step, to the state it ends in.
-/

namespace RustSql.Memory

open RustSql.Engine RustSql.Sql RustSql.V2

/-- The log of the active transaction got some records. -/
structure Grows (log : List UndoOp) (s t : MemoryStorage) : Prop where
  activeTxn : t.activeTxn=s.activeTxn.map fun active =>
    { active with undoLog := active.undoLog++log }
  nextTxnId : t.nextTxnId=s.nextTxnId

/-- The storage after a write under one table's name and some records for the log. -/
structure Writes (table : String) (new : Stored) (log : List UndoOp) (s t : MemoryStorage) :
    Prop extends Grows log s t where
  stored : t.stored=Function.update s.stored table new

/-- The call succeeds and writes. -/
def Does {α : Type} (x : Eff MemoryStorage α) (s : MemoryStorage) (value : α) (table : String)
    (new : Stored) (log : List UndoOp) : Prop :=
  ∃ t, x s=(.ok value,t) ∧ Writes table new log s t

section Steps

variable {α β : Type} {s t u : MemoryStorage} {table : String} {new between : Stored}
  {log later : List UndoOp}

/-- One log behind another. -/
theorem Grows.trans (h : Grows log s t) (h' : Grows later t u) : Grows (log++later) s u where
  activeTxn := by
    rw [h'.activeTxn,h.activeTxn,Option.map_map]
    refine congrArg (fun f => s.activeTxn.map f) (funext fun active => ?_)
    simp only [Function.comp_apply,List.append_assoc]
  nextTxnId := h'.nextTxnId.trans h.nextTxnId

/-- A log that does not grow. -/
theorem Grows.of_same (hactive : t.activeTxn=s.activeTxn) (hnext : t.nextTxnId=s.nextTxnId) :
    Grows [] s t where
  activeTxn := by
    rw [hactive]
    cases s.activeTxn with
    | none => rfl
    | some active => simp only [List.append_nil,Option.map_some]
  nextTxnId := hnext

/-- What was written is stored. -/
theorem Writes.self (h : Writes table new log s t) : t.stored table=new := by
  rw [h.stored,Function.update_self]

/-- The other tables are as before. -/
theorem Writes.other (h : Writes table new log s t) {name : String} (hne : name≠table) :
    t.stored name=s.stored name := by
  rw [h.stored,Function.update_of_ne hne]

/-- One write after another. -/
theorem Writes.trans (h : Writes table between log s t) (h' : Writes table new later t u) :
    Writes table new (log++later) s u :=
  ⟨h.toGrows.trans h'.toGrows,by rw [h'.stored,h.stored,Function.update_idem]⟩

/-- The steps after a step that succeeded. -/
theorem Does.after {x : Eff MemoryStorage α} {f : α → Eff MemoryStorage β} {value : α} {result : β}
    (hx : x s=(.ok value,t)) (hwrites : Writes table between log s t)
    (h : Does (f value) t result table new later) :
    Does (x >>= f) s result table new (log++later) := by
  obtain ⟨u,hu,hwrites'⟩ := h
  exact ⟨u,(Eff.bind_of_ok hx).trans hu,hwrites.trans hwrites'⟩

/-- The same effect for the same run. -/
theorem Does.congr {x y : Eff MemoryStorage α} {value : α} (hxy : x s=y s)
    (h : Does y s value table new log) : Does x s value table new log := by
  obtain ⟨t,ht,hwrites⟩ := h
  exact ⟨t,hxy.trans ht,hwrites⟩

/-- A change of the maps under one name, seen by what is kept under each name. -/
theorem Writes.of_stored (hself : t.stored table=new)
    (hother : ∀ name, name≠table → t.stored name=s.stored name)
    (hactive : t.activeTxn=s.activeTxn) (hnext : t.nextTxnId=s.nextTxnId) :
    Writes table new [] s t := by
  refine ⟨Grows.of_same hactive hnext,funext fun name => ?_⟩
  by_cases hname : name=table
  · subst hname
    rw [Function.update_self,hself]
  · rw [Function.update_of_ne hname,hother name hname]

/-- Names compare equal when they are. -/
theorem compare_name {name other : String} : compare name other=.eq ↔ name=other :=
  Std.LawfulEqCmp.compare_eq_iff_eq

/-- So do row ids. -/
theorem compare_rowId {rowId other : RowId} : compare rowId other=.eq ↔ rowId=other :=
  Std.LawfulEqCmp.compare_eq_iff_eq

/-- A step that changes the maps under one name only. -/
theorem does_modify {f : MemoryStorage → MemoryStorage} (hself : (f s).stored table=new)
    (hother : ∀ name, name≠table → (f s).stored name=s.stored name)
    (hactive : (f s).activeTxn=s.activeTxn) (hnext : (f s).nextTxnId=s.nextTxnId) :
    Does (Eff.modify f) s () table new [] :=
  ⟨f s,rfl,Writes.of_stored hself hother hactive hnext⟩

/-- A value is returned. -/
theorem pure_does (s : MemoryStorage) (table : String) (value : α) :
    Does (pure value : Eff MemoryStorage α) s value table (s.stored table) [] :=
  ⟨s,rfl,Writes.of_stored rfl (fun _ _ => rfl) rfl rfl⟩

/-- An undo record is remembered. -/
theorem recordUndo_does (s : MemoryStorage) (table : String) (undo : UndoOp) :
    Does (MemoryStorage.recordUndo undo) s () table (s.stored table) [undo] :=
  ⟨_,rfl,⟨⟨rfl,rfl⟩,(Function.update_eq_self table s.stored).symm⟩⟩

/-- A row is put. -/
theorem putRow_does (s : MemoryStorage) (table : String) (rowId : RowId) (row : Row) :
    Does (MemoryStorage.putRow table rowId row) s () table
      { s.stored table with rows := (s.stored table).rows.insert rowId row } [] := by
  refine does_modify ?_ (fun name hname => ?_) rfl rfl
  · simp only [MemoryStorage.stored,MemoryStorage.tableRows,MemoryStorage.tableIndexes,
      Std.ExtTreeMap.getElem?_insert_self,Option.getD_some]
  · simp only [MemoryStorage.stored,MemoryStorage.tableRows,MemoryStorage.tableIndexes,
      Std.ExtTreeMap.getElem?_insert,compare_name,if_neg (Ne.symm hname)]

/-- A changed map, or none. -/
theorem getD_modify_self {V : Type} (maps : Std.ExtTreeMap String V) (empty : V) (f : V → V)
    (hempty : f empty=empty) :
    (maps.modify table f)[table]?.getD empty=f (maps[table]?.getD empty) := by
  rw [Std.ExtTreeMap.getElem?_modify_self]
  cases maps[table]? with
  | none => exact hempty.symm
  | some value => rfl

/-- A row is taken. -/
theorem takeRow_does (s : MemoryStorage) (table : String) (rowId : RowId) :
    Does (MemoryStorage.takeRow table rowId) s () table
      { s.stored table with rows := (s.stored table).rows.erase rowId } [] := by
  refine does_modify ?_ (fun name hname => ?_) rfl rfl
  · have hrows : (s.rows.modify table fun rows => rows.erase rowId)[table]?.getD ∅=
        (s.rows[table]?.getD ∅).erase rowId :=
      getD_modify_self s.rows ∅ _ (by
        ext other row
        rw [Std.ExtTreeMap.getElem?_erase,Std.ExtTreeMap.getElem?_empty,ite_self])
    simp only [MemoryStorage.stored,MemoryStorage.tableRows,MemoryStorage.tableIndexes,hrows]
  · simp only [MemoryStorage.stored,MemoryStorage.tableRows,MemoryStorage.tableIndexes,
      Std.ExtTreeMap.getElem?_modify,compare_name,if_neg (Ne.symm hname)]

/-- A row that stands in a table is replaced. -/
theorem replaceRow_does {rowId : RowId} {old : Row} (row : Row)
    (hold : (s.stored table).rows[rowId]?=some old) :
    Does (MemoryStorage.replaceRow table rowId row) s () table
      { s.stored table with rows := (s.stored table).rows.insert rowId row } [] := by
  refine does_modify ?_ (fun name hname => ?_) rfl rfl
  · have hrows : (s.rows.modify table fun rows => rows.insert rowId row)[table]?.getD ∅=
        (s.rows[table]?.getD ∅).insert rowId row := by
      rw [Std.ExtTreeMap.getElem?_modify_self]
      cases hmap : s.rows[table]? with
      | some rows => rfl
      | none =>
        simp only [MemoryStorage.stored,MemoryStorage.tableRows,hmap,Option.getD_none] at hold
        rw [Std.ExtTreeMap.getElem?_empty] at hold
        cases hold
    simp only [MemoryStorage.stored,MemoryStorage.tableRows,MemoryStorage.tableIndexes,hrows]
  · simp only [MemoryStorage.stored,MemoryStorage.tableRows,MemoryStorage.tableIndexes,
      Std.ExtTreeMap.getElem?_modify,compare_name,if_neg (Ne.symm hname)]

/-- The next row id is raised. -/
theorem raiseNextRowId_does (s : MemoryStorage) (table : String) (rowId : RowId) :
    Does (MemoryStorage.raiseNextRowId table rowId) s () table
      { s.stored table with
        nextRowId := some (max ((s.stored table).nextRowId.getD 0) (rowId+1)) } [] := by
  refine does_modify ?_ (fun name hname => ?_) rfl rfl
  · simp only [MemoryStorage.stored,MemoryStorage.tableRows,MemoryStorage.tableIndexes,
      Std.ExtTreeMap.getElem?_insert_self]
  · simp only [MemoryStorage.stored,MemoryStorage.tableRows,MemoryStorage.tableIndexes,
      Std.ExtTreeMap.getElem?_insert,compare_name,if_neg (Ne.symm hname)]

/-- The next row id is given out. -/
theorem nextRowId_does (s : MemoryStorage) (table : String) :
    Does (MemoryStorage.nextRowId table) s ((s.stored table).nextRowId.getD 1) table
      { s.stored table with nextRowId := some ((s.stored table).nextRowId.getD 1+1) } [] := by
  refine ⟨_,rfl,Writes.of_stored ?_ (fun name hname => ?_) rfl rfl⟩
  · simp only [MemoryStorage.stored,MemoryStorage.tableRows,MemoryStorage.tableIndexes,
      Std.ExtTreeMap.getElem?_insert_self]
  · simp only [MemoryStorage.stored,MemoryStorage.tableRows,MemoryStorage.tableIndexes,
      Std.ExtTreeMap.getElem?_insert,compare_name,if_neg (Ne.symm hname)]

/-- A table is put. -/
theorem putTable_does (s : MemoryStorage) (table : String) (schema : Schema) (rows : RowMap) (indexes : IndexMap) (next : ℕ) :
    Does (MemoryStorage.putTable table schema rows indexes (some next)) s () table
      ⟨some schema,rows,indexes,some next⟩ [] := by
  refine does_modify ?_ (fun name hname => ?_) rfl rfl
  · simp only [MemoryStorage.stored,MemoryStorage.tableRows,MemoryStorage.tableIndexes,
      Std.ExtTreeMap.getElem?_insert_self,Option.getD_some]
  · simp only [MemoryStorage.stored,MemoryStorage.tableRows,MemoryStorage.tableIndexes,
      Std.ExtTreeMap.getElem?_insert,compare_name,if_neg (Ne.symm hname)]

/-- A table is removed. -/
theorem removeTable_does (s : MemoryStorage) (table : String) :
    Does (MemoryStorage.removeTable table) s () table ⟨none,∅,∅,none⟩ [] := by
  refine does_modify ?_ (fun name hname => ?_) rfl rfl
  · simp only [MemoryStorage.stored,MemoryStorage.tableRows,MemoryStorage.tableIndexes,
      Std.ExtTreeMap.getElem?_erase_self,Option.getD_none]
  · simp only [MemoryStorage.stored,MemoryStorage.tableRows,MemoryStorage.tableIndexes,
      Std.ExtTreeMap.getElem?_erase,compare_name,if_neg (Ne.symm hname)]

/-- A schema is put. -/
theorem putSchema_does (s : MemoryStorage) (table : String) (schema : Schema) :
    Does (MemoryStorage.putSchema table schema) s () table
      { s.stored table with schema := some schema } [] := by
  refine does_modify ?_ (fun name hname => ?_) rfl rfl
  · simp only [MemoryStorage.stored,MemoryStorage.tableRows,MemoryStorage.tableIndexes,
      Std.ExtTreeMap.getElem?_insert_self]
  · simp only [MemoryStorage.stored,MemoryStorage.tableRows,MemoryStorage.tableIndexes,
      Std.ExtTreeMap.getElem?_insert,compare_name,if_neg (Ne.symm hname)]

/-- All rows are put. -/
theorem putRows_does (s : MemoryStorage) (table : String) (rows : RowMap) :
    Does (Eff.modify fun storage : MemoryStorage =>
        { storage with rows := storage.rows.insert table rows }) s () table
      { s.stored table with rows := rows } [] := by
  refine does_modify ?_ (fun name hname => ?_) rfl rfl
  · simp only [MemoryStorage.stored,MemoryStorage.tableRows,MemoryStorage.tableIndexes,
      Std.ExtTreeMap.getElem?_insert_self,Option.getD_some]
  · simp only [MemoryStorage.stored,MemoryStorage.tableRows,MemoryStorage.tableIndexes,
      Std.ExtTreeMap.getElem?_insert,compare_name,if_neg (Ne.symm hname)]

/-- The indexes are changed. -/
theorem putIndexes_does (s : MemoryStorage) (table : String) (f : IndexMap → IndexMap) :
    Does (MemoryStorage.putIndexes table f) s () table
      { s.stored table with indexes := f (s.stored table).indexes } [] := by
  refine does_modify ?_ (fun name hname => ?_) rfl rfl
  · simp only [MemoryStorage.stored,MemoryStorage.tableRows,MemoryStorage.tableIndexes,
      Std.ExtTreeMap.getElem?_insert_self,Option.getD_some]
  · simp only [MemoryStorage.stored,MemoryStorage.tableRows,MemoryStorage.tableIndexes,
      Std.ExtTreeMap.getElem?_insert,compare_name,if_neg (Ne.symm hname)]

/-- A change of the rows that is none where there are no rows. -/
theorem modifyRows_does {f : RowMap → RowMap} (hempty : (s.stored table).rows=∅ → f ∅=∅) :
    Does (Eff.modify fun storage =>
        { storage with rows := storage.rows.modify table f }) s () table
      { s.stored table with rows := f (s.stored table).rows } [] := by
  refine does_modify ?_ (fun name hname => ?_) rfl rfl
  · have hrows : (s.rows.modify table f)[table]?.getD ∅=f (s.rows[table]?.getD ∅) := by
      rw [Std.ExtTreeMap.getElem?_modify_self]
      cases hmap : s.rows[table]? with
      | some rows => rfl
      | none =>
        simp only [MemoryStorage.stored,MemoryStorage.tableRows,hmap,Option.getD_none] at hempty
        exact (hempty trivial).symm
    simp only [MemoryStorage.stored,MemoryStorage.tableRows,MemoryStorage.tableIndexes,hrows]
  · simp only [MemoryStorage.stored,MemoryStorage.tableRows,MemoryStorage.tableIndexes,
      Std.ExtTreeMap.getElem?_modify,compare_name,if_neg (Ne.symm hname)]

/-- A change of the indexes that is none where there are no indexes. -/
theorem modifyIndexes_does {f : IndexMap → IndexMap} (hempty : f ∅=∅) :
    Does (Eff.modify fun storage =>
        { storage with indexes := storage.indexes.modify table f }) s () table
      { s.stored table with indexes := f (s.stored table).indexes } [] := by
  refine does_modify ?_ (fun name hname => ?_) rfl rfl
  · simp only [MemoryStorage.stored,MemoryStorage.tableRows,MemoryStorage.tableIndexes,
      getD_modify_self s.indexes ∅ f hempty]
  · simp only [MemoryStorage.stored,MemoryStorage.tableRows,MemoryStorage.tableIndexes,
      Std.ExtTreeMap.getElem?_modify,compare_name,if_neg (Ne.symm hname)]

/-- A change that succeeds on all indexes of a table. -/
theorem changeIndexes_does (s : MemoryStorage) (table : String)
    (change : IndexState → Except DbError Unit × IndexState)
    (h : ∀ (name : String) (index : IndexState), (s.stored table).indexes[name]?=some index →
      (change index).1=.ok ()) :
    Does (MemoryStorage.changeIndexes table change) s () table
      { s.stored table with
        indexes := (s.stored table).indexes.map fun _ index => (change index).2 } [] := by
  cases hmap : s.indexes[table]? with
  | none =>
    have hindexes : (s.stored table).indexes=∅ := by
      simp only [MemoryStorage.stored,MemoryStorage.tableIndexes,hmap,Option.getD_none]
    have hnone : (∅ : IndexMap).map (fun _ index => (change index).2)=∅ := by
      ext name index
      simp only [Std.ExtTreeMap.getElem?_map,Std.ExtTreeMap.getElem?_empty,Option.map_none]
    refine ⟨s,?_,Writes.of_stored ?_ (fun _ _ => rfl) rfl rfl⟩
    · simp only [MemoryStorage.changeIndexes,Eff.bind_eq,Eff.get_eq,hmap,Eff.pure_eq]
    · rw [hindexes,hnone,← hindexes]
  | some indexes =>
    have hindexes : (s.stored table).indexes=indexes := by
      simp only [MemoryStorage.stored,MemoryStorage.tableIndexes,hmap,Option.getD_some]
    rw [hindexes] at h ⊢
    have hall := changeEach_all h
    refine ⟨_,?_,Writes.of_stored (t := { s with
      indexes := s.indexes.insert table (indexes.map fun _ index => (change index).2) })
      ?_ (fun name hname => ?_) rfl rfl⟩
    · simp only [MemoryStorage.changeIndexes,Eff.bind_eq,Eff.get_eq,hmap,Eff.modify_eq,hall]
      rfl
    · simp only [MemoryStorage.stored,MemoryStorage.tableRows,MemoryStorage.tableIndexes,
        Std.ExtTreeMap.getElem?_insert_self,Option.getD_some]
    · simp only [MemoryStorage.stored,MemoryStorage.tableRows,MemoryStorage.tableIndexes,
        Std.ExtTreeMap.getElem?_insert,compare_name,if_neg (Ne.symm hname)]

/-- The schema that is there is found. -/
theorem requireSchema_ok {schema : Schema} (h : (s.stored table).schema=some schema) :
    MemoryStorage.requireSchema table s=(.ok schema,s) := by
  have hschema : s.schemas[table]?=some schema := h
  simp only [MemoryStorage.requireSchema,Eff.bind_eq,Eff.get_eq,hschema,Eff.pure_eq]

end Steps

/-! ## Rows and their keys -/

section Rows

variable {s : MemoryStorage} {table : String} {schema : Schema} {rows : RowId → Option Row}
  {rowId : RowId} {row : Row}

/-- Two maps of indexes define the same indexes. -/
def SameIndexes (indexes others : IndexMap) : Prop :=
  ∀ name : String, others[name]?.map IndexState.indexMeta=
    indexes[name]?.map IndexState.indexMeta

/-- Entries change and indexes stay. -/
theorem sameIndexes_map {indexes : IndexMap} {f : IndexState → IndexState}
    (h : ∀ (name : String) (index : IndexState), indexes[name]?=some index →
      (f index).indexMeta=index.indexMeta) :
    SameIndexes indexes (indexes.map fun _ index => f index) := by
  intro name
  rw [Std.ExtTreeMap.getElem?_map]
  cases hindex : indexes[name]? with
  | none => rfl
  | some index => exact congrArg some (h name index hindex)

/-- Indexes that list the rows one by one. -/
theorem indexesOf_map {indexes : IndexMap} {f : IndexState → IndexState}
    (h : ∀ (name : String) (index : IndexState), indexes[name]?=some index →
      (f index).Lists schema rows) :
    IndexesOf schema rows (indexes.map fun _ index => f index) := by
  intro name index hindex
  rw [Std.ExtTreeMap.getElem?_map] at hindex
  obtain ⟨old,hold,rfl⟩ := Option.map_eq_some_iff.mp hindex
  exact h name old hold

/-- The keys of a row that fits beside the others enter all indexes of its table. -/
theorem addRow_does (s : MemoryStorage) (table : String) (rows : RowId → Option Row)
    (rowId : RowId) (row : Row) (hschema : (s.stored table).schema=some schema)
    (hindexes : IndexesOf schema rows (s.stored table).indexes) (hfresh : rows rowId=none)
    (hfits : RowFits schema rows (s.stored table).table.indexes rowId row) :
    ∃ indexes, SameIndexes (s.stored table).indexes indexes ∧
      IndexesOf schema (Function.update rows rowId (some row)) indexes ∧
      Does (MemoryStorage.addRowToIndexes table rowId row) s () table
        { s.stored table with indexes := indexes } [] := by
  have hadd : ∀ (name : String) (index : IndexState), (s.stored table).indexes[name]?=some index →
      (index.addRow schema rowId row).1=.ok () ∧
      (index.addRow schema rowId row).2.indexMeta=index.indexMeta ∧
      (index.addRow schema rowId row).2.Lists schema
        (Function.update rows rowId (some row)) := by
    intro name index hindex
    have hmeta : (s.stored table).table.indexes name=some index.indexMeta := by
      change (s.stored table).indexes[name]?.map IndexState.indexMeta=_
      rw [hindex]
      rfl
    obtain ⟨key,hkey,hfree⟩ := hfits.keyed name index.indexMeta hmeta
    refine (hindexes name index hindex).addRow hfresh hkey fun hunique other otherRow hother => ?_
    refine hfree hunique other otherRow ?_ hother
    rintro rfl
    rw [hfresh] at hother
    cases hother
  refine ⟨_,sameIndexes_map fun name index hindex => (hadd name index hindex).2.1,
    indexesOf_map fun name index hindex => (hadd name index hindex).2.2,?_⟩
  obtain ⟨t,ht,hwrites⟩ := changeIndexes_does s table _ fun name index hindex => (hadd name index hindex).1
  exact ⟨t,(Eff.bind_of_ok (requireSchema_ok hschema)).trans ht,hwrites⟩

/-- The keys of a row leave all indexes of its table. -/
theorem removeRow_does (s : MemoryStorage) (table : String) (rows : RowId → Option Row)
    (rowId : RowId) (row : Row) (hschema : (s.stored table).schema=some schema)
    (hindexes : IndexesOf schema rows (s.stored table).indexes) (hrow : rows rowId=some row)
    (hkeyed : ∀ name index, (s.stored table).table.indexes name=some index →
      ∃ key, projectIndexKey schema index row=.ok key) :
    ∃ indexes, SameIndexes (s.stored table).indexes indexes ∧
      IndexesOf schema (Function.update rows rowId none) indexes ∧
      Does (MemoryStorage.removeRowFromIndexes table rowId row) s () table
        { s.stored table with indexes := indexes } [] := by
  have hremove : ∀ (name : String) (index : IndexState),
      (s.stored table).indexes[name]?=some index →
      (index.removeRow schema rowId row).1=.ok () ∧
      (index.removeRow schema rowId row).2.indexMeta=index.indexMeta ∧
      (index.removeRow schema rowId row).2.Lists schema (Function.update rows rowId none) := by
    intro name index hindex
    have hmeta : (s.stored table).table.indexes name=some index.indexMeta := by
      change (s.stored table).indexes[name]?.map IndexState.indexMeta=_
      rw [hindex]
      rfl
    obtain ⟨key,hkey⟩ := hkeyed name index.indexMeta hmeta
    exact (hindexes name index hindex).removeRow hrow hkey
  refine ⟨_,sameIndexes_map fun name index hindex => (hremove name index hindex).2.1,
    indexesOf_map fun name index hindex => (hremove name index hindex).2.2,?_⟩
  obtain ⟨t,ht,hwrites⟩ := changeIndexes_does s table _ fun name index hindex => (hremove name index hindex).1
  exact ⟨t,(Eff.bind_of_ok (requireSchema_ok hschema)).trans ht,hwrites⟩

end Rows

end RustSql.Memory
