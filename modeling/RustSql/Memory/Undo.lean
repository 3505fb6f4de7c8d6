import RustSql.Memory.Writes

/-!
# Undo records

What undoing a record does to the tables, and when the record is the right one: undone in the
tables that its change left, it leads to the tables before the change.
-/

namespace RustSql.Memory

open RustSql.Engine RustSql.Sql RustSql.V2

/-- The tables under their names. -/
abbrev Tables := String → Table

/-- Undo a record. -/
def UndoOp.undo : UndoOp → Tables → Tables
  | .dropSchema table, tables => Function.update tables table Table.none
  | .dropIndex table index, tables =>
    Function.update tables table ((tables table).setIndex index none)
  | .restoreTable schema rows indexes nextRowId, tables =>
    Function.update tables schema.name (Stored.mk (some schema) rows indexes nextRowId).table
  | .restoreIndex table index state, tables =>
    Function.update tables table ((tables table).setIndex index (some state.indexMeta))
  | .deleteRow table rowId, tables =>
    Function.update tables table ((tables table).setRow rowId none)
  | .reinsertRow table rowId row, tables =>
    Function.update tables table ((tables table).setRow rowId (some row))
  | .restoreRow table rowId row, tables =>
    Function.update tables table ((tables table).setRow rowId (some row))

/-- The row that a record restores still stands under its number. -/
def UndoOp.InPlace : UndoOp → Tables → Prop
  | .restoreRow table rowId _, tables => (tables table).rows rowId≠none
  | _, _ => True

/-- What a record keeps is what there was in the tables it is undone in. -/
def UndoOp.Ready : UndoOp → Tables → Prop
  | .restoreTable schema rows indexes nextRowId, _ =>
    (Stored.mk (some schema) rows indexes nextRowId).Sound schema.name
  | .restoreIndex table _ state, tables =>
    ∃ schema, (tables table).schema=some schema ∧ state.Lists schema (tables table).rows
  | .reinsertRow table rowId _, tables => (tables table).rows rowId=none
  | _, _ => True

/-- Undone in the tables `new`, the record leads to the valid tables `old`, unless the row it
restores has gone. -/
def UndoOp.Back (record : UndoOp) (new old : Tables) : Prop :=
  (∀ table, (old table).Valid table) ∧
    (record.InPlace new → record.Ready new ∧ record.undo new=old)

/-! ## Tables that are in order -/

section Stored

variable {name : String} {stored : Stored} {schema : Schema}

/-- The parts of a sound table. -/
theorem Stored.sound_of (schema : Schema) (hschema : stored.schema=some schema) (hvalid : stored.table.Valid name)
    (hindexed : stored.Indexed schema) (hcounted : stored.Counted schema) : stored.Sound name where
  valid := hvalid
  indexed other h := by
    obtain rfl := Option.some.inj (hschema.symm.trans h)
    exact hindexed
  counted other h := by
    obtain rfl := Option.some.inj (hschema.symm.trans h)
    exact hcounted

/-- Nothing is in order. -/
theorem Stored.sound_none (name : String) (next : Option ℕ) :
    (Stored.mk none ∅ ∅ next).Sound name where
  valid := by
    change (Stored.mk none ∅ ∅ next).table=Table.none
    apply Table.ext
    · rfl
    · funext rowId
      exact Std.ExtTreeMap.getElem?_empty
    · funext index
      change (∅ : IndexMap)[index]?.map IndexState.indexMeta=none
      rw [Std.ExtTreeMap.getElem?_empty]
      rfl
  indexed schema h := by cases h
  counted schema h := by cases h

/-- A row is put. -/
theorem insert_rows (rows : RowMap) (rowId : RowId) (row : Row) :
    (fun other => (rows.insert rowId row)[other]?)=
      Function.update (fun other => rows[other]?) rowId (some row) := by
  funext other
  rw [Std.ExtTreeMap.getElem?_insert]
  by_cases hsame : other=rowId
  · subst hsame
    rw [Function.update_self,if_pos (compare_rowId.mpr rfl)]
  · rw [Function.update_of_ne hsame,if_neg fun heq => hsame (compare_rowId.mp heq).symm]

/-- A row is taken. -/
theorem erase_rows (rows : RowMap) (rowId : RowId) :
    (fun other => (rows.erase rowId)[other]?)=
      Function.update (fun other => rows[other]?) rowId none := by
  funext other
  rw [Std.ExtTreeMap.getElem?_erase]
  by_cases hsame : other=rowId
  · subst hsame
    rw [Function.update_self,if_pos (compare_rowId.mpr rfl)]
  · rw [Function.update_of_ne hsame,if_neg fun heq => hsame (compare_rowId.mp heq).symm]

/-- An index is put. -/
theorem insert_indexes (indexes : IndexMap) (index : String) (state : IndexState) :
    (fun other : String => (indexes.insert index state)[other]?.map IndexState.indexMeta)=
      Function.update (fun other : String => indexes[other]?.map IndexState.indexMeta) index
        (some state.indexMeta) := by
  funext other
  rw [Std.ExtTreeMap.getElem?_insert]
  by_cases hsame : other=index
  · subst hsame
    rw [Function.update_self,if_pos (compare_name.mpr rfl)]
    rfl
  · rw [Function.update_of_ne hsame,if_neg fun heq => hsame (compare_name.mp heq).symm]

/-- An index is taken. -/
theorem erase_indexes (indexes : IndexMap) (index : String) :
    (fun other : String => (indexes.erase index)[other]?.map IndexState.indexMeta)=
      Function.update (fun other : String => indexes[other]?.map IndexState.indexMeta) index
        none := by
  funext other
  rw [Std.ExtTreeMap.getElem?_erase]
  by_cases hsame : other=index
  · subst hsame
    rw [Function.update_self,if_pos (compare_name.mpr rfl)]
    rfl
  · rw [Function.update_of_ne hsame,if_neg fun heq => hsame (compare_name.mp heq).symm]

/-- The table after a row was put, and its indexes brought in step. -/
theorem Stored.table_insert {indexes : IndexMap} (hindexes : SameIndexes stored.indexes indexes)
    (rowId : RowId) (row : Row) (next : Option ℕ) :
    (Stored.mk stored.schema (stored.rows.insert rowId row) indexes next).table=
      stored.table.setRow rowId (some row) := by
  apply Table.ext
  · rfl
  · exact insert_rows stored.rows rowId row
  · exact funext hindexes

/-- The table after a row was removed, and its indexes brought in step. -/
theorem Stored.table_erase {indexes : IndexMap} (hindexes : SameIndexes stored.indexes indexes)
    (rowId : RowId) (next : Option ℕ) :
    (Stored.mk stored.schema (stored.rows.erase rowId) indexes next).table=
      stored.table.setRow rowId none := by
  apply Table.ext
  · rfl
  · exact erase_rows stored.rows rowId
  · exact funext hindexes

/-- Entries change twice and indexes stay. -/
theorem SameIndexes.trans {indexes others more : IndexMap} (h : SameIndexes indexes others)
    (h' : SameIndexes others more) : SameIndexes indexes more :=
  fun name => (h' name).trans (h name)

/-- A row set in a valid table fits. -/
theorem setRow_rowFits {table : Table} {rowId : RowId} {row : Row}
    (hvalid : (table.setRow rowId (some row)).Valid name)
    (hschema : table.schema=some schema) :
    RowFits schema table.rows table.indexes rowId row :=
  have hnew : (table.setRow rowId (some row)).schema=some schema := hschema
  Fitting.rowFits (Table.valid_of_schema hvalid hnew).2

end Stored

/-! ## Rows that come and go -/

section Rows

variable {s : MemoryStorage} {table : String} {stored : Stored} {schema : Schema}
  {rows : RowMap} {indexes : IndexMap} {rowId : RowId} {row : Row}

/-- The counter stays above fewer rows. -/
theorem Stored.Counted.fewer (h : stored.Counted schema)
    (hrows : ∀ (other : RowId) (row : Row), rows[other]?=some row →
      ∃ old, stored.rows[other]?=some old) :
    (Stored.mk stored.schema rows indexes stored.nextRowId).Counted schema := by
  obtain ⟨next,hnext,hbelow⟩ := h
  refine ⟨next,hnext,fun halias other row hrow => ?_⟩
  obtain ⟨old,hold⟩ := hrows other row hrow
  exact hbelow halias other old hold

/-- The counter is raised above a new row. -/
theorem Stored.Counted.raise (h : stored.Counted schema)
    (hrows : ∀ (other : RowId) (row : Row), rows[other]?=some row →
      other=rowId ∨ ∃ old, stored.rows[other]?=some old) :
    (Stored.mk stored.schema rows indexes
      (some (max (stored.nextRowId.getD 0) (rowId+1)))).Counted schema := by
  obtain ⟨next,hnext,hbelow⟩ := h
  rw [hnext,Option.getD_some]
  refine ⟨max next (rowId+1),rfl,fun halias other row hrow => ?_⟩
  rcases hrows other row hrow with rfl | ⟨old,hold⟩
  · omega
  · have hlt := hbelow halias other old hold
    omega

/-- The row put, or one that was there. -/
theorem insert_some {other : RowId} {otherRow : Row}
    (h : (rows.insert rowId row)[other]?=some otherRow) :
    other=rowId ∨ rows[other]?=some otherRow := by
  rw [Std.ExtTreeMap.getElem?_insert] at h
  split at h
  · next heq => exact Or.inl (compare_rowId.mp heq).symm
  · exact Or.inr h

/-- What is left was there. -/
theorem erase_some {other : RowId} {otherRow : Row}
    (h : (rows.erase rowId)[other]?=some otherRow) : rows[other]?=some otherRow := by
  rw [Std.ExtTreeMap.getElem?_erase] at h
  split at h
  · cases h
  · exact h

/-- A row of a table in order has a schema, and a key in every index. -/
theorem Stored.Sound.row_keys (h : stored.Sound table) (hrow : stored.rows[rowId]?=some row) :
    ∃ schema, stored.schema=some schema ∧ ∀ name index, stored.table.indexes name=some index →
      ∃ key, projectIndexKey schema index row=.ok key := by
  have hfound : stored.table.rows rowId=some row := hrow
  obtain ⟨schema,hschema⟩ := Table.schema_of_row h.valid hfound
  have hfitting := (Table.valid_of_schema h.valid hschema).2
  exact ⟨schema,hschema,fun name index hindex => hfitting.keyed name index rowId row hindex hrow⟩

/-- What stands under a name after a row was removed. -/
theorem Stored.sound_erased (hs : stored.Sound table) (hschema : stored.schema=some schema)
    (hsame : SameIndexes stored.indexes indexes)
    (hlists : IndexesOf schema (Function.update stored.table.rows rowId none) indexes) :
    (Stored.mk stored.schema (stored.rows.erase rowId) indexes stored.nextRowId).Sound table := by
  have htable := stored.table_erase hsame rowId stored.nextRowId
  refine Stored.sound_of schema hschema ?_ ?_ ?_
  · refine Table.valid_some hschema (Table.valid_of_schema hs.valid hschema).1 ?_
    rw [htable]
    refine (Table.valid_of_schema hs.valid hschema).2.mono (fun other otherRow hother => ?_)
      fun _ _ h => h
    rcases update_of_some hother with ⟨-,hnone⟩ | ⟨-,hold⟩
    · cases hnone
    · exact hold
  · change IndexesOf schema (Stored.table _).rows indexes
    rw [htable]
    exact hlists
  · exact (hs.counted schema hschema).fewer fun other otherRow hother =>
      ⟨otherRow,erase_some hother⟩

/-- A row is taken out of its table and out of the indexes. -/
theorem eraseRow_does (hs : (s.stored table).Sound table)
    (hrow : (s.stored table).rows[rowId]?=some row) :
    ∃ new : Stored, new.Sound table ∧ new.table=(s.stored table).table.setRow rowId none ∧
      Does (do
        MemoryStorage.takeRow table rowId
        MemoryStorage.removeRowFromIndexes table rowId row) s () table new [] := by
  obtain ⟨schema,hschema,hkeyed⟩ := hs.row_keys hrow
  obtain ⟨t,ht,hwrites⟩ := takeRow_does s table rowId
  have hself := hwrites.self
  obtain ⟨indexes,hsame,hlists,hremove⟩ := removeRow_does t table
    (s.stored table).table.rows rowId row
    (by rw [hself]; exact hschema) (by rw [hself]; exact hs.indexed schema hschema) hrow
    (by rw [hself]; exact hkeyed)
  rw [hself] at hsame hremove
  exact ⟨_,Stored.sound_erased hs hschema hsame hlists,
    (s.stored table).table_erase hsame rowId (s.stored table).nextRowId,
    Does.after ht hwrites hremove⟩

/-- What stands under a name after a row was put, when the table is a valid one. -/
theorem Stored.sound_inserted {name : String} {next : Option ℕ}
    (hschema : stored.schema=some schema)
    (hvalid : (stored.table.setRow rowId (some row)).Valid name)
    (hsame : SameIndexes stored.indexes indexes)
    (hlists : IndexesOf schema (Function.update stored.table.rows rowId (some row)) indexes)
    (hcounted : (Stored.mk stored.schema (stored.rows.insert rowId row) indexes next).Counted
      schema) :
    (Stored.mk stored.schema (stored.rows.insert rowId row) indexes next).Sound name := by
  have htable := stored.table_insert hsame rowId row next
  refine Stored.sound_of schema hschema ?_ ?_ hcounted
  · rw [htable]
    exact hvalid
  · change IndexesOf schema (Stored.table _).rows indexes
    rw [htable]
    exact hlists

/-- The counter is above the rows when it was raised above the new one. -/
theorem Stored.Counted.raise_insert (h : stored.Counted schema) :
    (Stored.mk stored.schema (stored.rows.insert rowId row) indexes
      (some (max (stored.nextRowId.getD 0) (rowId+1)))).Counted schema :=
  h.raise fun _ otherRow hother => (insert_some hother).imp_right fun hold => ⟨otherRow,hold⟩

/-- The undo of a deletion puts the row and its keys back. -/
theorem reinsertRow_does (s : MemoryStorage) (table : String) (rowId : RowId) (row : Row)
    (hs : (s.stored table).Sound table)
    (hfresh : (s.stored table).table.rows rowId=none)
    (hvalid : ((s.stored table).table.setRow rowId (some row)).Valid table) :
    ∃ new : Stored, new.Sound table ∧
      new.table=(s.stored table).table.setRow rowId (some row) ∧
      Does (MemoryStorage.applyUndo (.reinsertRow table rowId row)) s () table new [] := by
  have hplaced : ((s.stored table).table.setRow rowId (some row)).rows rowId=some row :=
    Function.update_self ..
  obtain ⟨schema,hschema⟩ := Table.schema_of_row hvalid hplaced
  have hfits := setRow_rowFits hvalid hschema
  obtain ⟨t,ht,hput⟩ := putRow_does s table rowId row
  obtain ⟨u,hu,hraise⟩ := raiseNextRowId_does t table rowId
  have hself := hraise.self
  rw [hput.self] at hself
  obtain ⟨indexes,hsame,hlists,hadd⟩ := addRow_does u table
    (s.stored table).table.rows rowId row
    (by rw [hself]; exact hschema) (by rw [hself]; exact hs.indexed schema hschema) hfresh
    (by rw [hself]; exact hfits)
  rw [hself] at hsame hadd
  exact ⟨_,Stored.sound_inserted hschema hvalid hsame hlists (hs.counted schema hschema).raise_insert,
    (s.stored table).table_insert hsame rowId row _,
    Does.after ht hput (Does.after hu hraise hadd)⟩

/-- The undo of an update that left the row where it was. -/
theorem restoreRow_does (hs : (s.stored table).Sound table) {replaced : Row}
    (hrow : (s.stored table).rows[rowId]?=some replaced)
    (hvalid : ((s.stored table).table.setRow rowId (some row)).Valid table) :
    ∃ new : Stored, new.Sound table ∧
      new.table=(s.stored table).table.setRow rowId (some row) ∧
      Does (MemoryStorage.applyUndo (.restoreRow table rowId row)) s () table new [] := by
  obtain ⟨schema,hschema,hkeyed⟩ := hs.row_keys hrow
  have hfits := (setRow_rowFits hvalid hschema).setRow none
  obtain ⟨t,ht,hput⟩ := replaceRow_does row hrow
  have hputSelf := hput.self
  obtain ⟨fewer,hsameFewer,hlistsFewer,u,hu,hremove⟩ := removeRow_does t table
    (s.stored table).table.rows rowId replaced
    (by rw [hputSelf]; exact hschema) (by rw [hputSelf]; exact hs.indexed schema hschema) hrow
    (by rw [hputSelf]; exact hkeyed)
  have hremoveSelf := hremove.self
  rw [hputSelf] at hremoveSelf hsameFewer
  obtain ⟨v,hv,hraise⟩ := raiseNextRowId_does u table rowId
  have hself := hraise.self
  rw [hremoveSelf] at hself
  have hmetas : (v.stored table).table.indexes=(s.stored table).table.indexes := by
    rw [hself]
    exact funext hsameFewer
  obtain ⟨indexes,hsame,hlists,hadd⟩ := addRow_does v table
    (Function.update (s.stored table).table.rows rowId none) rowId row
    (by rw [hself]; exact hschema) (by rw [hself]; exact hlistsFewer) (Function.update_self ..)
    (by rw [hmetas]; exact hfits)
  rw [hself] at hsame hadd
  rw [Function.update_idem] at hlists
  have hall := hsameFewer.trans hsame
  have hrun : Does (do
      MemoryStorage.replaceRow table rowId row
      MemoryStorage.removeRowFromIndexes table rowId replaced
      MemoryStorage.raiseNextRowId table rowId
      MemoryStorage.addRowToIndexes table rowId row) s () table _ [] :=
    Does.after ht hput (Does.after hu hremove (Does.after hv hraise hadd))
  refine ⟨_,Stored.sound_inserted hschema hvalid hall hlists (hs.counted schema hschema).raise_insert,
    (s.stored table).table_insert hall rowId row _,Does.congr ?_ hrun⟩
  have hfound : (s.tableRows table)[rowId]?=some replaced := hrow
  simp only [MemoryStorage.applyUndo,Eff.bind_eq,Eff.get_eq,hfound]

end Rows

/-! ## The undo of a record -/

section Records

variable {s : MemoryStorage} {old : Tables}

/-- What stands under a name is in order when its table is a valid one. -/
theorem Stored.sound_of_table {name : String} {stored : Stored} {table : Table}
    (htable : stored.table=table) (hvalid : table.Valid name)
    (hindexed : ∀ schema, stored.schema=some schema → stored.Indexed schema)
    (hcounted : ∀ schema, stored.schema=some schema → stored.Counted schema) :
    stored.Sound name :=
  ⟨htable▸hvalid,hindexed,hcounted⟩

/-- A record that leads back is undone without an error, and the storage is sound after it. -/
theorem applyUndo_does {record : UndoOp} (hs : s.Sound) (hback : record.Back s.tables old)
    (hplace : record.InPlace s.tables) :
    ∃ (table : String) (new : Stored), new.Sound table ∧
      Function.update s.tables table new.table=old ∧
      Does (MemoryStorage.applyUndo record) s () table new [] := by
  obtain ⟨hvalid,hready⟩ := hback
  obtain ⟨hready,hundo⟩ := hready hplace
  have hold : ∀ table value, Function.update s.tables table value=old → value.Valid table := by
    rintro table value rfl
    have h := hvalid table
    rwa [Function.update_self] at h
  cases record with
  | dropSchema table =>
    have hnone : (Stored.mk none ∅ ∅ none).table=Table.none :=
      Table.eq_none (Stored.sound_none table none).valid rfl
    refine ⟨table,⟨none,∅,∅,none⟩,Stored.sound_none table none,?_,
      removeTable_does s table⟩
    rw [hnone]
    exact hundo
  | dropIndex table index =>
    have htable : ({ s.stored table with
        indexes := (s.stored table).indexes.erase index } : Stored).table=
        (s.tables table).setIndex index none :=
      Table.ext rfl rfl (erase_indexes _ index)
    have hempty : (∅ : IndexMap).erase index=∅ := by
      ext name state
      rw [Std.ExtTreeMap.getElem?_erase,Std.ExtTreeMap.getElem?_empty,ite_self]
    refine ⟨table,_,Stored.sound_of_table htable (hold _ _ hundo) (fun schema h => ?_)
      (fun schema h => (hs table).counted schema h),?_,modifyIndexes_does hempty⟩
    · intro name state hstate
      rw [Std.ExtTreeMap.getElem?_erase] at hstate
      split at hstate
      · cases hstate
      · exact (hs table).indexed schema h name state hstate
    · rw [htable]
      exact hundo
  | restoreTable schema rows indexes nextRowId =>
    obtain ⟨next,rfl,-⟩ := hready.counted schema rfl
    exact ⟨schema.name,_,hready,hundo,
      putTable_does s schema.name schema rows indexes next⟩
  | restoreIndex table index state =>
    obtain ⟨schema,hschema,hlists⟩ := hready
    have htable : ({ s.stored table with
        indexes := (s.stored table).indexes.insert index state } : Stored).table=
        (s.tables table).setIndex index (some state.indexMeta) :=
      Table.ext rfl rfl (insert_indexes _ index state)
    refine ⟨table,_,Stored.sound_of_table htable (hold _ _ hundo) (fun other h => ?_)
      (fun schema h => (hs table).counted schema h),?_,
      putIndexes_does s table fun indexes => indexes.insert index state⟩
    · intro name found hfound
      obtain rfl := Option.some.inj (hschema.symm.trans h)
      rw [Std.ExtTreeMap.getElem?_insert] at hfound
      split at hfound
      · obtain rfl := Option.some.inj hfound
        exact hlists
      · exact (hs table).indexed schema h name found hfound
    · rw [htable]
      exact hundo
  | deleteRow table rowId =>
    cases hrow : (s.stored table).rows[rowId]? with
    | none =>
      have hfound : (s.tableRows table)[rowId]?=none := hrow
      have hsame : (s.tables table).setRow rowId none=s.tables table :=
        Table.ext rfl (Function.update_eq_self_iff.mpr hrow.symm) rfl
      refine ⟨table,s.stored table,hs table,?_,s,?_,Writes.of_stored rfl (fun _ _ => rfl) rfl rfl⟩
      · rw [← hundo]
        change Function.update s.tables table (s.tables table)=
          Function.update s.tables table ((s.tables table).setRow rowId none)
        rw [hsame]
      · simp only [MemoryStorage.applyUndo,Eff.bind_eq,Eff.get_eq,hfound,Eff.pure_eq]
    | some row =>
      obtain ⟨new,hnew,htable,herase⟩ := eraseRow_does (hs table) hrow
      have hfound : (s.tableRows table)[rowId]?=some row := hrow
      refine ⟨table,new,hnew,?_,Does.congr ?_ herase⟩
      · rw [htable]
        exact hundo
      · simp only [MemoryStorage.applyUndo,Eff.bind_eq,Eff.get_eq,hfound]
  | reinsertRow table rowId row =>
    obtain ⟨new,hnew,htable,hdoes⟩ := reinsertRow_does s table rowId row (hs table)
      hready (hold _ _ hundo)
    refine ⟨table,new,hnew,?_,hdoes⟩
    rw [htable]
    exact hundo
  | restoreRow table rowId row =>
    obtain ⟨replaced,hreplaced⟩ := Option.ne_none_iff_exists'.mp hplace
    obtain ⟨new,hnew,htable,hdoes⟩ := restoreRow_does (hs table) hreplaced (hold _ _ hundo)
    refine ⟨table,new,hnew,?_,hdoes⟩
    rw [htable]
    exact hundo

end Records

end RustSql.Memory
