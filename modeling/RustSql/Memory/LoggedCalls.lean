import RustSql.Memory.Reshape

/-!
# Calls and their records

A call that changes tables keeps the storage sound, and the records it leaves in the log lead
back to the tables before it. Here are the calls that change tables and indexes as a whole,
with the conditions under which they do so.
-/

namespace RustSql.Memory

open RustSql.Engine RustSql.Sql RustSql.V2

/-- From a sound storage to a sound one, whose log got records that lead back. -/
def Logged (s t : MemoryStorage) : Prop :=
  s.Sound → t.Sound ∧ ∃ log, Grows log s t ∧ Undoes UndoOp.Back log t.tables s.tables

/-- Nothing is logged. -/
theorem Logged.refl (s : MemoryStorage) : Logged s s :=
  fun hs => ⟨hs,[],Grows.of_same rfl rfl,rfl⟩

/-- One log behind another. -/
theorem Logged.trans {s t u : MemoryStorage} (h : Logged s t) (h' : Logged t u) : Logged s u := by
  intro hs
  obtain ⟨ht,log,hgrows,hundoes⟩ := h hs
  obtain ⟨hu,later,hgrows',hundoes'⟩ := h' ht
  exact ⟨hu,log++later,hgrows.trans hgrows',hundoes'.trans hundoes⟩

instance instPreorderLogged : IsPreorder MemoryStorage Logged where
  refl := Logged.refl
  trans _ _ _ := Logged.trans

/-- However the call ends, it keeps to the log. -/
abbrev KeepsLog {α : Type} (x : Eff MemoryStorage α) (s : MemoryStorage) : Prop :=
  Guarantee Logged s x fun _ _ => True

section Rules

variable {α : Type} {s t : MemoryStorage} {table : String} {new : Stored} {log : List UndoOp}

/-- A write changes one table. -/
theorem Writes.tables (h : Writes table new log s t) :
    t.tables=Function.update s.tables table new.table := by
  funext name
  by_cases hname : name=table
  · subst hname
    rw [Function.update_self]
    exact congrArg Stored.table h.self
  · rw [Function.update_of_ne hname]
    exact congrArg Stored.table (h.other hname)

/-- It leaves a sound store when the table is sound. -/
theorem Writes.sound (h : Writes table new log s t) (hs : s.Sound) (hnew : new.Sound table) :
    t.Sound := by
  intro name
  by_cases hname : name=table
  · subst hname
    rw [h.self]
    exact hnew
  · rw [h.other hname]
    exact hs name

/-- A write that is in order, with records that lead back, keeps to the log. -/
theorem Writes.logged (h : Writes table new log s t) (hnew : s.Sound → new.Sound table)
    (hlog : s.Sound → Undoes UndoOp.Back log (Function.update s.tables table new.table) s.tables) :
    Logged s t :=
  fun hs => ⟨h.sound hs (hnew hs),log,h.toGrows,h.tables▸hlog hs⟩

/-- A call that can be undone by its log. -/
theorem keepsLog_of {x : Eff MemoryStorage α}
    (h : s.Sound → ∃ value table new log, Does x s value table new log ∧ new.Sound table ∧
      Undoes UndoOp.Back log (Function.update s.tables table new.table) s.tables) :
    KeepsLog x s := by
  refine ⟨fun hs => ?_,fun _ _ => trivial⟩
  obtain ⟨value,table,new,log,⟨t,ht,hwrites⟩,hnew,hlog⟩ := h hs
  rw [ht]
  exact hwrites.logged (fun _ => hnew) (fun _ => hlog) hs

/-- A call is followed from a sound storage. -/
theorem logged_whenSound {x : Eff MemoryStorage α} {Q : α → MemoryStorage → Prop}
    (h : s.Sound → Guarantee Logged s x Q) :
    Guarantee Logged s x fun value t => s.Sound → Q value t :=
  ⟨fun hs => (h hs).1 hs,fun value hvalue hs => (h hs).2 value hvalue⟩

/-- It may take the store to be sound. -/
theorem keepsLog_sound {x : Eff MemoryStorage α} (h : s.Sound → KeepsLog x s) : KeepsLog x s :=
  (logged_whenSound h).forget

/-- The check of a call's transaction, and what comes after it. -/
theorem keepsLog_validate {tid : TransactionId} {f : Unit → Eff MemoryStorage α}
    {Q : α → MemoryStorage → Prop} (h : Guarantee Logged s (f ()) Q) :
    Guarantee Logged s (MemoryStorage.validateTransaction tid >>= f) Q := by
  refine Guarantee.bind (Q := fun _ t => t=s) ?_ fun _ t _ ht => ht▸h
  unfold MemoryStorage.validateTransaction
  refine Guarantee.bind_get ?_
  cases s.activeTxn with
  | none => exact Guarantee.fail _
  | some active =>
    by_cases hid : active.id=tid
    · simp only [hid,if_true]
      exact Guarantee.ret rfl
    · simp only [hid,if_false]
      exact Guarantee.fail _

/-- The look at a table's schema, and what comes after it. -/
theorem keepsLog_schema {f : Schema → Eff MemoryStorage α} {Q : α → MemoryStorage → Prop}
    (h : ∀ schema, (s.stored table).schema=some schema → Guarantee Logged s (f schema) Q) :
    Guarantee Logged s (MemoryStorage.requireSchema table >>= f) Q := by
  refine Guarantee.bind (Q := fun schema t => t=s ∧ (s.stored table).schema=some schema) ?_
    fun schema t _ ht => by
      obtain ⟨rfl,hschema⟩ := ht
      exact h schema hschema
  unfold MemoryStorage.requireSchema
  refine Guarantee.bind_get ?_
  cases hschema : s.schemas[table]? with
  | none => exact Guarantee.fail _
  | some schema => exact Guarantee.ret ⟨rfl,hschema⟩

/-- The record of a table as it is leads back to it. -/
theorem savedTable_back {schema : Schema} (hs : (s.stored table).Sound table)
    (hschema : (s.stored table).schema=some schema) {old : Tables}
    (hvalid : ∀ name, (old name).Valid name) (hold : old table=(s.stored table).table)
    (value : Table) :
    (s.savedTable table schema).Back (Function.update old table value) old := by
  refine ⟨hvalid,fun _ => ?_⟩
  have hname := (Table.valid_of_schema hs.valid hschema).1
  have hsaved : Stored.mk (some schema) (s.tableRows table) (s.tableIndexes table)
      s.nextRowIds[table]?=s.stored table := by
    rw [← hschema]
    rfl
  refine ⟨?_,?_⟩
  · change (Stored.mk (some schema) (s.tableRows table) (s.tableIndexes table)
      s.nextRowIds[table]?).Sound schema.name
    rw [hsaved,hname]
    exact hs
  · change Function.update (Function.update old table value) schema.name
      (Stored.mk (some schema) (s.tableRows table) (s.tableIndexes table)
        s.nextRowIds[table]?).table=old
    rw [hsaved,hname,Function.update_idem,← hold]
    exact Function.update_eq_self table old

/-- The only record of a call that changes one table. -/
theorem savedTable_undoes (hs : s.Sound) {schema : Schema}
    (hschema : (s.stored table).schema=some schema) (value : Table) :
    Undoes UndoOp.Back [s.savedTable table schema] (Function.update s.tables table value)
      s.tables :=
  Undoes.single (savedTable_back (hs table) hschema (fun name => (hs name).valid) rfl value)

end Rules

/-! ## Tables that come and go -/

section Tables

variable {s : MemoryStorage} {table : String} {stored : Stored} {schema : Schema}

/-- Without a schema nothing is stored. -/
theorem Stored.Sound.no_schema (h : stored.Sound table) (hschema : stored.schema=none) :
    stored.table=Table.none ∧ stored.rows=∅ ∧ stored.indexes=∅ := by
  have hnone := Table.eq_none h.valid hschema
  refine ⟨hnone,Std.ExtTreeMap.ext_getElem? fun rowId => ?_,
    Std.ExtTreeMap.ext_getElem? fun name => ?_⟩
  · rw [Std.ExtTreeMap.getElem?_empty]
    exact congrFun (congrArg Table.rows hnone) rowId
  · rw [Std.ExtTreeMap.getElem?_empty]
    have hmeta : stored.indexes[name]?.map IndexState.indexMeta=none :=
      congrFun (congrArg Table.indexes hnone) name
    exact Option.map_eq_none_iff.mp hmeta

/-- No rows fit any schema. -/
theorem fitting_noRows (schema : Schema) (indexes : String → Option IndexMeta) :
    Fitting schema (fun _ => none) indexes where
  length rowId row h := by cases h
  numbered rowId row h := by cases h
  keyed name index rowId row _ h := by cases h
  unique name index _ rowId row other otherRow key h := by cases h

/-- A new table is in order. -/
theorem newTable_sound (schema : Schema) (next : ℕ) :
    (Stored.mk (some schema) ∅ ∅ (some next)).Sound schema.name := by
  have hrows : (Stored.mk (some schema) ∅ ∅ (some next)).table.rows=fun _ => none :=
    funext fun rowId => Std.ExtTreeMap.getElem?_empty
  refine Stored.sound_of schema rfl (Table.valid_some rfl rfl ?_) ?_ ?_
  · rw [hrows]
    exact fitting_noRows schema _
  · intro name index hindex
    rw [Std.ExtTreeMap.getElem?_empty] at hindex
    cases hindex
  · refine ⟨next,rfl,fun _ rowId row hrow => ?_⟩
    rw [Std.ExtTreeMap.getElem?_empty] at hrow
    cases hrow

/-- Where there was nothing, removing the table leads back. -/
theorem dropSchema_back {tables : Tables} (hvalid : ∀ name, (tables name).Valid name)
    (hnone : tables table=Table.none) (value : Table) :
    (UndoOp.dropSchema table).Back (Function.update tables table value) tables := by
  refine ⟨hvalid,fun _ => ⟨trivial,?_⟩⟩
  change Function.update (Function.update tables table value) table Table.none=tables
  rw [Function.update_idem,← hnone]
  exact Function.update_eq_self table tables

/-- `create_schema` can be undone. -/
theorem createSchema_keeps (tid : TransactionId) (schema : Schema) :
    KeepsLog (MemoryStorage.createSchema tid schema) s := by
  refine keepsLog_validate (Guarantee.bind_get ?_)
  cases hschema : s.schemas[schema.name]? with
  | some old =>
    simp only [Option.isSome_some,if_true]
    exact Guarantee.fail _
  | none =>
    simp only [Option.isSome_none,Bool.false_eq_true,if_false]
    refine keepsLog_of fun hs => ?_
    obtain ⟨hnone,hrows,hindexes⟩ := (hs schema.name).no_schema hschema
    obtain ⟨t,ht,hrecord⟩ := recordUndo_does s schema.name
      (.dropSchema schema.name)
    refine ⟨(),schema.name,_,_,Does.after ht hrecord (putTable_does t schema.name schema _ _ _),?_,?_⟩
    · change (Stored.mk (some schema) (s.stored schema.name).rows (s.stored schema.name).indexes
        _).Sound schema.name
      rw [hrows,hindexes]
      exact newTable_sound schema _
    · exact Undoes.single (dropSchema_back (fun name => (hs name).valid) hnone _)

/-- So can `drop_schema`. -/
theorem dropSchema_keeps (tid : TransactionId) (table : String) :
    KeepsLog (MemoryStorage.dropSchema tid table) s := by
  refine keepsLog_validate (keepsLog_schema fun schema hschema => Guarantee.bind_get ?_)
  refine keepsLog_of fun hs => ?_
  obtain ⟨t,ht,hremove⟩ := removeTable_does s table
  have hrecord := recordUndo_does t table (s.savedTable table schema)
  rw [hremove.self] at hrecord
  exact ⟨(),table,_,_,Does.after ht hremove hrecord,Stored.sound_none table none,
    savedTable_undoes hs hschema _⟩

/-- A table whose schema and indexes changed in step with its rows is in order. -/
theorem reshaped_sound {rows : RowMap} {indexes : IndexMap} {next : Option ℕ} {updated : Schema}
    {newName : String} (rename : IndexMeta → IndexMeta) (hs : stored.Sound table)
    (hschema : stored.schema=some schema) (hname : updated.name=newName)
    (hrows : SameRows schema updated stored.table.indexes rename stored.table.rows
      fun rowId => rows[rowId]?)
    (hindexes : ∀ name : String, indexes[name]?=stored.indexes[name]?.map fun index =>
      { index with indexMeta := rename index.indexMeta })
    (hcounted : (Stored.mk (some updated) rows indexes next).Counted updated) :
    (Stored.mk (some updated) rows indexes next).Sound newName := by
  have hfitting := (Table.valid_of_schema hs.valid hschema).2
  have hmetas : (Stored.mk (some updated) rows indexes next).table.indexes=
      fun name => (stored.table.indexes name).map rename := by
    funext name
    change (indexes[name]?).map IndexState.indexMeta=
      (stored.indexes[name]?.map IndexState.indexMeta).map rename
    rw [hindexes name,Option.map_map,Option.map_map]
    rfl
  refine Stored.sound_of updated rfl (Table.valid_some rfl hname ?_) ?_ hcounted
  · rw [hmetas]
    exact hfitting.reshape hrows
  · intro name index hindex
    change indexes[name]?=some index at hindex
    rw [hindexes name] at hindex
    obtain ⟨old,hold,rfl⟩ := Option.map_eq_some_iff.mp hindex
    have hmeta : stored.table.indexes name=some old.indexMeta := by
      change stored.indexes[name]?.map IndexState.indexMeta=_
      rw [hold]
      rfl
    exact (hs.indexed schema hschema name old hold).reshape hfitting hrows hmeta

/-- The counter of a table whose rows stay, under a schema that still names their numbers. -/
theorem Stored.Counted.reshape {updated : Schema} {indexes : IndexMap} {rows : RowMap}
    (h : stored.Counted schema)
    (hrows : ∀ (rowId : RowId) (row : Row), rows[rowId]?=some row →
      (integerPrimaryKeyColumnIndex updated=none → integerPrimaryKeyColumnIndex schema=none) ∧
        ∃ old, stored.rows[rowId]?=some old) :
    (Stored.mk (some updated) rows indexes stored.nextRowId).Counted updated := by
  obtain ⟨next,hnext,hbelow⟩ := h
  refine ⟨next,hnext,fun halias rowId row hrow => ?_⟩
  obtain ⟨hnone,old,hold⟩ := hrows rowId row hrow
  exact hbelow (hnone halias) rowId old hold

/-- The rows of a table fit another schema of it, which finds their numbers and the keys of
its indexes where the old one did. -/
def ReplaceFits (storage : MemoryStorage) (schema : Schema) : Prop :=
  ∀ oldSchema, (storage.stored schema.name).schema=some oldSchema →
    ∀ (rowId : RowId) (row : Row), (storage.tableRows schema.name)[rowId]?=some row →
      row.length=schema.columns.length ∧
      integerPrimaryKeyColumnIndex schema=integerPrimaryKeyColumnIndex oldSchema ∧
      ∀ (name : String) (index : IndexState),
        (storage.tableIndexes schema.name)[name]?=some index →
          projectIndexKey schema index.indexMeta row=projectIndexKey oldSchema index.indexMeta row

/-- So can a schema that fits the rows. -/
theorem replaceSchema_keeps (tid : TransactionId) {schema : Schema} (hfits : ReplaceFits s schema) :
    KeepsLog (MemoryStorage.replaceSchema tid schema) s := by
  refine keepsLog_validate (keepsLog_schema fun oldSchema hschema => Guarantee.bind_get ?_)
  refine keepsLog_of fun hs => ?_
  have hfitting := (Table.valid_of_schema (hs schema.name).valid hschema).2
  obtain ⟨t,ht,hrecord⟩ := recordUndo_does s schema.name
    (s.savedTable schema.name oldSchema)
  have hput := putSchema_does t schema.name schema
  rw [hrecord.self] at hput
  refine ⟨(),schema.name,_,_,Does.after ht hrecord hput,?_,
    savedTable_undoes hs hschema _⟩
  refine reshaped_sound id (hs schema.name) hschema rfl ?_ (fun name => ?_) ?_
  · refine ⟨fun rowId row hrow => ⟨row,hrow,?_⟩,fun rowId row hrow => ⟨row,hrow⟩,fun _ _ _ => rfl⟩
    obtain ⟨hlength,halias,hkeys⟩ := hfits oldSchema hschema rowId row hrow
    refine ⟨hlength,fun index hindex => ?_,fun name index key hindex hkey => ?_⟩
    · exact hfitting.numbered rowId row hrow index (halias▸hindex)
    · obtain ⟨state,hstate,rfl⟩ := Option.map_eq_some_iff.mp hindex
      exact (hkeys name state hstate).trans hkey
  · exact Option.map_id'.symm
  · exact ((hs schema.name).counted oldSchema hschema).reshape fun rowId row hrow =>
      ⟨fun hnone => (hfits oldSchema hschema rowId row hrow).2.1.symm.trans hnone,row,hrow⟩

end Tables

end RustSql.Memory
