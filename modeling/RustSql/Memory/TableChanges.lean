import RustSql.Memory.LoggedCalls

/-!
# Changes of tables

New names of tables and columns also change the foreign keys of other tables, each with a
record of its own. A column comes with a value for every row and goes with it.
-/

namespace RustSql.Memory

open RustSql.Engine RustSql.Sql RustSql.V2

section ForeignKeys

variable {s : MemoryStorage} {table : String} {stored : Stored} {schema : Schema}

/-- Other foreign keys change no row and no index. -/
theorem mapForeignKeys_sound (change : ForeignKey → ForeignKey) (hs : stored.Sound table)
    (hschema : stored.schema=some schema) :
    (Stored.mk (some (schema.mapForeignKeys change)) stored.rows stored.indexes
      stored.nextRowId).Sound table := by
  obtain ⟨hname,hfitting⟩ := Table.valid_of_schema hs.valid hschema
  have halias : integerPrimaryKeyColumnIndex (schema.mapForeignKeys change)=
      integerPrimaryKeyColumnIndex schema :=
    integerPrimaryKeyColumnIndex_map rfl rfl fun column => ⟨rfl,rfl,rfl⟩
  refine reshaped_sound id hs hschema hname ?_ (fun name => Option.map_id'.symm) ?_
  · refine sameRows_map _ id rfl rfl (fun column => ⟨rfl,rfl,rfl⟩) (fun _ => rfl)
      (fun _ _ _ _ h => h) (fun index => ⟨(List.map_id _).symm,rfl⟩) hfitting
  · exact (hs.counted schema hschema).reshape fun rowId row hrow =>
      ⟨fun hnone => halias.symm.trans hnone,row,hrow⟩

/-- The schemas of other tables are changed one after the other; their records lead back
whatever stands under the table's own name. -/
theorem changeEachSchema_does (change : ForeignKey → ForeignKey) (hs : s.Sound)
    {entries : List (String × Schema)}
    (hdistinct : entries.Pairwise fun entry other => entry.1≠other.1)
    (hentries : ∀ entry∈entries, entry.1≠table ∧ (s.stored entry.1).schema=some entry.2) :
    ∃ t log, Eff.forEach entries (fun entry => do
        let storage ← Eff.get
        MemoryStorage.recordUndo (storage.savedTable entry.1 entry.2)
        MemoryStorage.putSchema entry.1 (entry.2.mapForeignKeys change)) s=(.ok (),t) ∧
      t.Sound ∧ t.stored table=s.stored table ∧ Grows log s t ∧
      ∀ value : Table, value.Valid table → Undoes UndoOp.Back log
        (Function.update t.tables table value) (Function.update s.tables table value) := by
  induction entries generalizing s with
  | nil => exact ⟨s,[],rfl,hs,rfl,Grows.of_same rfl rfl,fun _ _ => rfl⟩
  | cons entry rest ih =>
    obtain ⟨hother,hrest⟩ := List.pairwise_cons.mp hdistinct
    obtain ⟨hne,hschema⟩ := hentries entry List.mem_cons_self
    obtain ⟨t,ht,hrecord⟩ := recordUndo_does s entry.1
      (s.savedTable entry.1 entry.2)
    have hput := putSchema_does t entry.1 (entry.2.mapForeignKeys change)
    rw [hrecord.self] at hput
    obtain ⟨u,hu,hput⟩ := hput
    have hwrites := hrecord.trans hput
    have hnew := mapForeignKeys_sound change (hs entry.1) hschema
    have hsound := hwrites.sound hs hnew
    obtain ⟨v,log,hv,hvsound,hvtable,hgrows,hundoes⟩ := ih hsound hrest fun other hmem => by
      obtain ⟨hneOther,hschemaOther⟩ := hentries other (List.mem_cons_of_mem _ hmem)
      refine ⟨hneOther,?_⟩
      rw [hwrites.other (hother other hmem).symm]
      exact hschemaOther
    have hstep : (do
        let storage ← Eff.get
        MemoryStorage.recordUndo (storage.savedTable entry.1 entry.2)
        MemoryStorage.putSchema entry.1 (entry.2.mapForeignKeys change)) s=(.ok (),u) :=
      (Eff.bind_of_ok (Eff.get_eq s)).trans ((Eff.bind_of_ok ht).trans hu)
    refine ⟨v,[s.savedTable entry.1 entry.2]++log,(Eff.bind_of_ok hstep).trans hv,hvsound,
      hvtable.trans (hwrites.other hne.symm),hwrites.toGrows.trans hgrows,fun value hvalue => ?_⟩
    refine (hundoes value hvalue).trans (Undoes.single ?_)
    rw [hwrites.tables,Function.update_comm hne]
    refine savedTable_back (hs entry.1) hschema (fun name => ?_) ?_ _
    · by_cases hname : name=table
      · subst hname
        rw [Function.update_self]
        exact hvalue
      · rw [Function.update_of_ne hname]
        exact (hs name).valid
    · rw [Function.update_of_ne hne]
      rfl

theorem changeOthers_does (affected : Schema → Bool) (change : ForeignKey → ForeignKey)
    (hs : s.Sound) (table : String) :
    ∃ t log, MemoryStorage.changeOthers affected (Schema.mapForeignKeys change) table s=
        (.ok (),t) ∧ t.Sound ∧ t.stored table=s.stored table ∧ Grows log s t ∧
      ∀ value : Table, value.Valid table → Undoes UndoOp.Back log
        (Function.update t.tables table value) (Function.update s.tables table value) := by
  refine changeEachSchema_does change hs ((distinct_names s.schemas).filter _) fun entry hmem => ?_
  obtain ⟨hfound,htest⟩ := List.mem_filter.mp hmem
  rw [Bool.and_eq_true,decide_eq_true_iff] at htest
  exact ⟨htest.1,Std.ExtTreeMap.mem_toList_iff_getElem?_eq_some.mp hfound⟩

end ForeignKeys

/-! ## New names -/

section Renames

variable {s : MemoryStorage} {table : String} {schema : Schema}

/-- A table moves to another name as it is. -/
theorem movedTable_sound (newName : String) (hs : (s.stored table).Sound table)
    (hschema : (s.stored table).schema=some schema) :
    (Stored.mk (some { schema with name := newName }) (s.stored table).rows
      (s.stored table).indexes (s.stored table).nextRowId).Sound newName := by
  have hfitting := (Table.valid_of_schema hs.valid hschema).2
  refine reshaped_sound id hs hschema rfl ?_ (fun name => Option.map_id'.symm) ?_
  · exact sameRows_map id id (List.map_id _).symm rfl
      (fun column => ⟨rfl,rfl,rfl⟩) (fun _ => rfl) (fun _ _ _ _ h => h)
      (fun index => ⟨(List.map_id _).symm,rfl⟩) hfitting
  · exact (hs.counted schema hschema).reshape fun rowId row hrow => ⟨id,row,hrow⟩

theorem renameSchema_keeps (tid : TransactionId) (oldName newName : String) :
    KeepsLog (MemoryStorage.renameSchema tid oldName newName) s := by
  refine keepsLog_validate (Guarantee.bind_get ?_)
  cases hnew : s.schemas[newName]? with
  | some other =>
    simp only [Option.isSome_some,if_true]
    exact Guarantee.fail _
  | none =>
    simp only [Option.isSome_none,Bool.false_eq_true,if_false]
    refine keepsLog_schema fun schema hschema => ⟨fun hs => ?_,fun _ _ => trivial⟩
    have hne : newName≠oldName := by
      rintro rfl
      cases hnew.symm.trans hschema
    obtain ⟨next,hnext,-⟩ := (hs oldName).counted schema hschema
    have hmoved := movedTable_sound newName (hs oldName) hschema
    obtain ⟨t₁,h₁,hremove⟩ := removeTable_does s oldName
    obtain ⟨t₂,h₂,hsave⟩ := recordUndo_does t₁ oldName
      (s.savedTable oldName schema)
    obtain ⟨t₃,h₃,hdrop⟩ := recordUndo_does t₂ newName (.dropSchema newName)
    obtain ⟨t₄,h₄,hput⟩ := putTable_does t₃ newName
      { schema with name := newName } (s.tableRows oldName) (s.tableIndexes oldName) next
    rw [hremove.self] at hsave
    have hgone := hremove.trans hsave
    have hgoneSound := hgone.sound hs (Stored.sound_none oldName none)
    have hmovedWrites := hdrop.trans hput
    rw [hnext] at hmoved
    have hmovedTables := hmovedWrites.tables
    have hmovedSound := hmovedWrites.sound hgoneSound hmoved
    obtain ⟨t₅,log,h₅,hsound₅,htable₅,hgrows,hundoes⟩ := changeOthers_does
      (fun other => other.allForeignKeys.any fun foreignKey => foreignKey.refTable==oldName)
      (ForeignKey.renameRefTable oldName newName) hmovedSound newName
    obtain ⟨t₆,h₆,hlast⟩ := putSchema_does t₅ newName
      (({ schema with name := newName } : Schema).renameForeignKeyRefTable oldName newName)
    have hself₅ := htable₅.trans hmovedWrites.self
    rw [hself₅] at hlast
    have hlastSound := mapForeignKeys_sound (ForeignKey.renameRefTable oldName newName) hmoved rfl
    have hrun : (do
        MemoryStorage.removeTable oldName
        MemoryStorage.recordUndo (s.savedTable oldName schema)
        MemoryStorage.recordUndo (.dropSchema newName)
        MemoryStorage.putTable newName { schema with name := newName } (s.tableRows oldName)
          (s.tableIndexes oldName) s.nextRowIds[oldName]?
        MemoryStorage.changeOthers
          (fun other => other.allForeignKeys.any fun foreignKey => foreignKey.refTable==oldName)
          (Schema.renameForeignKeyRefTable oldName newName) newName
        MemoryStorage.putSchema newName (({ schema with name := newName } : Schema).renameForeignKeyRefTable
          oldName newName)) s=(.ok (),t₆) := by
      have hcounter : s.nextRowIds[oldName]?=some next := hnext
      rw [hcounter,Eff.bind_of_ok h₁,Eff.bind_of_ok h₂,Eff.bind_of_ok h₃,Eff.bind_of_ok h₄]
      exact (Eff.bind_of_ok h₅).trans h₆
    rw [hrun]
    refine ⟨hlast.sound hsound₅ hlastSound,([s.savedTable oldName schema]++[.dropSchema newName]++log)++[],
      ((hgone.toGrows.trans hmovedWrites.toGrows).trans hgrows).trans hlast.toGrows,?_⟩
    rw [List.append_nil,hlast.tables]
    refine (hundoes _ hlastSound.valid).trans ?_
    rw [hmovedTables,Function.update_idem,hgone.tables]
    have hnoTable : Function.update s.tables oldName (Stored.mk none ∅ ∅ none).table newName=
        Table.none := by
      rw [Function.update_of_ne hne]
      exact ((hs newName).no_schema hnew).1
    have hvalid : ∀ name, (Function.update s.tables oldName
        (Stored.mk none ∅ ∅ none).table name).Valid name := by
      intro name
      by_cases hname : name=oldName
      · subst hname
        rw [Function.update_self]
        exact (Stored.sound_none _ none).valid
      · rw [Function.update_of_ne hname]
        exact (hs name).valid
    exact (Undoes.single (dropSchema_back hvalid hnoTable _)).trans
      (savedTable_undoes hs hschema _)

end Renames

/-! ## Columns -/

section Columns

variable {s : MemoryStorage} {table : String} {schema : Schema}

theorem validateRowValues_length {row : Row} (h : schema.validateRowValues row=.ok ()) :
    row.length=schema.columns.length := by
  unfold Schema.validateRowValues at h
  by_contra hne
  rw [if_pos hne] at h
  cases h

/-- The rows with one more value stand under their old numbers. -/
theorem widenedRows_ok {value : Value} {rows : RowMap} {widened : List (RowId × Row)}
    (h : s.widenedRows schema value rows=.ok widened) :
    (rows=∅ → widened=[]) ∧
    (∀ (rowId : RowId) (row : Row), rows[rowId]?=some row → ∃ candidate,
      (rows.insertMany widened)[rowId]?=some candidate ∧
      schema.normalizeStrictRow s.expressions (row++[value])=.ok candidate ∧
      candidate.length=schema.columns.length) ∧
    ∀ (rowId : RowId) (row : Row), (rows.insertMany widened)[rowId]?=some row →
      ∃ old, rows[rowId]?=some old := by
  have hstep : ∀ (entry new : RowId × Row), (do
      let candidate ← schema.normalizeStrictRow s.expressions (entry.2++[value])
      schema.validateRowValues candidate
      schema.validateCheckConstraints s.expressions candidate s.caseSensitiveLike
      Except.ok (entry.1,candidate))=.ok new →
      new.1=entry.1 ∧ schema.normalizeStrictRow s.expressions (entry.2++[value])=.ok new.2 ∧
        new.2.length=schema.columns.length := by
    intro entry new hnew
    obtain ⟨candidate,hcandidate,hnew⟩ := except_bind_ok hnew
    obtain ⟨_,hvalues,hnew⟩ := except_bind_ok hnew
    obtain ⟨_,_,hnew⟩ := except_bind_ok hnew
    obtain rfl := Except.ok.inj hnew
    exact ⟨rfl,hcandidate,validateRowValues_length hvalues⟩
  have hnumbers : widened.map Prod.fst=rows.toList.map Prod.fst :=
    mapM_map h fun entry new hnew => (hstep entry new hnew).1
  have hdistinct : widened.Pairwise fun a b => ¬compare a.1 b.1=.eq := by
    have hrows : rows.toList.Pairwise fun a b => ¬compare a.1 b.1=.eq :=
      Std.ExtTreeMap.distinct_keys_toList
    rw [← List.pairwise_map (f := Prod.fst) (R := fun a b => ¬compare a b=.eq)] at hrows ⊢
    rw [hnumbers]
    exact hrows
  refine ⟨?_,?_,?_⟩
  · rintro rfl
    exact List.map_eq_nil_iff.mp hnumbers
  · intro rowId row hrow
    obtain ⟨new,hmem,hnew⟩ := forall₂_mem_left (mapM_eq_ok.mp h)
      (Std.ExtTreeMap.mem_toList_iff_getElem?_eq_some.mpr hrow)
    obtain ⟨hnumber,hcandidate,hlength⟩ := hstep (rowId,row) new hnew
    refine ⟨new.2,?_,hcandidate,hlength⟩
    exact Std.ExtTreeMap.getElem?_insertMany_list_of_mem (compare_rowId.mpr hnumber) hdistinct hmem
  · intro rowId row hrow
    cases hold : rows[rowId]? with
    | some old => exact ⟨old,rfl⟩
    | none =>
      have hnone : (widened.map Prod.fst).contains rowId=false := by
        rw [hnumbers,← Bool.not_eq_true,List.contains_iff_mem]
        intro hmem
        obtain ⟨⟨found,old⟩,hfound,rfl⟩ := List.mem_map.mp hmem
        rw [Std.ExtTreeMap.mem_toList_iff_getElem?_eq_some.mp hfound] at hold
        cases hold
      rw [Std.ExtTreeMap.getElem?_insertMany_list_of_contains_eq_false hnone,hold] at hrow
      cases hrow

/-- A new column that passes the checks leaves the stored values and the column of the rows'
numbers as they are, where there are rows. -/
def AddFits (storage : MemoryStorage) (table : String) (column : ColumnDef) : Prop :=
  ∀ schema value widened, (storage.stored table).schema=some schema →
    schema.hasColumn column.name=false → column.evaluateDefault storage.expressions=.ok value →
    let updated := { schema with columns := schema.columns++[column] }
    updated.validateConstraintsMetadata storage.names=.ok () →
    storage.widenedRows updated value (storage.tableRows table)=.ok widened →
    ∀ (rowId : RowId) (row : Row), (storage.tableRows table)[rowId]?=some row →
      integerPrimaryKeyColumnIndex updated=integerPrimaryKeyColumnIndex schema ∧
      ∀ candidate, updated.normalizeStrictRow storage.expressions (row++[value])=.ok candidate →
        candidate.take row.length=row

theorem addColumn_keeps (tid : TransactionId) {column : ColumnDef}
    (hfits : AddFits s table column) : KeepsLog (MemoryStorage.addColumn tid table column) s := by
  refine keepsLog_validate (keepsLog_schema fun schema hschema => ?_)
  cases hcolumn : schema.hasColumn column.name with
  | true =>
    simp only [if_true]
    exact Guarantee.fail _
  | false =>
    simp only [Bool.false_eq_true,if_false]
    refine Guarantee.bind_get (Guarantee.bind_lift fun value hvalue =>
      Guarantee.bind_lift fun _ hvalid => Guarantee.bind_lift fun widened hwidened => ?_)
    refine keepsLog_of fun hs => ?_
    have hfit := hfits schema value widened hschema hcolumn hvalue hvalid hwidened
    obtain ⟨hname,hfitting⟩ := Table.valid_of_schema (hs table).valid hschema
    obtain ⟨hempty,hforward,hbackward⟩ := widenedRows_ok hwidened
    obtain ⟨t₁,h₁,hrecord⟩ := recordUndo_does s table (s.savedTable table schema)
    obtain ⟨t₂,h₂,hput⟩ := putSchema_does t₁ table
      { schema with columns := schema.columns++[column] }
    rw [hrecord.self] at hput
    have hrows : Does (Eff.modify fun storage : MemoryStorage =>
        { storage with rows := storage.rows.modify table fun rows => rows.insertMany widened })
        t₂ () table { t₂.stored table with rows := (t₂.stored table).rows.insertMany widened }
        [] := by
      refine modifyRows_does fun hnone => ?_
      rw [hput.self] at hnone
      rw [hempty hnone]
      rfl
    rw [hput.self] at hrows
    refine ⟨(),table,_,_,Does.after h₁ hrecord (Does.after h₂ hput hrows),?_,
      savedTable_undoes hs hschema _⟩
    refine reshaped_sound id (hs table) hschema hname ?_
      (fun name => Option.map_id'.symm) ?_
    · refine sameRows_append column rfl (fun rowId row hrow => ?_) hbackward
        (fun rowId row hrow => (hfit rowId row hrow).1) hfitting
      obtain ⟨candidate,hfound,hcandidate,hlength⟩ := hforward rowId row hrow
      exact ⟨candidate,hfound,hlength,(hfit rowId row hrow).2 candidate hcandidate⟩
    · refine ((hs table).counted schema hschema).reshape fun rowId row hrow => ?_
      obtain ⟨old,hold⟩ := hbackward rowId row hrow
      have halias := (hfit rowId old hold).1
      exact ⟨fun hnone => halias.symm.trans hnone,old,hold⟩

/-- An index whose columns are those of the table under their new names. -/
theorem renameColumn_sound (names : ExpressionNames) (oldName : String) {newName : String}
    (hs : (s.stored table).Sound table) (hschema : (s.stored table).schema=some schema)
    (hfree : schema.hasColumn newName=false) :
    (Stored.mk (some ((schema.renameColumnReferences names oldName newName).renameForeignKeyRefColumn
        table oldName newName)) (s.stored table).rows
      ((s.stored table).indexes.map fun _ index => index.renameColumn oldName newName)
      (s.stored table).nextRowId).Sound table := by
  obtain ⟨hname,hfitting⟩ := Table.valid_of_schema hs.valid hschema
  let change : ColumnDef → ColumnDef := fun column =>
    { column with
      name := renamed oldName newName column.name
      checks := column.checks.map (CheckConstraint.renameColumn names oldName newName)
      foreignKey := (column.foreignKey.map (ForeignKey.renameColumn oldName newName)).map
        (ForeignKey.renameRefColumn table oldName newName) }
  have hcolumns : ((schema.renameColumnReferences names oldName newName).renameForeignKeyRefColumn
      table oldName newName).columns=schema.columns.map change := by
    change ((schema.columns.map _).map _)=_
    rw [List.map_map]
    rfl
  have hother : ∀ column∈schema.columns, column.name≠newName := by
    intro column hmem hsame
    have hfound : schema.hasColumn newName=true :=
      List.any_eq_true.mpr ⟨column,hmem,beq_iff_eq.mpr hsame⟩
    rw [hfree] at hfound
    cases hfound
  have halias : integerPrimaryKeyColumnIndex
      ((schema.renameColumnReferences names oldName newName).renameForeignKeyRefColumn table
        oldName newName)=integerPrimaryKeyColumnIndex schema :=
    integerPrimaryKeyColumnIndex_map hcolumns rfl fun column => ⟨rfl,rfl,rfl⟩
  refine reshaped_sound (fun index =>
    { index with columns := index.columns.map (renamed oldName newName) }) hs hschema hname ?_
      (fun name => Std.ExtTreeMap.getElem?_map) ?_
  · refine sameRows_map change (renamed oldName newName) hcolumns rfl
      (fun column => ⟨rfl,rfl,rfl⟩) (fun _ => rfl) ?_ (fun index => ⟨rfl,rfl⟩) hfitting
    intro column hmem other hmem' hsame
    unfold renamed at hsame
    split at hsame
    · next hold =>
      split at hsame
      · next hold' => rw [hold,hold']
      · exact absurd hsame.symm (hother other hmem')
    · split at hsame
      · exact absurd hsame (hother column hmem)
      · exact hsame
  · exact (hs.counted schema hschema).reshape fun rowId row hrow =>
      ⟨fun hnone => halias.symm.trans hnone,row,hrow⟩

theorem renameColumn_keeps (tid : TransactionId) (table oldName newName : String) :
    KeepsLog (MemoryStorage.renameColumn tid table oldName newName) s := by
  refine keepsLog_validate (keepsLog_schema fun schema hschema => ?_)
  cases hold : schema.hasColumn oldName with
  | false =>
    simp only [Bool.not_false,if_true]
    exact Guarantee.fail _
  | true =>
  cases hnew : schema.hasColumn newName with
  | true =>
    simp only [Bool.not_true,Bool.false_eq_true,if_false,if_true]
    exact Guarantee.fail _
  | false =>
    simp only [Bool.not_true,Bool.false_eq_true,if_false]
    refine Guarantee.bind_get ⟨fun hs => ?_,fun _ _ => trivial⟩
    have hback := savedTable_undoes hs hschema
    have hnewTable := renameColumn_sound s.names oldName (hs table)
      hschema hnew
    obtain ⟨t₁,h₁,hrecord⟩ := recordUndo_does s table (s.savedTable table schema)
    rw [Eff.bind_of_ok h₁]
    cases hvalid : ((schema.renameColumnReferences s.names oldName newName).renameForeignKeyRefColumn
        table oldName newName).validateConstraintsMetadata s.names with
    | error error =>
      exact hrecord.logged (fun hs => hs table) (fun _ => hback _) hs
    | ok checked =>
      obtain ⟨t₂,h₂,hput⟩ := putSchema_does t₁ table
        ((schema.renameColumnReferences s.names oldName newName).renameForeignKeyRefColumn
          table oldName newName)
      have hindexes : Does (Eff.modify fun storage : MemoryStorage =>
          { storage with indexes := storage.indexes.modify table fun indexes =>
              indexes.map fun _ (index : IndexState) => index.renameColumn oldName newName })
          t₂ () table { t₂.stored table with
            indexes := (t₂.stored table).indexes.map fun _ (index : IndexState) =>
              index.renameColumn oldName newName } [] :=
        modifyIndexes_does (Std.ExtTreeMap.ext_getElem? fun name => by
          rw [Std.ExtTreeMap.getElem?_map,Std.ExtTreeMap.getElem?_empty]
          rfl)
      rw [hput.self,hrecord.self] at hindexes
      obtain ⟨t₃,h₃,hmap⟩ := hindexes
      have hwrites := (hrecord.trans hput).trans hmap
      have hlogged := hwrites.logged (fun _ => hnewTable) (fun _ => hback _)
      have hsound := hwrites.sound hs hnewTable
      obtain ⟨t₄,log,h₄,hsound₄,htable,hgrows,hundoes⟩ := changeOthers_does
        (fun other => other.allForeignKeys.any fun foreignKey =>
          foreignKey.refTable==table && foreignKey.hasReferencedColumn oldName)
        (ForeignKey.renameRefColumn table oldName newName) hsound table
      have hothers : Logged t₃ t₄ := by
        intro _
        refine ⟨hsound₄,log,hgrows,?_⟩
        have hall := hundoes (t₃.tables table) (hsound table).valid
        have hsame : t₄.tables table=t₃.tables table := congrArg Stored.table htable
        rw [Function.update_eq_self,← hsame,Function.update_eq_self] at hall
        exact hall
      have hchecked : (Eff.lift (.ok checked) : Eff MemoryStorage Unit) t₁=(.ok checked,t₁) := rfl
      rw [Eff.bind_of_ok hchecked,Eff.bind_of_ok h₂,Eff.bind_of_ok h₃]
      have hends : MemoryStorage.changeOthers (fun other => other.allForeignKeys.any
          fun foreignKey => foreignKey.refTable==table && foreignKey.hasReferencedColumn oldName)
          (Schema.renameForeignKeyRefColumn table oldName newName) table t₃=(.ok (),t₄) := h₄
      rw [hends]
      exact hlogged.trans hothers hs

/-- A column that can be dropped is in no index of its table. -/
def DropFits (storage : MemoryStorage) (table column : String) : Prop :=
  ∀ schema dropped, (storage.stored table).schema=some schema →
    schema.dropColumn storage.names column=.ok dropped →
    ∀ (name : String) (index : IndexState), (storage.tableIndexes table)[name]?=some index →
      column∉index.indexMeta.columns

theorem dropColumn_ok {names : ExpressionNames} {oldName : String} {updated : Schema}
    {removedIndex : ℕ} (h : schema.dropColumn names oldName=.ok (updated,removedIndex)) :
    updated={ schema with columns := schema.columns.eraseIdx removedIndex } ∧
      ∃ column, schema.columns[removedIndex]?=some column ∧ column.name=oldName ∧
        column.primaryKey=false := by
  unfold Schema.dropColumn at h
  cases hfound : schema.columns.findIdx? fun column => column.name==oldName with
  | none =>
    rw [hfound] at h
    cases h
  | some found =>
    obtain ⟨⟨column,hcolumn,hname⟩,-⟩ := findIdx?_eq_some.mp hfound
    rw [hfound] at h
    dsimp only at h
    split at h
    · cases h
    · split at h
      · cases h
      · next hprimary =>
        split at h
        · cases h
        · obtain ⟨_,_,h⟩ := except_bind_ok h
          obtain ⟨rfl,rfl⟩ := Prod.mk.inj (Except.ok.inj h)
          refine ⟨rfl,column,hcolumn,beq_iff_eq.mp hname,?_⟩
          rw [hcolumn] at hprimary
          exact Bool.eq_false_iff.mpr hprimary

/-- A table without one of its columns, its indexes built anew. -/
theorem droppedColumn_sound {stored : Stored} {removedIndex : ℕ} {column : ColumnDef}
    (hs : stored.Sound table) (hschema : stored.schema=some schema)
    (hcolumn : schema.columns[removedIndex]?=some column) (hprimary : column.primaryKey=false)
    (hunused : ∀ name index, stored.table.indexes name=some index →
      column.name∉index.columns) :
    let updated := { schema with columns := schema.columns.eraseIdx removedIndex }
    let rows : RowMap := stored.rows.map fun _ row => row.eraseIdx removedIndex
    (∀ (name : String) (index : IndexState), stored.indexes[name]?=some index →
      (index.rebuild updated rows).1=.ok ()) ∧
    (Stored.mk (some updated) rows
      (stored.indexes.map fun _ index => (index.rebuild updated rows).2)
      stored.nextRowId).Sound table := by
  intro updated rows
  obtain ⟨hname,hfitting⟩ := Table.valid_of_schema hs.valid hschema
  have hrows : (fun rowId : RowId => rows[rowId]?)=
      fun rowId => (stored.table.rows rowId).map fun row => row.eraseIdx removedIndex :=
    funext fun rowId => Std.ExtTreeMap.getElem?_map
  have hfit : Fitting updated (fun rowId => rows[rowId]?) stored.table.indexes := by
    have hreshaped := hfitting.reshape (sameRows_eraseIdx updated rfl rfl hcolumn
      hprimary hunused hfitting)
    rw [hrows]
    have hindexes : (fun name => (stored.table.indexes name).map id)=stored.table.indexes :=
      funext fun name => Option.map_id_apply
    rw [hindexes] at hreshaped
    exact hreshaped
  have hrebuild : ∀ (name : String) (index : IndexState), stored.indexes[name]?=some index →
      (index.rebuild updated rows).1=.ok () ∧
      (index.rebuild updated rows).2.indexMeta=index.indexMeta ∧
      (index.rebuild updated rows).2.Lists updated fun rowId => rows[rowId]? := by
    intro name index hindex
    refine rebuild_lists fun rowId row hrow => hfit.keyed name index.indexMeta rowId row ?_ hrow
    change stored.indexes[name]?.map IndexState.indexMeta=_
    rw [hindex]
    rfl
  have hmetas : (Stored.mk (some updated) rows
      (stored.indexes.map fun _ index => (index.rebuild updated rows).2)
      stored.nextRowId).table.indexes=stored.table.indexes :=
    funext (sameIndexes_map fun name index hindex => (hrebuild name index hindex).2.1)
  refine ⟨fun name index hindex => (hrebuild name index hindex).1,
    Stored.sound_of updated rfl (Table.valid_some rfl hname ?_) ?_ ?_⟩
  · rw [hmetas]
    exact hfit
  · exact indexesOf_map fun name index hindex => (hrebuild name index hindex).2.2
  · refine (hs.counted schema hschema).reshape fun rowId row hrow =>
      ⟨integerPrimaryKeyColumnIndex_eraseIdx rfl rfl hcolumn hprimary,?_⟩
    rw [Std.ExtTreeMap.getElem?_map] at hrow
    obtain ⟨old,hold,-⟩ := Option.map_eq_some_iff.mp hrow
    exact ⟨old,hold⟩

/-- A column that fits to be dropped goes, and is in no index after that. -/
theorem dropColumn_keeps (tid : TransactionId) {oldName : String}
    (hfits : DropFits s table oldName) :
    Guarantee Logged s (MemoryStorage.dropColumn tid table oldName) fun _ t =>
      s.Sound → ∀ (name : String) (index : IndexState), (t.tableIndexes table)[name]?=some index →
        oldName∉index.indexMeta.columns := by
  refine keepsLog_validate (keepsLog_schema fun schema hschema => Guarantee.bind_get
    (Guarantee.bind_lift fun dropped hdropped => ?_))
  obtain ⟨updated,removedIndex⟩ := dropped
  have hfit := hfits schema _ hschema hdropped
  obtain ⟨rfl,column,hcolumn,rfl,hprimary⟩ := dropColumn_ok hdropped
  obtain ⟨hbound,-⟩ := List.getElem?_eq_some_iff.mp hcolumn
  refine logged_whenSound fun hs => ?_
  obtain ⟨hname,hfitting⟩ := Table.valid_of_schema (hs table).valid hschema
  have hlong : ¬((s.tableRows table).toList.any fun entry =>
      decide (entry.2.length ≤ removedIndex))=true := by
    intro hshort
    obtain ⟨entry,hmem,hentry⟩ := List.any_eq_true.mp hshort
    have hlength := hfitting.length entry.1 entry.2
      (Std.ExtTreeMap.mem_toList_iff_getElem?_eq_some.mp hmem)
    rw [decide_eq_true_iff] at hentry
    omega
  have hunused : ∀ name index, (s.stored table).table.indexes name=some index →
      column.name∉index.columns := by
    intro name index hindex
    obtain ⟨state,hstate,rfl⟩ := Option.map_eq_some_iff.mp hindex
    exact hfit name state hstate
  have hnew := droppedColumn_sound (hs table) hschema hcolumn hprimary hunused
  obtain ⟨t₁,h₁,hrecord⟩ := recordUndo_does s table (s.savedTable table schema)
  obtain ⟨t₂,h₂,hput⟩ := putSchema_does t₁ table
    { schema with columns := schema.columns.eraseIdx removedIndex }
  rw [hrecord.self] at hput
  obtain ⟨t₃,h₃,hrows⟩ := putRows_does t₂ table
    ((s.tableRows table).map fun _ row => row.eraseIdx removedIndex)
  rw [hput.self] at hrows
  have hrebuild := changeIndexes_does t₃ table
    (IndexState.rebuild { schema with columns := schema.columns.eraseIdx removedIndex }
      ((s.tableRows table).map fun _ row => row.eraseIdx removedIndex))
    (by rw [hrows.self]; exact hnew.1)
  rw [hrows.self] at hrebuild
  obtain ⟨t₄,h₄,hindexes⟩ := hrebuild
  have hwrites := (hrecord.trans hput).trans (hrows.trans hindexes)
  unfold Guarantee
  rw [Eff.bind_of_ok h₁,if_neg hlong,Eff.bind_of_ok h₂,Eff.bind_of_ok h₃]
  have hends : MemoryStorage.rebuildIndexes table
      { schema with columns := schema.columns.eraseIdx removedIndex }
      ((s.tableRows table).map fun _ row => row.eraseIdx removedIndex) t₃=(.ok (),t₄) := h₄
  rw [hends]
  refine ⟨hwrites.logged (fun _ => hnew.2) (fun hs => savedTable_undoes hs hschema _),
    fun _ _ name index hindex => ?_⟩
  have hmap : t₄.tableIndexes table=(s.tableIndexes table).map fun _ index =>
      (index.rebuild { schema with columns := schema.columns.eraseIdx removedIndex }
        ((s.tableRows table).map fun _ row => row.eraseIdx removedIndex)).2 :=
    congrArg Stored.indexes hwrites.self
  rw [hmap,Std.ExtTreeMap.getElem?_map] at hindex
  obtain ⟨old,hold,rfl⟩ := Option.map_eq_some_iff.mp hindex
  exact hfit name old hold

end Columns

end RustSql.Memory
