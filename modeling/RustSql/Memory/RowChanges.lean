import RustSql.Memory.LoggedCalls

/-!
# Changes of rows and indexes

An insertion, a deletion and an update bring the row and the indexes in step, and leave one
record. A row that moved to another number is not brought back by its record; the others are.
A new index takes its entries from the rows.
-/

namespace RustSql.Memory

open RustSql.Engine RustSql.Sql RustSql.V2

/-! ## Numbers of rows -/

section Numbers

variable {s t : MemoryStorage} {table : String} {schema : Schema} {row other : Row}
  {rowId : RowId} {fresh : Eff MemoryStorage RowId}

/-- What a resolved row is: as long as the given one, and carrying its number, which is the
fresh one where no column is another name of it. -/
structure Resolved (schema : Schema) (row : Row) (fresh : RowId → Prop)
    (resolved : RowId × Row) : Prop where
  length : resolved.2.length=row.length
  numbered : Numbers schema resolved.1 resolved.2
  fresh : integerPrimaryKeyColumnIndex schema=none → fresh resolved.1

/-- A row that carries a number in the column of the numbers. -/
theorem numbers_of {index : ℕ} {value : Int64}
    (halias : integerPrimaryKeyColumnIndex schema=some index)
    (hrow : row[index]?=some (.integer value)) (hvalue : value.toInt=(rowId : ℤ)) :
    Numbers schema rowId row := by
  intro found hfound
  obtain rfl := Option.some.inj (halias.symm.trans hfound)
  exact ⟨value,hrow,hvalue⟩

theorem resolveRowId_keeps (schema : Schema) (row : Row) {R : MemoryStorage → MemoryStorage → Prop}
    [IsPreorder MemoryStorage R] {Q : RowId → MemoryStorage → Prop}
    (hfresh : Guarantee R s fresh Q) :
    Guarantee R s (MemoryStorage.resolveRowId schema row fresh) fun resolved t =>
      Resolved schema row (fun rowId => Q rowId t) resolved := by
  unfold MemoryStorage.resolveRowId
  cases halias : integerPrimaryKeyColumnIndex schema with
  | none =>
    dsimp only
    refine Guarantee.bind hfresh fun rowId t _ hrowId => Guarantee.ret ⟨rfl,?_,fun _ => hrowId⟩
    intro index hindex
    rw [halias] at hindex
    cases hindex
  | some index =>
    dsimp only
    have hnever : ∀ {P : Prop}, integerPrimaryKeyColumnIndex schema=none → P := by
      intro P hnone
      rw [halias] at hnone
      cases hnone
    cases hfound : row[index]? with
    | none => exact Guarantee.fail _
    | some found =>
      obtain ⟨hbound,-⟩ := List.getElem?_eq_some_iff.mp hfound
      cases found with
      | integer value =>
        by_cases hsign : 0 ≤ value.toInt
        · simp only [hsign,if_true]
          have hvalue : value.toInt=(value.toInt.toNat : ℤ) := (Int.toNat_of_nonneg hsign).symm
          exact Guarantee.ret ⟨rfl,numbers_of halias hfound hvalue,hnever⟩
        · simp only [hsign,if_false]
          exact Guarantee.fail _
      | null =>
        refine Guarantee.bind hfresh fun rowId t _ _ => ?_
        by_cases hsmall : rowId < 2^63
        · simp only [hsmall,if_true]
          have hset : (row.set index (.integer (Int64.ofNat rowId)))[index]?=
              some (.integer (Int64.ofNat rowId)) := by
            rw [List.getElem?_set_self hbound]
          exact Guarantee.ret ⟨List.length_set,
            numbers_of halias hset (Int64.toInt_ofNat_of_lt hsmall),hnever⟩
        · simp only [hsmall,if_false]
          exact Guarantee.fail _
      | boolean _ => exact Guarantee.fail _
      | real _ => exact Guarantee.fail _
      | blob _ => exact Guarantee.fail _
      | text _ => exact Guarantee.fail _

/-- The counter gives a number above the rows that carry none. -/
theorem nextRowId_keeps :
    Guarantee Logged s (MemoryStorage.nextRowId table) fun rowId t =>
      t.tables=s.tables ∧ ∀ schema, (s.stored table).schema=some schema → s.Sound →
        integerPrimaryKeyColumnIndex schema=none →
        (t.stored table).table.rows rowId=none ∧
          ∃ next, (t.stored table).nextRowId=some next ∧ rowId < next := by
  obtain ⟨t,ht,hwrites⟩ := nextRowId_does s table
  have htables : t.tables=s.tables := by
    rw [hwrites.tables]
    exact Function.update_eq_self table s.tables
  have hcounted : ∀ schema, (s.stored table).Counted schema →
      ({ s.stored table with nextRowId := some ((s.stored table).nextRowId.getD 1+1) } :
        Stored).Counted schema := by
    rintro schema ⟨next,hnext,hbelow⟩
    rw [hnext,Option.getD_some]
    refine ⟨next+1,rfl,fun halias rowId row hrow => ?_⟩
    have hlt := hbelow halias rowId row hrow
    omega
  unfold Guarantee
  rw [ht]
  refine ⟨hwrites.logged (fun hs => ⟨(hs table).valid,(hs table).indexed,
    fun schema hschema => hcounted schema ((hs table).counted schema hschema)⟩) fun _ => ?_,?_⟩
  · exact Function.update_eq_self table s.tables
  · rintro rowId hrowId
    obtain rfl := Outcome.ok.inj hrowId
    refine ⟨htables,fun schema hschema hs halias => ?_⟩
    obtain ⟨next,hnext,hbelow⟩ := (hs table).counted schema hschema
    rw [hwrites.self,hnext,Option.getD_some]
    refine ⟨?_,next+1,rfl,Nat.lt_succ_self next⟩
    cases hrow : (s.stored table).table.rows next with
    | none => exact hrow
    | some row =>
      have hlt := hbelow halias next row hrow
      omega

/-- The column of the numbers is the only column of the primary key. -/
theorem primaryKeyPositions_of_alias {index : ℕ}
    (halias : integerPrimaryKeyColumnIndex schema=some index) :
    schema.primaryKeyPositions≠[] ∧ ∀ position∈schema.primaryKeyPositions, position=index := by
  obtain ⟨-,column,hcolumn,hprimary,-,honly⟩ := integerPrimaryKeyColumnIndex_eq_some.mp halias
  unfold Schema.primaryKeyPositions
  constructor
  · intro hnone
    have hfalse := List.findIdxs_eq_nil_iff.mp hnone column (List.mem_of_getElem? hcolumn)
    rw [hprimary] at hfalse
    cases hfalse
  · intro position hposition
    obtain ⟨hbound,hkey⟩ := List.mem_findIdxs_iff_exists_getElem_pos.mp hposition
    exact honly position _ (List.getElem?_eq_getElem hbound) hkey

/-- A row whose primary key is new has a number that no other row has. -/
theorem newNumber_of_primaryKey {expressions : Expressions} {existing : List Row} {index : ℕ}
    (halias : integerPrimaryKeyColumnIndex schema=some index)
    (hkey : schema.validatePrimaryKeyUniqueness expressions row existing=.ok ())
    (hrow : Numbers schema rowId row) (hmem : other∈existing) :
    ¬Numbers schema rowId other := by
  intro hother
  obtain ⟨hpositions,honly⟩ := primaryKeyPositions_of_alias halias
  obtain ⟨value,hvalue,hnumber⟩ := hrow index halias
  obtain ⟨otherValue,hotherValue,hotherNumber⟩ := hother index halias
  have hsame : otherValue=value := Int64.toInt_inj.mp (hotherNumber.trans hnumber.symm)
  have hfound : (existing.any fun old => schema.samePrimaryKey old row)=true := by
    refine List.any_eq_true.mpr ⟨other,hmem,List.all_eq_true.mpr fun position hposition => ?_⟩
    obtain rfl := honly position hposition
    rw [hvalue,hotherValue,hsame]
    exact beq_self_eq_true _
  unfold Schema.validatePrimaryKeyUniqueness at hkey
  rw [if_neg hpositions,if_pos hfound] at hkey
  cases hkey

end Numbers

/-! ## Rows and their keys -/

section Rows

variable {s : MemoryStorage} {table : String} {schema : Schema} {row existing : Row}
  {rowId target : RowId}

/-- A row that has a key without a conflict in every index may stand beside the rows that the
check of the keys looked at. -/
theorem rowFits_of_keys (rowId : RowId) (row : Row) (rows : RowId → Option Row)
    (own : Option RowId) {stored : Stored} (hs : stored.Sound table) (hschema : stored.schema=some schema)
    (hlength : row.length=schema.columns.length) (hnumbers : Numbers schema rowId row)
    (hkeys : ∀ (name : String) (index : IndexState), stored.indexes[name]?=some index →
      ∃ key, projectIndexKey schema index.indexMeta row=.ok key ∧ ¬index.conflicts key own=true)
    (hrows : ∀ other otherRow, rows other=some otherRow →
      stored.table.rows other=some otherRow ∧ own≠some other) :
    RowFits schema rows stored.table.indexes rowId row where
  length := hlength
  numbered := hnumbers
  keyed name index hindex := by
    obtain ⟨state,hstate,rfl⟩ := Option.map_eq_some_iff.mp hindex
    obtain ⟨key,hkey,hfree⟩ := hkeys name state hstate
    refine ⟨key,hkey,fun hunique other otherRow _ hother hotherKey => hfree ?_⟩
    obtain ⟨hold,hown⟩ := hrows other otherRow hother
    have hentry := (hs.indexed schema hschema name state hstate key other).mpr
      ⟨otherRow,hold,hotherKey⟩
    exact conflicts_iff.mpr ⟨hunique,other,hentry,hown⟩

/-- A new row and its keys are put in their places. -/
theorem insertedRow_does (hs : (s.stored table).Sound table)
    (hschema : (s.stored table).schema=some schema)
    (hfits : RowFits schema (s.stored table).table.rows (s.stored table).table.indexes rowId row)
    (hfree : (s.stored table).table.rows rowId=none)
    (hcounter : integerPrimaryKeyColumnIndex schema=none →
      ∃ next, (s.stored table).nextRowId=some next ∧ rowId < next) :
    ∃ new : Stored, new.Sound table ∧
      new.table=(s.stored table).table.setRow rowId (some row) ∧
      Does (do
        MemoryStorage.putRow table rowId row
        MemoryStorage.addRowToIndexes table rowId row) s () table new [] := by
  obtain ⟨hname,hfitting⟩ := Table.valid_of_schema hs.valid hschema
  obtain ⟨t,ht,hput⟩ := putRow_does s table rowId row
  have hself := hput.self
  obtain ⟨indexes,hsame,hlists,hadd⟩ := addRow_does t table
    (s.stored table).table.rows rowId row
    (by rw [hself]; exact hschema) (by rw [hself]; exact hs.indexed schema hschema) hfree
    (by rw [hself]; exact hfits)
  rw [hself] at hsame hadd
  have hvalid : ((s.stored table).table.setRow rowId (some row)).Valid table :=
    Table.valid_some hschema hname (hfitting.setRow hfits)
  refine ⟨_,Stored.sound_inserted hschema hvalid hsame hlists ?_,
    (s.stored table).table_insert hsame rowId row _,Does.after ht hput hadd⟩
  obtain ⟨next,hnext,hbelow⟩ := hs.counted schema hschema
  refine ⟨next,hnext,fun halias other otherRow hother => ?_⟩
  rcases insert_some hother with rfl | hold
  · obtain ⟨found,hfound,hlt⟩ := hcounter halias
    obtain rfl := Option.some.inj (hnext.symm.trans hfound)
    exact hlt
  · exact hbelow halias other otherRow hold

/-- A row and its keys are taken out, and others are put in their places, maybe under another
number. -/
theorem movedRow_does (hs : (s.stored table).Sound table)
    (hschema : (s.stored table).schema=some schema)
    (hrow : (s.stored table).rows[rowId]?=some existing)
    (hfits : RowFits schema (Function.update (s.stored table).table.rows rowId none)
      (s.stored table).table.indexes target row)
    (hfree : Function.update (s.stored table).table.rows rowId none target=none) :
    ∃ new : Stored, new.Sound table ∧
      new.table=((s.stored table).table.setRow rowId none).setRow target (some row) ∧
      Does (do
        MemoryStorage.removeRowFromIndexes table rowId existing
        MemoryStorage.takeRow table rowId
        MemoryStorage.putRow table target row
        MemoryStorage.raiseNextRowId table target
        MemoryStorage.addRowToIndexes table target row) s () table new [] := by
  obtain ⟨hname,hfitting⟩ := Table.valid_of_schema hs.valid hschema
  obtain ⟨fewer,hsame,hlists,t,ht,hremove⟩ := removeRow_does s table
    (s.stored table).table.rows rowId existing
    hschema (hs.indexed schema hschema) hrow
    fun name index hindex => hfitting.keyed name index rowId existing hindex hrow
  obtain ⟨u,hu,htake⟩ := takeRow_does t table rowId
  have hself := htake.self
  rw [hremove.self] at hself
  have herased := Stored.sound_erased hs hschema hsame hlists
  have htable := (s.stored table).table_erase hsame rowId (s.stored table).nextRowId
  have hless : Fitting schema (Function.update (s.stored table).table.rows rowId none)
      (s.stored table).table.indexes :=
    hfitting.mono (fun other otherRow hother => by
      rcases update_of_some hother with ⟨-,hnone⟩ | ⟨-,hold⟩
      · cases hnone
      · exact hold) fun _ _ h => h
  have hvalid : (((s.stored table).table.setRow rowId none).setRow target (some row)).Valid table :=
    Table.valid_some hschema hname (hless.setRow hfits)
  have hinsert := reinsertRow_does u table target row
  rw [hself,htable] at hinsert
  obtain ⟨new,hnew,hnewTable,hdoes⟩ := hinsert herased hfree hvalid
  exact ⟨new,hnew,hnewTable,Does.after ht hremove (Does.after hu htake hdoes)⟩

end Rows

/-! ## The calls -/

section Calls

variable {s : MemoryStorage} {table : String} {schema : Schema} {row existing : Row}
  {rowId : RowId}

/-- A row that is set back brings back its table, and so all tables. -/
theorem setRow_back {tables : Tables} {between : Table} {value : Option Row}
    (h : between.setRow rowId value=tables table) :
    Function.update (Function.update tables table between) table
      ((Function.update tables table between table).setRow rowId value)=tables := by
  rw [Function.update_self,Function.update_idem,h]
  exact Function.update_eq_self table tables

/-- Setting a row and setting it back. -/
theorem setRow_setRow {old : Table} {value : Option Row} (between : Option Row)
    (h : old.rows rowId=value) : (old.setRow rowId between).setRow rowId value=old := by
  refine Table.ext rfl ?_ rfl
  change Function.update (Function.update old.rows rowId between) rowId value=_
  rw [Function.update_idem,← h]
  exact Function.update_eq_self rowId _

/-- The record of an insertion takes the row out again. -/
theorem deleteRow_back {tables : Tables} (hvalid : ∀ name, (tables name).Valid name)
    (hfree : (tables table).rows rowId=none) (row : Row) :
    (UndoOp.deleteRow table rowId).Back
      (Function.update tables table ((tables table).setRow rowId (some row))) tables :=
  ⟨hvalid,fun _ => ⟨trivial,setRow_back (setRow_setRow (some row) hfree)⟩⟩

/-- The record of a deletion puts the row back. -/
theorem reinsertRow_back {tables : Tables} (hvalid : ∀ name, (tables name).Valid name)
    (hrow : (tables table).rows rowId=some row) :
    (UndoOp.reinsertRow table rowId row).Back
      (Function.update tables table ((tables table).setRow rowId none)) tables := by
  refine ⟨hvalid,fun _ => ⟨?_,setRow_back (setRow_setRow none hrow)⟩⟩
  change (Function.update tables table _ table).rows rowId=none
  rw [Function.update_self]
  exact Function.update_self ..

/-- The record of an update puts the old row back, unless the row has moved. -/
theorem restoreRow_back {tables : Tables} {target : RowId}
    (hvalid : ∀ name, (tables name).Valid name)
    (hrow : (tables table).rows rowId=some existing) (row : Row) :
    (UndoOp.restoreRow table rowId existing).Back
      (Function.update tables table
        (((tables table).setRow rowId none).setRow target (some row))) tables := by
  refine ⟨hvalid,fun hplace => ⟨trivial,?_⟩⟩
  have hsame : target=rowId := by
    by_contra hne
    apply hplace
    rw [Function.update_self]
    change Function.update (Function.update (tables table).rows rowId none) target (some row)
      rowId=none
    rw [Function.update_of_ne (Ne.symm hne),Function.update_self]
  subst hsame
  have htwice : ((tables table).setRow target none).setRow target (some row)=
      (tables table).setRow target (some row) :=
    Table.ext rfl (Function.update_idem ..) rfl
  rw [htwice]
  exact setRow_back (setRow_setRow (some row) hrow)

/-- Only counters have changed. -/
def OnlyCounts (s t : MemoryStorage) : Prop :=
  ∃ counters, t={ s with nextRowIds := counters }

instance instPreorderOnlyCounts : IsPreorder MemoryStorage OnlyCounts where
  refl s := ⟨s.nextRowIds,rfl⟩
  trans := by
    rintro s _ _ ⟨counters,rfl⟩ ⟨others,rfl⟩
    exact ⟨others,rfl⟩

theorem nextRowId_counts (s : MemoryStorage) (table : String) :
    Guarantee OnlyCounts s (MemoryStorage.nextRowId table) fun _ _ => True :=
  ⟨⟨_,rfl⟩,fun _ _ => trivial⟩

/-- The checks of a row end with the one of its primary key. -/
theorem validateRow_ok {existing : List Row} (h : s.validateRow schema row existing=.ok ()) :
    schema.validatePrimaryKeyUniqueness s.expressions row existing=.ok () := by
  obtain ⟨_,_,h⟩ := except_bind_ok h
  dsimp only at h
  split at h
  · obtain ⟨_,_,h⟩ := except_bind_ok h
    exact h
  · obtain ⟨_,_,h⟩ := except_bind_ok h
    exact h

/-- A row that passes the check of the primary key finds its key free in the indexes that
stand for the primary key. -/
def InsertFits (storage : MemoryStorage) (table : String) (row : Row) : Prop :=
  ∀ schema resolved after, (storage.stored table).schema=some schema →
    MemoryStorage.resolveRowId schema row (MemoryStorage.nextRowId table) storage=
      (.ok resolved,after) →
    schema.validatePrimaryKeyUniqueness storage.expressions resolved.2
      ((storage.tableRows table).toList.map Prod.snd)=.ok () →
    ∀ (name : String) (index : IndexState), (storage.tableIndexes table)[name]?=some index →
      isPrimaryKeyBackingIndex schema index.indexMeta table=true →
      ∃ key, projectIndexKey schema index.indexMeta resolved.2=.ok key ∧
        ¬index.conflicts key none=true

/-- A row that passed the checks, in the form it is stored in, is put beside the others. -/
theorem resolvedRow_does {resolved : RowId × Row} {t : MemoryStorage} (hs : s.Sound)
    (hschema : (s.stored table).schema=some schema) (hlength : row.length=schema.columns.length)
    (hrun : MemoryStorage.resolveRowId schema row (MemoryStorage.nextRowId table) s=
      (.ok resolved,t))
    (hprimary : schema.validatePrimaryKeyUniqueness s.expressions resolved.2
      ((s.tableRows table).toList.map Prod.snd)=.ok ())
    (hkeyed : ∀ (name : String) (index : IndexState), (s.stored table).indexes[name]?=some index →
      ∃ key, projectIndexKey schema index.indexMeta resolved.2=.ok key ∧
        ¬index.conflicts key none=true) :
    t.Sound ∧ OnlyCounts s t ∧ (s.stored table).table.rows resolved.1=none ∧
      ∃ new : Stored, new.Sound table ∧
        new.table=(s.stored table).table.setRow resolved.1 (some resolved.2) ∧
        Does (do
          MemoryStorage.putRow table resolved.1 resolved.2
          MemoryStorage.addRowToIndexes table resolved.1 resolved.2
          MemoryStorage.recordUndo (.deleteRow table resolved.1)
          pure resolved.1) t resolved.1 table new [.deleteRow table resolved.1] := by
  have hkeeps := resolveRowId_keeps schema row (@nextRowId_keeps s table)
  have hcounts := (resolveRowId_keeps schema row (nextRowId_counts s table)).1
  have hlogged := hkeeps.1
  have hresolved := hkeeps.2 resolved (congrArg Prod.fst hrun)
  rw [hrun] at hcounts hlogged hresolved
  have ht := (hlogged hs).1
  have hcounts' := hcounts
  obtain ⟨counters,rfl⟩ := hcounts
  have hfree : (s.stored table).table.rows resolved.1=none := by
    cases halias : integerPrimaryKeyColumnIndex schema with
    | none => exact ((hresolved.fresh halias).2 schema hschema hs halias).1
    | some index =>
      cases hold : (s.stored table).table.rows resolved.1 with
      | none => rfl
      | some old =>
        have hmem : old∈(s.tableRows table).toList.map Prod.snd :=
          List.mem_map.mpr ⟨(resolved.1,old),
            Std.ExtTreeMap.mem_toList_iff_getElem?_eq_some.mpr hold,rfl⟩
        have hfitting := (Table.valid_of_schema (hs table).valid hschema).2
        exact absurd (hfitting.numbered resolved.1 old hold)
          (newNumber_of_primaryKey halias hprimary hresolved.numbered hmem)
  have hrow : RowFits schema (s.stored table).table.rows (s.stored table).table.indexes
      resolved.1 resolved.2 :=
    rowFits_of_keys _ _ _ none (hs table) hschema (hresolved.length.trans hlength)
      hresolved.numbered hkeyed
      fun other otherRow hother => ⟨hother,(Option.some_ne_none other).symm⟩
  obtain ⟨new,hnew,htable,u,hu,hdoes⟩ := insertedRow_does (ht table) hschema hrow hfree
    fun halias => ((hresolved.fresh halias).2 schema hschema hs halias).2
  have hrecord := recordUndo_does u table (.deleteRow table resolved.1)
  rw [hdoes.self] at hrecord
  obtain ⟨v,hv,hrecord⟩ := hrecord
  have hlast := pure_does v table resolved.1
  rw [hrecord.self] at hlast
  exact ⟨ht,hcounts',hfree,new,hnew,htable,Does.congr (Eff.bind_assoc ..).symm
    (Does.after hu hdoes (Does.after hv hrecord hlast))⟩

theorem insertRow_keeps (tid : TransactionId) (hfits : InsertFits s table row) :
    KeepsLog (MemoryStorage.insertRow tid table row) s := by
  refine keepsLog_validate (keepsLog_schema fun schema hschema => keepsLog_sound fun hs => ?_)
  by_cases hlength : row.length=schema.columns.length
  case neg =>
    rw [if_pos hlength]
    exact Guarantee.fail _
  rw [if_neg (not_not_intro hlength)]
  refine Guarantee.bind (resolveRowId_keeps schema row nextRowId_keeps).returned fun resolved t _ h => ?_
  obtain ⟨hrun,-⟩ := h
  have hcounts : OnlyCounts s t := by
    have h := (resolveRowId_keeps schema row (nextRowId_counts s table)).1
    rw [hrun] at h
    exact h
  refine Guarantee.bind_get (Guarantee.bind_lift fun _ hvalid =>
    Guarantee.bind_lift fun _ hkeys => keepsLog_of fun ht => ?_)
  obtain ⟨counters,rfl⟩ := hcounts
  have hprimary := validateRow_ok hvalid
  have hkeyed : ∀ (name : String) (index : IndexState), (s.stored table).indexes[name]?=some index →
      ∃ key, projectIndexKey schema index.indexMeta resolved.2=.ok key ∧
        ¬index.conflicts key none=true := by
    intro name index hindex
    cases hbacking : isPrimaryKeyBackingIndex schema index.indexMeta table with
    | true => exact hfits schema resolved _ hschema hrun hprimary name index hindex hbacking
    | false => exact validateKeys_ok hkeys hindex (by rw [hbacking]; rfl)
  obtain ⟨-,-,hfree,new,hnew,htable,hdoes⟩ :=
    resolvedRow_does hs hschema hlength hrun hprimary hkeyed
  refine ⟨resolved.1,table,new,_,hdoes,hnew,?_⟩
  rw [htable]
  exact Undoes.single (deleteRow_back (fun name => (ht name).valid) hfree resolved.2)

theorem deleteRow_keeps (tid : TransactionId) :
    KeepsLog (MemoryStorage.deleteRow tid table rowId) s := by
  refine keepsLog_validate (Guarantee.bind_get ?_)
  cases hrow : (s.tableRows table)[rowId]? with
  | none => exact Guarantee.ret trivial
  | some row =>
    refine keepsLog_of fun hs => ?_
    obtain ⟨new,hnew,htable,t,ht,hdoes⟩ := eraseRow_does (hs table) hrow
    have hrecord := recordUndo_does t table (.reinsertRow table rowId row)
    rw [hdoes.self] at hrecord
    refine ⟨(),table,new,_,Does.congr (Eff.bind_assoc ..).symm (Does.after ht hdoes hrecord),
      hnew,?_⟩
    rw [htable]
    exact Undoes.single (reinsertRow_back (fun name => (hs name).valid) hrow)

theorem updateRow_keeps (tid : TransactionId) :
    KeepsLog (MemoryStorage.updateRow tid table rowId row) s := by
  refine keepsLog_validate (keepsLog_schema fun schema hschema => keepsLog_sound fun hs => ?_)
  by_cases hlength : row.length=schema.columns.length
  case neg =>
    rw [if_pos hlength]
    exact Guarantee.fail _
  rw [if_neg (not_not_intro hlength)]
  refine Guarantee.bind_get ?_
  cases hexisting : (s.tableRows table)[rowId]? with
  | none => exact Guarantee.ret trivial
  | some existing =>
    dsimp only
    have hresolve : Guarantee Eq s (MemoryStorage.resolveRowId schema row (pure rowId))
        fun resolved _ => Resolved schema row (fun found => found=rowId) resolved :=
      resolveRowId_keeps schema row (Q := fun found _ => found=rowId) (Guarantee.ret rfl)
    refine Guarantee.bind ((hresolve.mono fun _ t hsame h => And.intro hsame h).weaken
      fun t hsame => hsame▸Logged.refl s) fun target t _ h => ?_
    obtain ⟨rfl,hresolved⟩ := h
    by_cases hsame : existing=target.2 ∧ target.1=rowId
    · rw [if_pos hsame]
      exact Guarantee.ret trivial
    rw [if_neg hsame]
    refine Guarantee.bind_lift fun _ hvalid => Guarantee.bind_lift fun _ hkeys =>
      keepsLog_of fun _ => ?_
    have hfitting := (Table.valid_of_schema (hs table).valid hschema).2
    have hprimary := validateRow_ok hvalid
    have hgone : target.1≠rowId → (s.stored table).table.rows target.1=none := by
      intro hmoved
      cases halias : integerPrimaryKeyColumnIndex schema with
      | none => exact absurd (hresolved.fresh halias) hmoved
      | some index =>
        cases hold : (s.stored table).table.rows target.1 with
        | none => rfl
        | some old =>
          have hmem : old∈((s.tableRows table).toList.filter fun entry =>
              decide (entry.1≠rowId)).map Prod.snd :=
            List.mem_map.mpr ⟨(target.1,old),List.mem_filter.mpr
              ⟨Std.ExtTreeMap.mem_toList_iff_getElem?_eq_some.mpr hold,decide_eq_true hmoved⟩,rfl⟩
          exact absurd (hfitting.numbered target.1 old hold)
            (newNumber_of_primaryKey halias hprimary hresolved.numbered hmem)
    have hfree : Function.update (s.stored table).table.rows rowId none target.1=none := by
      by_cases hmoved : target.1=rowId
      · rw [hmoved]
        exact Function.update_self ..
      · rw [Function.update_of_ne hmoved]
        exact hgone hmoved
    have hduplicate : ¬(target.1≠rowId ∧ ((s.tableRows table)[target.1]?).isSome=true) := by
      rintro ⟨hmoved,hfound⟩
      have hnone : (s.tableRows table)[target.1]?=none := hgone hmoved
      rw [hnone] at hfound
      cases hfound
    have hrow := rowFits_of_keys target.1 target.2
      (Function.update (s.stored table).table.rows rowId none) (some rowId) (hs table) hschema
      (hresolved.length.trans hlength) hresolved.numbered
      (fun name index hindex => validateKeys_ok hkeys hindex rfl) fun other otherRow hother => by
        rcases update_of_some hother with ⟨-,hnone⟩ | ⟨hne,hold⟩
        · cases hnone
        · exact ⟨hold,fun heq => hne (Option.some.inj heq).symm⟩
    obtain ⟨new,hnew,htable,t,ht,hdoes⟩ := movedRow_does (hs table) hschema hexisting hrow hfree
    have hrecord := recordUndo_does t table (.restoreRow table rowId existing)
    rw [hdoes.self] at hrecord
    have hall : Does (_ >>= fun _ => MemoryStorage.recordUndo (.restoreRow table rowId existing))
        s () table new _ := Does.after ht hdoes hrecord
    simp only [Eff.bind_assoc_eq] at hall
    refine ⟨(),table,new,_,Does.congr ?_ hall,hnew,?_⟩
    · rw [if_neg hduplicate]
    · rw [htable]
      exact Undoes.single (restoreRow_back (fun name => (hs name).valid) hexisting target.2)

end Calls

/-! ## Indexes -/

section Indexes

variable {s : MemoryStorage} {table name : String} {schema : Schema} {stored : Stored}
  {state : IndexState}

/-- An index that is set back brings back its table, and so all tables. -/
theorem setIndex_back {tables : Tables} {value : Option IndexMeta} (between : Option IndexMeta)
    (h : (tables table).indexes name=value) :
    Function.update (Function.update tables table ((tables table).setIndex name between)) table
      ((Function.update tables table ((tables table).setIndex name between) table).setIndex
        name value)=tables := by
  have hback : ((tables table).setIndex name between).setIndex name value=tables table := by
    refine Table.ext rfl rfl ?_
    change Function.update (Function.update (tables table).indexes name between) name value=_
    rw [Function.update_idem,← h]
    exact Function.update_eq_self name _
  rw [Function.update_self,Function.update_idem,hback]
  exact Function.update_eq_self table tables

/-- A table with one more index, whose entries are those of the rows and without two rows of
one key where keys are unique. -/
theorem newIndex_sound (hs : stored.Sound table) (hschema : stored.schema=some schema)
    {entries : Finset (List Value × RowId)} {index : IndexMeta}
    (hentries : newEntries schema index stored.rows.toList ∅=.ok entries) :
    ({ stored with indexes := stored.indexes.insert index.name ⟨index,entries⟩ } : Stored).Sound
      table := by
  obtain ⟨hname,hfitting⟩ := Table.valid_of_schema hs.valid hschema
  obtain ⟨hkeys,hmem,hunique⟩ := newEntries_ok hentries
  have hlists : (IndexState.mk index entries).Lists schema stored.table.rows := by
    intro key rowId
    have h := hmem key rowId
    simp only [Finset.notMem_empty,false_or,Std.ExtTreeMap.mem_toList_iff_getElem?_eq_some] at h
    exact h
  have htable : ({ stored with
      indexes := stored.indexes.insert index.name ⟨index,entries⟩ } : Stored).table=
      stored.table.setIndex index.name (some index) :=
    Table.ext rfl rfl (insert_indexes stored.indexes index.name ⟨index,entries⟩)
  refine Stored.sound_of_table htable (Table.valid_some hschema hname ?_) (fun other h => ?_)
    fun other h => hs.counted other h
  · refine ⟨hfitting.length,hfitting.numbered,?_,?_⟩
    · intro found other rowId row hother hrow
      rcases update_of_some hother with ⟨-,heq⟩ | ⟨-,hold⟩
      · obtain rfl := Option.some.inj heq
        exact hkeys (rowId,row) (Std.ExtTreeMap.mem_toList_iff_getElem?_eq_some.mpr hrow)
      · exact hfitting.keyed found other rowId row hold hrow
    · intro found other hother
      rcases update_of_some hother with ⟨-,heq⟩ | ⟨-,hold⟩
      · obtain rfl := Option.some.inj heq
        intro rowId row otherId otherRow key hrow hotherRow hkey hotherKey henforces
        refine hunique (fun _ _ _ hnone => absurd hnone (Finset.notMem_empty _)) key rowId otherId
          ((hlists key rowId).mpr ⟨row,hrow,hkey⟩) ?_ henforces
        exact (hlists key otherId).mpr ⟨otherRow,hotherRow,hotherKey⟩
      · exact hfitting.unique found other hold
  · intro found other hother
    obtain rfl := Option.some.inj (hschema.symm.trans h)
    change (stored.indexes.insert index.name ⟨index,entries⟩)[found]?=some other at hother
    rw [Std.ExtTreeMap.getElem?_insert] at hother
    split at hother
    · obtain rfl := Option.some.inj hother
      exact hlists
    · exact hs.indexed schema hschema found other hother

theorem createIndex_keeps (tid : TransactionId) (index : IndexMeta) :
    KeepsLog (MemoryStorage.createIndex tid table index) s := by
  refine keepsLog_validate (keepsLog_schema fun schema hschema => Guarantee.bind_get ?_)
  cases hfound : (s.tableIndexes table)[index.name]? with
  | some other =>
    simp only [Option.isSome_some,if_true]
    exact Guarantee.fail _
  | none =>
    simp only [Option.isSome_none,Bool.false_eq_true,if_false]
    by_cases hcolumns : index.columns=[]
    · rw [if_pos hcolumns]
      exact Guarantee.fail _
    rw [if_neg hcolumns]
    refine Guarantee.bind_lift fun entries hentries => keepsLog_of fun hs => ?_
    obtain ⟨t,ht,hrecord⟩ := recordUndo_does s table
      (.dropIndex table index.name)
    have hput := putIndexes_does t table
      fun indexes => indexes.insert index.name ⟨index,entries⟩
    rw [hrecord.self] at hput
    refine ⟨(),table,_,_,Does.after ht hrecord hput,newIndex_sound (hs table) hschema hentries,?_⟩
    have htable : ({ s.stored table with
        indexes := (s.stored table).indexes.insert index.name ⟨index,entries⟩ } : Stored).table=
        (s.tables table).setIndex index.name (some index) :=
      Table.ext rfl rfl (insert_indexes (s.stored table).indexes index.name ⟨index,entries⟩)
    have hnone : (s.tables table).indexes index.name=none :=
      Option.map_eq_none_iff.mpr hfound
    rw [htable]
    exact Undoes.single ⟨fun name => (hs name).valid,
      fun _ => ⟨trivial,setIndex_back (some index) hnone⟩⟩

theorem dropIndex_keeps (tid : TransactionId) :
    KeepsLog (MemoryStorage.dropIndex tid table name) s := by
  refine keepsLog_validate (Guarantee.bind_get ?_)
  cases hfound : (s.tableIndexes table)[name]? with
  | none => exact Guarantee.fail _
  | some removed =>
    refine keepsLog_of fun hs => ?_
    have hindex : (s.tables table).indexes name=some removed.indexMeta :=
      Option.map_eq_some_iff.mpr ⟨removed,hfound,rfl⟩
    obtain ⟨schema,hschema⟩ := Table.schema_of_index (hs table).valid hindex
    obtain ⟨hname,hfitting⟩ := Table.valid_of_schema (hs table).valid hschema
    have hlists := (hs table).indexed schema hschema
    obtain ⟨t,ht,hput⟩ := putIndexes_does s table
      fun indexes => indexes.erase name
    have hrecord := recordUndo_does t table (.restoreIndex table name removed)
    rw [hput.self] at hrecord
    have htable : ({ s.stored table with
        indexes := (s.stored table).indexes.erase name } : Stored).table=
        (s.tables table).setIndex name none :=
      Table.ext rfl rfl (erase_indexes (s.stored table).indexes name)
    refine ⟨(),table,_,_,Does.after ht hput hrecord,?_,?_⟩
    · refine Stored.sound_of_table htable (Table.valid_some hschema hname ?_) (fun other h => ?_)
        fun other h => (hs table).counted other h
      · refine hfitting.mono (fun _ _ h => h) fun found other hother => ?_
        rcases update_of_some hother with ⟨-,hnone⟩ | ⟨-,hold⟩
        · cases hnone
        · exact hold
      · intro found other hother
        obtain rfl := Option.some.inj (hschema.symm.trans h)
        change ((s.stored table).indexes.erase name)[found]?=some other at hother
        rw [Std.ExtTreeMap.getElem?_erase] at hother
        split at hother
        · cases hother
        · exact hlists found other hother
    · rw [htable]
      refine Undoes.single ⟨fun name => (hs name).valid,
        fun _ => ⟨⟨schema,?_,?_⟩,setIndex_back none hindex⟩⟩
      · rw [Function.update_self]
        exact hschema
      · rw [Function.update_self]
        exact hlists name removed hfound

end Indexes

end RustSql.Memory
