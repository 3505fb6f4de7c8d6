import Mathlib.Logic.Function.Basic
import RustSql.Base.UndoLog
import RustSql.Memory.Storage

/-!
# What the storage in memory holds

All the storage keeps under a table's name, and the table it stands for: a schema, rows
under their numbers and indexes by what they are defined on. The entries of an index are
no part of that, because they follow from the rows; the storage is sound when they do.
-/

namespace RustSql.Memory

open RustSql.Engine RustSql.Sql RustSql.V2

/-! ## Rows and keys -/

/-- A row carries its number in the column that is another name of it. -/
def Numbers (schema : Schema) (rowId : RowId) (row : Row) : Prop :=
  ∀ index, integerPrimaryKeyColumnIndex schema=some index →
    ∃ value : Int64, row[index]?=some (.integer value) ∧ value.toInt=(rowId : ℤ)

/-- Two rows of one null-free key are one row. -/
def UniqueKeys (schema : Schema) (index : IndexMeta) (rows : RowId → Option Row) : Prop :=
  ∀ rowId row other otherRow key, rows rowId=some row → rows other=some otherRow →
    projectIndexKey schema index row=.ok key → projectIndexKey schema index otherRow=.ok key →
      index.enforcesUniqueKey key → rowId=other

/-- The rows of a table fit its schema and its indexes. -/
structure Fitting (schema : Schema) (rows : RowId → Option Row)
    (indexes : String → Option IndexMeta) : Prop where
  length : ∀ rowId row, rows rowId=some row → row.length=schema.columns.length
  numbered : ∀ rowId row, rows rowId=some row → Numbers schema rowId row
  keyed : ∀ name index rowId row, indexes name=some index → rows rowId=some row →
    ∃ key, projectIndexKey schema index row=.ok key
  unique : ∀ name index, indexes name=some index → UniqueKeys schema index rows

/-- The entries of an index are the keys of some rows with the rows' numbers. -/
def IndexState.Lists (schema : Schema) (rows : RowId → Option Row) (index : IndexState) : Prop :=
  ∀ key rowId, (key,rowId)∈index.entries ↔
    ∃ row, rows rowId=some row ∧ projectIndexKey schema index.indexMeta row=.ok key

/-- The indexes of a table are those of some rows. -/
def IndexesOf (schema : Schema) (rows : RowId → Option Row) (indexes : IndexMap) : Prop :=
  ∀ (name : String) (index : IndexState), indexes[name]?=some index → index.Lists schema rows

/-- A table: what it comes to, whatever the entries of its indexes are. -/
@[ext] structure Table where
  schema : Option Schema
  rows : RowId → Option Row
  indexes : String → Option IndexMeta

/-- No table. -/
def Table.none : Table := ⟨Option.none,fun _ => Option.none,fun _ => Option.none⟩

/-- The table after the row of a number was put, replaced or removed. -/
def Table.setRow (table : Table) (rowId : RowId) (row : Option Row) : Table :=
  { table with rows := Function.update table.rows rowId row }

/-- The table after the definition of an index was put or removed. -/
def Table.setIndex (table : Table) (name : String) (index : Option IndexMeta) : Table :=
  { table with indexes := Function.update table.indexes name index }

/-- What stands under a name is a table of that name, or nothing. -/
def Table.Valid (name : String) (table : Table) : Prop :=
  match table.schema with
  | some schema => schema.name=name ∧ Fitting schema table.rows table.indexes
  | Option.none => table=Table.none

/-- All that the storage keeps under a table's name. -/
structure Stored where
  schema : Option Schema
  rows : RowMap
  indexes : IndexMap
  nextRowId : Option ℕ

/-- The table it stands for. -/
def Stored.table (stored : Stored) : Table where
  schema := stored.schema
  rows rowId := stored.rows[rowId]?
  indexes name := stored.indexes[name]?.map IndexState.indexMeta

/-- Without a column that is another name of it, a row's number is below the counter. -/
def Stored.Counted (stored : Stored) (schema : Schema) : Prop :=
  ∃ next, stored.nextRowId=some next ∧ (integerPrimaryKeyColumnIndex schema=Option.none →
    ∀ rowId row, stored.rows[rowId]?=some row → rowId < next)

/-- The indexes are those of the rows. -/
def Stored.Indexed (stored : Stored) (schema : Schema) : Prop :=
  IndexesOf schema stored.table.rows stored.indexes

/-- What stands under a name is in order. -/
structure Stored.Sound (name : String) (stored : Stored) : Prop where
  valid : stored.table.Valid name
  indexed : ∀ schema, stored.schema=some schema → stored.Indexed schema
  counted : ∀ schema, stored.schema=some schema → stored.Counted schema

/-! ## The storage -/

/-- What the storage keeps under a name. -/
def MemoryStorage.stored (storage : MemoryStorage) (table : String) : Stored :=
  ⟨storage.schemas[table]?,storage.tableRows table,storage.tableIndexes table,
    storage.nextRowIds[table]?⟩

/-- The tables of the storage. -/
def MemoryStorage.tables (storage : MemoryStorage) (table : String) : Table :=
  (storage.stored table).table

/-- Everything the storage keeps is in order. -/
def MemoryStorage.Sound (storage : MemoryStorage) : Prop :=
  ∀ table, (storage.stored table).Sound table

/-- The schemas, the rows with their numbers and the indexes with their entries. -/
@[ext] structure Content where
  schemas : String → Option Schema
  rows : String → RowMap
  indexes : String → IndexMap

/-- The content of the storage. -/
def MemoryStorage.content (storage : MemoryStorage) : Content where
  schemas table := storage.schemas[table]?
  rows := storage.tableRows
  indexes := storage.tableIndexes

/-! ## Facts about tables -/

variable {name : String} {table : Table} {schema : Schema} {rowId : RowId} {row : Row}
    {rows : RowId → Option Row} {indexes : String → Option IndexMeta}

theorem Table.valid_of_schema (h : table.Valid name) (hschema : table.schema=some schema) :
    schema.name=name ∧ Fitting schema table.rows table.indexes := by
  unfold Table.Valid at h
  rw [hschema] at h
  exact h

theorem Table.valid_some (hschema : table.schema=some schema) (hname : schema.name=name)
    (hfitting : Fitting schema table.rows table.indexes) : table.Valid name := by
  unfold Table.Valid
  rw [hschema]
  exact ⟨hname,hfitting⟩

theorem Table.valid_none (name : String) : Table.none.Valid name := rfl

theorem Table.eq_none (h : table.Valid name)
    (hschema : table.schema=Option.none) : table=Table.none := by
  unfold Table.Valid at h
  rw [hschema] at h
  exact h

/-- Where there is a row there is a schema. -/
theorem Table.schema_of_row (h : table.Valid name) (hrow : table.rows rowId=some row) :
    ∃ schema, table.schema=some schema := by
  cases hschema : table.schema with
  | some schema => exact ⟨schema,rfl⟩
  | none =>
    rw [Table.eq_none h hschema] at hrow
    cases hrow

/-- Where there is an index there is a schema. -/
theorem Table.schema_of_index {name indexName : String} {index : IndexMeta}
    (h : table.Valid name) (hindex : table.indexes indexName=some index) :
    ∃ schema, table.schema=some schema := by
  cases hschema : table.schema with
  | some schema => exact ⟨schema,rfl⟩
  | none =>
    rw [Table.eq_none h hschema] at hindex
    cases hindex

/-- Fewer rows and fewer indexes fit. -/
theorem Fitting.mono {rows fewer : RowId → Option Row}
    {indexes others : String → Option IndexMeta} (h : Fitting schema rows indexes)
    (hrows : ∀ rowId row, fewer rowId=some row → rows rowId=some row)
    (hindexes : ∀ name index, others name=some index → indexes name=some index) :
    Fitting schema fewer others where
  length rowId row hrow := h.length rowId row (hrows rowId row hrow)
  numbered rowId row hrow := h.numbered rowId row (hrows rowId row hrow)
  keyed name index rowId row hindex hrow :=
    h.keyed name index rowId row (hindexes name index hindex) (hrows rowId row hrow)
  unique name index hindex rowId row other otherRow key hrow hother :=
    h.unique name index (hindexes name index hindex) rowId row other otherRow key
      (hrows rowId row hrow) (hrows other otherRow hother)

/-- A row that may stand under a number beside other rows. -/
structure RowFits (schema : Schema) (rows : RowId → Option Row)
    (indexes : String → Option IndexMeta) (rowId : RowId) (row : Row) : Prop where
  length : row.length=schema.columns.length
  numbered : Numbers schema rowId row
  keyed : ∀ name index, indexes name=some index → ∃ key,
    projectIndexKey schema index row=.ok key ∧ (index.enforcesUniqueKey key →
      ∀ other otherRow, other≠rowId → rows other=some otherRow →
        projectIndexKey schema index otherRow≠.ok key)

/-- What an updated map holds was put there or stood there. -/
theorem update_of_some {K V : Type} [DecidableEq K] {entries : K → Option V} {key other : K}
    {found : V} {value : Option V} (h : Function.update entries key value other=some found) :
    (other=key ∧ value=some found) ∨ (other≠key ∧ entries other=some found) := by
  by_cases hsame : other=key
  · subst hsame
    rw [Function.update_self] at h
    exact Or.inl ⟨rfl,h⟩
  · rw [Function.update_of_ne hsame] at h
    exact Or.inr ⟨hsame,h⟩

/-- Rows fit with one more row that fits beside them. -/
theorem Fitting.setRow
    (h : Fitting schema rows indexes) (hrow : RowFits schema rows indexes rowId row) :
    Fitting schema (Function.update rows rowId (some row)) indexes where
  length other otherRow hother := by
    rcases update_of_some hother with ⟨rfl,hvalue⟩ | ⟨hne,hold⟩
    · obtain rfl := Option.some.inj hvalue
      exact hrow.length
    · exact h.length other otherRow hold
  numbered other otherRow hother := by
    rcases update_of_some hother with ⟨rfl,hvalue⟩ | ⟨hne,hold⟩
    · obtain rfl := Option.some.inj hvalue
      exact hrow.numbered
    · exact h.numbered other otherRow hold
  keyed name index other otherRow hindex hother := by
    rcases update_of_some hother with ⟨rfl,hvalue⟩ | ⟨hne,hold⟩
    · obtain rfl := Option.some.inj hvalue
      obtain ⟨key,hkey,-⟩ := hrow.keyed name index hindex
      exact ⟨key,hkey⟩
    · exact h.keyed name index other otherRow hindex hold
  unique name index hindex first firstRow second secondRow key hfirst hsecond hkey hkey'
      hunique := by
    have hfresh : ∀ other otherRow, projectIndexKey schema index row=.ok key →
        other≠rowId → rows other=some otherRow →
        projectIndexKey schema index otherRow≠.ok key := by
      intro other otherRow hrowKey hne hold
      obtain ⟨found,hfound,hnone⟩ := hrow.keyed name index hindex
      obtain rfl := Except.ok.inj (hrowKey.symm.trans hfound)
      exact hnone hunique other otherRow hne hold
    rcases update_of_some hfirst with ⟨rfl,hvalue⟩ | ⟨hne,hold⟩
    · obtain rfl := Option.some.inj hvalue
      rcases update_of_some hsecond with ⟨rfl,-⟩ | ⟨hne',hold'⟩
      · rfl
      · exact absurd hkey' (hfresh second secondRow hkey hne' hold')
    · rcases update_of_some hsecond with ⟨rfl,hvalue⟩ | ⟨hne',hold'⟩
      · obtain rfl := Option.some.inj hvalue
        exact absurd hkey (hfresh first firstRow hkey' hne hold)
      · exact h.unique name index hindex first firstRow second secondRow key hold hold' hkey hkey'
          hunique

/-- A row among rows that fit may stand where it does. -/
theorem Fitting.rowFits (h : Fitting schema (Function.update rows rowId (some row)) indexes) :
    RowFits schema rows indexes rowId row where
  length := h.length rowId row (Function.update_self ..)
  numbered := h.numbered rowId row (Function.update_self ..)
  keyed name index hindex := by
    have hself : Function.update rows rowId (some row) rowId=some row := Function.update_self ..
    obtain ⟨key,hkey⟩ := h.keyed name index rowId row hindex hself
    refine ⟨key,hkey,fun hunique other otherRow hne hother hotherKey => hne ?_⟩
    have hothers : Function.update rows rowId (some row) other=some otherRow := by
      rw [Function.update_of_ne hne]
      exact hother
    exact h.unique name index hindex other otherRow rowId row key hothers hself hotherKey hkey
      hunique

/-- A row fits beside the others whatever stands under its own number. -/
theorem RowFits.setRow (h : RowFits schema rows indexes rowId row) (value : Option Row) :
    RowFits schema (Function.update rows rowId value) indexes rowId row where
  length := h.length
  numbered := h.numbered
  keyed name index hindex := by
    obtain ⟨key,hkey,hnone⟩ := h.keyed name index hindex
    refine ⟨key,hkey,fun hunique other otherRow hne hother => ?_⟩
    rw [Function.update_of_ne hne] at hother
    exact hnone hunique other otherRow hne hother

/-! ## Content -/

/-- Sound storages with the same tables have the same content. -/
theorem content_of_tables {s t : MemoryStorage} (hs : s.Sound) (ht : t.Sound)
    (h : s.tables=t.tables) : s.content=t.content := by
  have hschema : ∀ table, s.schemas[table]?=t.schemas[table]? := fun table =>
    congrArg Table.schema (congrFun h table)
  have hrows : ∀ table rowId, (s.tableRows table)[rowId]?=(t.tableRows table)[rowId]? :=
    fun table rowId => congrFun (congrArg Table.rows (congrFun h table)) rowId
  have hindexes : ∀ table name, (s.tableIndexes table)[name]?.map IndexState.indexMeta=
      (t.tableIndexes table)[name]?.map IndexState.indexMeta :=
    fun table name => congrFun (congrArg Table.indexes (congrFun h table)) name
  refine Content.ext (funext hschema) (funext fun table =>
    Std.ExtTreeMap.ext_getElem? (hrows table)) (funext fun table =>
      Std.ExtTreeMap.ext_getElem? fun name => ?_)
  change (s.tableIndexes table)[name]?=(t.tableIndexes table)[name]?
  have hmeta := hindexes table name
  cases hleft : (s.tableIndexes table)[name]? with
  | none =>
    rw [hleft] at hmeta
    exact (Option.map_eq_none_iff.mp hmeta.symm).symm
  | some left =>
    rw [hleft] at hmeta
    obtain ⟨right,hright,hsame⟩ := Option.map_eq_some_iff.mp hmeta.symm
    rw [hright]
    have hindex : (s.stored table).table.indexes name=some left.indexMeta := by
      change (s.tableIndexes table)[name]?.map IndexState.indexMeta=_
      rw [hleft]
      rfl
    obtain ⟨schema,hfound⟩ := Table.schema_of_index (hs table).valid hindex
    have hlists := (hs table).indexed schema hfound name left hleft
    have hlists' := (ht table).indexed schema ((hschema table).symm.trans hfound) name right hright
    have hentries : left.entries=right.entries := by
      ext ⟨key,rowId⟩
      have hrow : (s.stored table).table.rows=(t.stored table).table.rows :=
        congrArg Table.rows (congrFun h table)
      rw [hlists key rowId,hlists' key rowId,hrow,hsame]
    cases left with
    | mk leftMeta leftEntries =>
      cases right with
      | mk rightMeta rightEntries =>
        obtain rfl : rightMeta=leftMeta := hsame
        obtain rfl : leftEntries=rightEntries := hentries
        rfl

/-- A new storage is sound. -/
theorem new_sound (expressions : Expressions) (names : ExpressionNames) :
    (MemoryStorage.new expressions names).Sound := by
  intro table
  have hschema : ((MemoryStorage.new expressions names).stored table).schema=none :=
    Std.ExtTreeMap.getElem?_empty
  have htable : ((MemoryStorage.new expressions names).stored table).table=Table.none := by
    apply Table.ext
    · exact hschema
    · funext rowId
      change ((∅ : Std.ExtTreeMap String RowMap)[table]?.getD ∅)[rowId]?=none
      rw [Std.ExtTreeMap.getElem?_empty]
      exact Std.ExtTreeMap.getElem?_empty
    · funext name
      change ((∅ : Std.ExtTreeMap String IndexMap)[table]?.getD ∅)[name]?.map
        IndexState.indexMeta=none
      rw [Std.ExtTreeMap.getElem?_empty,Option.getD_none,Std.ExtTreeMap.getElem?_empty]
      rfl
  refine ⟨?_,fun schema h => ?_,fun schema h => ?_⟩
  · rw [htable]
    exact Table.valid_none table
  · rw [hschema] at h
    cases h
  · rw [hschema] at h
    cases h

end RustSql.Memory
