import Mathlib.Data.List.GetD
import Mathlib.Data.List.Nodup
import Mathlib.Data.List.Perm.Subperm
import RustSql.Base.Fallible
import RustSql.Sqlite3.Writer

/-!
# The column order of WITHOUT ROWID records

A record of a `WITHOUT ROWID` table begins with the columns of the primary key. The writer takes
the values of a row in that order and the reader puts them back, each by the column's name: a
column that the key names twice makes the record too long, and of two columns with one name only
the first is found.
-/

namespace RustSql.Sqlite3

/-- The value of a row at a column, by its name. -/
def storedValue (schema : Table) (row : Row) (column : String) : Except DbError Value := do
  let position ← schema.columnIndex column
  columnValue schema row column position

/-- The values that `encode_without_rowid_table_payload` stores. -/
def withoutRowidValues (schema : Table) (row : Row) : Except DbError (List Value) :=
  match schema.primaryKeyConstraint with
  | none => .error (.storage
      s!"WITHOUT ROWID table {schema.name} is missing PRIMARY KEY metadata")
  | some primaryKey => do
    let key ← primaryKey.mapM (storedValue schema row)
    let rest ← ((schema.columns.map Column.name).filter fun column => column∉primaryKey).mapM
      (storedValue schema row)
    .ok (key++rest)

/-- `encode_without_rowid_table_payload`. -/
def encodeWithoutRowidTablePayload (schema : Table) (row : Row) : Except DbError Bytes := do
  let values ← withoutRowidValues schema row
  encodeRecord values

/-- A table with a primary key that `mark_primary_key_columns` has accepted: it names columns of
the table. -/
structure KeyedTable where
  schema : Table
  primaryKey : List String
  declared : schema.primaryKeyConstraint=some primaryKey
  known : ∀ column∈primaryKey, column∈schema.columns.map Column.name

/-- The reader gives back the row whose values the writer stores. -/
def Restores (schema : Table) (row : Row) : Prop :=
  ∃ values, withoutRowidValues schema row=.ok values ∧
    reorderWithoutRowidRecord schema values=.ok row

namespace Table

variable (schema : Table)

/-- The names of the columns. -/
def names : List String := schema.columns.map Column.name

/-- The place of a name: that of the first column with it. -/
def place (column : String) : ℕ := schema.names.idxOf column

theorem columnIndex_place {column : String} (h : column∈schema.names) :
    schema.columnIndex column=.ok (schema.place column) := by
  have hfind : schema.columns.findIdx? (fun entry => entry.name=column)=
      some (schema.place column) := by
    rw [List.findIdx?_eq_some_iff_findIdx_eq]
    have hplace : schema.columns.findIdx (fun entry => entry.name=column)=schema.place column := by
      rw [place,names,List.idxOf,List.findIdx_map]
      rfl
    refine ⟨?_,hplace⟩
    rw [place,←List.length_map Column.name]
    exact List.idxOf_lt_length_of_mem h
  rw [columnIndex,hfind]

theorem place_lt {column : String} (h : column∈schema.names) :
    schema.place column < schema.columns.length := by
  have hlt := List.idxOf_lt_length_of_mem h
  rwa [names,List.length_map] at hlt

end Table

section Values

variable {schema : Table} {row : Row}

/-- The value stored for a name is that at its place. -/
theorem storedValue_place (hrow : row.length=schema.columns.length) {column : String}
    (h : column∈schema.names) :
    storedValue schema row column=.ok (row.getD (schema.place column) .null) := by
  have hplace := schema.place_lt h
  have hlt : schema.place column < row.length := by omega
  rw [storedValue,schema.columnIndex_place h]
  change columnValue schema row column (schema.place column)=_
  rw [columnValue,List.getElem?_eq_getElem hlt,List.getD_eq_getElem _ _ hlt]

theorem storedValues_places (hrow : row.length=schema.columns.length) {order : List String}
    (h : ∀ column∈order, column∈schema.names) :
    order.mapM (storedValue schema row)=
      .ok (order.map fun column => row.getD (schema.place column) .null) := by
  induction order with
  | nil => rfl
  | cons column order ih =>
    rw [List.mapM_cons,storedValue_place hrow (h column List.mem_cons_self),
      ih fun other hother => h other (List.mem_cons_of_mem _ hother)]
    rfl

/-- Values are put into their places, one after the other. -/
theorem placeValues_places {order : List String} (h : ∀ column∈order, column∈schema.names)
    (target : Row) : placeValues schema
        ((order.map fun column => row.getD (schema.place column) .null).zip order) target=
      .ok (order.foldl (fun target column =>
        target.set (schema.place column) (row.getD (schema.place column) .null)) target) := by
  induction order generalizing target with
  | nil => rfl
  | cons column order ih =>
    rw [List.map_cons,List.zip_cons_cons,placeValues,
      schema.columnIndex_place (h column List.mem_cons_self)]
    exact ih (fun other hother => h other (List.mem_cons_of_mem _ hother)) _

/-- After the values of some places are set, those places have the values of the row. -/
theorem set_places (source : Row) (places : List ℕ) (target : Row) (index : ℕ) :
    (places.foldl (fun target place => target.set place (source.getD place .null))
        target)[index]?=
      if index∈places ∧ index < target.length then some (source.getD index .null)
      else target[index]? := by
  induction places generalizing target with
  | nil => simp
  | cons place places ih =>
    rw [List.foldl_cons,ih,List.length_set]
    by_cases hrest : index∈places ∧ index < target.length
    · rw [if_pos hrest,if_pos ⟨List.mem_cons_of_mem _ hrest.1,hrest.2⟩]
    · rw [if_neg hrest,List.getElem?_set]
      by_cases hsame : place=index
      · subst hsame
        by_cases hlt : place < target.length
        · rw [if_pos rfl,if_pos hlt,if_pos ⟨List.mem_cons_self,hlt⟩]
        · rw [if_pos rfl,if_neg hlt,if_neg fun h => hlt h.2,List.getElem?_eq_none (by omega)]
      · have hiff : (index∈place :: places ∧ index < target.length) ↔
            index∈places ∧ index < target.length := by
          rw [List.mem_cons]
          constructor
          · rintro ⟨heq | hmem,hlt⟩
            · exact (hsame heq.symm).elim
            · exact ⟨hmem,hlt⟩
          · rintro ⟨hmem,hlt⟩
            exact ⟨Or.inr hmem,hlt⟩
        rw [if_neg hsame,if_neg fun h => hrest (hiff.mp h)]

end Values

/-! ## The reader behind the writer -/

/-- An earlier column has the name of a column. -/
def Table.Shadowed (schema : Table) (index : ℕ) : Prop :=
  ∃ earlier, earlier < index ∧ schema.names[earlier]?=schema.names[index]?

/-- The columns that names find are those without an earlier one of the name. -/
theorem Table.place_iff {schema : Table} {index : ℕ} (h : index < schema.names.length) :
    (∃ column∈schema.names, schema.place column=index) ↔ ¬schema.Shadowed index := by
  constructor
  · rintro ⟨column,hcolumn,rfl⟩ ⟨earlier,hearlier,hsame⟩
    have hlt : earlier < schema.names.length := by omega
    have hother : (schema.names.get ⟨earlier,hlt⟩==column)=false :=
      List.not_of_lt_findIdx hearlier
    have hfound : schema.names[schema.place column]?=some column := List.getElem?_idxOf hcolumn
    rw [hfound,List.getElem?_eq_getElem hlt] at hsame
    exact (beq_eq_false_iff_ne.mp hother) (Option.some.inj hsame)
  · intro hfirst
    refine ⟨schema.names.get ⟨index,h⟩,List.get_mem _ _,?_⟩
    have hle : schema.place (schema.names.get ⟨index,h⟩) ≤ index := by
      by_contra hlt
      have hother := List.not_of_lt_findIdx (Nat.lt_of_not_le hlt)
      exact (beq_eq_false_iff_ne.mp hother) rfl
    by_contra hne
    refine hfirst ⟨schema.place (schema.names.get ⟨index,h⟩),by omega,?_⟩
    rw [Table.place,List.getElem?_idxOf (List.get_mem _ _),List.getElem?_eq_getElem h]
    rfl

variable (table : KeyedTable)

/-- The order of the records has every name, and no other. -/
theorem KeyedTable.mem_recordOrder {column : String} :
    column∈table.schema.recordOrder table.primaryKey ↔ column∈table.schema.names := by
  rw [Table.recordOrder,List.mem_append,List.mem_filter,decide_eq_true_eq]
  constructor
  · rintro (hkey | hrest)
    · exact table.known column hkey
    · exact hrest.1
  · intro hname
    by_cases hkey : column∈table.primaryKey
    · exact Or.inl hkey
    · exact Or.inr ⟨hname,hkey⟩

/-- The columns that the primary key names. -/
def KeyedTable.keyColumns : List String :=
  table.schema.names.filter fun column => column∈table.primaryKey

theorem KeyedTable.length_recordOrder :
    (table.schema.recordOrder table.primaryKey).length+table.keyColumns.length=
      table.primaryKey.length+table.schema.columns.length := by
  have hsplit := List.length_eq_length_filter_add (l := table.schema.names)
    fun column => decide (column∈table.primaryKey)
  have hnames : table.schema.names.length=table.schema.columns.length := List.length_map _
  have hrest : (table.schema.names.filter fun column => !decide (column∈table.primaryKey))=
      table.schema.names.filter fun column => decide (column∉table.primaryKey) := by
    refine List.filter_congr fun column _ => ?_
    simp
  rw [hrest] at hsplit
  rw [Table.recordOrder,List.length_append,KeyedTable.keyColumns]
  change table.primaryKey.length+(table.schema.names.filter fun column =>
    decide (column∉table.primaryKey)).length+_=_
  omega

variable {row : Row}

/-- The values the writer stores are those of the columns in the order of the record. -/
theorem KeyedTable.withoutRowidValues_eq (hrow : row.length=table.schema.columns.length) :
    withoutRowidValues table.schema row=
      .ok ((table.schema.recordOrder table.primaryKey).map fun column =>
        row.getD (table.schema.place column) .null) := by
  have hkey := storedValues_places hrow table.known
  have hrest := @storedValues_places table.schema row hrow
    (table.schema.names.filter fun column => column∉table.primaryKey)
    fun column hcolumn => (List.mem_filter.mp hcolumn).1
  rw [withoutRowidValues,table.declared]
  change (do
    let key ← table.primaryKey.mapM (storedValue table.schema row)
    let rest ← (table.schema.names.filter fun column => column∉table.primaryKey).mapM
      (storedValue table.schema row)
    .ok (key++rest) : Except DbError (List Value))=_
  rw [hkey,hrest,Table.recordOrder,List.map_append]
  rfl

/-- What the reader makes of the stored values, when there is one for every column. -/
theorem KeyedTable.reorder_eq
    (hlength : (table.schema.recordOrder table.primaryKey).length=table.schema.columns.length) :
    reorderWithoutRowidRecord table.schema
        ((table.schema.recordOrder table.primaryKey).map fun column =>
          row.getD (table.schema.place column) .null)=
      .ok (((table.schema.recordOrder table.primaryKey).map table.schema.place).foldl
        (fun target place => target.set place (row.getD place .null))
        (List.replicate table.schema.columns.length .null)) := by
  unfold reorderWithoutRowidRecord
  dsimp only
  rw [List.length_map,if_neg (not_not.mpr hlength),table.declared]
  dsimp only
  rw [if_neg (not_not.mpr hlength),
    placeValues_places fun column hcolumn => table.mem_recordOrder.mp hcolumn,List.foldl_map]

/-- After all places are set, a row differs where an earlier column has the name. -/
theorem KeyedTable.placed_iff (hrow : row.length=table.schema.columns.length) :
    ((table.schema.recordOrder table.primaryKey).map table.schema.place).foldl
        (fun target place => target.set place (row.getD place .null))
        (List.replicate table.schema.columns.length .null)=row ↔
      ∀ index, index < row.length → table.schema.Shadowed index → row[index]?=some .null := by
  have hnames : table.schema.names.length=table.schema.columns.length := List.length_map _
  have hplaces : ∀ index, index < row.length →
      (index∈(table.schema.recordOrder table.primaryKey).map table.schema.place ↔
        ¬table.schema.Shadowed index) := by
    intro index hindex
    rw [←table.schema.place_iff (by omega),List.mem_map]
    constructor
    · rintro ⟨column,hcolumn,hplace⟩
      exact ⟨column,table.mem_recordOrder.mp hcolumn,hplace⟩
    · rintro ⟨column,hcolumn,hplace⟩
      exact ⟨column,table.mem_recordOrder.mpr hcolumn,hplace⟩
  constructor
  · intro hsame index hindex hshadowed
    have hentry := set_places row
      ((table.schema.recordOrder table.primaryKey).map table.schema.place)
      (List.replicate table.schema.columns.length .null) index
    rw [hsame,if_neg fun h => (hplaces index hindex).mp h.1 hshadowed,List.getElem?_replicate,
      if_pos (by omega)] at hentry
    exact hentry
  · intro hnull
    refine List.ext_getElem? fun index => ?_
    rw [set_places,List.length_replicate]
    by_cases hindex : index < row.length
    · by_cases hshadowed : table.schema.Shadowed index
      · rw [if_neg fun h => (hplaces index hindex).mp h.1 hshadowed,List.getElem?_replicate,
          if_pos (by omega),hnull index hindex hshadowed]
      · rw [if_pos ⟨(hplaces index hindex).mpr hshadowed,by omega⟩,List.getD_eq_getElem _ _ hindex,
          List.getElem?_eq_getElem hindex]
    · rw [if_neg (by omega),List.getElem?_eq_none (by simp; omega),
        List.getElem?_eq_none (by omega)]

/-- With distinct column names a key names its columns once when it has no repetition. -/
theorem KeyedTable.length_keyColumns_iff (hnames : table.schema.names.Nodup) :
    table.primaryKey.length=table.keyColumns.length ↔ table.primaryKey.Nodup := by
  have hnodup : table.keyColumns.Nodup := hnames.filter _
  have hmem : ∀ column, column∈table.keyColumns ↔ column∈table.primaryKey := by
    intro column
    rw [KeyedTable.keyColumns,List.mem_filter,decide_eq_true_eq]
    exact ⟨fun h => h.2,fun h => ⟨table.known column h,h⟩⟩
  constructor
  · intro hlength
    have hsub : table.keyColumns.Subperm table.primaryKey :=
      hnodup.subperm fun column hcolumn => (hmem column).mp hcolumn
    exact (hsub.perm_of_length_le hlength.le).nodup_iff.mp hnodup
  · intro hkey
    exact ((List.perm_ext_iff_of_nodup hkey hnodup).mpr fun column => (hmem column).symm).length_eq

/-- A table of one column. -/
def oneColumn (key : List String) : Table :=
  ⟨"t",[⟨"a",.integer,true,false⟩],some key,true⟩

/-- A table of three columns with the key `(c, a)`. -/
def turnedKeyed : KeyedTable :=
  ⟨⟨"t",[⟨"a",.integer,true,false⟩,⟨"b",.integer,false,false⟩,⟨"c",.integer,true,false⟩],
    some ["c","a"],true⟩,["c","a"],rfl,by decide⟩

end RustSql.Sqlite3
