import RustSql.Memory.Undo

/-!
# Tables under another schema

A change of a table's schema keeps the rows' numbers and the keys of the indexes. What fits
before the change then fits after it, and the entries of the indexes need no change.
-/

namespace RustSql.Memory

open RustSql.Engine RustSql.Sql RustSql.V2

section Reshaped

variable {schema updated : Schema} {rows changed : RowId → Option Row}
  {indexes : String → Option IndexMeta} {rename : IndexMeta → IndexMeta}

/-- A row and the row it becomes under another schema. -/
structure SameRow (schema updated : Schema) (indexes : String → Option IndexMeta)
    (rename : IndexMeta → IndexMeta) (rowId : RowId) (row newRow : Row) : Prop where
  length : newRow.length=updated.columns.length
  numbered : Numbers updated rowId newRow
  keyed : ∀ name index key, indexes name=some index → projectIndexKey schema index row=.ok key →
    projectIndexKey updated (rename index) newRow=.ok key

/-- Rows and the rows they become under another schema. -/
structure SameRows (schema updated : Schema) (indexes : String → Option IndexMeta)
    (rename : IndexMeta → IndexMeta) (rows changed : RowId → Option Row) : Prop where
  forward : ∀ rowId row, rows rowId=some row →
    ∃ newRow, changed rowId=some newRow ∧ SameRow schema updated indexes rename rowId row newRow
  backward : ∀ rowId newRow, changed rowId=some newRow → ∃ row, rows rowId=some row
  unique : ∀ name index, indexes name=some index → (rename index).unique=index.unique

/-- Where a row of the changed table comes from. -/
theorem SameRows.source (h : SameRows schema updated indexes rename rows changed) {rowId : RowId}
    {newRow : Row} (hnew : changed rowId=some newRow) :
    ∃ row, rows rowId=some row ∧ SameRow schema updated indexes rename rowId row newRow := by
  obtain ⟨row,hrow⟩ := h.backward rowId newRow hnew
  obtain ⟨found,hfound,hsame⟩ := h.forward rowId row hrow
  obtain rfl := Option.some.inj (hnew.symm.trans hfound)
  exact ⟨row,hrow,hsame⟩

/-- The rows of two tables have the same keys. -/
theorem SameRows.key_iff (h : SameRows schema updated indexes rename rows changed)
    (hfitting : Fitting schema rows indexes) {name : String} {index : IndexMeta}
    (hindex : indexes name=some index) {rowId : RowId} {key : List Value} :
    (∃ row, rows rowId=some row ∧ projectIndexKey schema index row=.ok key) ↔
      ∃ row, changed rowId=some row ∧ projectIndexKey updated (rename index) row=.ok key := by
  constructor
  · rintro ⟨row,hrow,hkey⟩
    obtain ⟨newRow,hnew,hsame⟩ := h.forward rowId row hrow
    exact ⟨newRow,hnew,hsame.keyed name index key hindex hkey⟩
  · rintro ⟨newRow,hnew,hkey⟩
    obtain ⟨row,hrow,hsame⟩ := h.source hnew
    obtain ⟨found,hfound⟩ := hfitting.keyed name index rowId row hindex hrow
    have hsameKey := hsame.keyed name index found hindex hfound
    obtain rfl := Except.ok.inj (hkey.symm.trans hsameKey)
    exact ⟨row,hrow,hfound⟩

/-- Rows and indexes that fit still fit. -/
theorem Fitting.reshape (hfitting : Fitting schema rows indexes)
    (h : SameRows schema updated indexes rename rows changed) :
    Fitting updated changed fun name => (indexes name).map rename where
  length rowId newRow hnew := by
    obtain ⟨row,hrow,hsame⟩ := h.source hnew
    exact hsame.length
  numbered rowId newRow hnew := by
    obtain ⟨row,hrow,hsame⟩ := h.source hnew
    exact hsame.numbered
  keyed name index rowId newRow hindex hnew := by
    obtain ⟨old,hold,rfl⟩ := Option.map_eq_some_iff.mp hindex
    obtain ⟨row,hrow,hsame⟩ := h.source hnew
    obtain ⟨key,hkey⟩ := hfitting.keyed name old rowId row hold hrow
    exact ⟨key,hsame.keyed name old key hold hkey⟩
  unique name index hindex rowId row other otherRow key hrow hother hkey hotherKey henforces := by
    obtain ⟨old,hold,rfl⟩ := Option.map_eq_some_iff.mp hindex
    obtain ⟨oldRow,holdRow,holdKey⟩ := (h.key_iff hfitting hold).mpr ⟨row,hrow,hkey⟩
    obtain ⟨oldOther,holdOther,holdOtherKey⟩ :=
      (h.key_iff hfitting hold).mpr ⟨otherRow,hother,hotherKey⟩
    have henforced : old.enforcesUniqueKey key := by
      simp only [IndexMeta.enforcesUniqueKey,h.unique name old hold] at henforces ⊢
      exact henforces
    exact hfitting.unique name old hold rowId oldRow other oldOther key holdRow holdOther holdKey
      holdOtherKey henforced

/-- An index keeps its entries. -/
theorem IndexState.Lists.reshape {index : IndexState} (hlists : index.Lists schema rows)
    (hfitting : Fitting schema rows indexes)
    (h : SameRows schema updated indexes rename rows changed) {name : String}
    (hindex : indexes name=some index.indexMeta) :
    ({ index with indexMeta := rename index.indexMeta } : IndexState).Lists updated changed :=
  fun key rowId => (hlists key rowId).trans (h.key_iff hfitting hindex)

end Reshaped

/-! ## Keys under another schema -/

section Keys

variable {schema updated : Schema} {index : IndexMeta} {row newRow : Row} {key : List Value}

theorem columnPosition_ok {column : String} {position : ℕ} :
    columnPosition schema column=.ok position ↔
      schema.columns.findIdx? (fun entry => entry.name==column)=some position := by
  unfold columnPosition
  cases schema.columns.findIdx? fun entry => entry.name==column with
  | none => simp
  | some found => simp

theorem projectColumn_ok {column : String} {value : Value} :
    projectColumn schema row column=.ok value ↔
      ∃ position, schema.columns.findIdx? (fun entry => entry.name==column)=some position ∧
        row[position]?=some value := by
  unfold projectColumn
  constructor
  · intro h
    obtain ⟨position,hposition,hvalue⟩ := except_bind_ok h
    refine ⟨position,columnPosition_ok.mp hposition,?_⟩
    cases hfound : row[position]? with
    | none =>
      rw [hfound] at hvalue
      cases hvalue
    | some found =>
      rw [hfound] at hvalue
      rw [Except.ok.inj hvalue]
  · rintro ⟨position,hposition,hvalue⟩
    simp only [columnPosition_ok.mpr hposition,bind,Except.bind,hvalue]

/-- A key is the same one where each of its columns has the same value. -/
theorem projectIndexKey_of_columns {other : IndexMeta}
    (rename : String → String) (hother : other.columns=index.columns.map rename)
    (h : ∀ column∈index.columns, ∀ position value,
      schema.columns.findIdx? (fun entry => entry.name==column)=some position →
        row[position]?=some value →
        ∃ found, updated.columns.findIdx? (fun entry => entry.name==rename column)=some found ∧
          newRow[found]?=some value)
    (hkey : projectIndexKey schema index row=.ok key) :
    projectIndexKey updated other newRow=.ok key := by
  unfold projectIndexKey at hkey ⊢
  rw [hother,mapM_eq_ok,List.forall₂_map_left_iff]
  rw [mapM_eq_ok] at hkey
  have hboth := (List.forall₂_and_left _ _).mpr ⟨fun column hmem => hmem,hkey⟩
  refine hboth.imp fun column value hcolumn => ?_
  obtain ⟨position,hposition,hvalue⟩ := projectColumn_ok.mp hcolumn.2
  exact projectColumn_ok.mpr (h column hcolumn.1 position value hposition hvalue)

end Keys

/-! ## The column that is the row's number -/

section Alias

variable {schema updated : Schema}

/-- The only element of a list without repetitions that passes a test. -/
theorem filter_eq_singleton {α : Type} {xs : List α} {test : α → Bool} (hdistinct : xs.Nodup)
    {x : α} : xs.filter test=[x] ↔ x∈xs ∧ test x=true ∧ ∀ y∈xs, test y=true → y=x := by
  constructor
  · intro h
    have hmem : x∈xs.filter test := by rw [h]; exact List.mem_singleton_self x
    obtain ⟨hx,htest⟩ := List.mem_filter.mp hmem
    refine ⟨hx,htest,fun y hy hytest => ?_⟩
    have hfound : y∈xs.filter test := List.mem_filter.mpr ⟨hy,hytest⟩
    rw [h] at hfound
    exact List.mem_singleton.mp hfound
  · rintro ⟨hx,htest,honly⟩
    refine List.perm_singleton.mp ((List.perm_ext_iff_of_nodup (hdistinct.filter test)
      (List.nodup_singleton x)).mpr fun y => ?_)
    rw [List.mem_filter,List.mem_singleton]
    constructor
    · rintro ⟨hy,hytest⟩
      exact honly y hy hytest
    · rintro rfl
      exact ⟨hx,htest⟩

theorem nodup_zipIdx {α : Type} (xs : List α) : xs.zipIdx.Nodup := by
  have hsnd : (xs.zipIdx.map Prod.snd).Nodup := by
    rw [List.zipIdx_map_snd]
    exact List.nodup_range'
  exact List.Nodup.of_map _ hsnd

/-- The only column of the primary key, when it holds integers and counts up. -/
theorem integerPrimaryKeyColumnIndex_eq_some {index : ℕ} :
    integerPrimaryKeyColumnIndex schema=some index ↔ schema.withoutRowid=false ∧
      ∃ column, schema.columns[index]?=some column ∧ column.primaryKey=true ∧
        (column.columnType=.integer ∧ column.primaryKeySortOrder≠some .desc) ∧
        ∀ other entry, schema.columns[other]?=some entry → entry.primaryKey=true →
          other=index := by
  unfold integerPrimaryKeyColumnIndex
  cases hrowid : schema.withoutRowid with
  | true => simp
  | false =>
    rw [if_neg Bool.false_ne_true]
    constructor
    · intro h
      refine ⟨rfl,?_⟩
      split at h
      · next column found hfilter =>
        obtain ⟨hmem,hprimary,honly⟩ := (filter_eq_singleton (nodup_zipIdx _)).mp hfilter
        split at h
        · next hkind =>
          obtain rfl := Option.some.inj h
          refine ⟨column,List.mem_zipIdx_iff_getElem?.mp hmem,hprimary,hkind,?_⟩
          intro other entry hentry hprimary'
          have hsame := honly (entry,other) (List.mem_zipIdx_iff_getElem?.mpr hentry) hprimary'
          exact (Prod.mk.inj hsame).2
        · cases h
      · cases h
    · rintro ⟨-,column,hcolumn,hprimary,hkind,honly⟩
      have hfilter : schema.columns.zipIdx.filter (fun entry => entry.1.primaryKey)=
          [(column,index)] := by
        refine (filter_eq_singleton (nodup_zipIdx _)).mpr
          ⟨List.mem_zipIdx_iff_getElem?.mpr hcolumn,hprimary,?_⟩
        rintro ⟨entry,other⟩ hmem hprimary'
        have hentry := List.mem_zipIdx_iff_getElem?.mp hmem
        obtain rfl := honly other entry hentry hprimary'
        exact Prod.ext (Option.some.inj (hentry.symm.trans hcolumn)) rfl
      rw [hfilter]
      exact if_pos hkind

/-- Other names and foreign keys leave the column where it is. -/
theorem integerPrimaryKeyColumnIndex_map {change : ColumnDef → ColumnDef}
    (hcolumns : updated.columns=schema.columns.map change)
    (hrowid : updated.withoutRowid=schema.withoutRowid)
    (hchange : ∀ column, (change column).primaryKey=column.primaryKey ∧
      (change column).columnType=column.columnType ∧
      (change column).primaryKeySortOrder=column.primaryKeySortOrder) :
    integerPrimaryKeyColumnIndex updated=integerPrimaryKeyColumnIndex schema := by
  ext index
  rw [integerPrimaryKeyColumnIndex_eq_some,integerPrimaryKeyColumnIndex_eq_some,hrowid,hcolumns]
  simp only [List.getElem?_map,Option.map_eq_some_iff]
  refine and_congr_right fun _ => ⟨?_,?_⟩
  · rintro ⟨_,⟨column,hcolumn,rfl⟩,hprimary,hkind,honly⟩
    obtain ⟨hp,ht,ho⟩ := hchange column
    refine ⟨column,hcolumn,hp▸hprimary,⟨ht▸hkind.1,ho▸hkind.2⟩,fun other entry hentry h => ?_⟩
    exact honly other (change entry) ⟨entry,hentry,rfl⟩ ((hchange entry).1.trans h)
  · rintro ⟨column,hcolumn,hprimary,hkind,honly⟩
    obtain ⟨hp,ht,ho⟩ := hchange column
    refine ⟨change column,⟨column,hcolumn,rfl⟩,hp.trans hprimary,⟨ht.trans hkind.1,ho▸hkind.2⟩,?_⟩
    rintro other _ ⟨entry,hentry,rfl⟩ h
    exact honly other entry hentry ((hchange entry).1.symm.trans h)

/-- Without a column outside the primary key the other columns still name the rows' numbers. -/
theorem integerPrimaryKeyColumnIndex_eraseIdx {removedIndex : ℕ} {column : ColumnDef}
    (hcolumns : updated.columns=schema.columns.eraseIdx removedIndex)
    (hrowid : updated.withoutRowid=schema.withoutRowid)
    (hremoved : schema.columns[removedIndex]?=some column) (hprimary : column.primaryKey=false)
    (hnone : integerPrimaryKeyColumnIndex updated=none) :
    integerPrimaryKeyColumnIndex schema=none := by
  cases hsome : integerPrimaryKeyColumnIndex schema with
  | none => rfl
  | some index =>
    obtain ⟨hnormal,entry,hentry,hkey,hkind,honly⟩ :=
      integerPrimaryKeyColumnIndex_eq_some.mp hsome
    have hne : index≠removedIndex := by
      rintro rfl
      obtain rfl := Option.some.inj (hremoved.symm.trans hentry)
      rw [hprimary] at hkey
      cases hkey
    have hmoved : integerPrimaryKeyColumnIndex updated=
        some (if index < removedIndex then index else index-1) := by
      rw [integerPrimaryKeyColumnIndex_eq_some,hrowid,hcolumns]
      refine ⟨hnormal,entry,?_,hkey,hkind,fun other found hfound hkey' => ?_⟩
      · rw [List.getElem?_eraseIdx]
        by_cases hlt : index < removedIndex
        · rw [if_pos hlt,if_pos hlt,hentry]
        · have hback : index-1+1=index := by omega
          rw [if_neg hlt,if_neg (by omega),hback,hentry]
      · rw [List.getElem?_eraseIdx] at hfound
        split at hfound
        · have hsame := honly other found hfound hkey'
          rw [if_pos (by omega)]
          exact hsame
        · have hsame := honly (other+1) found hfound hkey'
          rw [if_neg (by omega)]
          omega
    rw [hnone] at hmoved
    cases hmoved

end Alias

/-! ## The three kinds of change -/

section Kinds

variable {schema updated : Schema} {rows changed : RowId → Option Row}
  {indexes : String → Option IndexMeta} {rename : IndexMeta → IndexMeta}

/-- Where a search finds its first element. -/
theorem findIdx?_eq_some {α : Type} {test : α → Bool} {xs : List α} {position : ℕ} :
    xs.findIdx? test=some position ↔ (∃ x, xs[position]?=some x ∧ test x=true) ∧
      ∀ earlier y, earlier < position → xs[earlier]?=some y → test y=false := by
  rw [List.findIdx?_eq_some_iff_getElem]
  constructor
  · rintro ⟨hlt,htest,hfirst⟩
    refine ⟨⟨xs[position],List.getElem?_eq_getElem hlt,htest⟩,fun earlier y hearlier hy => ?_⟩
    obtain ⟨hbound,rfl⟩ := List.getElem?_eq_some_iff.mp hy
    exact Bool.eq_false_iff.mpr (hfirst earlier hearlier)
  · rintro ⟨⟨x,hx,htest⟩,hfirst⟩
    obtain ⟨hbound,rfl⟩ := List.getElem?_eq_some_iff.mp hx
    refine ⟨hbound,htest,fun earlier hearlier => ?_⟩
    rw [hfirst earlier _ hearlier (List.getElem?_eq_getElem (by omega))]
    exact Bool.false_ne_true

/-- The rows stay and the columns get other names, or other foreign keys. -/
theorem sameRows_map (change : ColumnDef → ColumnDef) (newName : String → String)
    (hcolumns : updated.columns=schema.columns.map change)
    (hrowid : updated.withoutRowid=schema.withoutRowid)
    (hchange : ∀ column, (change column).primaryKey=column.primaryKey ∧
      (change column).columnType=column.columnType ∧
      (change column).primaryKeySortOrder=column.primaryKeySortOrder)
    (hname : ∀ column, (change column).name=newName column.name)
    (hdistinct : ∀ column∈schema.columns, ∀ other∈schema.columns,
      newName column.name=newName other.name → column.name=other.name)
    (hrename : ∀ index, (rename index).columns=index.columns.map newName ∧
      (rename index).unique=index.unique)
    (hfitting : Fitting schema rows indexes) :
    SameRows schema updated indexes rename rows rows where
  backward rowId newRow h := ⟨newRow,h⟩
  unique name index _ := (hrename index).2
  forward rowId row hrow := by
    refine ⟨row,hrow,?_,?_,fun name index key hindex hkey => ?_⟩
    · rw [hcolumns,List.length_map]
      exact hfitting.length rowId row hrow
    · intro found hfound
      rw [integerPrimaryKeyColumnIndex_map hcolumns hrowid hchange] at hfound
      exact hfitting.numbered rowId row hrow found hfound
    · refine projectIndexKey_of_columns newName (hrename index).1
        (fun column _ position value hposition hvalue => ⟨position,?_,hvalue⟩) hkey
      obtain ⟨⟨entry,hentry,htest⟩,hfirst⟩ := findIdx?_eq_some.mp hposition
      obtain rfl : entry.name=column := beq_iff_eq.mp htest
      rw [hcolumns]
      refine findIdx?_eq_some.mpr ⟨⟨change entry,?_,?_⟩,fun earlier y hearlier hy => ?_⟩
      · rw [List.getElem?_map,hentry]
        rfl
      · rw [hname entry,beq_self_eq_true]
      · rw [List.getElem?_map] at hy
        obtain ⟨other,hother,rfl⟩ := Option.map_eq_some_iff.mp hy
        have hne := hfirst earlier other hearlier hother
        rw [beq_eq_false_iff_ne] at hne ⊢
        rw [hname other]
        exact fun hsame => hne (hdistinct other (List.mem_of_getElem? hother) entry
          (List.mem_of_getElem? hentry) hsame)

/-- The rows get one more value for a new column. -/
theorem sameRows_append (column : ColumnDef) (hcolumns : updated.columns=schema.columns++[column])
    (hforward : ∀ rowId row, rows rowId=some row → ∃ newRow, changed rowId=some newRow ∧
      newRow.length=updated.columns.length ∧ newRow.take row.length=row)
    (hbackward : ∀ rowId newRow, changed rowId=some newRow → ∃ row, rows rowId=some row)
    (halias : ∀ rowId row, rows rowId=some row →
      integerPrimaryKeyColumnIndex updated=integerPrimaryKeyColumnIndex schema)
    (hfitting : Fitting schema rows indexes) :
    SameRows schema updated indexes id rows changed where
  backward := hbackward
  unique name index _ := rfl
  forward rowId row hrow := by
    obtain ⟨newRow,hnew,hlength,hvalues⟩ := hforward rowId row hrow
    have hkept : ∀ (position : ℕ) (value : Value), row[position]?=some value →
        newRow[position]?=some value := by
      intro position value hvalue
      obtain ⟨hbound,-⟩ := List.getElem?_eq_some_iff.mp hvalue
      rw [← hvalues,List.getElem?_take_of_lt hbound] at hvalue
      exact hvalue
    refine ⟨newRow,hnew,hlength,?_,fun name index key hindex hkey => ?_⟩
    · intro found hfound
      rw [halias rowId row hrow] at hfound
      obtain ⟨value,hvalue,hnumber⟩ := hfitting.numbered rowId row hrow found hfound
      exact ⟨value,hkept found _ hvalue,hnumber⟩
    · refine projectIndexKey_of_columns id (List.map_id _).symm
        (fun name _ position value hposition hvalue => ?_) hkey
      refine ⟨position,?_,hkept position value hvalue⟩
      rw [hcolumns,List.findIdx?_append,id_eq,hposition]
      rfl

/-- The rows lose the value of a column that is no part of a key. -/
theorem sameRows_eraseIdx (updated : Schema) {removedIndex : ℕ} {column : ColumnDef}
    (hcolumns : updated.columns=schema.columns.eraseIdx removedIndex)
    (hrowid : updated.withoutRowid=schema.withoutRowid)
    (hremoved : schema.columns[removedIndex]?=some column) (hprimary : column.primaryKey=false)
    (hunused : ∀ name index, indexes name=some index → column.name∉index.columns)
    (hfitting : Fitting schema rows indexes) :
    SameRows schema updated indexes id rows
      fun rowId => (rows rowId).map fun row => row.eraseIdx removedIndex where
  backward rowId newRow h := by
    obtain ⟨row,hrow,-⟩ := Option.map_eq_some_iff.mp h
    exact ⟨row,hrow⟩
  unique name index _ := rfl
  forward rowId row hrow := by
    obtain ⟨hbound,-⟩ := List.getElem?_eq_some_iff.mp hremoved
    have hlength := hfitting.length rowId row hrow
    refine ⟨row.eraseIdx removedIndex,by rw [hrow]; rfl,?_,?_,
      fun name index key hindex hkey => ?_⟩
    · rw [hcolumns,List.length_eraseIdx,List.length_eraseIdx,hlength]
    · intro found hfound
      obtain ⟨hnormal,entry,hentry,hkey,hkind,honly⟩ :=
        integerPrimaryKeyColumnIndex_eq_some.mp hfound
      rw [hcolumns] at hentry honly
      rw [hrowid] at hnormal
      have hlater : ∀ other entry, schema.columns[other]?=some entry → entry.primaryKey=true →
          other=if found < removedIndex then found else found+1 := by
        intro other entry hother hkey'
        have hne : other≠removedIndex := by
          rintro rfl
          obtain rfl := Option.some.inj (hremoved.symm.trans hother)
          rw [hprimary] at hkey'
          cases hkey'
        rcases Nat.lt_or_gt_of_ne hne with hlt | hgt
        · have hsame := honly other entry (by rw [List.getElem?_eraseIdx,if_pos hlt,hother]) hkey'
          rw [hsame] at hlt
          rw [if_pos hlt,hsame]
        · have hback : other-1+1=other := by omega
          have hsame := honly (other-1) entry
            (by rw [List.getElem?_eraseIdx,if_neg (by omega),hback,hother]) hkey'
          rw [if_neg (by omega)]
          omega
      have hshift : ∀ {α : Type} (xs : List α), (xs.eraseIdx removedIndex)[found]?=
          xs[if found < removedIndex then found else found+1]? := by
        intro α xs
        rw [List.getElem?_eraseIdx]
        split <;> rfl
      rw [hshift] at hentry
      obtain ⟨value,hvalue,hnumber⟩ := hfitting.numbered rowId row hrow _
        (integerPrimaryKeyColumnIndex_eq_some.mpr ⟨hnormal,entry,hentry,hkey,hkind,hlater⟩)
      exact ⟨value,(hshift row).trans hvalue,hnumber⟩
    · refine projectIndexKey_of_columns id (List.map_id _).symm
        (fun name' hmem position value hposition hvalue => ?_) hkey
      obtain ⟨⟨entry,hentry,htest⟩,hfirst⟩ := findIdx?_eq_some.mp hposition
      have hname : entry.name=name' := beq_iff_eq.mp htest
      have hne : position≠removedIndex := by
        rintro rfl
        obtain rfl := Option.some.inj (hremoved.symm.trans hentry)
        exact hunused name index hindex (hname▸hmem)
      rw [hcolumns,id_eq]
      rcases Nat.lt_or_gt_of_ne hne with hlt | hgt
      · refine ⟨position,findIdx?_eq_some.mpr ⟨⟨entry,?_,htest⟩,fun earlier y hearlier hy => ?_⟩,?_⟩
        · rw [List.getElem?_eraseIdx,if_pos hlt,hentry]
        · rw [List.getElem?_eraseIdx,if_pos (by omega)] at hy
          exact hfirst earlier y hearlier hy
        · rw [List.getElem?_eraseIdx,if_pos hlt,hvalue]
      · have hback : position-1+1=position := by omega
        refine ⟨position-1,
          findIdx?_eq_some.mpr ⟨⟨entry,?_,htest⟩,fun earlier y hearlier hy => ?_⟩,?_⟩
        · rw [List.getElem?_eraseIdx,if_neg (by omega),hback,hentry]
        · rw [List.getElem?_eraseIdx] at hy
          split at hy
          · exact hfirst earlier y (by omega) hy
          · exact hfirst (earlier+1) y (by omega) hy
        · rw [List.getElem?_eraseIdx,if_neg (by omega),hback,hvalue]

end Kinds

end RustSql.Memory
