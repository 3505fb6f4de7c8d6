import Mathlib.Data.List.Forall2
import RustSql.Sqlite3.TableLookups

/-!
# Tables of a written database

`write_database` gives the tables and the indexes the first pages behind the schema page as roots,
builds one tree after the other and puts the pages together. Each table of the file is read back
with the rows it was written with.
-/

namespace RustSql.Sqlite3

/-- `WrittenTable`. -/
structure WrittenTable where
  schema : Table
  rows : List (RowId × Row)

/-- The trees of `write_database`: those of the tables, that of `sqlite_sequence` being the last of
them, and those of the indexes on tables. Views have none. -/
def buildTrees (expressions : IndexExpressions) (tables : List WrittenTable)
    (indexes : List (WrittenTable × IndexMeta)) : Eff PageFile Unit := do
  Eff.forEach tables.zipIdx fun entry =>
    buildTableBtree entry.1.schema entry.1.rows (entry.2+2)
  Eff.forEach indexes.zipIdx fun entry =>
    buildIndexBtree expressions entry.1.1.schema entry.1.1.rows entry.1.2
      (tables.length+entry.2+2)

/-- `write_database`, up to the file's bytes. The page of the schema table and the file header are
made elsewhere. -/
def writeDatabase (expressions : IndexExpressions) (writeHeader : Bytes → Bytes)
    (schemaPage : Except DbError Bytes) (tables : List WrittenTable)
    (indexes : List (WrittenTable × IndexMeta)) : Eff PageFile Bytes := do
  Eff.modify fun _ => ⟨tables.length+indexes.length+2,fun _ => none⟩
  buildTrees expressions tables indexes
  let page ← Eff.lift schemaPage
  insertPage 1 page
  Eff.reads fun t => assembleFile writeHeader t.pages (t.nextPageNo-1)

/-- A row as a scan shows it: booleans as integers, and the row's number in the columns that stand
for it. -/
def shownRow (rowId : RowId) : List Column → Row → Row
  | column :: columns, value :: row =>
    (if column.aliasesRowid then .integer (Int64.ofNat rowId) else booleanAsInteger value) ::
      shownRow rowId columns row
  | _, row => row.map booleanAsInteger

/-- The listed rows are the table's, in the order of their numbers. -/
structure WrittenTable.Lists (table : WrittenTable) (listed : List (RowId × Row)) : Prop where
  rows : listed.Perm (table.rows.map fun row => (row.1,shownRow row.1 table.schema.columns row.2))
  ascending : listed.Pairwise fun left right => left.1 < right.1

/-! ## Rows -/

theorem fillRowid_shown {rowId : RowId} {columns : List Column} {row : Row}
    (hlength : row.length=columns.length)
    (hfits : (∃ column∈columns, column.aliasesRowid) → rowId < 2^63) :
    fillRowid rowId columns ((blankRowid columns row).map booleanAsInteger)=
      .ok (shownRow rowId columns row) := by
  induction columns generalizing row with
  | nil =>
    obtain rfl := List.eq_nil_of_length_eq_zero hlength
    rfl
  | cons column columns ih =>
    cases row with
    | nil => cases hlength
    | cons value row =>
      have hrest := ih (by simpa using hlength) fun ⟨other,hother,halias⟩ =>
        hfits ⟨other,List.mem_cons_of_mem column hother,halias⟩
      rw [blankRowid,List.map_cons,fillRowid,shownRow,hrest]
      by_cases halias : column.aliasesRowid
      · have hnull : column.aliasesRowid ∧
            booleanAsInteger (if column.aliasesRowid then Value.null else value)=.null := by
          rw [if_pos halias]
          exact ⟨halias,rfl⟩
        rw [if_pos hnull,if_pos (hfits ⟨column,List.mem_cons_self,halias⟩),if_pos halias]
        rfl
      · rw [if_neg fun h => halias h.1,if_neg halias,if_neg halias]
        rfl

/-- A row that reads back is read as it is shown. -/
theorem tableCell_shown {schema : Table} {row : RowId × Row} {cell : TableLeafCellData}
    (h : tableCell schema row=.ok cell) (hsize : cell.payload.length < 2^64)
    (hreads : ReadsBack schema row) :
    decodeTableCell schema cell=.ok (row.1,shownRow row.1 schema.columns row.2) := by
  obtain ⟨payload,hpayload,h⟩ := except_bind_ok h
  cases h
  have hvalues : decodeTableRecord payload=
      .ok ((blankRowid schema.columns row.2).map booleanAsInteger) :=
    decodeRecord_encoded "table" "record" hpayload hsize
  have hwidth : ¬((blankRowid schema.columns row.2).map booleanAsInteger).length≠
      schema.columns.length := by
    rw [List.length_map,blankRowid_length]
    exact not_not.mpr hreads.1
  unfold decodeTableCell patchIntegerPrimaryKeyAlias
  simp only [hvalues,bind,Except.bind]
  rw [if_neg hwidth,fillRowid_shown hreads.1 hreads.2]

theorem tableCells_shown {schema : Table} {rows : List (RowId × Row)}
    {cells : List TableLeafCellData}
    (h : List.Forall₂ (fun row cell => tableCell schema row=.ok cell) rows cells)
    (hsizes : ∀ cell∈cells, cell.payload.length < 2^64)
    (hreads : ∀ row∈rows, ReadsBack schema row) :
    cells.mapM (decodeTableCell schema)=
      .ok (rows.map fun row => (row.1,shownRow row.1 schema.columns row.2)) := by
  rw [mapM_eq_ok,List.forall₂_map_right_iff]
  induction h with
  | nil => exact .nil
  | @cons row cell rows cells hcell _ ih =>
    obtain ⟨hsize,hsizes⟩ := List.forall_mem_cons.mp hsizes
    obtain ⟨hread,hreads⟩ := List.forall_mem_cons.mp hreads
    exact .cons (tableCell_shown hcell hsize hread) (ih hsizes hreads)

/-- The sorted cells of a table decode to its rows in the order of their numbers. -/
theorem sortRows_lists {table : WrittenTable} {cells : List TableLeafCellData}
    (hcells : table.rows.mapM (tableCell table.schema)=.ok cells)
    (hids : (table.rows.map Prod.fst).Nodup)
    (hsizes : ∀ cell∈sortRows cells, cell.payload.length < 2^64)
    (hreads : ∀ row∈table.rows, ReadsBack table.schema row) :
    ∃ listed, (sortRows cells).mapM (decodeTableCell table.schema)=.ok listed ∧
      table.Lists listed := by
  have hperm : cells.Perm (sortRows cells) := (List.perm_insertionSort rowIdLe cells).symm
  obtain ⟨rows,hmade,hrows⟩ : ∃ rows, List.Forall₂ (fun row cell =>
      tableCell table.schema row=.ok cell) rows (sortRows cells) ∧ rows.Perm table.rows := by
    obtain ⟨rows,hrows,hmade⟩ :=
      List.perm_comp_forall₂ hperm.symm (mapM_eq_ok.mp hcells).flip
    exact ⟨rows,hrows.flip,hmade⟩
  have hnumbers : (sortRows cells).map TableLeafCellData.rowId=rows.map Prod.fst :=
    mapM_map (mapM_eq_ok.mpr hmade) fun _ _ h => tableCell_rowId h
  have hnodup : (cells.map TableLeafCellData.rowId).Nodup := by
    rw [(hperm.map _).nodup_iff,hnumbers,(hrows.map _).nodup_iff]
    exact hids
  have hascending : (rows.map Prod.fst).Pairwise (· < ·) := by
    rw [←hnumbers,List.pairwise_map]
    exact sortRows_ascending hnodup
  refine ⟨_,tableCells_shown hmade hsizes fun row hrow => hreads row (hrows.mem_iff.mp hrow),
    hrows.map _,?_⟩
  rw [List.pairwise_map] at hascending ⊢
  exact hascending

/-! ## Whole files -/

/-- A table has its tree at the root page of its place. -/
def TableBuilt (entry : WrittenTable × ℕ) (t : PageFile) : Prop :=
  entry.1.schema.withoutRowid=false → ∃ cells height,
    entry.1.rows.mapM (tableCell entry.1.schema)=.ok cells ∧
      TableTree t.pages height (entry.2+2) (sortRows cells)

theorem TableBuilt.mono {entry : WrittenTable × ℕ} {t u : PageFile} (htu : Extends t u)
    (h : TableBuilt entry t) : TableBuilt entry u := by
  intro hkind
  obtain ⟨cells,height,hcells,htree⟩ := h hkind
  exact ⟨cells,height,hcells,htree.mono htu⟩

theorem buildTrees_guarantee {expressions : IndexExpressions} {tables : List WrittenTable}
    {indexes : List (WrittenTable × IndexMeta)} {s : PageFile}
    (hs : s.nextPageNo=tables.length+indexes.length+2) :
    Guarantee Extends s (buildTrees expressions tables indexes) fun _ t =>
      ∀ entry∈tables.zipIdx, TableBuilt entry t := by
  have htables : Guarantee Extends s (Eff.forEach tables.zipIdx fun entry =>
      buildTableBtree entry.1.schema entry.1.rows (entry.2+2)) fun _ t =>
        ∀ entry∈tables.zipIdx, TableBuilt entry t := by
    refine Guarantee.forEach_all (P := fun t => tables.length+indexes.length+2 ≤ t.nextPageNo)
      (fun htu ht => ht.trans htu.next) TableBuilt.mono (fun entry hentry t ht => ?_) hs.ge
    have hplace := List.snd_lt_of_mem_zipIdx hentry
    refine (buildTableBtree_guarantee (by omega) (by omega)).mono fun _ u _ htree hkind => ?_
    rw [if_neg (by simp [hkind])] at htree
    exact htree
  refine .bind htables fun _ t hst hbuilt => ?_
  refine (Guarantee.forEach fun entry hentry u htu => ?_).mono fun _ u htu _ table htable =>
    (hbuilt table htable).mono htu
  have hplace := List.snd_lt_of_mem_zipIdx hentry
  have hnext := hs.ge.trans (hst.next.trans htu.next)
  exact (buildIndexBtree_guarantee (by omega) (by omega)).forget

section File

variable {expressions : IndexExpressions} {writeHeader : Bytes → Bytes}
  {schemaPage : Except DbError Bytes} {tables : List WrittenTable}
  {indexes : List (WrittenTable × IndexMeta)} {file : Bytes} {s u : PageFile}

theorem reads_inv {σ α : Type} {f : σ → Except DbError α} {s s' : σ} {a : α}
    (h : Eff.reads f s=(.ok a,s')) : f s=.ok a ∧ s'=s := by
  unfold Eff.reads at h
  split at h
  · cases h
    exact ⟨by assumption,rfl⟩
  · cases h

/-- What a written file holds: the trees of all tables, on pages behind the first. -/
theorem writeDatabase_holds
    (hheader : ∀ page, page.length=pageSize → (writeHeader page).length=pageSize)
    (hschema : ∀ page, schemaPage=.ok page → page.length=pageSize)
    (h : writeDatabase expressions writeHeader schemaPage tables indexes s=(.ok file,u)) :
    ∃ t, (∀ entry∈tables.zipIdx, TableBuilt entry t) ∧ Holds ⟨pageSize,0,file⟩ t.pages := by
  unfold writeDatabase at h
  rw [Eff.bind_of_ok (Eff.modify_eq _ s)] at h
  obtain ⟨_,t,htrees,hrest⟩ := Eff.bind_ok_inv h
  obtain ⟨page,t',hread,hrest⟩ := Eff.bind_ok_inv hrest
  obtain ⟨_,v,hinsert,hrest⟩ := Eff.bind_ok_inv hrest
  obtain ⟨hfile,rfl⟩ := reads_inv hrest
  obtain ⟨hpage,rfl⟩ := reads_inv hread
  obtain ⟨hextends,hbuilt⟩ := @buildTrees_guarantee expressions tables indexes
    ⟨tables.length+indexes.length+2,fun _ => none⟩ rfl
  rw [htrees] at hextends hbuilt
  have hfresh (pageNo : ℕ) (image : Bytes) (himage : t'.pages pageNo=some image) :
      2 ≤ pageNo ∧ pageNo < t'.nextPageNo ∧ image.length=pageSize :=
    (hextends.fresh pageNo image himage).resolve_left fun hold => nomatch hold
  obtain rfl : u={t' with pages := Function.update t'.pages 1 (some page)} := by
    unfold insertPage at hinsert
    rw [Eff.bind_of_ok (Eff.get_eq t')] at hinsert
    split at hinsert
    · cases hinsert
    · cases hinsert
      rfl
  refine ⟨t',hbuilt _ rfl,assembleFile_holds hfile hheader (fun pageNo image himage => ?_)
    fun pageNo image himage => ?_⟩
  · by_cases hfirst : pageNo=1
    · subst hfirst
      simp only [Function.update_self,Option.some.injEq] at himage
      rw [←himage]
      exact hschema page hpage
    · simp only [Function.update_of_ne hfirst] at himage
      exact (hfresh pageNo image himage).2.2
  · obtain ⟨htwo,hlt,-⟩ := hfresh pageNo image himage
    have hother : pageNo≠1 := by omega
    refine ⟨?_,htwo,Nat.le_sub_one_of_lt hlt⟩
    simp only [Function.update_of_ne hother]
    exact himage

/-- Each table with row numbers is read back from the file of a database: a scan of its tree comes
to an end with the rows of the table in the order of their numbers, and looking a number up finds
the row the scan lists. -/
theorem writeDatabase_reads_back
    (hheader : ∀ page, page.length=pageSize → (writeHeader page).length=pageSize)
    (hschema : ∀ page, schemaPage=.ok page → page.length=pageSize)
    (h : writeDatabase expressions writeHeader schemaPage tables indexes s=(.ok file,u))
    {place : ℕ} {table : WrittenTable} (htable : tables[place]?=some table)
    (hkind : table.schema.withoutRowid=false) (hids : (table.rows.map Prod.fst).Nodup)
    (hsmall : ∀ row∈table.rows, row.1 < 2^64)
    (hreads : ∀ row∈table.rows, ReadsBack table.schema row) :
    ∃ listed, table.Lists listed ∧
      EndsIn (scanTableRows ⟨pageSize,0,file⟩ (place+2) table.schema) (.ok listed) ∧
      ∀ rowId, EndsIn (getTableRow ⟨pageSize,0,file⟩ (place+2) table.schema rowId)
        (.ok (listedRow rowId listed)) := by
  obtain ⟨t,hbuilt,hpager⟩ := writeDatabase_holds hheader hschema h
  obtain ⟨cells,height,hcells,htree⟩ :=
    hbuilt (table,place) (List.mem_zipIdx_iff_getElem?.mpr htable) hkind
  have hperm : (sortRows cells).Perm cells := List.perm_insertionSort rowIdLe cells
  have hnumbers : cells.map TableLeafCellData.rowId=table.rows.map Prod.fst :=
    mapM_map hcells fun _ _ h => tableCell_rowId h
  have hbounds : ∀ cell∈sortRows cells, cell.rowId < 2^64 := by
    intro cell hcell
    obtain ⟨row,hrow,hmade⟩ := mapM_source hcells (hperm.mem_iff.mp hcell)
    rw [tableCell_rowId hmade]
    exact hsmall row hrow
  obtain ⟨listed,hlisted,hlists⟩ := sortRows_lists hcells hids htree.sizes hreads
  refine ⟨listed,hlists,⟨height+1,fun fuel hfuel => ?_⟩,fun rowId =>
    ⟨height+1,fun fuel hfuel => ?_⟩⟩
  · refine (htree.scan hpager hbounds hfuel []).trans ?_
    rw [hlisted]
    rfl
  · exact htree.lookup hpager hbounds (sortRows_ascending (hnumbers▸hids)) hfuel hlisted rowId

end File

/-- A table numbered by its column and, behind it, one of blobs with an index. -/
def twoTables : List WrittenTable :=
  [⟨keyTable,[(2,[.integer 2]),(1,[.integer 1])]⟩,⟨blobTable,blobRows 1⟩]

def twoTablesWritten : Eff PageFile Bytes :=
  writeDatabase plainColumns id (.ok (List.replicate pageSize 0)) twoTables
    [(⟨blobTable,blobRows 1⟩,blobIndex)]

/-- A file of two tables and an index: the second table is read back. -/
theorem writeDatabase_reads_back_twoTables : ∃ file u, twoTablesWritten emptyFile=(.ok file,u) ∧
    ∃ listed, (⟨keyTable,[(2,[.integer 2]),(1,[.integer 1])]⟩ : WrittenTable).Lists listed ∧
      EndsIn (scanTableRows ⟨pageSize,0,file⟩ 2 keyTable) (.ok listed) ∧
      ∀ rowId, EndsIn (getTableRow ⟨pageSize,0,file⟩ 2 keyTable rowId)
        (.ok (listedRow rowId listed)) := by
  have hwritten : (twoTablesWritten emptyFile).1.discard=.ok () := by decide +kernel
  obtain ⟨file,hfile,-⟩ := Outcome.bind_ok_inv hwritten
  refine ⟨file,_,Eff.eq_of_fst hfile,?_⟩
  have hreads : ∀ row∈[(2,[Value.integer 2]),(1,[.integer 1])], ReadsBack keyTable row := by
    unfold ReadsBack
    decide
  have hsame : ∀ page : Bytes, page.length=pageSize → (id page).length=pageSize := fun _ h => h
  have hschema : ∀ page, (.ok (List.replicate pageSize 0) : Except DbError Bytes)=.ok page →
      page.length=pageSize := by
    intro page hpage
    rw [←Except.ok.inj hpage,List.length_replicate]
  exact writeDatabase_reads_back hsame hschema (Eff.eq_of_fst hfile)
    (show twoTables[0]?=some _ from rfl) rfl (by decide) (by decide) hreads

end RustSql.Sqlite3
