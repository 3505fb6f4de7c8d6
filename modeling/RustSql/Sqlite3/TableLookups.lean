import RustSql.Sqlite3.ReaderWalks
import RustSql.Sqlite3.RecordCodec
import RustSql.Sqlite3.TableTrees

/-!
# Looking a row up

A lookup follows one child of each interior page, the first whose cell has no smaller row number,
and the scan of the same tree all of them. On a tree that was written the child that is followed
is the only one that can hold the row.
-/

namespace RustSql.Sqlite3

/-! ## Cells and pages read back -/

/-- The row of a cell. -/
def decodeTableCell (schema : Table) (cell : TableLeafCellData) : Except DbError (RowId × Row) := do
  let values ← decodeTableRecord cell.payload
  let row ← patchIntegerPrimaryKeyAlias schema cell.rowId values
  .ok (cell.rowId,row)

/-- Lists whose members are read alike. -/
theorem mapM_forall₂ {α β γ : Type} {f : α → Except DbError γ} {g : β → Except DbError γ}
    {xs : List α} {ys : List β} (h : List.Forall₂ (fun x y => f x=g y) xs ys) :
    xs.mapM f=ys.mapM g := by
  induction h with
  | nil => rfl
  | cons hxy _ ih => rw [List.mapM_cons,List.mapM_cons,hxy,ih]

section Pages

variable {pager : Pager} {pages : ℕ → Option Bytes} {page : Bytes} {schema : Table} {offset : ℕ}

/-- A rendered cell is decoded as it was. -/
theorem decodeLeafTableCell_eq {cell : TableLeafCellData} {bytes : Bytes}
    (hpager : Holds pager pages) (hsize : cell.payload.length < 2^64) (hid : cell.rowId < 2^64)
    (hcell : Rendered pages (encodeVarint cell.payload.length++encodeVarint cell.rowId)
      cell.payload false bytes)
    (hslice : slice page offset bytes.length=bytes)
    (hinside : offset+bytes.length ≤ page.length) :
    decodeLeafTableCell pager schema page offset=decodeTableCell schema cell := by
  obtain ⟨rest,hrest⟩ := hcell.head_prefix
  have hdrop := drop_of_slice hslice
  rw [hrest] at hdrop
  have hread : readBtreePayload pager page offset
      (encodeVarint cell.payload.length++encodeVarint cell.rowId).length cell.payload.length false
        "table"=.ok cell.payload := readBtreePayload_ok hpager hcell hslice hinside
  rw [List.length_append] at hread
  have hlength : decodeVarint (page.drop offset)=
      .ok (cell.payload.length,(encodeVarint cell.payload.length).length) := by
    rw [hdrop]
    simp only [List.append_assoc]
    exact decodeVarint_encodeVarint hsize _
  have hnumber : decodeVarint ((page.drop offset).drop (encodeVarint cell.payload.length).length)=
      .ok (cell.rowId,(encodeVarint cell.rowId).length) := by
    rw [hdrop]
    simp only [List.append_assoc,List.drop_left]
    exact decodeVarint_encodeVarint hid _
  unfold decodeLeafTableCell sliceFrom
  rw [if_pos (by omega)]
  simp only [bind,Except.bind]
  rw [hlength]
  simp only
  rw [hnumber]
  simp only
  rw [hread]
  rfl

/-- The rows of a leaf are those of its cells. -/
theorem TableLeafPage.decode {cells : List TableLeafCellData} (hpager : Holds pager pages)
    (hids : ∀ cell∈cells, cell.rowId < 2^64) (h : TableLeafPage pages cells page) :
    ∃ header, BtreePageHeader.decode page false=.ok header ∧ header.pageType=.leafTable ∧
      decodeLeafTableCells pager schema page false=cells.mapM (decodeTableCell schema) := by
  obtain ⟨rendered,⟨-,header,offsets,hheader,htype,-,hoffsets,hslices⟩,hrendered⟩ := h
  have hcells : List.Forall₂ (fun offset cell =>
      decodeLeafTableCell pager schema page offset=decodeTableCell schema cell) offsets cells := by
    clear hoffsets
    induction hslices generalizing cells with
    | nil =>
      rw [List.forall₂_nil_right_iff.mp hrendered]
      exact .nil
    | @cons offset bytes offsets rendered hslice _ ih =>
      obtain ⟨cell,rest,hcell,hrest,rfl⟩ := List.forall₂_cons_right_iff.mp hrendered
      have hid := hids cell List.mem_cons_self
      exact .cons (decodeLeafTableCell_eq hpager hcell.1 hid hcell.2 hslice.2 hslice.1)
        (ih (fun c hc => hids c (List.mem_cons_of_mem cell hc)) hrest)
  refine ⟨header,hheader,htype,?_⟩
  unfold decodeLeafTableCells leafCells
  simp only [hheader,bind,Except.bind,htype,ne_eq,not_true_eq_false,if_false,hoffsets]
  exact mapM_forall₂ hcells

/-- A cell of an interior page names its child and the row number that bounds it. -/
theorem interiorTableCell_reads {child : TableChildPage} (hpageNo : child.pageNo < 2^32)
    (hid : child.maxRowId < 2^64)
    (hslice : slice page offset (interiorTableCell child).length=interiorTableCell child)
    (hinside : offset+(interiorTableCell child).length ≤ page.length) :
    decodeInteriorChildPointer page offset=.ok child.pageNo ∧
      ∃ key length, sliceFrom page (offset+4)=.ok key ∧
        decodeVarint key=.ok (child.maxRowId,length) := by
  have hwidth := encodeBe_length 4 child.pageNo
  have hlength : (interiorTableCell child).length=4+(encodeVarint child.maxRowId).length := by
    rw [interiorTableCell,List.length_append,hwidth]
  have hwindow := window_inside hslice hinside (Nat.zero_le 4) (by omega)
  have hfront : slice (interiorTableCell child) 0 4=encodeBe 4 child.pageNo := by
    have hmiddle := slice_middle [] (encodeBe 4 child.pageNo) (encodeVarint child.maxRowId)
    rw [hwidth,List.nil_append] at hmiddle
    exact hmiddle
  rw [Nat.add_zero,Nat.sub_zero,hfront] at hwindow
  constructor
  · unfold decodeInteriorChildPointer
    rw [hwindow]
    exact congrArg Except.ok (decodeBe_encodeBe (by norm_num at hpageNo ⊢; omega))
  · have hrest : page.drop (offset+4)=encodeVarint child.maxRowId++
        page.drop (offset+(interiorTableCell child).length) := by
      have hdrop := drop_of_slice hslice
      generalize page.drop (offset+(interiorTableCell child).length)=rest at hdrop ⊢
      rw [←List.drop_drop,hdrop,interiorTableCell,List.append_assoc,List.drop_left' hwidth]
    refine ⟨_,(encodeVarint child.maxRowId).length,if_pos (by omega),?_⟩
    rw [hrest]
    exact decodeVarint_encodeVarint hid _

/-- The child that a lookup follows. -/
def followedChild (rowId : RowId) (last : TableChildPage) : List TableChildPage → TableChildPage
  | [] => last
  | child :: children =>
    if rowId ≤ child.maxRowId then child else followedChild rowId last children

/-- The children of an interior page, and the one that is followed. -/
theorem TableInteriorPage.decode {children : List TableChildPage} {last : TableChildPage}
    (hbounds : ∀ child∈children, child.pageNo < 2^32 ∧ child.maxRowId < 2^64)
    (h : TableInteriorPage children last.pageNo page) :
    ∃ header offsets, BtreePageHeader.decode page false=.ok header ∧
      header.pageType=.interiorTable ∧ cellOffsets page false header=.ok offsets ∧
      decodeInteriorTableChildren page false header=
        .ok ((children++[last]).map TableChildPage.pageNo) ∧
      ∀ rowId, tableRowChild page header rowId offsets=
        .ok (followedChild rowId last children).pageNo := by
  obtain ⟨-,header,offsets,hheader,htype,hpointer,hoffsets,hslices⟩ := h
  have hright : header.rightmostPointer=some last.pageNo := hpointer rfl
  have hcells : List.Forall₂ (fun offset (child : TableChildPage) =>
      decodeInteriorChildPointer page offset=.ok child.pageNo ∧
        ∃ key length, sliceFrom page (offset+4)=.ok key ∧
          decodeVarint key=.ok (child.maxRowId,length)) offsets children := by
    rw [List.forall₂_map_right_iff] at hslices
    clear hoffsets
    induction hslices with
    | nil => exact .nil
    | @cons offset child offsets children hslice _ ih =>
      obtain ⟨hpageNo,hid⟩ := hbounds child List.mem_cons_self
      exact .cons (interiorTableCell_reads hpageNo hid hslice.2 hslice.1)
        (ih fun c hc => hbounds c (List.mem_cons_of_mem child hc))
  refine ⟨header,offsets,hheader,htype,hoffsets,?_,fun rowId => ?_⟩
  · have hpointers : offsets.mapM (decodeInteriorChildPointer page)=
        .ok (children.map TableChildPage.pageNo) := by
      rw [mapM_eq_ok,List.forall₂_map_right_iff]
      exact hcells.imp fun _ _ hcell => hcell.1
    unfold decodeInteriorTableChildren interiorChildren
    simp only [htype,ne_eq,not_true_eq_false,if_false,hoffsets,bind,Except.bind,hpointers,hright,
      List.map_append,List.map_singleton]
  · clear hslices hoffsets hbounds
    induction hcells with
    | nil =>
      rw [tableRowChild,hright]
      rfl
    | @cons offset child offsets children hcell _ ih =>
      obtain ⟨hchild,key,length,hkey,hvarint⟩ := hcell
      rw [tableRowChild,hchild]
      simp only [bind,Except.bind,hkey,hvarint]
      rw [followedChild,ih]
      split
      · rfl
      · rfl

end Pages

/-! ## Trees read back -/

/-- The largest row id is that of a cell. -/
theorem LastRow.mem {child : TableChildPage} {cells : List TableLeafCellData}
    (h : LastRow child cells) : ∃ cell∈cells, cell.rowId=child.maxRowId := by
  obtain ⟨cell,hcell,hrow⟩ := Option.map_eq_some_iff.mp h
  exact ⟨cell,List.mem_of_getLast? hcell,hrow⟩

section Trees

variable {pager : Pager} {pages : ℕ → Option Bytes} {schema : Table}

variable {groups : List (List TableLeafCellData)} {cells : List TableLeafCellData}
    {rows : List (RowId × Row)}

/-- A scan goes on with the rows of one child after those of another. -/
theorem scanChildren_eq {fuel : ℕ} {children : List TableChildPage}
    (h : List.Forall₂ (fun (child : TableChildPage) group => ∀ listed,
      scanPages pager (visitTablePage pager schema) fuel child.pageNo listed=
        Outcome.ofExcept ((group.mapM (decodeTableCell schema)).map (listed++·))) children groups)
    (listed : List (RowId × Row)) :
    (children.map TableChildPage.pageNo).foldlM
        (fun listed child => scanPages pager (visitTablePage pager schema) fuel child listed) listed=
      Outcome.ofExcept ((groups.flatten.mapM (decodeTableCell schema)).map (listed++·)) := by
  induction h generalizing listed with
  | nil =>
    change Outcome.ok listed=Outcome.ok (listed++[])
    rw [List.append_nil]
  | @cons child group children groups hchild _ ih =>
    rw [List.map_cons,List.foldlM_cons,hchild,List.flatten_cons,List.mapM_append]
    cases group.mapM (decodeTableCell schema) with
    | error e => rfl
    | ok rows =>
      change List.foldlM _ (listed++rows) _=_
      rw [ih]
      cases groups.flatten.mapM (decodeTableCell schema) with
      | error e => rfl
      | ok rest =>
        change Outcome.ok (listed++rows++rest)=Outcome.ok (listed++(rows++rest))
        rw [List.append_assoc]

/-- The bounds of the children below an interior page. -/
theorem childBounds {height : ℕ} {children : List TableChildPage}
    (hids : ∀ cell∈groups.flatten, cell.rowId < 2^64)
    (h : List.Forall₂ (TableChild pages height) children groups) :
    ∀ child∈children, child.pageNo < 2^32 ∧ child.maxRowId < 2^64 := by
  intro child hchild
  obtain ⟨group,hgroup,hbound,hlast,-⟩ := forall₂_mem_left h hchild
  obtain ⟨cell,hcell,hrow⟩ := hlast.mem
  rw [←hrow]
  exact ⟨hbound.2,hids cell (List.mem_flatten.mpr ⟨group,hgroup,hcell⟩)⟩

/-- A scan lists the rows of a tree. -/
theorem TableTree.scan (hpager : Holds pager pages) {height pageNo fuel : ℕ}
    (hids : ∀ cell∈cells, cell.rowId < 2^64)
    (h : TableTree pages height pageNo cells) (hfuel : height < fuel)
    (listed : List (RowId × Row)) :
    scanPages pager (visitTablePage pager schema) fuel pageNo listed=
      Outcome.ofExcept ((cells.mapM (decodeTableCell schema)).map (listed++·)) := by
  induction height generalizing pageNo cells fuel listed with
  | zero =>
    obtain ⟨htwo,page,hpage,hleaf⟩ := h
    obtain ⟨header,hheader,htype,hrows⟩ :=
      @TableLeafPage.decode pager pages page schema cells hpager hids hleaf
    have hfirst : decide (pageNo=1)=false := decide_eq_false (by omega)
    obtain ⟨fuel,rfl⟩ : ∃ n, fuel=n+1 := ⟨fuel-1,by omega⟩
    rw [scanPages,hpager.readPage pageNo page hpage,hfirst]
    change (Outcome.ofExcept (BtreePageHeader.decode page false) >>= _)=_
    rw [hheader]
    change (Outcome.ofExcept (visitTablePage pager schema page false header listed) >>= _)=_
    unfold visitTablePage
    rw [htype,hrows]
    cases cells.mapM (decodeTableCell schema) with
    | error e => rfl
    | ok rows => rfl
  | succ height ih =>
    obtain ⟨htwo,page,init,last,groups,hpage,hinterior,hchildren,rfl⟩ := h
    have hfirst : decide (pageNo=1)=false := decide_eq_false (by omega)
    have hbounds := childBounds hids hchildren
    obtain ⟨header,offsets,hheader,htype,-,hpointers,-⟩ := hinterior.decode fun child hchild =>
      hbounds child (List.mem_append_left _ hchild)
    obtain ⟨fuel,rfl⟩ : ∃ n, fuel=n+1 := ⟨fuel-1,by omega⟩
    have hvisit : visitTablePage pager schema page (pageNo=1) header listed=
        .ok (.interior ((init++[last]).map TableChildPage.pageNo)) := by
      unfold visitTablePage
      rw [htype,hfirst,hpointers]
      rfl
    rw [←hfirst] at hheader
    rw [scanPages_interior (hpager.readPage pageNo page hpage) hheader hvisit]
    refine scanChildren_eq ?_ listed
    clear hpointers hvisit hinterior hbounds
    generalize init++[last]=children at hchildren ⊢
    induction hchildren with
    | nil => exact .nil
    | @cons child group children groups hchild _ ihc =>
      rw [List.flatten_cons] at hids
      exact .cons (ih (fun c hc => hids c (List.mem_append_left _ hc)) hchild.2.2 (by omega))
        (ihc fun c hc => hids c (List.mem_append_right _ hc))

/-- The rows that were listed have the numbers of the cells. -/
theorem decodeTableCell_rowId {cell : TableLeafCellData} {row : RowId × Row}
    (h : decodeTableCell schema cell=.ok row) : row.1=cell.rowId := by
  obtain ⟨values,-,h⟩ := except_bind_ok h
  obtain ⟨filled,-,h⟩ := except_bind_ok h
  cases h
  rfl

/-- The row listed under a number. -/
def listedRow (rowId : RowId) (rows : List (RowId × Row)) : Option Row :=
  (rows.find? fun row => row.1==rowId).map Prod.snd

/-- A row of the first list or of the second. -/
theorem listedRow_append (rowId : RowId) (rows rest : List (RowId × Row)) :
    listedRow rowId (rows++rest)=(listedRow rowId rows).or (listedRow rowId rest) := by
  unfold listedRow
  rw [List.find?_append]
  cases rows.find? fun row => row.1==rowId with
  | none => rfl
  | some row => rfl

/-- Nothing is listed under a number that no cell has. -/
theorem listedRow_none {rowId : RowId} (hrows : cells.mapM (decodeTableCell schema)=.ok rows)
    (h : ∀ cell∈cells, cell.rowId≠rowId) : listedRow rowId rows=none := by
  have hnone : (rows.find? fun row => row.1==rowId)=none := by
    refine List.find?_eq_none.mpr fun row hrow hnumber => ?_
    obtain ⟨cell,hcell,hdecode⟩ := mapM_source hrows hrow
    exact h cell hcell ((decodeTableCell_rowId hdecode).symm.trans (beq_iff_eq.mp hnumber))
  rw [listedRow,hnone]
  rfl

/-- The cells stand in the order of their numbers, and no number is used twice. -/
def Ascending (cells : List TableLeafCellData) : Prop :=
  cells.Pairwise fun left right => left.rowId < right.rowId

/-- No row below a child has a larger number than its last. -/
theorem LastRow.le {child : TableChildPage} (hsorted : Ascending cells) (h : LastRow child cells) :
    ∀ cell∈cells, cell.rowId ≤ child.maxRowId := by
  obtain ⟨last,hlast,hrow⟩ := Option.map_eq_some_iff.mp h
  have hcells := List.dropLast_append_getLast? last hlast
  intro cell hcell
  rw [Ascending,←hcells] at hsorted
  rw [←hcells] at hcell
  rcases List.mem_append.mp hcell with hfront | hend
  · have hlt : cell.rowId < last.rowId :=
      (List.pairwise_append.mp hsorted).2.2 cell hfront last List.mem_cons_self
    exact hrow▸hlt.le
  · rw [List.mem_singleton.mp hend,hrow]

/-- A list read in two parts. -/
theorem mapM_append_ok {α β : Type} {f : α → Except DbError β} {xs xs' : List α} {ys : List β}
    (h : (xs++xs').mapM f=.ok ys) :
    ∃ front rest, xs.mapM f=.ok front ∧ xs'.mapM f=.ok rest ∧ ys=front++rest := by
  rw [List.mapM_append] at h
  obtain ⟨front,hfront,h⟩ := except_bind_ok h
  obtain ⟨rest,hrest,h⟩ := except_bind_ok h
  cases h
  exact ⟨front,rest,hfront,hrest,rfl⟩

/-- The child that is followed is the only one that can hold the row. -/
theorem followedChild_lookup {fuel : ℕ} {rowId : RowId} {last : TableChildPage}
    {children : List TableChildPage} (hsorted : Ascending groups.flatten)
    (hchildren : List.Forall₂ (fun (child : TableChildPage) group => LastRow child group ∧
      ∀ rows, group.mapM (decodeTableCell schema)=.ok rows →
        getTableRowFromPage pager schema rowId fuel child.pageNo=.ok (listedRow rowId rows))
      (children++[last]) groups)
    (hrows : groups.flatten.mapM (decodeTableCell schema)=.ok rows) :
    getTableRowFromPage pager schema rowId fuel (followedChild rowId last children).pageNo=
      .ok (listedRow rowId rows) := by
  induction children generalizing groups rows with
  | nil =>
    obtain ⟨group,rest,hgroup,hrest,rfl⟩ := List.forall₂_cons_left_iff.mp hchildren
    rw [List.forall₂_nil_left_iff.mp hrest,List.flatten_singleton] at hrows
    exact hgroup.2 rows hrows
  | cons child children ih =>
    obtain ⟨group,rest,hgroup,hrest,rfl⟩ := List.forall₂_cons_left_iff.mp hchildren
    rw [List.flatten_cons] at hsorted hrows
    obtain ⟨here,others,hhere,hothers,rfl⟩ := mapM_append_ok hrows
    obtain ⟨hgroupSorted,hrestSorted,hbefore⟩ := List.pairwise_append.mp hsorted
    rw [followedChild,listedRow_append]
    by_cases hle : rowId ≤ child.maxRowId
    · -- the rows behind the child are above its last one
      have hnone : listedRow rowId others=none := by
        refine listedRow_none hothers fun cell hcell hnumber => ?_
        obtain ⟨bound,hbound,hrow⟩ := hgroup.1.mem
        have hlt : bound.rowId < cell.rowId := hbefore bound hbound cell hcell
        rw [hrow,hnumber] at hlt
        exact absurd hle hlt.not_ge
      rw [if_pos hle,hgroup.2 here hhere,hnone,Option.or_none]
    · have hnone : listedRow rowId here=none := by
        refine listedRow_none hhere fun cell hcell hnumber => ?_
        exact hle (hnumber▸hgroup.1.le hgroupSorted cell hcell)
      rw [if_neg hle,hnone,Option.none_or]
      exact ih hrestSorted hrest hothers

/-- A lookup in a tree gives the row a scan lists. -/
theorem TableTree.lookup (hpager : Holds pager pages) {height pageNo fuel : ℕ}
    (hids : ∀ cell∈cells, cell.rowId < 2^64) (hsorted : Ascending cells)
    (h : TableTree pages height pageNo cells) (hfuel : height < fuel)
    (hrows : cells.mapM (decodeTableCell schema)=.ok rows) (rowId : RowId) :
    getTableRowFromPage pager schema rowId fuel pageNo=.ok (listedRow rowId rows) := by
  induction height generalizing pageNo cells fuel rows with
  | zero =>
    obtain ⟨htwo,page,hpage,hleaf⟩ := h
    obtain ⟨header,hheader,htype,hcells⟩ :=
      @TableLeafPage.decode pager pages page schema cells hpager hids hleaf
    have hfirst : decide (pageNo=1)=false := decide_eq_false (by omega)
    obtain ⟨fuel,rfl⟩ : ∃ n, fuel=n+1 := ⟨fuel-1,by omega⟩
    rw [getTableRowFromPage,hpager.readPage pageNo page hpage,hfirst]
    change (Outcome.ofExcept (BtreePageHeader.decode page false) >>= _)=_
    rw [hheader,Outcome.ofExcept,Outcome.bind_ok,htype]
    simp only
    rw [hcells,hrows]
    rfl
  | succ height ih =>
    obtain ⟨htwo,page,init,last,groups,hpage,hinterior,hchildren,rfl⟩ := h
    have hfirst : decide (pageNo=1)=false := decide_eq_false (by omega)
    have hbounds := childBounds hids hchildren
    obtain ⟨header,offsets,hheader,htype,hoffsets,-,hfollow⟩ := hinterior.decode fun child hchild =>
      hbounds child (List.mem_append_left _ hchild)
    obtain ⟨fuel,rfl⟩ : ∃ n, fuel=n+1 := ⟨fuel-1,by omega⟩
    rw [getTableRowFromPage,hpager.readPage pageNo page hpage,hfirst]
    change (Outcome.ofExcept (BtreePageHeader.decode page false) >>= _)=_
    rw [hheader,Outcome.ofExcept,Outcome.bind_ok,htype]
    simp only
    rw [hoffsets,Outcome.ofExcept,Outcome.bind_ok,hfollow,Outcome.ofExcept,Outcome.bind_ok]
    refine followedChild_lookup hsorted ?_ hrows
    clear hfollow hinterior hbounds hrows
    generalize init++[last]=children at hchildren ⊢
    induction hchildren with
    | nil => exact .nil
    | @cons child group children groups hchild _ ihc =>
      rw [List.flatten_cons] at hids hsorted
      obtain ⟨hgroupSorted,hrestSorted,-⟩ := List.pairwise_append.mp hsorted
      exact .cons ⟨hchild.2.1,fun rows hrows =>
          ih (fun c hc => hids c (List.mem_append_left _ hc)) hgroupSorted hchild.2.2 (by omega)
            hrows⟩
        (ihc (fun c hc => hids c (List.mem_append_right _ hc)) hrestSorted)

/-- A cell in a tree states the length of its payload. -/
theorem TableTree.sizes {height pageNo : ℕ}
    (h : TableTree pages height pageNo cells) : ∀ cell∈cells, cell.payload.length < 2^64 := by
  induction height generalizing pageNo cells with
  | zero =>
    obtain ⟨-,page,-,rendered,-,hrendered⟩ := h
    intro cell hcell
    obtain ⟨bytes,-,hsize,-⟩ := forall₂_mem_left hrendered hcell
    exact hsize
  | succ height ih =>
    obtain ⟨-,page,init,last,groups,-,-,hchildren,rfl⟩ := h
    intro cell hcell
    obtain ⟨group,hgroup,hcell⟩ := List.mem_flatten.mp hcell
    obtain ⟨child,-,-,-,htree⟩ := forall₂_mem_left hchildren.flip hgroup
    exact ih htree cell hcell

end Trees

/-! ## The rows of a table -/

/-- The row has a value for each column, and its number fits the column that stands for it. -/
def ReadsBack (schema : Table) (row : RowId × Row) : Prop :=
  row.2.length=schema.columns.length ∧
    ((∃ column∈schema.columns, column.aliasesRowid) → row.1 < 2^63)

/-- The row id's column stays a column. -/
theorem blankRowid_length (columns : List Column) (row : Row) :
    (blankRowid columns row).length=row.length := by
  induction columns generalizing row with
  | nil => rfl
  | cons column columns ih =>
    cases row with
    | nil => rfl
    | cons value row => rw [blankRowid,List.length_cons,List.length_cons,ih]

/-- A blanked row can be filled in again when its number fits. -/
theorem fillRowid_blank {rowId : RowId} {columns : List Column} {row : Row}
    (hlength : row.length=columns.length) :
    (∃ filled, fillRowid rowId columns ((blankRowid columns row).map booleanAsInteger)=
      .ok filled) ↔ ((∃ column∈columns, column.aliasesRowid) → rowId < 2^63) := by
  induction columns generalizing row with
  | nil =>
    refine iff_of_true ⟨_,rfl⟩ fun h => ?_
    obtain ⟨column,hcolumn,-⟩ := h
    exact absurd hcolumn List.not_mem_nil
  | cons column columns ih =>
    cases row with
    | nil => cases hlength
    | cons value row =>
      have hrest := @ih row (by simpa using hlength)
      rw [blankRowid,List.map_cons,fillRowid]
      by_cases halias : column.aliasesRowid
      · have hnull : column.aliasesRowid ∧
            booleanAsInteger (if column.aliasesRowid then Value.null else value)=.null := by
          rw [if_pos halias]
          exact ⟨halias,rfl⟩
        rw [if_pos hnull]
        by_cases hfits : rowId < 2^63
        · obtain ⟨filled,hfilled⟩ := hrest.mpr fun _ => hfits
          rw [if_pos hfits,hfilled]
          exact iff_of_true ⟨_,rfl⟩ fun _ => hfits
        · rw [if_neg hfits]
          refine iff_of_false (fun h => ?_) fun h => hfits (h ⟨column,List.mem_cons_self,halias⟩)
          obtain ⟨_,h⟩ := h
          cases h
      · rw [if_neg fun h => halias h.1]
        have hcolumns : (∃ entry∈column :: columns, entry.aliasesRowid) ↔
            ∃ entry∈columns, entry.aliasesRowid := by
          simp [halias]
        rw [hcolumns,←hrest]
        constructor
        · intro h
          obtain ⟨filled,h⟩ := h
          obtain ⟨rest,hfilled,-⟩ := except_bind_ok h
          exact ⟨rest,hfilled⟩
        · intro h
          obtain ⟨rest,hfilled⟩ := h
          rw [hfilled]
          exact ⟨_,rfl⟩

/-- The cell of a row is read back exactly when the row allows it. -/
theorem tableCell_decodes {schema : Table} {row : RowId × Row} {cell : TableLeafCellData}
    (h : tableCell schema row=.ok cell) (hsize : cell.payload.length < 2^64) :
    (∃ listed, decodeTableCell schema cell=.ok listed) ↔ ReadsBack schema row := by
  obtain ⟨payload,hpayload,h⟩ := except_bind_ok h
  cases h
  have hvalues : decodeTableRecord payload=
      .ok ((blankRowid schema.columns row.2).map booleanAsInteger) :=
    decodeRecord_encoded "table" "record" hpayload hsize
  have hwidth : ((blankRowid schema.columns row.2).map booleanAsInteger).length=row.2.length := by
    rw [List.length_map,blankRowid_length]
  unfold decodeTableCell patchIntegerPrimaryKeyAlias
  simp only [hvalues,bind,Except.bind,hwidth]
  by_cases hlength : row.2.length=schema.columns.length
  · rw [if_neg (not_not.mpr hlength),ReadsBack,←fillRowid_blank hlength]
    cases fillRowid row.1 schema.columns
      ((blankRowid schema.columns row.2).map booleanAsInteger) with
    | error e =>
      refine iff_of_false (fun h => ?_) fun h => ?_
      · obtain ⟨_,h⟩ := h
        cases h
      · obtain ⟨-,_,h⟩ := h
        cases h
    | ok filled => exact iff_of_true ⟨_,rfl⟩ ⟨hlength,_,rfl⟩
  · rw [if_pos hlength]
    refine iff_of_false (fun h => ?_) fun h => hlength h.1
    obtain ⟨_,h⟩ := h
    cases h

/-- A cell has the row's id. -/
theorem tableCell_rowId {schema : Table} {row : RowId × Row} {cell : TableLeafCellData}
    (h : tableCell schema row=.ok cell) : cell.rowId=row.1 := by
  obtain ⟨payload,-,h⟩ := except_bind_ok h
  cases h
  rfl

instance instTotalRowIdLe : Std.Total rowIdLe where
  total left right := le_total left.rowId right.rowId

instance instIsTransRowIdLe : IsTrans TableLeafCellData rowIdLe where
  trans _ _ _ hleft hright := hleft.trans hright

/-- The sorted cells of rows with distinct numbers ascend. -/
theorem sortRows_ascending {cells : List TableLeafCellData}
    (h : (cells.map TableLeafCellData.rowId).Nodup) : Ascending (sortRows cells) := by
  have hperm : (sortRows cells).Perm cells := List.perm_insertionSort rowIdLe cells
  have hsorted : (sortRows cells).Pairwise rowIdLe := List.pairwise_insertionSort rowIdLe cells
  have hnodup : ((sortRows cells).map TableLeafCellData.rowId).Nodup :=
    (hperm.map _).nodup_iff.mpr h
  rw [List.Nodup,List.pairwise_map] at hnodup
  exact (hsorted.and hnodup).imp fun hpair => lt_of_le_of_ne hpair.1 hpair.2

/-- The scan of a table lists rows, and a lookup gives for every number the row that is listed
under it. -/
def LookupAgrees (pager : Pager) (rootPage : ℕ) (schema : Table) : Prop :=
  ∃ listed, EndsIn (scanTableRows pager rootPage schema) (.ok listed) ∧
    ∀ rowId, EndsIn (getTableRow pager rootPage schema rowId) (.ok (listedRow rowId listed))

/-- In a tree of rows with distinct numbers the two agree when all rows can be read back. -/
theorem TableTree.lookupAgrees_iff {pager : Pager} {pages : ℕ → Option Bytes} {schema : Table}
    {height rootPage : ℕ} {cells : List TableLeafCellData} (hpager : Holds pager pages)
    (hids : ∀ cell∈cells, cell.rowId < 2^64) (hsorted : Ascending cells)
    (h : TableTree pages height rootPage cells) :
    LookupAgrees pager rootPage schema ↔
      ∀ cell∈cells, ∃ listed, decodeTableCell schema cell=.ok listed := by
  have hscan : EndsIn (scanTableRows pager rootPage schema)
      (Outcome.ofExcept ((cells.mapM (decodeTableCell schema)).map ([]++·))) :=
    ⟨height+1,fun _ hfuel => h.scan hpager hids hfuel []⟩
  constructor
  · intro hagrees cell hcell
    obtain ⟨listed,hlisted,-⟩ := hagrees
    cases hrows : cells.mapM (decodeTableCell schema) with
    | error e =>
      rw [hrows] at hscan
      cases hscan.unique hlisted
    | ok rows => exact mapM_mem hrows hcell
  · intro hdecode
    obtain ⟨rows,hrows⟩ := mapM_of_forall hdecode
    rw [hrows] at hscan
    exact ⟨rows,hscan,fun rowId =>
      ⟨height+1,fun _ hfuel => h.lookup hpager hids hsorted hfuel hrows rowId⟩⟩

/-! ## Tables without row numbers -/

/-- The page is one of an index. -/
def IndexPage (pages : ℕ → Option Bytes) (pageNo : ℕ) : Prop :=
  2 ≤ pageNo ∧ ∃ page header, pages pageNo=some page ∧
    BtreePageHeader.decode page false=.ok header ∧
    (header.pageType=.leafIndex ∨ header.pageType=.interiorIndex)

/-- A leaf is a page of an index. -/
theorem LeafPage.indexPage {pages : ℕ → Option Bytes} {pageNo : ℕ} {page : Bytes}
    {cells : List IndexLeafCellData} (htwo : 2 ≤ pageNo) (hpage : pages pageNo=some page)
    (h : LeafPage pages cells page) : IndexPage pages pageNo := by
  obtain ⟨rendered,⟨-,header,offsets,hheader,htype,-⟩,-⟩ := h
  exact ⟨htwo,page,header,hpage,hheader,.inl htype⟩

/-- So is an interior page. -/
theorem InteriorPage.indexPage {pages : ℕ → Option Bytes} {pageNo rightmost : ℕ} {page : Bytes}
    {children : List IndexChildPage} (htwo : 2 ≤ pageNo) (hpage : pages pageNo=some page)
    (h : InteriorPage children rightmost page) : IndexPage pages pageNo := by
  obtain ⟨rendered,⟨-,header,offsets,hheader,htype,-⟩,-⟩ := h
  exact ⟨htwo,page,header,hpage,hheader,.inr htype⟩

section IndexRoots

variable {s : PageFile} {message : String} {rootPage : ℕ}

/-- So is the parent of a group. -/
theorem buildParent_indexPage {allocate : Eff PageFile ℕ} {B : ℕ → Prop} (hs : 2 ≤ s.nextPageNo)
    (hallocate : Guarantee Extends s allocate fun n t => 2 ≤ n ∧ n < t.nextPageNo ∧ B n)
    {group : List IndexChildPage} (hbounds : ∀ child∈group, child.pageNo < 2^32) :
    Guarantee Extends s (buildParent message allocate group) fun parent t =>
      B parent.pageNo ∧ IndexPage t.pages parent.pageNo := by
  refine .bind hallocate fun pageNo t hst hpageNo => .bind_lift fun maxKey _ => ?_
  refine .bind (buildInteriorIndexPage_guarantee (hs.trans hst.next) group)
    fun page u htu hpage => ?_
  obtain ⟨hlen,init,last,rfl,-,hinterior⟩ := hpage
  refine .bind (insertPage_guarantee hpageNo.1 (hpageNo.2.1.trans_le htu.next) hlen)
    fun _ v huv hinserted => .ret ⟨hpageNo.2.2,?_⟩
  have hlast := hbounds last (List.mem_append_right _ List.mem_cons_self)
  exact (hinterior hlast).indexPage hpageNo.1 hinserted

/-- So is the root. -/
theorem buildLevels_indexPage (hroot : 2 ≤ rootPage) {fuel : ℕ} {children : List IndexChildPage}
    (hs : rootPage < s.nextPageNo) (hlen : 2 ≤ children.length)
    (hbounds : ∀ child∈children, child.pageNo < 2^32) :
    Guarantee Extends s (buildLevels message rootPage fuel children) fun _ t =>
      IndexPage t.pages rootPage := by
  refine buildLevels_rule (P := fun s children => rootPage < s.nextPageNo ∧
    ∀ child∈children, child.pageNo < 2^32) ?_ ?_ hlen ⟨hs,hbounds⟩
  · rintro s groups ⟨hs,hbounds⟩
    have hnext : 2 ≤ s.nextPageNo := hroot.trans hs.le
    refine (mapEach_guarantee (P := fun _ (parent : IndexChildPage) _ => parent.pageNo < 2^32)
      (fun _ _ _ _ _ h => h) fun group hgroup t hst => ?_).mono fun parents t hst hparents => ?_
    · have hstart := hnext.trans hst.next
      have hgroupBounds : ∀ child∈group, child.pageNo < 2^32 := fun child hchild =>
        hbounds child (List.mem_flatten.mpr ⟨group,hgroup,hchild⟩)
      exact (buildParent_indexPage (B := fun n => n < 2^32) hstart
        ((allocatePage_guarantee t).mono fun n _ _ hn => ⟨hstart.trans hn.1,hn.2.2,hn.2.1⟩)
        hgroupBounds).mono fun _ _ _ h => h.1
    · refine ⟨hparents.length_eq,hs.trans_le hst.next,fun parent hparent => ?_⟩
      obtain ⟨_,-,hbound⟩ := forall₂_mem_left hparents.flip hparent
      exact hbound
  · rintro s group ⟨hs,hbounds⟩
    refine (buildParent_indexPage (B := fun n => n=rootPage) (hroot.trans hs.le)
      (.ret ⟨hroot,hs,rfl⟩) hbounds).mono fun parent t _ hparent => ?_
    rw [←hparent.1]
    exact hparent.2

/-- The root of the tree of an index is a page of an index. -/
theorem buildCellTree_indexPage {leafMessage interiorMessage : String} (hroot : 2 ≤ rootPage)
    (hs : rootPage < s.nextPageNo) (cells : List IndexLeafCellData) :
    Guarantee Extends s (buildCellTree leafMessage interiorMessage cells rootPage) fun _ t =>
      IndexPage t.pages rootPage := by
  refine .bind_lift fun groups hgroups => ?_
  obtain ⟨-,hne,-⟩ := paginateLeafCells_ok hgroups
  have hnext : 2 ≤ s.nextPageNo := hroot.trans hs.le
  cases groups with
  | nil => exact absurd rfl hne
  | cons group rest =>
    cases rest with
    | nil =>
      refine .bind (buildLeafIndexPageCells_guarantee hnext group) fun page t hst hleaf => ?_
      refine (insertPage_guarantee hroot (hs.trans_le hst.next) hleaf.length).mono
        fun _ u htu hinserted => ?_
      obtain ⟨rendered,hpage,hrendered⟩ := hleaf
      have hleaf : LeafPage u.pages group page :=
        ⟨rendered,hpage,hrendered.imp fun _ _ h => ⟨h.1,h.2.mono htu⟩⟩
      exact hleaf.indexPage hroot hinserted
    | cons second rest =>
      refine .bind (mapEach_guarantee (P := fun _ (child : IndexChildPage) _ => child.pageNo < 2^32)
        (fun _ _ _ _ _ h => h) fun group _ t hst =>
          (buildLeaf_guarantee (hnext.trans hst.next) group).mono fun _ _ _ h => h.1.2)
        fun children t hst hchildren => ?_
      have hcount := hchildren.length_eq
      rw [List.length_cons,List.length_cons] at hcount
      refine buildLevels_indexPage hroot (hs.trans_le hst.next) (by omega) fun child hchild => ?_
      obtain ⟨_,-,hbound⟩ := forall₂_mem_left hchildren.flip hchild
      exact hbound

end IndexRoots

/-- A lookup does not read the pages of an index. -/
theorem IndexPage.lookup {pager : Pager} {pages : ℕ → Option Bytes} {schema : Table}
    {rootPage fuel : ℕ} (hpager : Holds pager pages) (h : IndexPage pages rootPage)
    (rowId : RowId) : ∃ message,
      getTableRow pager rootPage schema rowId (fuel+1)=.err (.storage message) := by
  obtain ⟨htwo,page,header,hpage,hheader,htype⟩ := h
  have hfirst : decide (rootPage=1)=false := decide_eq_false (by omega)
  rw [getTableRow,getTableRowFromPage,hpager.readPage rootPage page hpage,hfirst]
  change ∃ message, (Outcome.ofExcept (BtreePageHeader.decode page false) >>= _)=_
  rw [hheader,Outcome.ofExcept,Outcome.bind_ok]
  rcases htype with htype | htype
  · rw [htype]
    exact ⟨_,rfl⟩
  · rw [htype]
    exact ⟨_,rfl⟩

/-! ## Lookups and scans -/

/-- What the writer of a table leaves at its root. -/
theorem buildTableBtree_guarantee {schema : Table} {rows : List (RowId × Row)} {rootPage : ℕ}
    {s : PageFile} (hroot : 2 ≤ rootPage) (hs : rootPage < s.nextPageNo) :
    Guarantee Extends s (buildTableBtree schema rows rootPage) fun _ t =>
      if schema.withoutRowid then IndexPage t.pages rootPage
      else ∃ cells height, rows.mapM (tableCell schema)=.ok cells ∧
        TableTree t.pages height rootPage (sortRows cells) := by
  unfold buildTableBtree
  cases schema.withoutRowid with
  | true =>
    simp only [if_true]
    unfold buildWithoutRowidTableBtree
    cases schema.primaryKeyConstraint with
    | none => exact .fail _
    | some primaryKey =>
      exact .bind_lift fun cells _ => buildCellTree_indexPage hroot hs cells
  | false =>
    simp only [Bool.false_eq_true,if_false]
    refine .bind_lift fun cells hcells => ?_
    refine (buildRowTree_guarantee hroot hs cells).mono fun _ t _ htree => ?_
    obtain ⟨height,htree⟩ := htree
    exact ⟨cells,height,hcells,htree⟩

/-- Of the tables that are written, a lookup agrees with a scan on those with row numbers whose
rows can be read back, and on no others. -/
theorem table_lookup_agrees_iff {schema : Table} {rows : List (RowId × Row)} {rootPage : ℕ}
    {s t : PageFile} {pager : Pager} (hids : (rows.map Prod.fst).Nodup)
    (hsmall : ∀ row∈rows, row.1 < 2^64) (hroot : 2 ≤ rootPage) (hs : rootPage < s.nextPageNo)
    (hbuild : buildTableBtree schema rows rootPage s=(.ok (),t)) (hpager : Holds pager t.pages) :
    LookupAgrees pager rootPage schema ↔
      schema.withoutRowid=false ∧ ∀ row∈rows, ReadsBack schema row := by
  have hdone := (@buildTableBtree_guarantee schema rows rootPage s hroot hs).2 () (by rw [hbuild])
  rw [hbuild] at hdone
  cases hkind : schema.withoutRowid with
  | true =>
    rw [hkind,if_pos rfl] at hdone
    refine iff_of_false (fun h => ?_) fun h => Bool.noConfusion h.1
    obtain ⟨listed,-,hlookup⟩ := h
    obtain ⟨depth,hlookup⟩ := hlookup 0
    obtain ⟨message,herror⟩ := @IndexPage.lookup pager t.pages schema rootPage depth hpager hdone 0
    rw [hlookup (depth+1) (Nat.le_succ depth)] at herror
    cases herror
  | false =>
    rw [hkind,if_neg (by decide)] at hdone
    obtain ⟨cells,height,hcells,htree⟩ := hdone
    have hperm : (sortRows cells).Perm cells := List.perm_insertionSort rowIdLe cells
    have hnumbers : cells.map TableLeafCellData.rowId=rows.map Prod.fst :=
      mapM_map hcells fun _ _ h => tableCell_rowId h
    have hbounds : ∀ cell∈sortRows cells, cell.rowId < 2^64 := by
      intro cell hcell
      obtain ⟨row,hrow,hmade⟩ := mapM_source hcells (hperm.mem_iff.mp hcell)
      rw [tableCell_rowId hmade]
      exact hsmall row hrow
    rw [htree.lookupAgrees_iff hpager hbounds (sortRows_ascending (hnumbers▸hids))]
    constructor
    · intro h
      refine ⟨rfl,fun row hrow => ?_⟩
      obtain ⟨cell,hcell,hmade⟩ := forall₂_mem_left (mapM_eq_ok.mp hcells) hrow
      have hsorted := hperm.mem_iff.mpr hcell
      exact (tableCell_decodes hmade (htree.sizes cell hsorted)).mp (h cell hsorted)
    · intro h cell hcell
      obtain ⟨row,hrow,hmade⟩ := mapM_source hcells (hperm.mem_iff.mp hcell)
      exact (tableCell_decodes hmade (htree.sizes cell hcell)).mpr (h.2 row hrow)

/-- The pages of a table whose root is the page after the schema's. -/
def tablePages (schema : Table) (rows : List (RowId × Row)) : PageFile :=
  (buildTableBtree schema rows 2 emptyFile).2

/-- The file with these pages, and an empty page in the place of the schema. -/
def tableFile (schema : Table) (rows : List (RowId × Row)) : Except DbError Bytes :=
  assembleFile id
    (Function.update (tablePages schema rows).pages 1 (some (List.replicate pageSize 0)))
    ((tablePages schema rows).nextPageNo-1)

/-- The pages of a table. -/
theorem tablePages_built {schema : Table} {rows : List (RowId × Row)}
    (h : (buildTableBtree schema rows 2 emptyFile).1=.ok ()) :
    buildTableBtree schema rows 2 emptyFile=(.ok (),tablePages schema rows) :=
  Eff.eq_of_fst h

/-- Its file holds them. -/
theorem tableFile_holds {schema : Table} {rows : List (RowId × Row)} {file : Bytes}
    (h : tableFile schema rows=.ok file) :
    Holds ⟨pageSize,0,file⟩ (tablePages schema rows).pages :=
  assembled_holds (buildTableBtree_guarantee (by decide) (by decide)).1 h

/-- Five rows take two leaf pages and a root above them. -/
theorem table_lookup_agrees_iff_fiveRows :
    ∃ file, tableFile blobTable (blobRows 5)=.ok file ∧
      (LookupAgrees ⟨pageSize,0,file⟩ 2 blobTable ↔
        blobTable.withoutRowid=false ∧ ∀ row∈blobRows 5, ReadsBack blobTable row) := by
  have hfile : (tableFile blobTable (blobRows 5)).toOption.isSome := by decide +kernel
  have hbuilt : (buildTableBtree blobTable (blobRows 5) 2 emptyFile).1=.ok () := by
    decide +kernel
  cases hf : tableFile blobTable (blobRows 5) with
  | error e =>
    rw [hf] at hfile
    cases hfile
  | ok file =>
    exact ⟨file,rfl,table_lookup_agrees_iff (by decide +kernel) (by decide +kernel) (by decide)
      (by decide) (tablePages_built hbuilt) (tableFile_holds hf)⟩

/-- A table whose only column stands for the row number. -/
def keyTable : Table := ⟨"t",[⟨"a",.integer,true,false⟩],none,false⟩

/-- The row with the number `-1`, as the file's bytes are read. -/
def lastNumber : List (RowId × Row) := [(2^64-1,[.integer (-1)])]

/-- The tree of a row whose number is negative is written and cannot be scanned. -/
theorem negative_number_unread :
    (buildTableBtree keyTable lastNumber 2 emptyFile).1=.ok () ∧
      ∃ file, tableFile keyTable lastNumber=.ok file ∧
        ¬LookupAgrees ⟨pageSize,0,file⟩ 2 keyTable := by
  have hfile : (tableFile keyTable lastNumber).toOption.isSome := by decide +kernel
  have hbuilt : (buildTableBtree keyTable lastNumber 2 emptyFile).1=.ok () := by decide +kernel
  have hcells : lastNumber.mapM (tableCell keyTable)=.ok [⟨2^64-1,[2,0]⟩] := by decide +kernel
  refine ⟨hbuilt,?_⟩
  cases hf : tableFile keyTable lastNumber with
  | error e =>
    rw [hf] at hfile
    cases hfile
  | ok file =>
    refine ⟨file,rfl,fun h => ?_⟩
    have hdone := (@buildTableBtree_guarantee keyTable lastNumber 2 emptyFile (by decide)
      (by decide)).2 () hbuilt
    obtain ⟨cells,height,hmade,htree⟩ := hdone
    obtain rfl := Except.ok.inj (hcells.symm.trans hmade)
    have hread := (htree.lookupAgrees_iff (tableFile_holds hf) (by decide)
      (List.pairwise_singleton _ _)).mp h ⟨2^64-1,[2,0]⟩ (by decide)
    have hfail : (decodeTableCell keyTable ⟨2^64-1,[2,0]⟩).toOption=none := by decide +kernel
    obtain ⟨listed,hlisted⟩ := hread
    rw [hlisted] at hfail
    cases hfail

end RustSql.Sqlite3
