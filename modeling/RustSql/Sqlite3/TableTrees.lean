import RustSql.Sqlite3.Pagination

/-!
# The table trees that are written

A table is written as a tree whose leaves hold the sorted rows, each in one leaf, and whose
interior cells name for every child but the last its largest row number.
-/

namespace RustSql.Sqlite3

/-! ## Pages -/

/-- A leaf page with the rows of a list. -/
def TableLeafPage (pages : ℕ → Option Bytes) (cells : List TableLeafCellData) (page : Bytes) :
    Prop :=
  ∃ rendered, CellPage .leafTable none rendered page ∧
    List.Forall₂ (fun cell bytes => cell.payload.length < 2^64 ∧
      Rendered pages (encodeVarint cell.payload.length++encodeVarint cell.rowId) cell.payload
        false bytes) cells rendered

/-- An interior page over the children of a list and a rightmost child. -/
def TableInteriorPage (children : List TableChildPage) (rightmost : ℕ) (page : Bytes) : Prop :=
  CellPage .interiorTable (some rightmost) (children.map interiorTableCell) page

/-- A leaf stays where it is. -/
theorem TableLeafPage.mono {s t : PageFile} {cells : List TableLeafCellData} {page : Bytes}
    (hst : Extends s t) (h : TableLeafPage s.pages cells page) :
    TableLeafPage t.pages cells page := by
  obtain ⟨rendered,hpage,hrendered⟩ := h
  exact ⟨rendered,hpage,hrendered.imp fun _ _ hcell => ⟨hcell.1,hcell.2.mono hst⟩⟩

/-- A head that is written fits. -/
theorem tableCellHead_ok {cell : TableLeafCellData} {head : Bytes}
    (h : tableCellHead cell=.ok head) : cell.payload.length < 2^64 ∧
      head=encodeVarint cell.payload.length++encodeVarint cell.rowId := by
  obtain ⟨length,hlength,h⟩ := except_bind_ok h
  obtain ⟨hsize,rfl⟩ := payloadLenVarint_ok hlength
  cases h
  exact ⟨hsize,rfl⟩

/-- A leaf of a table is built of its cells. -/
theorem buildLeafTablePageCells_guarantee {s : PageFile} (hs : 2 ≤ s.nextPageNo)
    (cells : List TableLeafCellData) :
    Guarantee Extends s (buildLeafTablePageCells cells) fun page t =>
      page.length=pageSize ∧ TableLeafPage t.pages cells page := by
  have hrender : ∀ cell∈cells, ∀ t, Extends s t → Guarantee Extends t (renderTableLeafCell cell)
      fun bytes u => cell.payload.length < 2^64 ∧
        Rendered u.pages (encodeVarint cell.payload.length++encodeVarint cell.rowId) cell.payload
          false bytes := by
    intro cell _ t hst
    refine .bind_lift fun head hhead => ?_
    obtain ⟨hsize,rfl⟩ := tableCellHead_ok hhead
    exact (renderCell_guarantee (hs.trans hst.next) _ _ _).mono fun _ _ _ hbytes =>
      ⟨hsize,hbytes⟩
  have hleaf : Guarantee Extends s (buildLeafTablePageCells cells) fun page t =>
      TableLeafPage t.pages cells page :=
    cellPage_guarantee (fun _ _ _ _ hst h => ⟨h.1,h.2.mono hst⟩) hrender rfl rfl rfl rfl
      fun h => by cases h
  refine hleaf.mono fun page t _ hpage => ?_
  obtain ⟨rendered,hpage,hrendered⟩ := hpage
  exact ⟨hpage.length,rendered,hpage,hrendered⟩

/-- An interior page is built of its children, the last one apart. -/
theorem buildInteriorTablePage_guarantee (s : PageFile) (children : List TableChildPage) :
    Guarantee Extends s (buildInteriorTablePage children) fun page _ =>
      page.length=pageSize ∧ ∃ init last, children=init++[last] ∧
        (last.pageNo < 2^32 → TableInteriorPage init last.pageNo page) := by
  unfold buildInteriorTablePage
  cases hlast : children.getLast? with
  | none => exact .fail _
  | some last =>
    simp only
    split
    · exact .fail _
    · next hlen =>
      have hchildren : children=children.dropLast++[last] :=
        (List.dropLast_append_getLast? last hlast).symm
      have hinit : children.dropLast.length=children.length-1 := List.length_dropLast
      have hrender : ∀ child∈children.dropLast, ∀ t, Extends s t →
          Guarantee Extends t (pure (interiorTableCell child) : Eff PageFile Bytes) fun bytes _ =>
            bytes=interiorTableCell child :=
        fun _ _ _ _ => .ret rfl
      refine (cellPage_guarantee (fun _ _ _ _ _ h => h) hrender hinit.symm rfl
        (encodeBe_length 4 last.pageNo) (by rw [encodeBe_length]) fun _ => rfl).mono
          fun page t _ hpage => ?_
      obtain ⟨rendered,hpage,hrendered⟩ := hpage
      have hcells : rendered=children.dropLast.map interiorTableCell := by
        rw [←List.forall₂_eq_eq_eq,List.forall₂_map_right_iff]
        exact hrendered.flip
      refine ⟨hpage.length,children.dropLast,last,hchildren,fun hsmall => ?_⟩
      rw [decodeBe_encodeBe (by norm_num at hsmall ⊢; omega),hcells] at hpage
      exact hpage

/-! ## Trees -/

/-- A page that a cell can point to. -/
def PageBounds (pageNo : ℕ) : Prop := 2 ≤ pageNo ∧ pageNo < 2^32

/-- A child is known by the number of its last row. -/
def LastRow (child : TableChildPage) (cells : List TableLeafCellData) : Prop :=
  cells.getLast?.map TableLeafCellData.rowId=some child.maxRowId

/-- The pages below one, down to the leaves, hold the rows of a list in order. -/
def TableTree (pages : ℕ → Option Bytes) : ℕ → ℕ → List TableLeafCellData → Prop
  | 0, pageNo, cells => 2 ≤ pageNo ∧ ∃ page, pages pageNo=some page ∧ TableLeafPage pages cells page
  | height+1, pageNo, cells => 2 ≤ pageNo ∧ ∃ page init last groups, pages pageNo=some page ∧
      TableInteriorPage init last.pageNo page ∧
      List.Forall₂ (fun (child : TableChildPage) group => PageBounds child.pageNo ∧
        LastRow child group ∧ TableTree pages height child.pageNo group) (init++[last]) groups ∧
      groups.flatten=cells

/-- A child with the rows below it. -/
def TableChild (pages : ℕ → Option Bytes) (height : ℕ) (child : TableChildPage)
    (cells : List TableLeafCellData) : Prop :=
  PageBounds child.pageNo ∧ LastRow child cells ∧ TableTree pages height child.pageNo cells

/-- A tree stays where it is. -/
theorem TableTree.mono {s t : PageFile} (hst : Extends s t) {height pageNo : ℕ}
    {cells : List TableLeafCellData} (h : TableTree s.pages height pageNo cells) :
    TableTree t.pages height pageNo cells := by
  induction height generalizing pageNo cells with
  | zero =>
    obtain ⟨htwo,page,hpage,hleaf⟩ := h
    exact ⟨htwo,page,hst.keeps pageNo page hpage,hleaf.mono hst⟩
  | succ height ih =>
    obtain ⟨htwo,page,init,last,groups,hpage,hinterior,hchildren,hcells⟩ := h
    exact ⟨htwo,page,init,last,groups,hst.keeps pageNo page hpage,hinterior,
      hchildren.imp fun _ _ hchild => ⟨hchild.1,hchild.2.1,ih hchild.2.2⟩,hcells⟩

/-- A child stays where it is. -/
theorem TableChild.mono {s t : PageFile} (hst : Extends s t) {height : ℕ}
    {child : TableChildPage} {cells : List TableLeafCellData}
    (h : TableChild s.pages height child cells) : TableChild t.pages height child cells :=
  ⟨h.1,h.2.1,h.2.2.mono hst⟩

/-! ## Levels -/

/-- A list beside one with two parts has two parts. -/
theorem forall₂_append_cut {α β : Type} {R : α → β → Prop} {front rest : List α} {ys : List β}
    (h : List.Forall₂ R (front++rest) ys) :
    List.Forall₂ R front (ys.take front.length) ∧ List.Forall₂ R rest (ys.drop front.length) :=
  ⟨(List.forall₂_take_append _ _ _ h.flip).flip,(List.forall₂_drop_append _ _ _ h.flip).flip⟩

/-- A list beside the joined one is cut like it. -/
theorem forall₂_flatten_split {α β : Type} {R : α → β → Prop} {parts : List (List α)}
    {ys : List β} (h : List.Forall₂ R parts.flatten ys) :
    ∃ yss, yss.flatten=ys ∧ List.Forall₂ (List.Forall₂ R) parts yss := by
  induction parts generalizing ys with
  | nil =>
    rw [List.flatten_nil,List.forall₂_nil_left_iff] at h
    exact ⟨[],h.symm,.nil⟩
  | cons part parts ih =>
    rw [List.flatten_cons] at h
    obtain ⟨hfirst,hrest⟩ := forall₂_append_cut h
    obtain ⟨yss,hflat,hparts⟩ := ih hrest
    refine ⟨ys.take part.length :: yss,?_,.cons hfirst hparts⟩
    rw [List.flatten_cons,hflat,List.take_append_drop]

section Levels

variable {s : PageFile} {rootPage height : ℕ}

/-- A leaf is a child of height zero. -/
theorem buildTableLeaf_guarantee (hs : 2 ≤ s.nextPageNo) {group : List TableLeafCellData}
    (hgroup : group≠[]) :
    Guarantee Extends s (buildTableLeaf group) fun child t => TableChild t.pages 0 child group := by
  refine .bind (allocatePage_guarantee s) fun pageNo t hst hpageNo => ?_
  have hbound : 2 ≤ pageNo := hs.trans hpageNo.1
  refine .bind (buildLeafTablePageCells_guarantee (hs.trans hst.next) group)
    fun page u htu hpage => ?_
  refine .bind (insertPage_guarantee hbound (hpageNo.2.2.trans_le htu.next) hpage.1)
    fun _ v huv hinserted => .ret ?_
  have hlast : group.getLast?=some (group.getLast hgroup) := List.getLast?_eq_some_getLast hgroup
  refine ⟨⟨hbound,hpageNo.2.1⟩,?_,hbound,page,hinserted,hpage.2.mono huv⟩
  rw [LastRow,hlast]
  rfl

/-- A page over children holds the rows of any groups that lie below them. -/
def Parent (pages : ℕ → Option Bytes) (height : ℕ) (B : ℕ → Prop) (children : List TableChildPage)
    (parent : TableChildPage) (t : PageFile) : Prop :=
  ∀ groups, List.Forall₂ (TableChild pages height) children groups → B parent.pageNo ∧
    2 ≤ parent.pageNo ∧ LastRow parent groups.flatten ∧
    TableTree t.pages (height+1) parent.pageNo groups.flatten

variable {pages : ℕ → Option Bytes} {B : ℕ → Prop} {children : List TableChildPage}

/-- A parent stays where it is. -/
theorem Parent.mono {parent : TableChildPage} {t u : PageFile} (htu : Extends t u)
    (h : Parent pages height B children parent t) : Parent pages height B children parent u := by
  intro groups hgroups
  obtain ⟨hbound,htwo,hlast,htree⟩ := h groups hgroups
  exact ⟨hbound,htwo,hlast,htree.mono htu⟩

/-- The parent of a group is built. -/
theorem buildTableParent_guarantee {t : PageFile} {allocate : Eff PageFile ℕ} (hst : Extends s t)
    (hallocate : Guarantee Extends t allocate fun n u => 2 ≤ n ∧ n < u.nextPageNo ∧ B n) :
    Guarantee Extends t (buildTableParent allocate children) fun parent u =>
      Parent s.pages height B children parent u := by
  refine .bind hallocate fun pageNo u htu hpageNo => .bind_lift fun maxRowId hmax => ?_
  refine .bind (buildInteriorTablePage_guarantee u children) fun page v huv hpage => ?_
  obtain ⟨hlen,init,last,rfl,hinterior⟩ := hpage
  refine .bind (insertPage_guarantee hpageNo.1 (hpageNo.2.1.trans_le huv.next) hlen)
    fun _ w hvw hinserted => .ret fun groups hchildren => ?_
  have hlast := (forall₂_append_cut hchildren).2
  obtain ⟨group,rest,hgroup,hrest,hdrop⟩ := List.forall₂_cons_left_iff.mp hlast
  rw [List.forall₂_nil_left_iff.mp hrest] at hdrop
  have hgroups : groups=groups.take init.length++[group] := by
    rw [←hdrop,List.take_append_drop]
  have hnumber : maxRowId=last.maxRowId := by
    unfold lastRowId at hmax
    rw [List.getLast?_concat] at hmax
    exact (Except.ok.inj hmax).symm
  refine ⟨hpageNo.2.2,hpageNo.1,?_,hpageNo.1,page,init,last,groups,hinserted,
    hinterior hgroup.1.2,?_,rfl⟩
  · have hrow : group.getLast?.map TableLeafCellData.rowId=some last.maxRowId := hgroup.2.1
    obtain ⟨cell,hcell,hrowId⟩ := Option.map_eq_some_iff.mp hrow
    rw [LastRow,hgroups,List.flatten_append,List.flatten_singleton,List.getLast?_append,hcell,
      hnumber,←hrowId]
    rfl
  · exact hchildren.imp fun _ _ h => (((h.mono hst).mono htu).mono huv).mono hvw

/-- The pages of a level hold the rows of the level below. -/
theorem tableParents {t : PageFile}
    {parts : List (List TableChildPage)} {parents : List TableChildPage}
    {groups : List (List (List TableLeafCellData))}
    (hgroups : List.Forall₂ (List.Forall₂ (TableChild pages height)) parts groups)
    (h : List.Forall₂ (fun part parent => Parent pages height B part parent t) parts parents) :
    List.Forall₂ (fun (parent : TableChildPage) rows => B parent.pageNo ∧ 2 ≤ parent.pageNo ∧
      LastRow parent rows ∧ TableTree t.pages (height+1) parent.pageNo rows) parents
      (groups.map List.flatten) := by
  induction h generalizing groups with
  | nil =>
    rw [List.forall₂_nil_left_iff.mp hgroups]
    exact .nil
  | cons hparent _ ih =>
    obtain ⟨group,rest,hgroup,hrest,rfl⟩ := List.forall₂_cons_left_iff.mp hgroups
    exact .cons (hparent group hgroup) (ih hrest)

/-- The tree over at least two pages holds their rows. -/
theorem buildTableLevels_guarantee (hroot : 2 ≤ rootPage) {fuel : ℕ}
    {groups : List (List TableLeafCellData)}
    (hs : rootPage < s.nextPageNo) (hlen : 2 ≤ children.length)
    (hchildren : List.Forall₂ (TableChild s.pages height) children groups) :
    Guarantee Extends s (buildTableLevels rootPage fuel children) fun _ t =>
      ∃ height, TableTree t.pages height rootPage groups.flatten := by
  induction fuel generalizing s children groups height with
  | zero => exact .hang
  | succ fuel ih =>
    have hnext : 2 ≤ s.nextPageNo := hroot.trans hs.le
    rw [buildTableLevels,if_neg (by omega)]
    refine .bind_lift fun parts hparts => ?_
    have hflat := paginateInteriorChildren_flatten hparts
    rw [←hflat] at hchildren
    obtain ⟨yss,rfl,hcut⟩ := forall₂_flatten_split hchildren
    have hpos : 0 < parts.length := by
      refine List.length_pos_of_ne_nil fun hnil => ?_
      rw [←hflat,hnil] at hlen
      simp only [List.flatten_nil,List.length_nil] at hlen
      omega
    rw [List.flatten_flatten]
    simp only
    by_cases hone : parts.length=1
    · -- the last level: its only page is the root
      rw [if_pos hone]
      refine .bind (mapEach_guarantee (P := Parent s.pages height fun n => n=rootPage)
        (fun _ _ _ _ htu h => h.mono htu) fun part _ t hst => ?_) fun parents t hst hparents => ?_
      · exact buildTableParent_guarantee (B := fun n => n=rootPage) hst
          (.ret ⟨hroot,hs.trans_le hst.next,rfl⟩)
      · have hall := tableParents hcut hparents
        have hcount := hparents.length_eq
        rw [hone] at hcount
        obtain ⟨root,rfl⟩ := List.length_eq_one_iff.mp hcount.symm
        obtain ⟨rows,rest,⟨hrootNo,-,-,htree⟩,hrest,hrows⟩ := List.forall₂_cons_left_iff.mp hall
        rw [List.forall₂_nil_left_iff.mp hrest] at hrows
        have hdone : ∃ height, TableTree t.pages height rootPage (yss.map List.flatten).flatten := by
          rw [hrows,List.flatten_singleton,←hrootNo]
          exact ⟨height+1,htree⟩
        cases fuel with
        | zero => exact .hang
        | succ fuel => exact .ret hdone
    · rw [if_neg hone]
      refine .bind (mapEach_guarantee (P := Parent s.pages height fun n => n < 2^32)
        (fun _ _ _ _ htu h => h.mono htu) fun part _ t hst => ?_) fun parents t hst hparents => ?_
      · have hstart := hnext.trans hst.next
        exact buildTableParent_guarantee (B := fun n => n < 2^32) hst
          ((allocatePage_guarantee t).mono fun n _ _ hn => ⟨hstart.trans hn.1,hn.2.2,hn.2.1⟩)
      · have hall := tableParents hcut hparents
        have hcount := hparents.length_eq
        exact ih (hs.trans_le hst.next) (by omega)
          (hall.imp fun _ _ h => ⟨⟨h.2.1,h.1⟩,h.2.2.1,h.2.2.2⟩)

end Levels

/-! ## The tree -/

theorem leafTableCellLen_ok {cell : TableLeafCellData} {n : ℕ} (h : leafTableCellLen cell=.ok n) :
    n=tableCellLen cell := by
  obtain ⟨head,hhead,h⟩ := except_bind_ok h
  obtain ⟨-,rfl⟩ := tableCellHead_ok hhead
  cases h
  rfl

/-- No leaf page is empty, unless the table is. -/
theorem paginateLeafFrom_ne_nil {α : Type} {cellLen : α → Except DbError ℕ} {headerSize size : ℕ}
    {cells current : List α} {groups : List (List α)} (hsome : current≠[] ∨ cells≠[])
    (h : paginateLeafFrom headerSize cellLen cells current size=.ok groups) :
    ∀ group∈groups, group≠[] := by
  induction cells generalizing current size groups with
  | nil =>
    cases h
    intro group hgroup
    rw [List.mem_singleton.mp hgroup]
    exact hsome.resolve_right fun hne => hne rfl
  | cons cell cells ih =>
    rw [paginateLeafFrom] at h
    obtain ⟨n,-,h⟩ := except_bind_ok h
    split at h
    · next hfull =>
      split at h
      · cases h
      · obtain ⟨pages,hpages,h⟩ := except_bind_ok h
        cases h
        intro group hgroup
        rcases List.mem_cons.mp hgroup with rfl | hgroup
        · exact hfull.1
        · exact ih (.inl (List.cons_ne_nil _ _)) hpages group hgroup
    · split at h
      · cases h
      · exact ih (.inl (List.append_ne_nil_of_right_ne_nil _ (List.cons_ne_nil _ _))) h

/-- The tree of a table holds its rows in the order of their numbers. -/
theorem buildRowTree_guarantee {s : PageFile} {rootPage : ℕ} (hroot : 2 ≤ rootPage)
    (hs : rootPage < s.nextPageNo) (cells : List TableLeafCellData) :
    Guarantee Extends s (buildRowTree cells rootPage) fun _ t =>
      ∃ height, TableTree t.pages height rootPage (sortRows cells) := by
  have hnext : 2 ≤ s.nextPageNo := hroot.trans hs.le
  refine .bind_lift fun groups hgroups => ?_
  have hsplit : groups.flatten=sortRows cells ∧ groups≠[] ∧
      (groups.length≠1 → ∀ group∈groups, group≠[]) := by
    unfold paginateLeafCells at hgroups
    split at hgroups
    · next hempty =>
      cases hgroups
      rw [List.isEmpty_iff.mp hempty]
      exact ⟨rfl,List.cons_ne_nil _ _,fun h => absurd rfl h⟩
    · next hfull =>
      obtain ⟨hflat,hne,-⟩ := paginateLeafFrom_ok (fun cell _ n hn => leafTableCellLen_ok hn)
        (by decide) hgroups
      refine ⟨hflat,hne,fun _ => paginateLeafFrom_ne_nil (.inr fun hnil => ?_) hgroups⟩
      rw [hnil] at hfull
      exact hfull rfl
  obtain ⟨hflat,hne,hall⟩ := hsplit
  have hpos := List.length_pos_of_ne_nil hne
  by_cases hone : groups.length=1
  · obtain ⟨group,rfl⟩ := List.length_eq_one_iff.mp hone
    rw [List.flatten_singleton] at hflat
    refine .bind (buildLeafTablePageCells_guarantee hnext group) fun page t hst hpage => ?_
    refine (insertPage_guarantee hroot (hs.trans_le hst.next) hpage.1).mono
      fun _ u htu hinserted => ?_
    exact ⟨0,hroot,page,hinserted,hflat▸hpage.2.mono htu⟩
  · have hbuild : Guarantee Extends s (do
        let children ← Eff.mapEach groups buildTableLeaf
        buildTableLevels rootPage (children.length+1) children) fun _ t =>
          ∃ height, TableTree t.pages height rootPage (sortRows cells) := by
      refine .bind (mapEach_guarantee
        (P := fun group child t => TableChild t.pages 0 child group)
        (fun _ _ _ _ htu h => h.mono htu) fun group hgroup t hst =>
          buildTableLeaf_guarantee (hnext.trans hst.next) (hall hone group hgroup))
        fun children t hst hchildren => ?_
      have hcount := hchildren.length_eq
      rw [←hflat]
      exact buildTableLevels_guarantee hroot (hs.trans_le hst.next) (by omega) hchildren.flip
    split
    · exact absurd rfl hone
    · exact hbuild

end RustSql.Sqlite3
