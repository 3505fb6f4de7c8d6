import RustSql.Base.Fallible
import RustSql.Sqlite3.Btree

/-!
# Index b-trees

What a b-tree of index pages stores: the entries of its leaves and, between two
children of an interior page, the entry of the cell that separates them. All
leaves lie at one depth.
-/

namespace RustSql.Sqlite3

/-- The payloads of the cells of a leaf index page. -/
def leafPayloads (pager : Pager) : Bytes → Bool → Except DbError (List Bytes) :=
  leafCells .leafIndex "not a leaf index page" fun page cellOffset =>
    indexPayload pager page cellOffset 0 "index"

/-- A cell of an interior index page: the child before it and its own payload. -/
def interiorCell (pager : Pager) (page : Bytes) (cellOffset : ℕ) : Except DbError (ℕ × Bytes) := do
  let child ← decodeInteriorChildPointer page cellOffset
  let payload ← indexPayload pager page cellOffset 4 "interior index"
  .ok (child,payload)

/-- The cells of an interior index page and its rightmost child. A page without
cells would have a single child and separate nothing. -/
def interiorCells (pager : Pager) (page : Bytes) (firstPage : Bool) :
    Except DbError (List (ℕ × Bytes) × ℕ) := do
  let header ← BtreePageHeader.decode page firstPage
  if header.pageType≠.interiorIndex ∨ header.cellCount=0 then
    .error (.storage "not an interior index page")
  else
    let offsets ← cellOffsets page firstPage header
    let cells ← offsets.mapM (interiorCell pager page)
    .ok (cells,header.rightmostPointer.getD 0)

/-- The payloads below an interior page: of the child before each cell, then the
cell's own when `interior` asks for it, and last of the rightmost child. -/
def joinChildren (interior : Bool) (below : ℕ → Except DbError (List Bytes)) (rightmost : ℕ) :
    List (ℕ × Bytes) → Except DbError (List Bytes)
  | [] => below rightmost
  | (child,payload) :: cells => do
    let entries ← below child
    let rest ← joinChildren interior below rightmost cells
    .ok (entries++(if interior then [payload] else [])++rest)

/-- The payloads a b-tree of a height stores below a page, in order: of all its
cells, or, without the interior ones, of its leaves. -/
def treeEntries (interior : Bool) (pager : Pager) : ℕ → ℕ → Except DbError (List Bytes)
  | 0, pageNo => do
    let page ← pager.readPage pageNo
    leafPayloads pager page (pageNo=1)
  | height+1, pageNo => do
    let page ← pager.readPage pageNo
    let (cells,rightmost) ← interiorCells pager page (pageNo=1)
    joinChildren interior (fun child => treeEntries interior pager height child) rightmost cells

section Tree

variable {pager : Pager} {page : Bytes} {firstPage : Bool}

variable {cells : List (ℕ × Bytes)} {rightmost pageNo height child : ℕ} {payloads : List Bytes}
    {interior : Bool} {below : ℕ → Except DbError (List Bytes)}

/-- What an interior page of a tree holds. -/
theorem interiorCells_ok (h : interiorCells pager page firstPage=.ok (cells,rightmost)) :
    ∃ header offsets, BtreePageHeader.decode page firstPage=.ok header ∧
      header.pageType=.interiorIndex ∧ header.rightmostPointer=some rightmost ∧
      cellOffsets page firstPage header=.ok offsets ∧
      offsets.mapM (interiorCell pager page)=.ok cells ∧ 0 < cells.length := by
  obtain ⟨header,hheader,h⟩ := except_bind_ok h
  split at h
  · cases h
  · rename_i hnot
    have htype : header.pageType=.interiorIndex := by
      by_contra hne
      exact hnot (.inl hne)
    have hcount : 0 < header.cellCount := by omega
    obtain ⟨offsets,hoffsets,h⟩ := except_bind_ok h
    obtain ⟨cells',hcells,h⟩ := except_bind_ok h
    have hinterior : header.pageType.isInterior := by
      rw [htype]
      rfl
    obtain ⟨child,hchild⟩ := BtreePageHeader.decode_rightmost hheader hinterior
    rw [hchild] at h
    cases h
    have hlen : cells.length=header.cellCount := by
      rw [mapM_length hcells]
      exact cellOffsetsFrom_length hoffsets
    exact ⟨header,offsets,hheader,htype,hchild,hoffsets,hcells,by omega⟩

theorem leafPayloads_ok (h : leafPayloads pager page firstPage=.ok payloads) :
    ∃ header offsets, BtreePageHeader.decode page firstPage=.ok header ∧
      header.pageType=.leafIndex ∧ cellOffsets page firstPage header=.ok offsets ∧
      (offsets.mapM fun cellOffset => indexPayload pager page cellOffset 0 "index")=
        .ok payloads := by
  obtain ⟨header,hheader,h⟩ := except_bind_ok h
  split at h
  · cases h
  · rename_i hnot
    obtain ⟨offsets,hoffsets,h⟩ := except_bind_ok h
    exact ⟨header,offsets,hheader,not_not.mp hnot,hoffsets,h⟩

/-- A leaf is a page whose cells are the entries. -/
theorem treeEntries_zero (h : treeEntries interior pager 0 pageNo=.ok payloads) :
    ∃ page, pager.readPage pageNo=.ok page ∧ leafPayloads pager page (pageNo=1)=.ok payloads :=
  except_bind_ok h

/-- A tree of a height is a page with trees of the height below under it. -/
theorem treeEntries_succ (h : treeEntries interior pager (height+1) pageNo=.ok payloads) :
    ∃ page cells rightmost, pager.readPage pageNo=.ok page ∧
      interiorCells pager page (pageNo=1)=.ok (cells,rightmost) ∧
      joinChildren interior (treeEntries interior pager height) rightmost cells=.ok payloads := by
  obtain ⟨page,hpage,h⟩ := except_bind_ok h
  obtain ⟨⟨cells,rightmost⟩,hcells,h⟩ := except_bind_ok h
  exact ⟨page,cells,rightmost,hpage,hcells,h⟩

theorem joinChildren_cons {payload : Bytes}
    (h : joinChildren interior below rightmost ((child,payload) :: cells)=.ok payloads) :
    ∃ entries rest, below child=.ok entries ∧
      joinChildren interior below rightmost cells=.ok rest ∧
      payloads=entries++(if interior then [payload] else [])++rest := by
  obtain ⟨entries,hentries,h⟩ := except_bind_ok h
  obtain ⟨rest,hrest,h⟩ := except_bind_ok h
  cases h
  exact ⟨entries,rest,hentries,hrest,rfl⟩

theorem joinChildren_leaf {payload : Bytes} {leaves rest : List Bytes}
    (h : below child=.ok leaves) (hrest : joinChildren false below rightmost cells=.ok rest) :
    joinChildren false below rightmost ((child,payload) :: cells)=.ok (leaves++rest) := by
  rw [joinChildren,h]
  change (joinChildren _ _ _ _ >>= _)=_
  rw [hrest]
  change Except.ok (leaves++[]++rest)=_
  rw [List.append_nil]

theorem treeEntries_of_interior {page : Bytes} (hpage : pager.readPage pageNo=.ok page)
    (hcells : interiorCells pager page (pageNo=1)=.ok (cells,rightmost))
    (hjoin : joinChildren interior (treeEntries interior pager height) rightmost cells=
      .ok payloads) :
    treeEntries interior pager (height+1) pageNo=.ok payloads := by
  rw [treeEntries,hpage]
  change (interiorCells _ _ _ >>= _)=_
  rw [hcells]
  exact hjoin

/-- The leaves of a tree hold all entries but one for each interior cell. -/
theorem treeEntries_leaves (h : treeEntries true pager height pageNo=.ok payloads) :
    ∃ leaves, treeEntries false pager height pageNo=.ok leaves ∧ leaves.Sublist payloads ∧
      (0 < height → leaves.length < payloads.length) := by
  induction height generalizing pageNo payloads with
  | zero => exact ⟨payloads,h,List.Sublist.refl _,fun hpos => absurd hpos (lt_irrefl 0)⟩
  | succ height ih =>
    obtain ⟨page,cells,rightmost,hpage,hcells,hjoin⟩ := treeEntries_succ h
    have hjoined : ∃ leaves,
        joinChildren false (treeEntries false pager height) rightmost cells=.ok leaves ∧
        leaves.Sublist payloads ∧ leaves.length+cells.length ≤ payloads.length := by
      clear hcells h
      induction cells generalizing payloads with
      | nil =>
        obtain ⟨leaves,hleaves,hsub,-⟩ := ih hjoin
        exact ⟨leaves,hleaves,hsub,hsub.length_le⟩
      | cons cell cells ihc =>
        obtain ⟨child,payload⟩ := cell
        obtain ⟨entries,rest,hentries,hrest,hpayloads⟩ := joinChildren_cons hjoin
        obtain ⟨leaves,hleaves,hsub,-⟩ := ih hentries
        obtain ⟨leaves',hleaves',hsub',hlen'⟩ := ihc hrest
        have hlen := hsub.length_le
        rw [hpayloads]
        refine ⟨leaves++leaves',joinChildren_leaf hleaves hleaves',?_,?_⟩
        · rw [List.append_assoc]
          exact hsub.append (hsub'.trans (List.sublist_append_right _ _))
        · simp only [List.length_append,List.length_cons,List.length_nil,if_true]
          omega
    obtain ⟨leaves,hleaves,hsub,hlen⟩ := hjoined
    obtain ⟨_,_,_,_,_,_,_,hpos⟩ := interiorCells_ok hcells
    exact ⟨leaves,treeEntries_of_interior hpage hcells hleaves,hsub,fun _ => by omega⟩

end Tree

/-! ## Scans -/

section Scan

variable {σ β : Type}

/-- A scan that adds the decoded entries of every leaf to its state, and goes on with
the children of every interior page whose entries can be decoded. -/
structure Scans (pager : Pager)
    (visit : Bytes → Bool → BtreePageHeader → σ → Except DbError (Visit σ))
    (decode : Bytes → Except DbError β) (add : σ → List β → σ) : Prop where
  leaf : ∀ {page firstPage header payloads items} (state : σ),
    BtreePageHeader.decode page firstPage=.ok header →
    leafPayloads pager page firstPage=.ok payloads → payloads.mapM decode=.ok items →
    visit page firstPage header state=.ok (.leaf (add state items))
  interior : ∀ {page firstPage header cells rightmost} (state : σ),
    BtreePageHeader.decode page firstPage=.ok header →
    interiorCells pager page firstPage=.ok (cells,rightmost) →
    (∀ cell∈cells, ∃ item, decode cell.2=.ok item) →
    visit page firstPage header state=.ok (.interior (cells.map Prod.fst++[rightmost]))
  add_append : ∀ state items items', add state (items++items')=add (add state items) items'

variable {pager : Pager} {decode : Bytes → Except DbError β} {add : σ → List β → σ}
  {visit : Bytes → Bool → BtreePageHeader → σ → Except DbError (Visit σ)}

/-- A scan of a tree collects the entries of its leaves and no others. -/
theorem Scans.run (hscans : Scans pager visit decode add) {height pageNo : ℕ}
    {payloads : List Bytes} (h : treeEntries true pager height pageNo=.ok payloads)
    (hdecode : ∀ payload∈payloads, ∃ item, decode payload=.ok item) :
    ∃ leaves items, treeEntries false pager height pageNo=.ok leaves ∧
      leaves.mapM decode=.ok items ∧ ∀ fuel, height < fuel → ∀ state,
        scanPages pager visit fuel pageNo state=.ok (add state items) := by
  induction height generalizing pageNo payloads with
  | zero =>
    obtain ⟨page,hpage,hpayloads⟩ := treeEntries_zero h
    obtain ⟨header,offsets,hheader,-⟩ := leafPayloads_ok hpayloads
    obtain ⟨items,hitems⟩ := mapM_of_forall hdecode
    refine ⟨payloads,items,h,hitems,fun fuel hfuel state => ?_⟩
    obtain ⟨fuel,rfl⟩ : ∃ n, fuel=n+1 := ⟨fuel-1,by omega⟩
    exact scanPages_leaf hpage hheader (hscans.leaf state hheader hpayloads hitems)
  | succ height ih =>
    obtain ⟨page,cells,rightmost,hpage,hcells,hjoin⟩ := treeEntries_succ h
    obtain ⟨header,offsets,hheader,-⟩ := interiorCells_ok hcells
    have hjoined : (∀ cell∈cells, ∃ item, decode cell.2=.ok item) ∧ ∃ leaves items,
        joinChildren false (treeEntries false pager height) rightmost cells=.ok leaves ∧
        leaves.mapM decode=.ok items ∧ ∀ fuel, height < fuel → ∀ state,
          (cells.map Prod.fst++[rightmost]).foldlM
            (fun state child => scanPages pager visit fuel child state) state=
              .ok (add state items) := by
      clear hcells h
      induction cells generalizing payloads with
      | nil =>
        obtain ⟨leaves,items,hleaves,hitems,hscan⟩ := ih hjoin hdecode
        refine ⟨fun cell hcell => absurd hcell List.not_mem_nil,leaves,items,hleaves,hitems,
          fun fuel hfuel state => ?_⟩
        rw [List.map_nil,List.nil_append,List.foldlM_cons,hscan fuel hfuel]
        rfl
      | cons cell cells ihc =>
        obtain ⟨child,payload⟩ := cell
        obtain ⟨entries,rest,hentries,hrest,rfl⟩ := joinChildren_cons hjoin
        obtain ⟨leaves,items,hleaves,hitems,hscan⟩ := ih hentries fun p hp =>
          hdecode p (List.mem_append_left _ (List.mem_append_left _ hp))
        obtain ⟨hcells,leaves',items',hleaves',hitems',hscan'⟩ := ihc
          (fun p hp => hdecode p (List.mem_append_right _ hp)) hrest
        have hpayload : ∃ item, decode payload=.ok item :=
          hdecode payload (List.mem_append_left _ (List.mem_append_right _ List.mem_cons_self))
        refine ⟨fun cell hcell => ?_,leaves++leaves',items++items',?_,mapM_append hitems hitems',
          fun fuel hfuel state => ?_⟩
        · cases List.mem_cons.mp hcell with
          | inl heq => exact heq▸hpayload
          | inr hmem => exact hcells cell hmem
        · exact joinChildren_leaf hleaves hleaves'
        · rw [List.map_cons,List.cons_append,List.foldlM_cons,hscan fuel hfuel,Outcome.bind_ok,
            hscan' fuel hfuel,hscans.add_append]
    obtain ⟨hitem,leaves,items,hleaves,hitems,hscan⟩ := hjoined
    refine ⟨leaves,items,treeEntries_of_interior hpage hcells hleaves,hitems,
      fun fuel hfuel state => ?_⟩
    obtain ⟨fuel,rfl⟩ : ∃ n, fuel=n+1 := ⟨fuel-1,by omega⟩
    rw [scanPages_interior hpage hheader (hscans.interior state hheader hcells hitem)]
    exact hscan fuel (by omega) state

end Scan

end RustSql.Sqlite3
