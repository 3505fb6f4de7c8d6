import RustSql.Base.Fallible
import RustSql.Sqlite3.Writer

/-!
# Pages as written and read

A page the writer finishes is read back as its header, its cell offsets and, at each
offset, its cell.
-/

namespace RustSql.Sqlite3

/-- The cells placed so far: each stands at its pointer, and nothing stands below the
content start. -/
structure Placed (requiredStart : ℕ) (image : PageImage) (cells : List Bytes) : Prop where
  length : image.page.length=pageSize
  start_le : image.contentStart ≤ pageSize
  required : cells=[] ∨ requiredStart ≤ image.contentStart
  cells : List.Forall₂ (fun pointer cell => image.contentStart ≤ pointer ∧ pointer < 2^16 ∧
    pointer+cell.length ≤ pageSize ∧ slice image.page pointer cell.length=cell)
    image.pointers cells

theorem Placed.empty (requiredStart : ℕ) : Placed requiredStart .empty [] where
  length := List.length_replicate
  start_le := le_rfl
  required := .inl rfl
  cells := .nil

/-- Placing a cell leaves the cells above it. -/
theorem Placed.place {requiredStart : ℕ} {message : String} {image image' : PageImage}
    {cells : List Bytes} {cell : Bytes} (h : Placed requiredStart image cells)
    (hplace : image.place requiredStart message cell=.ok image') :
    Placed requiredStart image' (cells++[cell]) := by
  unfold PageImage.place at hplace
  split at hplace
  · cases hplace
  · rename_i hroom
    simp only at hplace
    split at hplace
    · rename_i hsmall
      cases hplace
      have hstart := h.start_le
      have hlength := h.length
      refine ⟨copyInto_length hlength (by omega),by dsimp only; omega,.inr (by dsimp only; omega),?_⟩
      refine List.rel_append ?_ (.cons ?_ .nil)
      · refine h.cells.imp fun pointer placed hcell => ?_
        obtain ⟨habove,hbound,hinside,hslice⟩ := hcell
        refine ⟨by dsimp only; omega,hbound,hinside,?_⟩
        rw [slice_copyInto_after (by omega) (by omega)]
        exact hslice
      · exact ⟨le_rfl,hsmall,by omega,slice_copyInto_same rfl (by omega)⟩
    · cases hplace

section Finished

variable {kind : UInt8} {cellCount : ℕ} {rightmost : Bytes} {image : PageImage} {page : Bytes}

theorem pageHeader_length (kind : UInt8) (cellCount contentStart : ℕ) (rightmost : Bytes) :
    (pageHeader kind cellCount contentStart rightmost).length=8+rightmost.length := by
  simp only [pageHeader,List.length_append,List.length_cons,List.length_nil,encodeBe_length]

theorem pointerArray_length (pointers : List ℕ) :
    (pointers.flatMap (encodeBe 2)).length=2*pointers.length := by
  induction pointers with
  | nil => rfl
  | cons pointer pointers ih =>
    rw [List.flatMap_cons,List.length_append,encodeBe_length,ih,List.length_cons]
    omega

/-- A finished page is its header, its pointer array and the cells. -/
theorem finishPage_ok {requiredStart : ℕ} {cells : List Bytes}
    (hplaced : Placed requiredStart image cells)
    (hrequired : requiredStart=8+rightmost.length+2*cells.length) (hsmall : requiredStart ≤ pageSize)
    (h : finishPage kind cellCount rightmost image=.ok page) :
    cellCount < 2^16 ∧ page.length=pageSize ∧
      page=pageHeader kind cellCount image.contentStart rightmost++
        image.pointers.flatMap (encodeBe 2)++image.page.drop requiredStart ∧
      List.Forall₂ (fun pointer cell => pointer < 2^16 ∧ pointer+cell.length ≤ pageSize ∧
        slice page pointer cell.length=cell) image.pointers cells := by
  unfold finishPage at h
  split at h
  · cases h
  · rename_i hcount
    split at h
    · cases h
    · have hlength := hplaced.length
      have hpointers := hplaced.cells.length_eq
      have hheader := pageHeader_length kind cellCount image.contentStart rightmost
      have harray := pointerArray_length image.pointers
      have hmerge : copyInto (copyInto image.page 0
          (pageHeader kind cellCount image.contentStart rightmost))
          (pageHeader kind cellCount image.contentStart rightmost).length
          (image.pointers.flatMap (encodeBe 2))=
            copyInto image.page 0 (pageHeader kind cellCount image.contentStart rightmost++
              image.pointers.flatMap (encodeBe 2)) := by
        have hadjacent := @copyInto_adjacent 0 image.page
          (pageHeader kind cellCount image.contentStart rightmost)
          (image.pointers.flatMap (encodeBe 2)) (by omega)
        rwa [Nat.zero_add] at hadjacent
      have hfront : (pageHeader kind cellCount image.contentStart rightmost++
          image.pointers.flatMap (encodeBe 2)).length=requiredStart := by
        rw [List.length_append]
        omega
      simp only [hmerge,Except.ok.injEq] at h
      refine ⟨by omega,?_,?_,?_⟩
      · rw [←h]
        exact copyInto_length hlength (by omega)
      · rw [←h,copyInto,List.take_zero,List.nil_append,Nat.zero_add,hfront]
      · by_cases hnil : cells=[]
        · have hnone := hplaced.cells
          rw [hnil] at hnone ⊢
          rw [List.forall₂_nil_right_iff.mp hnone]
          exact .nil
        · have habove := hplaced.required.resolve_left hnil
          refine hplaced.cells.imp fun pointer cell hcell => ?_
          obtain ⟨hstart,hbound,hinside,hslice⟩ := hcell
          refine ⟨hbound,hinside,?_⟩
          rw [←h,slice_copyInto_after (by omega) (by omega)]
          exact hslice

/-- The pointer array is read back. -/
theorem cellOffsetsFrom_ok {front rest : Bytes} {pointers : List ℕ}
    (h : ∀ pointer∈pointers, pointer < 2^16) :
    cellOffsetsFrom (front++pointers.flatMap (encodeBe 2)++rest) front.length pointers.length=
      .ok pointers := by
  induction pointers generalizing front with
  | nil => rfl
  | cons pointer pointers ih =>
    have hpointer := h pointer List.mem_cons_self
    have hrest := @ih (front++encodeBe 2 pointer)
      fun p hp => h p (List.mem_cons_of_mem pointer hp)
    rw [List.length_append,encodeBe_length] at hrest
    have hshape : front++(pointer :: pointers).flatMap (encodeBe 2)++rest=
        front++encodeBe 2 pointer++pointers.flatMap (encodeBe 2)++rest := by
      rw [List.flatMap_cons]
      simp only [List.append_assoc]
    have hwindow : window (front++encodeBe 2 pointer++pointers.flatMap (encodeBe 2)++rest)
        front.length (front.length+2)=some (encodeBe 2 pointer) := by
      rw [window_eq (by omega) (by simp only [List.length_append,encodeBe_length]; omega),
        Nat.add_sub_cancel_left]
      have hmiddle := slice_middle front (encodeBe 2 pointer) (pointers.flatMap (encodeBe 2)++rest)
      rw [encodeBe_length] at hmiddle
      simp only [List.append_assoc] at hmiddle ⊢
      rw [hmiddle]
    rw [hshape,List.length_cons,cellOffsetsFrom,hwindow]
    change (cellOffsetsFrom _ _ _ >>= _)=_
    rw [hrest]
    change Except.ok (decodeBe (encodeBe 2 pointer) :: pointers)=_
    rw [decodeBe_encodeBe (by norm_num at hpointer ⊢; omega)]

/-- The header of a finished page is read back. -/
theorem decode_finished {pageType : PageType} {contentStart : ℕ} {rest : Bytes}
    (hkind : PageType.ofByte kind=some pageType)
    (hrightmost : rightmost.length=if pageType.isInterior then 4 else 0)
    (hcount : cellCount < 2^16)
    (h : page=pageHeader kind cellCount contentStart rightmost++rest) :
    ∃ header, BtreePageHeader.decode page false=.ok header ∧ header.pageType=pageType ∧
      header.cellCount=cellCount ∧
      (pageType.isInterior → header.rightmostPointer=some (decodeBe rightmost)) := by
  have hlength := pageHeader_length kind cellCount contentStart rightmost
  have hbyte : byteAt page 0=kind := by
    rw [h,pageHeader]
    rfl
  have hcells : decodeBe (slice page 3 2)=cellCount := by
    have hslice : slice page 3 2=encodeBe 2 cellCount := by
      rw [h,pageHeader]
      rfl
    rw [hslice,decodeBe_encodeBe (by norm_num at hcount ⊢; omega)]
  have hshort : ¬page.length < 8 := by
    rw [h,List.length_append]
    omega
  have hlong : ¬(pageType.isInterior ∧ page.length < 12) := by
    intro hboth
    obtain ⟨hinterior,hlt⟩ := hboth
    rw [if_pos hinterior] at hrightmost
    rw [h,List.length_append] at hlt
    omega
  have hpointer : pageType.isInterior → slice page 8 4=rightmost := by
    intro hinterior
    rw [if_pos hinterior] at hrightmost
    have hmiddle := slice_middle (pageHeader kind cellCount contentStart []) rightmost rest
    rw [pageHeader_length,List.length_nil,hrightmost] at hmiddle
    rw [h]
    simpa only [pageHeader,List.append_nil] using hmiddle
  refine ⟨⟨pageType,decodeBe (slice page 1 2),decodeBe (slice page 3 2),
    contentAreaStart (decodeBe (slice page 5 2)),byteAt page 7,
    if pageType.isInterior then some (decodeBe (slice page 8 4)) else none⟩,?_,rfl,hcells,
    fun hinterior => ?_⟩
  · simp only [BtreePageHeader.decode,headerOffset,Bool.false_eq_true,if_false,Nat.zero_add,hbyte,
      hkind,hshort,hlong]
  · simp only [hinterior,if_true,hpointer hinterior]

/-- A finished page is read back: its header, its cell offsets and the cells that
stand at them. -/
theorem finishPage_reads {pageType : PageType} {requiredStart : ℕ} {cells : List Bytes}
    (hplaced : Placed requiredStart image cells) (hcount : cellCount=cells.length)
    (hkind : PageType.ofByte kind=some pageType)
    (hrightmost : rightmost.length=if pageType.isInterior then 4 else 0)
    (hrequired : requiredStart=8+rightmost.length+2*cells.length)
    (h : finishPage kind cellCount rightmost image=.ok page) :
    page.length=pageSize ∧ ∃ header offsets, BtreePageHeader.decode page false=.ok header ∧ header.pageType=pageType ∧
      (pageType.isInterior → header.rightmostPointer=some (decodeBe rightmost)) ∧
      cellOffsets page false header=.ok offsets ∧
      List.Forall₂ (fun offset cell => offset+cell.length ≤ page.length ∧
        slice page offset cell.length=cell) offsets cells := by
  have hwidth : rightmost.length ≤ 4 := by
    rw [hrightmost]
    split <;> omega
  have hsmall : requiredStart ≤ pageSize := by
    have hstart := hplaced.start_le
    cases hplaced.required with
    | inl hnil =>
      rw [hnil] at hrequired
      simp only [List.length_nil] at hrequired
      unfold pageSize
      omega
    | inr hle => omega
  obtain ⟨hsmallCount,hlength,hpage,hcells⟩ := finishPage_ok hplaced hrequired hsmall h
  have hfront : page=pageHeader kind cellCount image.contentStart rightmost++
      (image.pointers.flatMap (encodeBe 2)++image.page.drop requiredStart) := by
    rw [←List.append_assoc]
    exact hpage
  obtain ⟨header,hheader,htype,hheaderCount,hpointer⟩ :=
    decode_finished hkind hrightmost hsmallCount hfront
  refine ⟨hlength,header,image.pointers,hheader,htype,hpointer,?_,?_⟩
  · have hpointers := hcells.length_eq
    have hbound : ∀ pointer∈image.pointers, pointer < 2^16 := by
      intro pointer hmem
      obtain ⟨cell,-,hcell,-⟩ := forall₂_mem_left hcells hmem
      exact hcell
    have hoffset : headerOffset false+header.pageType.headerLength=
        (pageHeader kind cellCount image.contentStart rightmost).length := by
      rw [htype,pageHeader_length,hrightmost]
      change 0+(if pageType.isInterior then 12 else 8)=_
      split <;> rfl
    rw [cellOffsets,hoffset,hheaderCount,hcount,←hpointers,hpage]
    exact cellOffsetsFrom_ok hbound
  · refine hcells.imp fun offset cell hcell => ?_
    rw [hlength]
    exact hcell.2

end Finished

end RustSql.Sqlite3
