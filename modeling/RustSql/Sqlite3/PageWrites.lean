import RustSql.Sqlite3.IndexReads
import RustSql.Sqlite3.PageImages

/-!
# What the writer leaves behind

Writing only adds pages and only uses fresh page numbers. Each piece the writer
produces, an overflow chain, a cell, a page, is read back from any file that holds
the pages written so far.
-/

namespace RustSql.Sqlite3

/-- The pages of a state stay, page numbers grow, and what is written are whole pages
with numbers already given out. -/
structure Extends (s t : PageFile) : Prop where
  next : s.nextPageNo ≤ t.nextPageNo
  keeps : ∀ pageNo page, s.pages pageNo=some page → t.pages pageNo=some page
  fresh : ∀ pageNo page, t.pages pageNo=some page → s.pages pageNo=some page ∨
    (2 ≤ pageNo ∧ pageNo < t.nextPageNo ∧ page.length=pageSize)

instance instIsPreorderExtends : IsPreorder PageFile Extends where
  refl _ := ⟨le_rfl,fun _ _ h => h,fun _ _ h => .inl h⟩
  trans s t u hst htu := by
    refine ⟨hst.next.trans htu.next,fun n page h => htu.keeps n page (hst.keeps n page h),
      fun n page h => ?_⟩
    have hnext := htu.next
    cases htu.fresh n page h with
    | inr hnew => exact .inr hnew
    | inl hold =>
      cases hst.fresh n page hold with
      | inl hold => exact .inl hold
      | inr hnew => exact .inr ⟨hnew.1,by omega,hnew.2.2⟩

/-- A page number is fresh and fits its four bytes. -/
theorem allocatePage_guarantee (s : PageFile) :
    Guarantee Extends s allocatePage fun n t =>
      s.nextPageNo ≤ n ∧ n < 2^32 ∧ n < t.nextPageNo := by
  refine .bind_get ?_
  split
  · rename_i hlt
    have hstep : Guarantee Extends s
        (Eff.modify fun s => { s with nextPageNo := s.nextPageNo+1 })
        fun _ t => t.nextPageNo=s.nextPageNo+1 :=
      .modify ⟨Nat.le_succ _,fun _ _ h => h,fun _ _ h => .inl h⟩ rfl
    exact .bind hstep fun _ t _ ht => .ret ⟨le_rfl,by omega,by omega⟩
  · exact .fail _

variable {s t : PageFile} {pageNos : List ℕ} {cells : List IndexLeafCellData}

/-- A new page is put in its place. -/
theorem insertPage_guarantee {pageNo : ℕ} {page : Bytes} (hpageNo : 2 ≤ pageNo)
    (hnext : pageNo < s.nextPageNo) (hlen : page.length=pageSize) :
    Guarantee Extends s (insertPage pageNo page) fun _ t => t.pages pageNo=some page := by
  refine .bind_get ?_
  split
  · exact .fail _
  · rename_i hfree
    refine .modify ⟨le_rfl,fun n old hold => ?_,fun n new hnew => ?_⟩ (Function.update_self _ _ _)
    · have hne : n≠pageNo := by
        rintro rfl
        rw [hold] at hfree
        exact hfree rfl
      exact (Function.update_of_ne hne _ _).trans hold
    · by_cases hn : n=pageNo
      · rw [hn] at hnew ⊢
        have hupdated : some page=some new :=
          (Function.update_self pageNo (some page) s.pages).symm.trans hnew
        have hpage := Option.some.inj hupdated
        exact .inr ⟨hpageNo,hnext,hpage▸hlen⟩
      · exact .inl ((Function.update_of_ne hn _ _).symm.trans hnew)

/-- A loop that collects values: what each round establishes holds at the end. -/
theorem mapEach_guarantee {α β : Type} {f : α → Eff PageFile β} {P : α → β → PageFile → Prop}
    (hmono : ∀ x y s t, Extends s t → P x y s → P x y t) {xs : List α}
    (h : ∀ x∈xs, ∀ t, Extends s t → Guarantee Extends t (f x) (P x)) :
    Guarantee Extends s (Eff.mapEach xs f) fun ys t =>
      List.Forall₂ (fun x y => P x y t) xs ys := by
  induction xs generalizing s with
  | nil => exact .ret .nil
  | cons x xs ih =>
    refine .bind (h x List.mem_cons_self s (refl_of Extends s)) fun y t hst hy => ?_
    refine .bind (ih fun z hz u htu =>
      h z (List.mem_cons_of_mem x hz) u (trans_of Extends hst htu)) fun ys u htu hys => ?_
    exact .ret (.cons (hmono x y t u htu hy) hys)

/-! ## Overflow chains -/

/-- The pages of an overflow chain hold the bytes. -/
def Chunks (pages : ℕ → Option Bytes) (chunkSize : ℕ) : List ℕ → Bytes → Prop
  | [], _ => True
  | pageNo :: rest, bytes =>
    pages pageNo=some (overflowPage (rest.headD 0) (bytes.take chunkSize)) ∧
      Chunks pages chunkSize rest (bytes.drop chunkSize)

/-- Chunks stay where they are. -/
theorem Chunks.mono {chunkSize : ℕ} {bytes : Bytes}
    (hst : Extends s t) (h : Chunks s.pages chunkSize pageNos bytes) :
    Chunks t.pages chunkSize pageNos bytes := by
  induction pageNos generalizing bytes with
  | nil => trivial
  | cons pageNo rest ih => exact ⟨hst.keeps pageNo _ h.1,ih h.2⟩

section OverflowPage

variable {next : ℕ} {bytes : Bytes}

/-- An overflow page is a page. -/
theorem overflowPage_length (h : 4+bytes.length ≤ pageSize) :
    (overflowPage next bytes).length=pageSize := by
  have hwidth := encodeBe_length 4 next
  refine copyInto_length (copyInto_length List.length_replicate ?_) h
  omega

/-- The next page's number is read back. -/
theorem overflowPage_next (hnext : next < 2^32) :
    decodeBe ((overflowPage next bytes).take 4)=next := by
  have hwidth := encodeBe_length 4 next
  have hzeros : (List.replicate pageSize (0 : UInt8)).length=pageSize := List.length_replicate
  have hhead : (copyInto (List.replicate pageSize 0) 0 (encodeBe 4 next)).length=pageSize :=
    copyInto_length hzeros (by unfold pageSize; omega)
  have hslice : slice (overflowPage next bytes) 0 4=encodeBe 4 next := by
    unfold overflowPage
    rw [slice_copyInto_before (by rw [hhead]; unfold pageSize; omega) (by omega)]
    exact slice_copyInto_same hwidth (Nat.zero_le _)
  change decodeBe (slice (overflowPage next bytes) 0 4)=next
  rw [hslice,decodeBe_encodeBe (by norm_num at hnext ⊢; omega)]

/-- The part of the payload is read back. -/
theorem overflowPage_window (h : 4+bytes.length ≤ pageSize) :
    window (overflowPage next bytes) 4 (4+bytes.length)=some bytes := by
  have hlen := @overflowPage_length next bytes h
  have hwidth := encodeBe_length 4 next
  have hhead : (copyInto (List.replicate pageSize 0) 0 (encodeBe 4 next)).length=pageSize :=
    copyInto_length List.length_replicate (by omega)
  rw [window_eq (by omega) (by omega),Nat.add_sub_cancel_left]
  exact congrArg some (slice_copyInto_same rfl (by omega))

end OverflowPage

/-- The chunks are written to their pages. -/
theorem writeChunks_guarantee {chunkSize : ℕ} (hsize : chunkSize+4 ≤ pageSize)
    (hpageNos : ∀ pageNo∈pageNos, 2 ≤ pageNo ∧ pageNo < s.nextPageNo)
    (bytes : Bytes) :
    Guarantee Extends s (writeChunks chunkSize pageNos bytes) fun _ t =>
      Chunks t.pages chunkSize pageNos bytes := by
  induction pageNos generalizing s bytes with
  | nil => exact .ret trivial
  | cons pageNo rest ih =>
    have hpageNo := hpageNos pageNo List.mem_cons_self
    have hlen : (overflowPage (rest.headD 0) (bytes.take chunkSize)).length=pageSize :=
      overflowPage_length (by rw [List.length_take]; omega)
    refine .bind (insertPage_guarantee hpageNo.1 hpageNo.2 hlen) fun _ t hst hpage => ?_
    have hrest : ∀ n∈rest, 2 ≤ n ∧ n < t.nextPageNo := fun n hn =>
      ⟨(hpageNos n (List.mem_cons_of_mem pageNo hn)).1,
        (hpageNos n (List.mem_cons_of_mem pageNo hn)).2.trans_le hst.next⟩
    exact (ih hrest (bytes.drop chunkSize)).mono fun _ u htu hchunks =>
      ⟨htu.keeps pageNo _ hpage,hchunks⟩

/-- The number of pages a chain of bytes takes. -/
def chainLength (chunkSize length : ℕ) : ℕ := (length+(chunkSize-1))/chunkSize

/-- An overflow chain whose page numbers can be read. -/
structure Chain (pages : ℕ → Option Bytes) (pageNos : List ℕ) (bytes : Bytes) : Prop where
  chunks : Chunks pages (pageSize-4) pageNos bytes
  length : pageNos.length=chainLength (pageSize-4) bytes.length
  bounds : ∀ pageNo∈pageNos, 2 ≤ pageNo ∧ pageNo < 2^32

/-- A chain stays where it is. -/
theorem Chain.mono {bytes : Bytes} (hst : Extends s t)
    (h : Chain s.pages pageNos bytes) : Chain t.pages pageNos bytes :=
  ⟨h.chunks.mono hst,h.length,h.bounds⟩

/-- The chain is written. -/
theorem writeOverflowChain_guarantee (hs : 2 ≤ s.nextPageNo) (bytes : Bytes) :
    Guarantee Extends s (writeOverflowChain bytes) fun first t =>
      ∃ pageNos, first=pageNos.headD 0 ∧ Chain t.pages pageNos bytes := by
  unfold writeOverflowChain
  split
  · exact .fail _
  · have hallocate := @mapEach_guarantee s Unit ℕ (fun _ => allocatePage)
      (fun _ n t => 2 ≤ n ∧ n < 2^32 ∧ n < t.nextPageNo)
      (fun _ _ _ _ htu h => ⟨h.1,h.2.1,h.2.2.trans_le htu.next⟩)
      (List.replicate (chainLength (pageSize-4) bytes.length) ())
      fun _ _ t hst => (allocatePage_guarantee t).mono fun n _ _ hn =>
        ⟨(hs.trans hst.next).trans hn.1,hn.2⟩
    refine .bind hallocate fun pageNos t hst hpageNos => ?_
    have hbounds : ∀ n∈pageNos, 2 ≤ n ∧ n < 2^32 ∧ n < t.nextPageNo := by
      intro n hn
      obtain ⟨_,-,hbound⟩ := forall₂_mem_left hpageNos.flip hn
      exact hbound
    refine .bind (writeChunks_guarantee (by decide) (fun n hn => ⟨(hbounds n hn).1,
      (hbounds n hn).2.2⟩) bytes) fun _ u htu hchunks => ?_
    refine .ret ⟨pageNos,rfl,hchunks,?_,fun n hn => ⟨(hbounds n hn).1,(hbounds n hn).2.1⟩⟩
    rw [←hpageNos.length_eq,List.length_replicate]

/-- A file with the pages written so far. -/
structure Holds (pager : Pager) (pages : ℕ → Option Bytes) : Prop where
  size : pager.pageSize=pageSize
  reserved : pager.reservedBytes=0
  readPage : ∀ pageNo page, pages pageNo=some page → pager.readPage pageNo=.ok page

/-- The file that is put together has the pages, the first with its header. -/
theorem assembleFile_holds {writeHeader : Bytes → Bytes} {pages final : ℕ → Option Bytes}
    {pageCount : ℕ} {file : Bytes} (h : assembleFile writeHeader final pageCount=.ok file)
    (hheader : ∀ page, page.length=pageSize → (writeHeader page).length=pageSize)
    (hlength : ∀ pageNo page, final pageNo=some page → page.length=pageSize)
    (hpages : ∀ pageNo page, pages pageNo=some page →
      final pageNo=some page ∧ 2 ≤ pageNo ∧ pageNo ≤ pageCount) :
    Holds ⟨pageSize,0,file⟩ pages := by
  obtain ⟨parts,hparts,h⟩ := except_bind_ok h
  cases h
  have hall := mapM_eq_ok.mp hparts
  have hwidth : ∀ part∈parts, part.length=pageSize := by
    intro part hpart
    obtain ⟨i,-,hi⟩ := forall₂_mem_left hall.flip hpart
    cases hpage : final (i+1) with
    | none =>
      simp only [hpage] at hi
      cases hi
    | some page =>
      have hlen := hlength (i+1) page hpage
      simp only [hpage] at hi
      cases hi
      split
      · exact hheader page hlen
      · exact hlen
  refine ⟨rfl,rfl,fun pageNo page hpage => ?_⟩
  obtain ⟨hfinal,htwo,hle⟩ := hpages pageNo page hpage
  obtain ⟨i,rfl⟩ : ∃ i, pageNo=i+1 := ⟨pageNo-1,by omega⟩
  obtain ⟨part,hpart,hi⟩ := forall₂_getElem? hall (List.getElem?_range (by omega : i < pageCount))
  have hfirst : ¬i+1=1 := by omega
  simp only [hfinal,hfirst,if_false] at hi
  cases hi
  obtain ⟨hslice,hend⟩ := slice_flatten hwidth hpart
  have hinside : ¬parts.flatten.length < (i+1-1)*pageSize+pageSize := by
    rw [Nat.add_sub_cancel]
    omega
  unfold Pager.readPage
  rw [if_neg (Nat.succ_ne_zero i),if_neg hinside]
  exact congrArg Except.ok hslice

/-- One page more for each chunk. -/
theorem chainLength_succ {chunkSize length : ℕ} (hchunk : 0 < chunkSize) (hpos : 0 < length) :
    chainLength chunkSize length=chainLength chunkSize (length-chunkSize)+1 := by
  unfold chainLength
  by_cases hle : chunkSize ≤ length
  · have hsplit : length+(chunkSize-1)=length-chunkSize+(chunkSize-1)+chunkSize := by omega
    rw [hsplit,Nat.add_div_right _ hchunk]
  · have hzero : length-chunkSize+(chunkSize-1)=chunkSize-1 := by omega
    have hone : length+(chunkSize-1)=length-1+chunkSize := by omega
    rw [hzero,hone,Nat.add_div_right _ hchunk,Nat.div_eq_of_lt (by omega : length-1 < chunkSize),
      Nat.div_eq_of_lt (by omega : chunkSize-1 < chunkSize)]

/-- The bytes of a written chain are read back. -/
theorem readOverflowFrom_ok {pager : Pager} {pages : ℕ → Option Bytes} {chunkSize fuel : ℕ}
    {bytes : Bytes} (hpager : Holds pager pages) (hchunk : 0 < chunkSize)
    (hsize : chunkSize+4 ≤ pageSize) (hbounds : ∀ pageNo∈pageNos, 2 ≤ pageNo ∧ pageNo < 2^32)
    (hlength : pageNos.length=chainLength chunkSize bytes.length)
    (hchunks : Chunks pages chunkSize pageNos bytes) (hfuel : bytes.length ≤ fuel) :
    pager.readOverflowFrom chunkSize fuel bytes.length (pageNos.headD 0)=.ok bytes := by
  induction pageNos generalizing bytes fuel with
  | nil =>
    have hempty : bytes.length=0 := by
      by_contra hne
      rw [chainLength_succ hchunk (Nat.pos_of_ne_zero hne),List.length_nil] at hlength
      omega
    rw [List.length_eq_zero_iff.mp hempty]
    cases fuel <;> rfl
  | cons pageNo rest ih =>
    obtain ⟨hpage,hrest⟩ := hchunks
    have hpos : 0 < bytes.length := by
      by_contra hzero
      have hlen : bytes.length=0 := by omega
      rw [hlen,List.length_cons,chainLength,Nat.zero_add,
        Nat.div_eq_of_lt (by omega : chunkSize-1 < chunkSize)] at hlength
      omega
    have hrestLength : rest.length=chainLength chunkSize (bytes.drop chunkSize).length := by
      rw [chainLength_succ hchunk hpos,List.length_cons] at hlength
      rw [List.length_drop]
      omega
    obtain ⟨fuel,rfl⟩ : ∃ n, fuel=n+1 := ⟨fuel-1,by omega⟩
    have htaken : (bytes.take chunkSize).length=min bytes.length chunkSize := by
      rw [List.length_take,min_comm]
    have hwindow := @overflowPage_window (rest.headD 0) (bytes.take chunkSize) (by omega)
    rw [htaken] at hwindow
    have hlen := @overflowPage_length (rest.headD 0) (bytes.take chunkSize) (by omega)
    rw [List.headD_cons,Pager.readOverflowFrom_succ hpos (hpager.readPage pageNo _ hpage)
      (by omega) hwindow]
    by_cases hlast : bytes.length-min bytes.length chunkSize=0
    · rw [if_pos hlast,List.take_of_length_le (by omega)]
    · have hdrop : bytes.length-min bytes.length chunkSize=(bytes.drop chunkSize).length := by
        rw [List.length_drop]
        omega
      have hnext : 2 ≤ rest.headD 0 ∧ rest.headD 0 < 2^32 := by
        rw [hdrop] at hlast
        rw [chainLength_succ hchunk (Nat.pos_of_ne_zero hlast)] at hrestLength
        cases rest with
        | nil => simp only [List.length_nil] at hrestLength; omega
        | cons next rest =>
          exact hbounds next (List.mem_cons_of_mem pageNo List.mem_cons_self)
      have hread := ih (fun n hn => hbounds n (List.mem_cons_of_mem pageNo hn)) hrestLength
        hrest (by rw [List.length_drop]; omega : (bytes.drop chunkSize).length ≤ fuel)
      rw [if_neg hlast,overflowPage_next hnext.2,hdrop,hread,if_neg (by omega)]
      change Except.ok (bytes.take chunkSize++bytes.drop chunkSize)=_
      rw [List.take_append_drop]

/-! ## Cells -/

/-- A cell with its payload: all of it, or its local part and an overflow chain with
the rest. -/
inductive Rendered (pages : ℕ → Option Bytes) (head payload : Bytes) (isIndex : Bool) :
    Bytes → Prop
  | whole : payload.length ≤ leafLocalPayloadLen payload.length isIndex →
    Rendered pages head payload isIndex (head++payload)
  | chained {pageNos : List ℕ} :
    leafLocalPayloadLen payload.length isIndex < payload.length →
    Chain pages pageNos (payload.drop (leafLocalPayloadLen payload.length isIndex)) →
    Rendered pages head payload isIndex
      (head++payload.take (leafLocalPayloadLen payload.length isIndex)++
        encodeBe 4 (pageNos.headD 0))

/-- A cell stays rendered. -/
theorem Rendered.mono {head payload cell : Bytes} {isIndex : Bool}
    (hst : Extends s t) (h : Rendered s.pages head payload isIndex cell) :
    Rendered t.pages head payload isIndex cell := by
  cases h with
  | whole hle => exact .whole hle
  | chained hlt hchain => exact .chained hlt (hchain.mono hst)

/-- A cell starts with what stands before its payload. -/
theorem Rendered.head_prefix {pages : ℕ → Option Bytes} {head payload cell : Bytes}
    {isIndex : Bool} (h : Rendered pages head payload isIndex cell) :
    ∃ rest, cell=head++rest := by
  cases h with
  | whole _ => exact ⟨payload,rfl⟩
  | chained _ _ => exact ⟨_,List.append_assoc _ _ _⟩

/-- A cell is rendered with its chain. -/
theorem renderCell_guarantee (hs : 2 ≤ s.nextPageNo) (head payload : Bytes) (isIndex : Bool) :
    Guarantee Extends s (renderCell head payload isIndex) fun cell t =>
      Rendered t.pages head payload isIndex cell := by
  unfold renderCell
  simp only
  split
  · rename_i hlt
    refine .bind (writeOverflowChain_guarantee hs _) fun first t _ hfirst => ?_
    obtain ⟨pageNos,rfl,hchain⟩ := hfirst
    exact .ret (.chained hlt hchain)
  · rename_i hle
    have hle : payload.length ≤ leafLocalPayloadLen payload.length isIndex := by omega
    rw [List.take_of_length_le hle]
    exact .ret (.whole hle)

section Payload

variable {pager : Pager} {pages : ℕ → Option Bytes} {page cell pointer payload : Bytes}
  {offset : ℕ} {kind : String}

/-- All of a page is usable. -/
theorem usableSize_ok (hpager : Holds pager pages) : pager.usableSize=.ok pageSize := by
  unfold Pager.usableSize
  rw [hpager.size,hpager.reserved]
  rfl

/-- Reader and writer agree on the local part of a payload. -/
theorem localPayload_ok (payloadSize : ℕ) (isIndex : Bool) :
    localPayload pageSize leafMinLocal (leafMaxLocal isIndex) payloadSize=
      .ok (leafLocalPayloadLen payloadSize isIndex) := by
  unfold localPayload leafLocalPayloadLen
  split
  · rfl
  · exact if_neg (by unfold pageSize; omega)

/-- The local part is a part. -/
theorem leafLocalPayloadLen_le (payloadSize : ℕ) (isIndex : Bool) :
    leafLocalPayloadLen payloadSize isIndex ≤ payloadSize := by
  have hmax : 489 ≤ leafMaxLocal isIndex := by
    cases isIndex
    · decide
    · decide
  have hmin : leafMinLocal=489 := rfl
  unfold leafLocalPayloadLen overflowingLocal
  rw [hmin]
  split
  · exact le_rfl
  · split
    · omega
    · omega

/-- A written chain of at least one byte is read back from its first page. -/
theorem readOverflowChain_ok {pageNos : List ℕ} {bytes : Bytes} (hpager : Holds pager pages)
    (hchain : Chain pages pageNos bytes) (hpos : 0 < bytes.length) :
    2 ≤ pageNos.headD 0 ∧ pageNos.headD 0 < 2^32 ∧
      pager.readOverflowChain (pageNos.headD 0) bytes.length=.ok bytes := by
  have hfirst : 2 ≤ pageNos.headD 0 ∧ pageNos.headD 0 < 2^32 := by
    have hlength := hchain.length
    rw [chainLength_succ (by unfold pageSize; omega) hpos] at hlength
    cases hnos : pageNos with
    | nil =>
      rw [hnos,List.length_nil] at hlength
      omega
    | cons first rest => exact hchain.bounds first (by rw [hnos]; exact List.mem_cons_self)
  have hread := readOverflowFrom_ok hpager (by unfold pageSize; omega : 0 < pageSize-4)
    (by unfold pageSize; omega) hchain.bounds hchain.length hchain.chunks le_rfl
  refine ⟨hfirst.1,hfirst.2,?_⟩
  unfold Pager.readOverflowChain
  rw [if_neg (by omega),usableSize_ok hpager]
  exact hread

/-- The payload of a written cell is read back. -/
theorem readBtreePayload_ok {head : Bytes} {isIndex : Bool} (hpager : Holds pager pages)
    (hcell : Rendered pages head payload isIndex cell)
    (hslice : slice page offset cell.length=cell) (hinside : offset+cell.length ≤ page.length) :
    readBtreePayload pager page offset head.length payload.length isIndex kind=.ok payload := by
  have husable := usableSize_ok hpager
  have hmax : btreeMaxLocal pageSize isIndex=.ok (leafMaxLocal isIndex) := by
    cases isIndex
    · rfl
    · rfl
  have hmin : btreeMinLocal pageSize isIndex=.ok leafMinLocal := by
    cases isIndex
    · rfl
    · rfl
  unfold readBtreePayload
  simp only [husable,hmax,hmin,localPayload_ok,bind,Except.bind]
  cases hcell with
  | whole hle =>
    have hkept : leafLocalPayloadLen payload.length isIndex=payload.length :=
      (leafLocalPayloadLen_le payload.length isIndex).antisymm hle
    have hwindow := window_inside hslice hinside (Nat.le_add_right head.length payload.length)
      (by rw [List.length_append])
    rw [Nat.add_sub_cancel_left,←List.append_nil (head++payload),slice_middle] at hwindow
    rw [hkept,Nat.add_assoc,hwindow]
    exact if_pos le_rfl
  | @chained pageNos hlt hchain =>
    have hkept : (payload.take (leafLocalPayloadLen payload.length isIndex)).length=
        leafLocalPayloadLen payload.length isIndex := by
      rw [List.length_take]
      omega
    have hrest : (payload.drop (leafLocalPayloadLen payload.length isIndex)).length=
        payload.length-leafLocalPayloadLen payload.length isIndex := List.length_drop
    obtain ⟨hpos,hsmall,hoverflow⟩ := readOverflowChain_ok hpager hchain (by omega)
    have hwidth := encodeBe_length 4 (pageNos.headD 0)
    have hlocal := window_inside hslice hinside
      (Nat.le_add_right head.length (leafLocalPayloadLen payload.length isIndex))
      (by simp only [List.length_append]; omega)
    have hmiddle := slice_middle head (payload.take (leafLocalPayloadLen payload.length isIndex))
      (encodeBe 4 (pageNos.headD 0))
    rw [hkept] at hmiddle
    rw [Nat.add_sub_cancel_left,hmiddle] at hlocal
    have hpointer := window_inside hslice hinside
      (Nat.le_add_right (head.length+leafLocalPayloadLen payload.length isIndex) 4)
      (by simp only [List.length_append]; omega)
    have hlast := slice_middle (head++payload.take (leafLocalPayloadLen payload.length isIndex))
      (encodeBe 4 (pageNos.headD 0)) []
    rw [List.length_append,hkept,hwidth,List.append_nil] at hlast
    rw [Nat.add_sub_cancel_left,hlast] at hpointer
    have hnext : decodeBe (encodeBe 4 (pageNos.headD 0))=pageNos.headD 0 :=
      decodeBe_encodeBe (by norm_num at hsmall ⊢; omega)
    have hassoc : offset+head.length+leafLocalPayloadLen payload.length isIndex+4=
        offset+(head.length+leafLocalPayloadLen payload.length isIndex+4) := by omega
    rw [hassoc,Nat.add_assoc offset,hlocal]
    simp only
    rw [if_neg (by omega),hpointer]
    simp only [hnext]
    rw [if_neg (by omega),←hrest,hoverflow]
    exact congrArg Except.ok (List.take_append_drop _ _)

/-- A written index cell is read back, with or without a child pointer before it. -/
theorem indexPayload_ok (hpager : Holds pager pages) (hsize : payload.length < 2^64)
    (hcell : Rendered pages (pointer++encodeVarint payload.length) payload true cell)
    (hslice : slice page offset cell.length=cell) (hinside : offset+cell.length ≤ page.length) :
    indexPayload pager page offset pointer.length kind=.ok payload := by
  obtain ⟨rest,hrest⟩ := hcell.head_prefix
  have hdrop := drop_of_slice hslice
  rw [hrest] at hdrop
  have hread : readBtreePayload pager page offset (pointer++encodeVarint payload.length).length
      payload.length true kind=.ok payload := readBtreePayload_ok hpager hcell hslice hinside
  rw [List.length_append] at hread
  have hlong : ¬(page.drop offset).length < pointer.length := by
    rw [hdrop]
    simp only [List.length_append]
    omega
  have hvarint : decodeVarint ((page.drop offset).drop pointer.length)=
      .ok (payload.length,(encodeVarint payload.length).length) := by
    rw [hdrop]
    simp only [List.append_assoc,List.drop_left]
    exact decodeVarint_encodeVarint hsize _
  unfold indexPayload sliceFrom
  rw [if_pos (by omega)]
  simp only [bind,Except.bind]
  rw [if_neg hlong,hvarint]
  exact hread

end Payload

/-! ## Pages -/

/-- Cells are rendered one by one and all stand on the page in the end. -/
theorem placeCells_guarantee {α : Type} {P : α → Bytes → PageFile → Prop}
    {render : α → Eff PageFile Bytes} {requiredStart : ℕ} {message : String}
    (hmono : ∀ x y s t, Extends s t → P x y s → P x y t) {cells : List α}
    (hrender : ∀ cell∈cells, ∀ t, Extends s t → Guarantee Extends t (render cell) (P cell))
    {image : PageImage} {placed : List Bytes} (hplaced : Placed requiredStart image placed) :
    Guarantee Extends s (placeCells requiredStart message render cells image) fun image' t =>
      ∃ rendered, List.Forall₂ (fun cell bytes => P cell bytes t) cells rendered ∧
        Placed requiredStart image' (placed++rendered) := by
  induction cells generalizing s image placed with
  | nil =>
    refine .ret ⟨[],.nil,?_⟩
    rwa [List.append_nil]
  | cons cell cells ih =>
    refine .bind (hrender cell List.mem_cons_self s (refl_of Extends s)) fun bytes t hst hbytes => ?_
    refine .bind_lift fun image' himage => ?_
    have hrest := ih (fun c hc u htu =>
      hrender c (List.mem_cons_of_mem cell hc) u (trans_of Extends hst htu)) (hplaced.place himage)
    refine hrest.mono fun image'' u htu hdone => ?_
    obtain ⟨rendered,hrendered,hplaced'⟩ := hdone
    rw [List.append_assoc] at hplaced'
    exact ⟨bytes :: rendered,.cons (hmono cell bytes t u htu hbytes) hrendered,hplaced'⟩

/-- A page of a type whose cells stand at the offsets its pointer array names. -/
structure CellPage (pageType : PageType) (rightmost : Option ℕ) (cells : List Bytes)
    (page : Bytes) : Prop where
  length : page.length=pageSize
  reads : ∃ header offsets, BtreePageHeader.decode page false=.ok header ∧
    header.pageType=pageType ∧ (pageType.isInterior → header.rightmostPointer=rightmost) ∧
    cellOffsets page false header=.ok offsets ∧
    List.Forall₂ (fun offset cell => offset+cell.length ≤ page.length ∧
      slice page offset cell.length=cell) offsets cells

/-- Cells are rendered, placed on a page and read back from it. -/
theorem cellPage_guarantee {α : Type} {P : α → Bytes → PageFile → Prop}
    {render : α → Eff PageFile Bytes} {message : String} {pageType : PageType} {kind : UInt8}
    {rightmost : Bytes} {next : Option ℕ} {header cellCount : ℕ}
    (hmono : ∀ x y s t, Extends s t → P x y s → P x y t) {cells : List α}
    (hrender : ∀ cell∈cells, ∀ t, Extends s t → Guarantee Extends t (render cell) (P cell))
    (hcount : cellCount=cells.length) (hkind : PageType.ofByte kind=some pageType)
    (hrightmost : rightmost.length=if pageType.isInterior then 4 else 0)
    (hheader : header=8+rightmost.length)
    (hnext : pageType.isInterior → some (decodeBe rightmost)=next) :
    Guarantee Extends s (do
      let image ← placeCells (header+2*cellCount) message render cells .empty
      Eff.lift (finishPage kind cellCount rightmost image)) fun page t =>
      ∃ rendered, CellPage pageType next rendered page ∧
        List.Forall₂ (fun cell bytes => P cell bytes t) cells rendered := by
  refine .bind (placeCells_guarantee hmono hrender (Placed.empty _)) fun image t _ hplaced =>
    .lift fun page hpage => ?_
  obtain ⟨rendered,hrendered,hplaced⟩ := hplaced
  rw [List.nil_append] at hplaced
  have hrenderedCount := hrendered.length_eq
  obtain ⟨hlength,header,offsets,hheader,htype,hpointer,hoffsets,hslices⟩ :=
    finishPage_reads hplaced (by omega) hkind hrightmost (by omega) hpage
  have hpointed : pageType.isInterior → header.rightmostPointer=next := fun hinterior =>
    (hpointer hinterior).trans (hnext hinterior)
  exact ⟨rendered,⟨hlength,header,offsets,hheader,htype,hpointed,hoffsets,hslices⟩,hrendered⟩

/-- A leaf page with the cells of a list. -/
def LeafPage (pages : ℕ → Option Bytes) (cells : List IndexLeafCellData) (page : Bytes) : Prop :=
  ∃ rendered, CellPage .leafIndex none rendered page ∧
    List.Forall₂ (fun cell bytes => cell.payload.length < 2^64 ∧
      Rendered pages (encodeVarint cell.payload.length) cell.payload true bytes) cells rendered

/-- An interior page over the children of a list and a rightmost child. -/
def InteriorPage (children : List IndexChildPage) (rightmost : ℕ) (page : Bytes) : Prop :=
  ∃ rendered, CellPage .interiorIndex (some rightmost) rendered page ∧
    List.Forall₂ (fun (child : IndexChildPage) bytes =>
      ∃ rest, bytes=encodeBe 4 child.pageNo++rest) children rendered

/-- A leaf is a page. -/
theorem LeafPage.length {pages : ℕ → Option Bytes} {page : Bytes}
    (h : LeafPage pages cells page) : page.length=pageSize := by
  obtain ⟨_,hpage,-⟩ := h
  exact hpage.length

/-- A length that is written fits. -/
theorem payloadLenVarint_ok {payload head : Bytes} (h : payloadLenVarint payload=.ok head) :
    payload.length < 2^64 ∧ head=encodeVarint payload.length := by
  unfold payloadLenVarint at h
  split at h
  · rename_i hlt
    cases h
    exact ⟨hlt,rfl⟩
  · cases h

/-- A leaf of an index is built of its cells. -/
theorem buildLeafIndexPageCells_guarantee (hs : 2 ≤ s.nextPageNo) (cells : List IndexLeafCellData) :
    Guarantee Extends s (buildLeafIndexPageCells cells) fun page t => LeafPage t.pages cells page := by
  have hrender : ∀ cell∈cells, ∀ t, Extends s t → Guarantee Extends t (renderIndexLeafCell cell)
      fun bytes u => cell.payload.length < 2^64 ∧
        Rendered u.pages (encodeVarint cell.payload.length) cell.payload true bytes := by
    intro cell _ t hst
    refine .bind_lift fun head hhead => ?_
    obtain ⟨hsize,rfl⟩ := payloadLenVarint_ok hhead
    exact (renderCell_guarantee (hs.trans hst.next) _ _ _).mono fun bytes _ _ hbytes => ⟨hsize,hbytes⟩
  exact cellPage_guarantee (fun _ _ _ _ hst h => ⟨h.1,h.2.mono hst⟩) hrender rfl rfl rfl rfl
    fun h => by cases h

/-- An interior page is built of its children, the last one apart. -/
theorem buildInteriorIndexPage_guarantee (hs : 2 ≤ s.nextPageNo) (children : List IndexChildPage) :
    Guarantee Extends s (buildInteriorIndexPage children) fun page _ =>
      page.length=pageSize ∧ ∃ init last, children=init++[last] ∧ init≠[] ∧
        (last.pageNo < 2^32 → InteriorPage init last.pageNo page) := by
  unfold buildInteriorIndexPage
  cases hlast : children.getLast? with
  | none => exact .fail _
  | some last =>
    simp only
    split
    · exact .fail _
    · rename_i hlen
      have hchildren : children=children.dropLast++[last] :=
        (List.dropLast_append_getLast? last hlast).symm
      have hinit : children.dropLast.length=children.length-1 := List.length_dropLast
      have hrender : ∀ child∈children.dropLast, ∀ t, Extends s t →
          Guarantee Extends t (renderInteriorIndexCell child) fun bytes _ =>
            ∃ rest, bytes=encodeBe 4 child.pageNo++rest := by
        intro child _ t hst
        refine .bind_lift fun payload _ => .bind_lift fun head _ => ?_
        refine (renderCell_guarantee (hs.trans hst.next) _ _ _).mono fun bytes _ _ hbytes => ?_
        obtain ⟨rest,hrest⟩ := hbytes.head_prefix
        exact ⟨head++rest,hrest.trans (List.append_assoc _ _ _)⟩
      refine (cellPage_guarantee (fun _ _ _ _ _ h => h) hrender hinit.symm rfl
        (encodeBe_length 4 last.pageNo) (by rw [encodeBe_length]) fun _ => rfl).mono
          fun page t _ hpage => ?_
      obtain ⟨rendered,hpage,hrendered⟩ := hpage
      refine ⟨hpage.length,children.dropLast,last,hchildren,?_,fun hsmall => ?_⟩
      · intro hnil
        rw [hnil,List.length_nil] at hinit
        omega
      · rw [decodeBe_encodeBe (by norm_num at hsmall ⊢; omega)] at hpage
        exact ⟨rendered,hpage,hrendered⟩

/-- The payloads of a written leaf are read back. -/
theorem LeafPage.payloads {pager : Pager} {pages : ℕ → Option Bytes} {page : Bytes}
    (hpager : Holds pager pages)
    (h : LeafPage pages cells page) :
    leafPayloads pager page false=.ok (cells.map IndexLeafCellData.payload) := by
  obtain ⟨rendered,⟨-,header,offsets,hheader,htype,-,hoffsets,hslices⟩,hrendered⟩ := h
  have hpayloads : (offsets.mapM fun offset => indexPayload pager page offset 0 "index")=
      .ok (cells.map IndexLeafCellData.payload) := by
    refine mapM_eq_ok.mpr ?_
    clear hoffsets
    induction hslices generalizing cells with
    | nil =>
      rw [List.forall₂_nil_right_iff.mp hrendered]
      exact .nil
    | @cons offset bytes offsets rendered hslice _ ih =>
      obtain ⟨cell,rest,hcell,hrest,rfl⟩ := List.forall₂_cons_right_iff.mp hrendered
      obtain ⟨hsize,hbytes⟩ := hcell
      obtain ⟨hinside,hslice⟩ := hslice
      have hread := @indexPayload_ok pager pages page bytes [] cell.payload offset "index" hpager
        hsize hbytes hslice hinside
      exact .cons hread (ih hrest)
  unfold leafPayloads leafCells
  simp only [hheader,bind,Except.bind,htype,ne_eq,not_true_eq_false,if_false,hoffsets]
  exact hpayloads

/-- The cells of a written interior page name its children. -/
theorem InteriorPage.children {pager : Pager} {children : List IndexChildPage} {rightmost : ℕ}
    {page : Bytes} {cells : List (ℕ × Bytes)} {last : ℕ}
    (hbounds : ∀ child∈children, child.pageNo < 2^32) (h : InteriorPage children rightmost page)
    (hcells : interiorCells pager page false=.ok (cells,last)) :
    cells.map Prod.fst=children.map IndexChildPage.pageNo ∧ last=rightmost := by
  obtain ⟨rendered,⟨-,header,offsets,hheader,htype,hpointer,hoffsets,hslices⟩,hrendered⟩ := h
  obtain ⟨header',offsets',hheader',-,hlast,hoffsets',hparts,-⟩ := interiorCells_ok hcells
  obtain rfl := Except.ok.inj (hheader.symm.trans hheader')
  obtain rfl := Except.ok.inj (hoffsets.symm.trans hoffsets')
  have hright := hpointer rfl
  rw [hlast] at hright
  refine ⟨?_,Option.some.inj hright⟩
  have hall := mapM_eq_ok.mp hparts
  clear hoffsets hoffsets' hcells hparts
  induction hslices generalizing cells children with
  | nil =>
    rw [List.forall₂_nil_right_iff.mp hrendered,List.forall₂_nil_left_iff.mp hall]
    rfl
  | @cons offset bytes offsets rendered hslice _ ih =>
    obtain ⟨child,restChildren,⟨rest,hbytes⟩,hchildren,rfl⟩ :=
      List.forall₂_cons_right_iff.mp hrendered
    obtain ⟨cell,restCells,hcell,hrestCells,rfl⟩ := List.forall₂_cons_left_iff.mp hall
    obtain ⟨hinside,hslice⟩ := hslice
    have hwidth := encodeBe_length 4 child.pageNo
    have hwindow := window_inside hslice hinside (Nat.zero_le 4)
      (by rw [hbytes,List.length_append]; omega)
    have hfront : slice bytes 0 4=encodeBe 4 child.pageNo := by
      have hmiddle := slice_middle [] (encodeBe 4 child.pageNo) rest
      rw [hwidth,List.nil_append] at hmiddle
      rw [hbytes]
      exact hmiddle
    have hsmall := hbounds child List.mem_cons_self
    rw [Nat.add_zero,Nat.sub_zero,hfront] at hwindow
    have hdecoded : decodeInteriorChildPointer page offset=.ok child.pageNo := by
      unfold decodeInteriorChildPointer
      rw [hwindow]
      exact congrArg Except.ok (decodeBe_encodeBe (by norm_num at hsmall ⊢; omega))
    have hfst : cell.1=child.pageNo :=
      Except.ok.inj ((interiorCell_ok hcell).1.symm.trans hdecoded)
    rw [List.map_cons,List.map_cons,hfst,
      ih (fun c hc => hbounds c (List.mem_cons_of_mem child hc)) hchildren hrestCells]

end RustSql.Sqlite3
