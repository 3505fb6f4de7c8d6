import RustSql.Base.Bytes
import RustSql.Common.Error

/-!
# Pages of the V2 store

A page is 4096 bytes: a magic number, a kind, and a payload. The meta page
keeps the page count, the catalog page and the next transaction id at fixed
offsets. The pager above works for every page representation that offers these
operations, gathered in `PageImage`; `BytePage` is the one on disk.
-/

namespace RustSql.V2

/-- `PAGE_SIZE`. -/
def pageSize : ℕ := 4096

/-- `STORAGE_MAGIC`, the bytes of `RSV2`. -/
def storageMagic : Bytes := [82,83,86,50]

/-- `KIND_OFFSET`. -/
def kindOffset : ℕ := 4

/-- `PAYLOAD_OFFSET`. -/
def payloadOffset : ℕ := 16

/-- Page numbers; the code's `u32`. -/
abbrev PageId := ℕ

/-- What a page holds. -/
inductive PageKind where
  | metaPage
  | catalogPage
  | leafPage
  | internalPage
  deriving DecidableEq, Repr

/-- The discriminant stored in the page. -/
def PageKind.code : PageKind → UInt8
  | .metaPage => 1
  | .catalogPage => 2
  | .leafPage => 3
  | .internalPage => 4

/-- `PageKind::try_from`. -/
def PageKind.ofCode (code : UInt8) : Except DbError PageKind :=
  if code=1 then .ok .metaPage
  else if code=2 then .ok .catalogPage
  else if code=3 then .ok .leafPage
  else if code=4 then .ok .internalPage
  else .error (.storage s!"unknown storage_v2 page kind: {code.toNat}")

@[simp] theorem PageKind.ofCode_code (kind : PageKind) : PageKind.ofCode kind.code=.ok kind := by
  cases kind <;> rfl

/-- The meta page's fields. -/
structure MetaPage where
  /-- Always `PAGE_SIZE`. -/
  pageSize : ℕ
  /-- Number of pages of the database. -/
  pageCount : ℕ
  /-- Where the catalog is stored. -/
  catalogPageId : PageId
  /-- First transaction id a reopened manager hands out. -/
  nextTxnId : ℕ
  deriving DecidableEq, Repr

/-- The fields fit the machine integers that hold them. -/
structure MetaPage.InRange (m : MetaPage) : Prop where
  pageSize : m.pageSize < 2^32
  pageCount : m.pageCount < 2^32
  catalogPageId : m.catalogPageId < 2^32
  nextTxnId : m.nextTxnId < 2^64

/-- `empty_page`: magic, kind, zeros. -/
def emptyPage (kind : PageKind) : Bytes :=
  storageMagic++kind.code::List.replicate (pageSize-5) 0

theorem emptyPage_length (kind : PageKind) : (emptyPage kind).length=pageSize := by
  simp only [emptyPage,List.length_append,List.length_cons,List.length_replicate]
  rfl

/-- `validate_page_buffer`. -/
def validatePageBuffer (page : Bytes) : Except DbError Unit :=
  if page.length≠pageSize then
    .error (.storage s!"storage_v2 page buffer must be exactly {pageSize} bytes")
  else if slice page 0 4≠storageMagic then .error (.storage "invalid storage_v2 page magic")
  else .ok ()

/-- `page_kind`. -/
def pageKind (page : Bytes) : Except DbError PageKind := do
  validatePageBuffer page
  PageKind.ofCode (byteAt page kindOffset)

/-- A part of known width fits at an offset that leaves room for it. -/
theorem part_fits {part : Bytes} {width : ℕ} (start : ℕ) (hw : part.length=width)
    (h : start+width ≤ pageSize) : start+part.length ≤ pageSize := by
  rw [hw]
  exact h

/-- `MetaPage::encode`: the four fields in place after the header. -/
def MetaPage.encode (m : MetaPage) : Bytes :=
  let page := emptyPage .metaPage
  let page := copyInto page payloadOffset (encodeLe 4 m.pageSize)
  let page := copyInto page (payloadOffset+4) (encodeLe 4 m.pageCount)
  let page := copyInto page (payloadOffset+8) (encodeLe 4 m.catalogPageId)
  copyInto page (payloadOffset+12) (encodeLe 8 m.nextTxnId)

/-- `MetaPage::decode`. -/
def MetaPage.decode (page : Bytes) : Except DbError MetaPage := do
  validatePageBuffer page
  let kind ← V2.pageKind page
  if kind≠.metaPage then .error (.storage "storage_v2 meta page has wrong page kind")
  else .ok {
    pageSize := decodeLe (slice page payloadOffset 4)
    pageCount := decodeLe (slice page (payloadOffset+4) 4)
    catalogPageId := decodeLe (slice page (payloadOffset+8) 4)
    nextTxnId := decodeLe (slice page (payloadOffset+12) 8) }

/-- Every buffer on the way to the encoded page has the page's size. -/
theorem MetaPage.encode_stages (m : MetaPage) :
    let page0 := emptyPage .metaPage
    let page1 := copyInto page0 payloadOffset (encodeLe 4 m.pageSize)
    let page2 := copyInto page1 (payloadOffset+4) (encodeLe 4 m.pageCount)
    let page3 := copyInto page2 (payloadOffset+8) (encodeLe 4 m.catalogPageId)
    page0.length=V2.pageSize ∧ page1.length=V2.pageSize ∧ page2.length=V2.pageSize ∧
      page3.length=V2.pageSize := by
  have h0 := emptyPage_length .metaPage
  have h1 := copyInto_length h0
    (part_fits payloadOffset (encodeLe_length 4 m.pageSize) (by decide))
  have h2 := copyInto_length h1
    (part_fits (payloadOffset+4) (encodeLe_length 4 m.pageCount) (by decide))
  have h3 := copyInto_length h2
    (part_fits (payloadOffset+8) (encodeLe_length 4 m.catalogPageId) (by decide))
  exact ⟨h0,h1,h2,h3⟩

/-- Every meta page fills its page exactly. -/
theorem MetaPage.encode_length (m : MetaPage) : m.encode.length=V2.pageSize := by
  obtain ⟨-,-,-,h3⟩ := m.encode_stages
  exact copyInto_length h3
    (part_fits (payloadOffset+12) (encodeLe_length 8 m.nextTxnId) (by decide))

/-- The header in front of the payload is the empty meta page's. -/
theorem MetaPage.encode_header (m : MetaPage) (start : ℕ) {length : ℕ}
    (h : start+length ≤ payloadOffset) :
    slice m.encode start length=slice (emptyPage .metaPage) start length := by
  obtain ⟨h0,h1,h2,h3⟩ := m.encode_stages
  simp only [payloadOffset] at h
  simp only [V2.pageSize,payloadOffset] at h0 h1 h2 h3
  simp only [MetaPage.encode,payloadOffset]
  rw [slice_copyInto_before (by omega) (by omega),slice_copyInto_before (by omega) (by omega),
    slice_copyInto_before (by omega) (by omega),slice_copyInto_before (by omega) (by omega)]

/-- The four fields stand where `decode` looks for them. -/
theorem MetaPage.encode_fields (m : MetaPage) :
    slice m.encode payloadOffset 4=encodeLe 4 m.pageSize ∧
    slice m.encode (payloadOffset+4) 4=encodeLe 4 m.pageCount ∧
    slice m.encode (payloadOffset+8) 4=encodeLe 4 m.catalogPageId ∧
    slice m.encode (payloadOffset+12) 8=encodeLe 8 m.nextTxnId := by
  obtain ⟨h0,h1,h2,h3⟩ := m.encode_stages
  simp only [V2.pageSize,payloadOffset] at h0 h1 h2 h3
  simp only [MetaPage.encode,payloadOffset]
  refine ⟨?_,?_,?_,?_⟩
  · rw [slice_copyInto_before (by omega) (by omega),slice_copyInto_before (by omega) (by omega),
      slice_copyInto_before (by omega) (by omega)]
    exact slice_copyInto_same (encodeLe_length 4 _) (by omega)
  · rw [slice_copyInto_before (by omega) (by omega),slice_copyInto_before (by omega) (by omega)]
    exact slice_copyInto_same (encodeLe_length 4 _) (by omega)
  · rw [slice_copyInto_before (by omega) (by omega)]
    exact slice_copyInto_same (encodeLe_length 4 _) (by omega)
  · exact slice_copyInto_same (encodeLe_length 8 _) (by omega)

/-- An encoded meta page passes the checks every page read makes. -/
theorem MetaPage.encode_valid (m : MetaPage) :
    validatePageBuffer m.encode=.ok () ∧ V2.pageKind m.encode=.ok .metaPage := by
  have hv : validatePageBuffer m.encode=.ok () := by
    unfold validatePageBuffer
    rw [m.encode_length,m.encode_header 0 (by decide)]
    rfl
  have hk : byteAt m.encode kindOffset=PageKind.metaPage.code := by
    unfold byteAt
    rw [m.encode_header kindOffset (by decide)]
    rfl
  refine ⟨hv,?_⟩
  unfold V2.pageKind
  rw [hv,hk]
  exact PageKind.ofCode_code .metaPage

/-- Decoding an encoded meta page gives it back. -/
theorem MetaPage.decode_encode {m : MetaPage} (h : m.InRange) : decode m.encode=.ok m := by
  obtain ⟨hv,hk⟩ := m.encode_valid
  obtain ⟨f1,f2,f3,f4⟩ := m.encode_fields
  unfold MetaPage.decode
  rw [hv,hk,f1,f2,f3,f4,decodeLe_encodeLe h.pageSize,decodeLe_encodeLe h.pageCount,
    decodeLe_encodeLe h.catalogPageId,decodeLe_encodeLe h.nextTxnId]
  rfl

/-! ## Page representations -/

/-- What the pager needs to know of a page: how a meta page is written and
read, what a fresh page of a kind looks like, and what a hole in the file
reads as. -/
class PageImage (P : Type) where
  /-- `MetaPage::encode`. -/
  ofMeta : MetaPage → P
  /-- `MetaPage::decode`. -/
  toMeta : P → Except DbError MetaPage
  /-- `empty_page`. -/
  empty : PageKind → P
  /-- A page of the file nobody has written: zeros. -/
  hole : P

/-- A page on disk: exactly `PAGE_SIZE` bytes. -/
abbrev BytePage := {page : Bytes // page.length=pageSize}

instance : PageImage BytePage where
  ofMeta m := ⟨m.encode,m.encode_length⟩
  toMeta page := MetaPage.decode page.val
  empty kind := ⟨emptyPage kind,emptyPage_length kind⟩
  hole := ⟨List.replicate pageSize 0,List.length_replicate⟩

end RustSql.V2
