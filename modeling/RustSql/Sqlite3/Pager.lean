import RustSql.Base.Bytes
import RustSql.Common.Error
import RustSql.Sqlite3.Varint

/-!
# B-tree pages

A b-tree page starts with a header of eight bytes on a leaf and twelve on an
interior page, followed by the cell pointer array; on the first page of the file
both stand behind the hundred bytes of the file header. The readers of the header,
of the pointer array and of a cell's start.
-/

namespace RustSql.Sqlite3

/-- `PageType`. -/
inductive PageType where
  | interiorIndex
  | interiorTable
  | leafIndex
  | leafTable
  deriving DecidableEq, Repr

/-- The `Debug` text of a page type. -/
def PageType.debug : PageType → String
  | .interiorIndex => "InteriorIndex"
  | .interiorTable => "InteriorTable"
  | .leafIndex => "LeafIndex"
  | .leafTable => "LeafTable"

/-- The pages that have children. -/
def PageType.isInterior : PageType → Bool
  | .interiorIndex | .interiorTable => true
  | .leafIndex | .leafTable => false

/-- The page type a type byte stands for. -/
def PageType.ofByte (byte : UInt8) : Option PageType :=
  if byte=0x02 then some .interiorIndex
  else if byte=0x05 then some .interiorTable
  else if byte=0x0a then some .leafIndex
  else if byte=0x0d then some .leafTable
  else none

/-- `BtreePageHeader`. -/
structure BtreePageHeader where
  pageType : PageType
  firstFreeblock : ℕ
  cellCount : ℕ
  cellContentAreaStart : ℕ
  fragmentedFreeBytes : UInt8
  rightmostPointer : Option ℕ
  deriving DecidableEq, Repr

/-- Where the b-tree header of a page starts. -/
def headerOffset (firstPage : Bool) : ℕ := if firstPage then 100 else 0

/-- The content start a header's sixteen bits stand for: zero means 65536. -/
def contentAreaStart (raw : ℕ) : ℕ := if raw=0 then 65536 else raw

/-- The digits of `{:x}`. -/
def hexDigits (byte : UInt8) : String := String.ofList (Nat.toDigits 16 byte.toNat)

/-- `BtreePageHeader::decode`. -/
def BtreePageHeader.decode (page : Bytes) (firstPage : Bool) : Except DbError BtreePageHeader :=
  let offset := headerOffset firstPage
  if page.length < offset+8 then .error (.storage "sqlite btree page is too short")
  else
    match PageType.ofByte (byteAt page offset) with
    | none =>
      .error (.storage s!"unknown sqlite btree page type 0x{hexDigits (byteAt page offset)}")
    | some pageType =>
      if pageType.isInterior ∧ page.length < offset+12 then
        .error (.storage "sqlite interior btree page is too short")
      else
        .ok ⟨pageType,decodeBe (slice page (offset+1) 2),decodeBe (slice page (offset+3) 2),
          contentAreaStart (decodeBe (slice page (offset+5) 2)),byteAt page (offset+7),
          if pageType.isInterior then some (decodeBe (slice page (offset+8) 4)) else none⟩

/-- The length of the b-tree header of a page type. -/
def PageType.headerLength (pageType : PageType) : ℕ := if pageType.isInterior then 12 else 8

/-- The loop of `cell_offsets`, from a place in the pointer array on. -/
def cellOffsetsFrom (page : Bytes) : ℕ → ℕ → Except DbError (List ℕ)
  | _, 0 => .ok []
  | offset, count+1 =>
    match window page offset (offset+2) with
    | none => .error (.storage "sqlite btree page has truncated cell pointer array")
    | some bytes => do
      let rest ← cellOffsetsFrom page (offset+2) count
      .ok (decodeBe bytes :: rest)

/-- `cell_offsets`. -/
def cellOffsets (page : Bytes) (firstPage : Bool) (header : BtreePageHeader) :
    Except DbError (List ℕ) :=
  cellOffsetsFrom page (headerOffset firstPage+header.pageType.headerLength) header.cellCount

/-- `slice_from`. -/
def sliceFrom (page : Bytes) (offset : ℕ) : Except DbError Bytes :=
  if offset ≤ page.length then .ok (page.drop offset)
  else .error (.storage "sqlite cell offset is out of bounds")

/-- `decode_interior_child_pointer`. -/
def decodeInteriorChildPointer (page : Bytes) (cellOffset : ℕ) : Except DbError ℕ :=
  match window page cellOffset (cellOffset+4) with
  | none => .error (.storage "sqlite interior table cell is truncated")
  | some bytes => .ok (decodeBe bytes)

/-- As many offsets are read as the header counts cells. -/
theorem cellOffsetsFrom_length {page : Bytes} {offset count : ℕ} {offsets : List ℕ}
    (h : cellOffsetsFrom page offset count=.ok offsets) : offsets.length=count := by
  induction count generalizing offset offsets with
  | zero =>
    cases h
    rfl
  | succ count ih =>
    rw [cellOffsetsFrom] at h
    cases hw : window page offset (offset+2) with
    | none =>
      rw [hw] at h
      cases h
    | some bytes =>
      rw [hw] at h
      obtain ⟨rest,hrest,h⟩ := except_bind_ok h
      cases h
      rw [List.length_cons,ih hrest]

/-- An interior page's header names its rightmost child. -/
theorem BtreePageHeader.decode_rightmost {page : Bytes} {firstPage : Bool}
    {header : BtreePageHeader} (h : BtreePageHeader.decode page firstPage=.ok header)
    (hinterior : header.pageType.isInterior) : ∃ child, header.rightmostPointer=some child := by
  unfold BtreePageHeader.decode at h
  simp only at h
  split at h
  · cases h
  · split at h
    · cases h
    · split at h
      · cases h
      · cases h
        exact ⟨_,if_pos hinterior⟩

end RustSql.Sqlite3

/-!
## Reading pages and payloads

The file is a row of pages of one size, numbered from one. A cell keeps at most a
local part of its payload on its page and chains the rest through overflow pages,
each of which starts with the number of the next.
-/

namespace RustSql.Sqlite3

/-- `Pager`, with the fields of the file header it uses. -/
structure Pager where
  pageSize : ℕ
  reservedBytes : ℕ
  file : Bytes

/-- `usable_size`. -/
def Pager.usableSize (pager : Pager) : Except DbError ℕ :=
  if pager.pageSize ≤ pager.reservedBytes then
    .error (.storage "sqlite reserved byte count must be smaller than page size")
  else .ok (pager.pageSize-pager.reservedBytes)

/-- `read_page`. -/
def Pager.readPage (pager : Pager) (pageNo : ℕ) : Except DbError Bytes :=
  if pageNo=0 then .error (.storage "sqlite page numbers start at 1")
  else if pager.file.length < (pageNo-1)*pager.pageSize+pager.pageSize then
    .error (.storage s!"sqlite page {pageNo} is out of bounds")
  else .ok (slice pager.file ((pageNo-1)*pager.pageSize) pager.pageSize)

/-- The loop of `read_overflow_chain`. A round takes at least one byte, so the
bytes that are left bound the rounds. -/
def Pager.readOverflowFrom (pager : Pager) (chunkSize : ℕ) :
    ℕ → ℕ → ℕ → Except DbError Bytes
  | 0, _, _ => .ok []
  | fuel+1, remaining, nextPage =>
    if remaining=0 then .ok []
    else do
      let page ← pager.readPage nextPage
      if page.length < 4 then
        .error (.storage s!"sqlite overflow page {nextPage} is truncated")
      else
        let taken := min remaining chunkSize
        match window page 4 (4+taken) with
        | none => .error (.storage
            s!"sqlite overflow page {nextPage} does not contain enough payload bytes")
        | some data =>
          if remaining-taken=0 then .ok data
          else if decodeBe (page.take 4)=0 then .error (.storage
            "sqlite overflow chain terminated before the payload was fully read")
          else do
            let rest ← pager.readOverflowFrom chunkSize fuel (remaining-taken)
              (decodeBe (page.take 4))
            .ok (data++rest)

/-- A round over a page that holds its part of the payload. -/
theorem Pager.readOverflowFrom_succ {pager : Pager} {chunkSize fuel remaining nextPage : ℕ}
    {page data : Bytes} (hpos : 0 < remaining) (hread : pager.readPage nextPage=.ok page)
    (hlen : 4 ≤ page.length)
    (hwindow : window page 4 (4+min remaining chunkSize)=some data) :
    pager.readOverflowFrom chunkSize (fuel+1) remaining nextPage=
      if remaining-min remaining chunkSize=0 then .ok data
      else if decodeBe (page.take 4)=0 then .error (.storage
        "sqlite overflow chain terminated before the payload was fully read")
      else
        (pager.readOverflowFrom chunkSize fuel (remaining-min remaining chunkSize)
          (decodeBe (page.take 4))).bind fun rest => .ok (data++rest) := by
  have hremaining : ¬remaining=0 := by omega
  have hshort : ¬page.length < 4 := by omega
  rw [Pager.readOverflowFrom,hread]
  simp only [bind,Except.bind,hremaining,hshort,if_false,hwindow]

/-- `read_overflow_chain`. -/
def Pager.readOverflowChain (pager : Pager) (firstOverflowPage remaining : ℕ) :
    Except DbError Bytes :=
  if firstOverflowPage=0 then
    .error (.storage "sqlite overflow chains must start at a non-zero page number")
  else do
    let usable ← pager.usableSize
    if usable < 4 then
      .error (.storage "sqlite usable page size is too small for overflow")
    else if usable-4=0 then
      .error (.storage "sqlite usable page size is too small for overflow payload data")
    else pager.readOverflowFrom (usable-4) remaining remaining firstOverflowPage

/-- The most bytes of a payload a page keeps of its share `part` of 255, or the
error of `kind` when the page is too small. -/
def localBound (usableSize part : ℕ) (message : String) : Except DbError ℕ :=
  if 12 ≤ usableSize ∧ 23 ≤ (usableSize-12)*part/255 then .ok ((usableSize-12)*part/255-23)
  else .error (.storage message)

/-- `btree_max_local`. -/
def btreeMaxLocal (usableSize : ℕ) (isIndex : Bool) : Except DbError ℕ :=
  if isIndex then localBound usableSize 64 "sqlite index max-local computation overflow"
  else if 35 ≤ usableSize then .ok (usableSize-35)
  else .error (.storage "sqlite table max-local computation overflow")

/-- `btree_min_local`. -/
def btreeMinLocal (usableSize : ℕ) (isIndex : Bool) : Except DbError ℕ :=
  localBound usableSize 32 (if isIndex then "sqlite index min-local computation overflow"
    else "sqlite table min-local computation overflow")

/-- The bytes of an overflowing payload that stay on the page. -/
def overflowingLocal (minLocal maxLocal chunkSize payloadSize : ℕ) : ℕ :=
  if maxLocal < minLocal+(payloadSize-minLocal)%chunkSize then minLocal
  else minLocal+(payloadSize-minLocal)%chunkSize

/-- The bytes of a payload that stay on the page. -/
def localPayload (usableSize minLocal maxLocal payloadSize : ℕ) : Except DbError ℕ :=
  if payloadSize ≤ maxLocal then .ok payloadSize
  else if usableSize < 4 then
    .error (.storage "sqlite usable page size is too small for overflow")
  else .ok (overflowingLocal minLocal maxLocal (usableSize-4) payloadSize)

/-- `read_btree_payload`. -/
def readBtreePayload (pager : Pager) (page : Bytes) (cellOffset cellHeaderLen payloadSize : ℕ)
    (isIndex : Bool) (kind : String) : Except DbError Bytes := do
  let usable ← pager.usableSize
  let maxLocal ← btreeMaxLocal usable isIndex
  let minLocal ← btreeMinLocal usable isIndex
  let kept ← localPayload usable minLocal maxLocal payloadSize
  let start := cellOffset+cellHeaderLen
  match window page start (start+kept) with
  | none => .error (.storage
      s!"sqlite {kind} payload bytes are truncated before overflow handling")
  | some bytes =>
    if payloadSize ≤ kept then .ok bytes
    else
      match window page (start+kept) (start+kept+4) with
      | none => .error (.storage s!"sqlite {kind} overflow pointer is truncated")
      | some pointer =>
        if decodeBe pointer=0 then .error (.storage
          s!"sqlite {kind} overflow payload is missing its first overflow page pointer")
        else do
          let overflow ← pager.readOverflowChain (decodeBe pointer) (payloadSize-kept)
          .ok (bytes++overflow)

end RustSql.Sqlite3
