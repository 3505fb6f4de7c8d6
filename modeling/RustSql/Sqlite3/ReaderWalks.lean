import RustSql.Base.Fallible
import RustSql.Base.Walks
import RustSql.Sqlite3.SchemaRows

/-!
# Where the readers come back

The readers of a file walk through its pages along the child pointers and keep no record of
the pages they have seen. They come back exactly when no page leads to itself along the
pointers they get to follow.
-/

namespace RustSql.Sqlite3

variable {σ : Type}

/-! ## The readers as walks -/

/-- What a page is to a scan. -/
def lookPage (pager : Pager)
    (visit : Bytes → Bool → BtreePageHeader → σ → Except DbError (Visit σ)) (pageNo : ℕ)
    (firstPage : Bool) (state : σ) : Except DbError (Visit σ) := do
  let page ← pager.readPage pageNo
  let header ← BtreePageHeader.decode page firstPage
  visit page firstPage header state

/-- The step of a walk that goes with a page. -/
def Visit.looked {ν : Type} (node : ℕ → ν) : Visit σ → Looked ν σ
  | .leaf state => .done state
  | .interior children => .descend (children.map node)

/-- The walk of the scans of a table or an index. -/
def lookScan (pager : Pager)
    (visit : Bytes → Bool → BtreePageHeader → σ → Except DbError (Visit σ)) (pageNo : ℕ)
    (state : σ) : Except DbError (Looked ℕ σ) :=
  (lookPage pager visit pageNo (pageNo=1) state).map (Visit.looked id)

/-- The walk of the scan of the schema table, in which only the root is read as the first
page. -/
def lookSchema (pager : Pager) (place : ℕ × Bool) (rows : List SchemaRow) :
    Except DbError (Looked (ℕ × Bool) (List SchemaRow)) :=
  (lookPage pager (visitSchemaPage pager) place.1 place.2 rows).map
    (Visit.looked fun child => (child,false))

/-- The page of `get_table_row`: a leaf has the row or not, an interior page names one
child. -/
def visitRowPage (pager : Pager) (schema : Table) (rowId : RowId) (page : Bytes)
    (firstPage : Bool) (header : BtreePageHeader) (_ : Option Row) :
    Except DbError (Visit (Option Row)) :=
  match header.pageType with
  | .leafTable => do
    let cells ← decodeLeafTableCells pager schema page firstPage
    .ok (.leaf ((cells.find? fun cell => cell.1==rowId).map Prod.snd))
  | .interiorTable => do
    let offsets ← cellOffsets page firstPage header
    let child ← tableRowChild page header rowId offsets
    .ok (.interior [child])
  | other => .error (.storage
      s!"sqlite table reader does not support page type {other.debug}")

section Walks

variable (pager : Pager)

/-- Reading a page step by step. -/
theorem lookPage_bind
    (visit : Bytes → Bool → BtreePageHeader → σ → Except DbError (Visit σ)) (pageNo : ℕ)
    (firstPage : Bool) (state : σ) {β : Type} (f : Visit σ → Outcome β) :
    (do
      let page ← Outcome.ofExcept (pager.readPage pageNo)
      let header ← Outcome.ofExcept (BtreePageHeader.decode page firstPage)
      let visited ← Outcome.ofExcept (visit page firstPage header state)
      f visited)=Outcome.ofExcept (lookPage pager visit pageNo firstPage state) >>= f := by
  rw [lookPage]
  cases pager.readPage pageNo with
  | error error => rfl
  | ok page =>
    cases hheader : BtreePageHeader.decode page firstPage with
    | error error =>
      change (Outcome.ofExcept (BtreePageHeader.decode page firstPage) >>= _)=
        Outcome.ofExcept (BtreePageHeader.decode page firstPage >>= _) >>= f
      rw [hheader]
      rfl
    | ok header =>
      change (Outcome.ofExcept (BtreePageHeader.decode page firstPage) >>= _)=
        Outcome.ofExcept (BtreePageHeader.decode page firstPage >>= _) >>= f
      rw [hheader]
      rfl

/-- A scan is a walk. -/
theorem scanPages_eq_walk
    (visit : Bytes → Bool → BtreePageHeader → σ → Except DbError (Visit σ)) (fuel pageNo : ℕ)
    (state : σ) :
    scanPages pager visit fuel pageNo state=walk (lookScan pager visit) fuel pageNo state := by
  induction fuel generalizing pageNo state with
  | zero => rfl
  | succ fuel ih =>
    rw [scanPages,walk,lookScan,lookPage_bind]
    simp only [ih]
    cases lookPage pager visit pageNo (pageNo=1) state with
    | error error => rfl
    | ok visited =>
      cases visited with
      | leaf state' => rfl
      | interior children =>
        change children.foldlM _ state=(children.map id).foldlM _ state
        rw [List.map_id]

/-- So is the scan of the schema. -/
theorem scanSchemaPage_eq_walk (fuel pageNo : ℕ) (firstPage : Bool) (rows : List SchemaRow) :
    scanSchemaPage pager fuel pageNo firstPage rows=
      walk (lookSchema pager) fuel (pageNo,firstPage) rows := by
  induction fuel generalizing pageNo firstPage rows with
  | zero => rfl
  | succ fuel ih =>
    rw [scanSchemaPage,walk,lookSchema,lookPage_bind]
    simp only [ih]
    cases lookPage pager (visitSchemaPage pager) pageNo firstPage rows with
    | error error => rfl
    | ok visited =>
      cases visited with
      | leaf rows' => rfl
      | interior children =>
        change children.foldlM _ rows=
          (children.map fun child => (child,false)).foldlM _ rows
        rw [List.foldlM_map]

/-- A lookup of a row is a scan. -/
theorem getTableRowFromPage_eq_scan (schema : Table) (rowId : RowId) (fuel pageNo : ℕ)
    (row : Option Row) :
    getTableRowFromPage pager schema rowId fuel pageNo=
      scanPages pager (visitRowPage pager schema rowId) fuel pageNo row := by
  induction fuel generalizing pageNo row with
  | zero => rfl
  | succ fuel ih =>
    rw [getTableRowFromPage,scanPages]
    refine bind_congr fun page => bind_congr fun header => ?_
    unfold visitRowPage
    cases header.pageType with
    | leafTable =>
      dsimp only
      cases decodeLeafTableCells pager schema page (pageNo=1) <;> rfl
    | interiorTable =>
      dsimp only
      cases cellOffsets page (pageNo=1) header with
      | error error => rfl
      | ok offsets =>
        change (Outcome.ofExcept (tableRowChild page header rowId offsets) >>= _)=
          (Outcome.ofExcept (tableRowChild page header rowId offsets >>= _) >>= _)
        cases tableRowChild page header rowId offsets with
        | error error => rfl
        | ok child =>
          change getTableRowFromPage pager schema rowId fuel child=
            (scanPages pager (visitRowPage pager schema rowId) fuel child row >>= pure)
          rw [ih child row]
          cases scanPages pager (visitRowPage pager schema rowId) fuel child row <;> rfl
    | leafIndex => rfl
    | interiorIndex => rfl

/-! ## The pages a reader follows -/

/-- The children a page names to a scan, if the scan can read it. -/
def scanChildren (visit : Bytes → Bool → BtreePageHeader → σ → Except DbError (Visit σ))
    (start : σ) (pageNo : ℕ) : Option (List ℕ) :=
  shape (lookScan pager visit pageNo start)

/-- The children a page names to the reader of the catalog. -/
def schemaChildren (place : ℕ × Bool) : Option (List (ℕ × Bool)) :=
  shape (lookSchema pager place [])

/-- `page_count`. -/
def Pager.pageCount : ℕ := pager.file.length/pager.pageSize

variable {pager}

/-- A page that could be read is one of the file's. -/
theorem lookPage_inFile {visit : Bytes → Bool → BtreePageHeader → σ → Except DbError (Visit σ)}
    {pageNo : ℕ} {firstPage : Bool} {state : σ} {visited : Visit σ}
    (h : lookPage pager visit pageNo firstPage state=.ok visited) :
    pageNo∈Finset.Icc 1 pager.pageCount := by
  obtain ⟨page,hpage,h⟩ := except_bind_ok h
  obtain ⟨header,hheader,-⟩ := except_bind_ok h
  unfold Pager.readPage at hpage
  split at hpage
  · cases hpage
  · rename_i hpos
    split at hpage
    · cases hpage
    · rename_i hlength
      have hslice : slice pager.file ((pageNo-1)*pager.pageSize) pager.pageSize=page :=
        Except.ok.inj hpage
      have hpageLength : page.length ≤ pager.pageSize := by
        rw [← hslice]
        unfold slice
        simp
      have hlong : 8 ≤ page.length := by
        unfold BtreePageHeader.decode at hheader
        dsimp only at hheader
        split at hheader
        · cases hheader
        · omega
      have hone : 1 ≤ pageNo := Nat.one_le_iff_ne_zero.mpr hpos
      have hend : pageNo*pager.pageSize ≤ pager.file.length := by
        obtain ⟨before,rfl⟩ : ∃ before, pageNo=before+1 := ⟨pageNo-1,by omega⟩
        rw [Nat.succ_mul]
        simpa using Nat.le_of_not_lt hlength
      have hsize : 0 < pager.pageSize := by omega
      rw [Finset.mem_Icc]
      exact ⟨hone,(Nat.le_div_iff_mul_le hsize).mpr hend⟩

end Walks

/-! ## What the readers make of a page -/

section Visits

/-- What a scan has collected does not change what it makes of a page. -/
def Steady (visit : Bytes → Bool → BtreePageHeader → σ → Except DbError (Visit σ)) (start : σ) :
    Prop :=
  ∀ page firstPage header state,
    shape ((visit page firstPage header state).map (Visit.looked (id : ℕ → ℕ)))=
      shape ((visit page firstPage header start).map (Visit.looked id))

/-- A page has no more children than its header can count cells, and one. -/
def Narrow (visit : Bytes → Bool → BtreePageHeader → σ → Except DbError (Visit σ)) : Prop :=
  ∀ page firstPage header state children, BtreePageHeader.decode page firstPage=.ok header →
    visit page firstPage header state=.ok (.interior children) → children.length ≤ 65536

/-- Cells are counted in two bytes. -/
theorem cellCount_lt {page : Bytes} {firstPage : Bool} {header : BtreePageHeader}
    (h : BtreePageHeader.decode page firstPage=.ok header) : header.cellCount < 65536 := by
  unfold BtreePageHeader.decode at h
  dsimp only at h
  split at h
  · cases h
  · split at h
    · cases h
    · split at h
      · cases h
      · cases h
        have hlt := decodeBe_lt (slice page (headerOffset firstPage+3) 2)
        have hlength : (slice page (headerOffset firstPage+3) 2).length ≤ 2 := by
          unfold slice
          simp
        have hpow : 256^(slice page (headerOffset firstPage+3) 2).length ≤ 256^2 :=
          Nat.pow_le_pow_right (by omega) hlength
        exact hlt.trans_le hpow

/-- A page has so many children only. -/
theorem interiorChildren_narrow {kind : String} {pageType : PageType}
    {cell : Bytes → ℕ → Except DbError ℕ} {page : Bytes} {firstPage : Bool}
    {header : BtreePageHeader} {children : List ℕ}
    (hheader : BtreePageHeader.decode page firstPage=.ok header)
    (h : interiorChildren kind pageType cell page firstPage header=.ok children) :
    children.length ≤ 65536 := by
  unfold interiorChildren at h
  split at h
  · cases h
  · obtain ⟨offsets,hoffsets,h⟩ := except_bind_ok h
    obtain ⟨pointers,hpointers,h⟩ := except_bind_ok h
    have hcount := cellCount_lt hheader
    have hlength : pointers.length=header.cellCount :=
      (mapM_length hpointers).trans (cellOffsetsFrom_length hoffsets)
    split at h
    · cases h
    · cases h
      rw [List.length_append,hlength,List.length_singleton]
      omega

/-- What a table page leads to does not depend on the rows before. -/
theorem visitTablePage_steady (pager : Pager) (schema : Table) :
    Steady (visitTablePage pager schema) [] := by
  intro page firstPage header rows
  unfold visitTablePage
  cases header.pageType with
  | leafTable =>
    dsimp only
    cases decodeLeafTableCells pager schema page firstPage <;> rfl
  | interiorTable => rfl
  | leafIndex =>
    cases schema.withoutRowid with
    | false => rfl
    | true =>
      dsimp only
      cases decodeLeafWithoutRowidTableRows pager schema page firstPage <;> rfl
  | interiorIndex => cases schema.withoutRowid <;> rfl

/-- It has so many children only. -/
theorem visitTablePage_narrow (pager : Pager) (schema : Table) :
    Narrow (visitTablePage pager schema) := by
  intro page firstPage header rows children hheader h
  unfold visitTablePage at h
  split at h
  · obtain ⟨cells,-,h⟩ := except_bind_ok h
    cases h
  · obtain ⟨pointers,hpointers,h⟩ := except_bind_ok h
    cases h
    exact interiorChildren_narrow hheader hpointers
  · obtain ⟨added,-,h⟩ := except_bind_ok h
    cases h
  · obtain ⟨pointers,hpointers,h⟩ := except_bind_ok h
    cases h
    exact interiorChildren_narrow hheader hpointers
  · cases h

/-- The same for an index page. -/
theorem visitIndexPage_steady (hash : List Value → RowId) (pager : Pager) (index : IndexMeta)
    (add : σ → List IndexEntry → σ) (start : σ) :
    Steady (visitIndexPage hash pager index add) start := by
  intro page firstPage header state
  unfold visitIndexPage
  cases header.pageType with
  | leafIndex =>
    dsimp only
    cases decodeLeafIndexCells hash pager index page firstPage <;> rfl
  | interiorTable => rfl
  | leafTable => rfl
  | interiorIndex => rfl

/-- Its children are as few. -/
theorem visitIndexPage_narrow (hash : List Value → RowId) (pager : Pager) (index : IndexMeta)
    (add : σ → List IndexEntry → σ) : Narrow (visitIndexPage hash pager index add) := by
  intro page firstPage header state children hheader h
  unfold visitIndexPage at h
  split at h
  · obtain ⟨cells,-,h⟩ := except_bind_ok h
    cases h
  · obtain ⟨pointers,hpointers,h⟩ := except_bind_ok h
    cases h
    exact interiorChildren_narrow hheader hpointers
  · cases h

/-- The same for a lookup. -/
theorem visitRowPage_steady (pager : Pager) (schema : Table) (rowId : RowId) :
    Steady (visitRowPage pager schema rowId) none :=
  fun _ _ _ _ => rfl

/-- Its children are as few. -/
theorem visitRowPage_narrow (pager : Pager) (schema : Table) (rowId : RowId) :
    Narrow (visitRowPage pager schema rowId) := by
  intro page firstPage header row children hheader h
  unfold visitRowPage at h
  split at h
  · obtain ⟨cells,-,h⟩ := except_bind_ok h
    cases h
  · obtain ⟨offsets,-,h⟩ := except_bind_ok h
    obtain ⟨child,-,h⟩ := except_bind_ok h
    cases h
    exact Nat.le_of_ble_eq_true rfl
  · cases h

/-- The same for the schema. -/
theorem visitSchemaPage_shape (pager : Pager) (page : Bytes) (firstPage : Bool)
    (header : BtreePageHeader) (rows : List SchemaRow) :
    shape ((visitSchemaPage pager page firstPage header rows).map
        (Visit.looked fun child => (child,false)))=
      shape ((visitSchemaPage pager page firstPage header []).map
        (Visit.looked fun child => (child,false))) := by
  unfold visitSchemaPage
  cases header.pageType with
  | leafTable =>
    dsimp only
    cases schemaCellOffsets page firstPage header with
    | error error => rfl
    | ok offsets =>
      change shape (Except.map _ (offsets.mapM (decodeSchemaCell pager page) >>= _))=
        shape (Except.map _ (offsets.mapM (decodeSchemaCell pager page) >>= _))
      cases offsets.mapM (decodeSchemaCell pager page) <;> rfl
  | interiorTable => rfl
  | leafIndex => rfl
  | interiorIndex => rfl

/-- A message changes no result. -/
theorem withMessage_ok {α : Type} {message : String} {x : Except DbError α} {a : α}
    (h : withMessage message x=.ok a) : x=.ok a := by
  cases x with
  | error error => cases h
  | ok b =>
    cases h
    rfl

/-- Its children are as few. -/
theorem visitSchemaPage_narrow (pager : Pager) : Narrow (visitSchemaPage pager) := by
  intro page firstPage header rows children hheader h
  unfold visitSchemaPage at h
  split at h
  · obtain ⟨offsets,-,h⟩ := except_bind_ok h
    obtain ⟨cells,-,h⟩ := except_bind_ok h
    cases h
  · obtain ⟨pointers,hpointers,h⟩ := except_bind_ok h
    cases h
    unfold decodeSchemaChildren at hpointers
    split at hpointers
    · cases hpointers
    · obtain ⟨offsets,hoffsets,hpointers⟩ := except_bind_ok hpointers
      obtain ⟨first,hfirst,hpointers⟩ := except_bind_ok hpointers
      have hcount := cellCount_lt hheader
      have hlength : first.length=header.cellCount :=
        (mapM_length hfirst).trans (cellOffsetsFrom_length (withMessage_ok hoffsets))
      split at hpointers
      · cases hpointers
      · cases hpointers
        rw [List.length_append,hlength,List.length_singleton]
        omega
  · cases h

end Visits

/-! ## When a scan comes back -/

section Scans

variable (pager : Pager)

/-- A scan comes back exactly when the children whose turn comes lead to no endless way
down, and then the pages it visits are bounded by their number in the file. -/
theorem scan_finishes_iff
    {visit : Bytes → Bool → BtreePageHeader → σ → Except DbError (Visit σ)} {start : σ}
    (hsteady : Steady visit start) (hnarrow : Narrow visit) (rootPage : ℕ) :
    (Finishes (fun fuel => scanPages pager visit fuel rootPage start) ↔
      Acc (Followed (scanChildren pager visit start)) rootPage) ∧
    (Acc (Followed (scanChildren pager visit start)) rootPage → ∀ fuel,
      walkVisits (lookScan pager visit) fuel rootPage start ≤
        treeSize 65536 (pager.pageCount+1)) := by
  have hlook : Uniform (lookScan pager visit) (scanChildren pager visit start) := by
    refine uniform_of_shape _ start fun pageNo state => ?_
    unfold lookScan lookPage
    cases pager.readPage pageNo with
    | error error => rfl
    | ok page =>
      change shape (Except.map _ (BtreePageHeader.decode page (pageNo=1) >>= _))=
        shape (Except.map _ (BtreePageHeader.decode page (pageNo=1) >>= _))
      cases BtreePageHeader.decode page (pageNo=1) with
      | error error => rfl
      | ok header => exact hsteady page (pageNo=1) header state
  have hnodes : ∀ pageNo child, Followed (scanChildren pager visit start) child pageNo →
      pageNo∈Finset.Icc 1 pager.pageCount := by
    intro pageNo child hchild
    obtain ⟨before,after,hread,-⟩ := hchild
    unfold scanChildren lookScan at hread
    cases hlooked : lookPage pager visit pageNo (pageNo=1) start with
    | error error =>
      rw [hlooked] at hread
      cases hread
    | ok visited => exact lookPage_inFile hlooked
  have hwidth : ∀ pageNo state children,
      lookScan pager visit pageNo state=.ok (.descend children) → children.length ≤ 65536 := by
    intro pageNo state children h
    unfold lookScan at h
    cases hlooked : lookPage pager visit pageNo (pageNo=1) state with
    | error error =>
      rw [hlooked] at h
      cases h
    | ok visited =>
      rw [hlooked] at h
      cases visited with
      | leaf state' => cases h
      | interior pages =>
        cases h
        obtain ⟨page,-,hlooked⟩ := except_bind_ok hlooked
        obtain ⟨header,hheader,hvisit⟩ := except_bind_ok hlooked
        rw [List.length_map]
        exact hnarrow page (pageNo=1) header state pages hheader hvisit
  constructor
  · simp only [scanPages_eq_walk]
    exact walk_finishes_iff hlook start
  · intro hacc fuel
    have hbound := walkVisits_bounded hlook hnodes hwidth hacc start fuel
    rwa [Nat.card_Icc,Nat.add_sub_cancel] at hbound

/-- The reader of the catalog, likewise. -/
theorem readSchemaRows_finishes_iff :
    (Finishes (readSchemaRows pager) ↔ Acc (Followed (schemaChildren pager)) (1,true)) ∧
    (Acc (Followed (schemaChildren pager)) (1,true) → ∀ fuel,
      walkVisits (lookSchema pager) fuel (1,true) [] ≤ treeSize 65536 (2*pager.pageCount+1)) := by
  have hlook : Uniform (lookSchema pager) (schemaChildren pager) := by
    refine uniform_of_shape _ [] fun place rows => ?_
    obtain ⟨pageNo,firstPage⟩ := place
    unfold lookSchema lookPage
    dsimp only
    cases pager.readPage pageNo with
    | error error => rfl
    | ok page =>
      change shape (Except.map _ (BtreePageHeader.decode page firstPage >>= _))=
        shape (Except.map _ (BtreePageHeader.decode page firstPage >>= _))
      cases BtreePageHeader.decode page firstPage with
      | error error => rfl
      | ok header => exact visitSchemaPage_shape pager page firstPage header rows
  have hnodes : ∀ place child, Followed (schemaChildren pager) child place →
      place∈Finset.Icc 1 pager.pageCount ×ˢ (Finset.univ : Finset Bool) := by
    intro place child hchild
    obtain ⟨before,after,hread,-⟩ := hchild
    unfold schemaChildren lookSchema at hread
    cases hlooked : lookPage pager (visitSchemaPage pager) place.1 place.2 [] with
    | error error =>
      rw [hlooked] at hread
      cases hread
    | ok visited =>
      exact Finset.mem_product.mpr ⟨lookPage_inFile hlooked,Finset.mem_univ place.2⟩
  have hwidth : ∀ place rows children,
      lookSchema pager place rows=.ok (.descend children) → children.length ≤ 65536 := by
    intro place rows children h
    unfold lookSchema at h
    cases hlooked : lookPage pager (visitSchemaPage pager) place.1 place.2 rows with
    | error error =>
      rw [hlooked] at h
      cases h
    | ok visited =>
      rw [hlooked] at h
      cases visited with
      | leaf rows' => cases h
      | interior pages =>
        cases h
        obtain ⟨page,-,hlooked⟩ := except_bind_ok hlooked
        obtain ⟨header,hheader,hvisit⟩ := except_bind_ok hlooked
        rw [List.length_map]
        exact visitSchemaPage_narrow pager page place.2 header rows pages hheader hvisit
  constructor
  · unfold readSchemaRows
    simp only [scanSchemaPage_eq_walk]
    exact walk_finishes_iff hlook []
  · intro hacc fuel
    have hbound := walkVisits_bounded hlook hnodes hwidth hacc [] fuel
    rw [Finset.card_product,Nat.card_Icc,Nat.add_sub_cancel,Finset.card_univ,
      Fintype.card_bool,Nat.mul_comm] at hbound
    exact hbound

/-- Going on with what a call returns does not change whether it comes back. -/
theorem finishes_bind_iff {α β : Type} {call : ℕ → Outcome α} {f : α → Outcome β}
    (hf : ∀ a, f a≠.stuck) : Finishes (fun fuel => call fuel >>= f) ↔ Finishes call := by
  refine exists_congr fun fuel => ?_
  dsimp only
  cases call fuel with
  | ok a => exact iff_of_true (hf a) nofun
  | err error =>
    refine iff_of_true ?_ nofun
    change Outcome.err error≠.stuck
    exact nofun
  | stuck =>
    refine iff_of_false (not_not_intro ?_) (not_not_intro rfl)
    rfl

end Scans

/-! ## Overflow chains -/

/-- The pages the loop of `read_overflow_chain` reads, counted each time. -/
def Pager.overflowVisits (pager : Pager) (chunkSize : ℕ) : ℕ → ℕ → ℕ → ℕ
  | 0, _, _ => 0
  | fuel+1, remaining, nextPage =>
    if remaining=0 then 0
    else
      match pager.readPage nextPage with
      | .error _ => 1
      | .ok page =>
        if page.length < 4 then 1
        else
          match window page 4 (4+min remaining chunkSize) with
          | none => 1
          | some _ =>
            if remaining-min remaining chunkSize=0 then 1
            else if decodeBe (page.take 4)=0 then 1
            else pager.overflowVisits chunkSize fuel (remaining-min remaining chunkSize)
              (decodeBe (page.take 4))+1

section Overflow

variable (pager : Pager)

/-- Each page of a chain but the last takes a whole chunk of the payload, whether the chain
loops or not. -/
theorem Pager.overflowVisits_le {chunkSize : ℕ} (hchunk : 0 < chunkSize)
    (fuel remaining nextPage : ℕ) :
    pager.overflowVisits chunkSize fuel remaining nextPage ≤ remaining/chunkSize+1 := by
  induction fuel generalizing remaining nextPage with
  | zero => exact Nat.zero_le _
  | succ fuel ih =>
    have hone : 1 ≤ remaining/chunkSize+1 := Nat.le_add_left 1 _
    rw [Pager.overflowVisits]
    split
    · exact Nat.zero_le _
    split
    · exact hone
    split
    · exact hone
    split
    · exact hone
    split
    · exact hone
    · split
      · exact hone
      · have hle : chunkSize ≤ remaining := by omega
        have hmin : min remaining chunkSize=chunkSize := Nat.min_eq_right hle
        have hdiv := Nat.div_eq_sub_div hchunk hle
        refine (Nat.add_le_add_right (ih _ _) 1).trans ?_
        rw [hmin]
        omega

/-- The loop takes at least one byte of the payload in each round, so its model does not
run out of rounds. -/
theorem Pager.readOverflowFrom_enough {chunkSize : ℕ} (hchunk : 0 < chunkSize)
    {fuel remaining : ℕ} (hfuel : remaining ≤ fuel) (nextPage : ℕ) :
    pager.readOverflowFrom chunkSize (fuel+1) remaining nextPage=
      pager.readOverflowFrom chunkSize fuel remaining nextPage := by
  induction fuel generalizing remaining nextPage with
  | zero =>
    obtain rfl := Nat.le_zero.mp hfuel
    rfl
  | succ fuel ih =>
    rw [Pager.readOverflowFrom]
    conv_rhs => rw [Pager.readOverflowFrom]
    by_cases hzero : remaining=0
    · rw [if_pos hzero,if_pos hzero]
    · rw [if_neg hzero,if_neg hzero]
      refine bind_congr fun page => ?_
      have hless : remaining-min remaining chunkSize ≤ fuel := by omega
      simp only [ih hless]

end Overflow

/-! ## When the readers come back -/

/-- Every reader of a file comes back exactly when there is no endless way down along the
children whose turn comes, with a number of pages visited that the number of pages in the
file bounds; and an overflow chain ends with its payload, even if it loops. -/
theorem readers_finish (pager : Pager) (hash : List Value → RowId) :
    (∀ rootPage schema,
      (Finishes (scanTableRows pager rootPage schema) ↔
        Acc (Followed (scanChildren pager (visitTablePage pager schema) [])) rootPage) ∧
      (Acc (Followed (scanChildren pager (visitTablePage pager schema) [])) rootPage →
        ∀ fuel, walkVisits (lookScan pager (visitTablePage pager schema)) fuel rootPage [] ≤
          treeSize 65536 (pager.pageCount+1))) ∧
    (∀ rootPage schema rowId,
      (Finishes (getTableRow pager rootPage schema rowId) ↔
        Acc (Followed (scanChildren pager (visitRowPage pager schema rowId) none)) rootPage) ∧
      (Acc (Followed (scanChildren pager (visitRowPage pager schema rowId) none)) rootPage →
        ∀ fuel, walkVisits (lookScan pager (visitRowPage pager schema rowId)) fuel rootPage
          none ≤ treeSize 65536 (pager.pageCount+1))) ∧
    (∀ rootPage index,
      (Finishes (scanIndexEntries hash pager rootPage index) ↔
        Acc (Followed (scanChildren pager (visitIndexPage hash pager index (· ++ ·)) []))
          rootPage) ∧
      (Acc (Followed (scanChildren pager (visitIndexPage hash pager index (· ++ ·)) []))
          rootPage → ∀ fuel,
        walkVisits (lookScan pager (visitIndexPage hash pager index (· ++ ·))) fuel rootPage
          [] ≤ treeSize 65536 (pager.pageCount+1))) ∧
    (∀ rootPage index keyPrefix,
      let add := fun (rowIds : Finset RowId) entries =>
        rowIds∪(matchingRowIds keyPrefix entries).toFinset
      (Finishes (lookupIndexEntries hash pager rootPage index keyPrefix) ↔
        Acc (Followed (scanChildren pager (visitIndexPage hash pager index add) ∅)) rootPage) ∧
      (Acc (Followed (scanChildren pager (visitIndexPage hash pager index add) ∅)) rootPage →
        ∀ fuel, walkVisits (lookScan pager (visitIndexPage hash pager index add)) fuel rootPage
          ∅ ≤ treeSize 65536 (pager.pageCount+1))) ∧
    (∀ (α : Type) (catalogOf : List SchemaRow → Except DbError α),
      (Finishes (loadCatalog catalogOf pager) ↔
        Acc (Followed (schemaChildren pager)) (1,true)) ∧
      (Acc (Followed (schemaChildren pager)) (1,true) → ∀ fuel,
        walkVisits (lookSchema pager) fuel (1,true) [] ≤
          treeSize 65536 (2*pager.pageCount+1))) ∧
    ∀ chunkSize, 0 < chunkSize → ∀ fuel remaining nextPage,
      pager.overflowVisits chunkSize fuel remaining nextPage ≤ remaining/chunkSize+1 ∧
      (remaining ≤ fuel → pager.readOverflowFrom chunkSize (fuel+1) remaining nextPage=
        pager.readOverflowFrom chunkSize fuel remaining nextPage) := by
  refine ⟨fun rootPage schema => ?_,fun rootPage schema rowId => ?_,fun rootPage index => ?_,
    fun rootPage index keyPrefix => ?_,fun α catalogOf => ?_,
    fun chunkSize hchunk fuel remaining nextPage => ?_⟩
  · exact scan_finishes_iff pager (visitTablePage_steady pager schema)
      (visitTablePage_narrow pager schema) rootPage
  · unfold getTableRow
    simp only [fun fuel => getTableRowFromPage_eq_scan pager schema rowId fuel rootPage none]
    exact scan_finishes_iff pager (visitRowPage_steady pager schema rowId)
      (visitRowPage_narrow pager schema rowId) rootPage
  · exact scan_finishes_iff pager (visitIndexPage_steady hash pager index (· ++ ·) [])
      (visitIndexPage_narrow hash pager index (· ++ ·)) rootPage
  · intro add
    have hscan := scan_finishes_iff pager (visitIndexPage_steady hash pager index add ∅)
      (visitIndexPage_narrow hash pager index add) rootPage
    refine ⟨Iff.trans ?_ hscan.1,hscan.2⟩
    refine finishes_bind_iff fun rowIds hstuck => ?_
    cases hstuck
  · have hrows := readSchemaRows_finishes_iff pager
    refine ⟨(finishes_bind_iff fun rows => ?_).trans hrows.1,hrows.2⟩
    cases catalogOf rows <;> exact nofun
  · exact ⟨pager.overflowVisits_le hchunk fuel remaining nextPage,
      fun hfuel => pager.readOverflowFrom_enough hchunk hfuel nextPage⟩

/-- A file of two pages: the root of the schema table leads to the second page, and the
second page to itself. -/
def loopingFile : Pager where
  pageSize := 512
  reservedBytes := 0
  file := List.replicate 100 0++[0x05,0,0,0,0,0,0,0,0,0,0,2]++List.replicate 400 0++
    [0x05,0,0,0,0,0,0,0,0,0,0,2]++List.replicate 500 0

/-- A page that leads to itself has an endless way down. -/
theorem not_acc_of_self {ν : Type} {content : ν → Option (List ν)} {node : ν}
    (h : content node=some [node]) : ¬Acc (Followed content) node := by
  have hself : Followed content node node := ⟨[],[],h,by simp⟩
  exact fun hacc => not_below_self hacc (.single hself)

/-- The readers of the catalog and of a table do not come back from such a file. -/
theorem looping_file_hangs :
    ¬Finishes (readSchemaRows loopingFile) ∧
      ¬Finishes (scanTableRows loopingFile 2 ⟨"t",[],none,false⟩) ∧
      ¬Finishes (getTableRow loopingFile 2 ⟨"t",[],none,false⟩ 1) := by
  have hroot : schemaChildren loopingFile (1,true)=some [(2,false)] := by decide +kernel
  have hschema : schemaChildren loopingFile (2,false)=some [(2,false)] := by decide +kernel
  have htable : scanChildren loopingFile (visitTablePage loopingFile ⟨"t",[],none,false⟩) [] 2=
      some [2] := by decide +kernel
  have hrow : scanChildren loopingFile (visitRowPage loopingFile ⟨"t",[],none,false⟩ 1) none 2=
      some [2] := by decide +kernel
  refine ⟨fun hfinishes => ?_,fun hfinishes => ?_,fun hfinishes => ?_⟩
  · have hacc := (readSchemaRows_finishes_iff loopingFile).1.mp hfinishes
    exact not_acc_of_self hschema (hacc.inv ⟨[],[],hroot,by simp⟩)
  · have hacc := (scan_finishes_iff loopingFile (visitTablePage_steady loopingFile _)
      (visitTablePage_narrow loopingFile _) 2).1.mp hfinishes
    exact not_acc_of_self htable hacc
  · unfold getTableRow at hfinishes
    simp only [fun fuel => getTableRowFromPage_eq_scan loopingFile ⟨"t",[],none,false⟩ 1 fuel 2
      none] at hfinishes
    have hacc := (scan_finishes_iff loopingFile (visitRowPage_steady loopingFile _ 1)
      (visitRowPage_narrow loopingFile _ 1) 2).1.mp hfinishes
    exact not_acc_of_self hrow hacc

end RustSql.Sqlite3
