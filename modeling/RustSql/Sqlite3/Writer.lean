import Mathlib.Data.List.ReduceOption
import Mathlib.Data.List.Sort
import RustSql.Base.Effect
import RustSql.Sqlite3.Btree

/-!
# Writing index b-trees

The writer numbers pages as it goes and keeps them in a map until the file is put
together. An index is written bottom up: its cells are sorted and cut into leaf
pages, and the pages of a level are cut into interior pages until one is left. The
cell of an interior page repeats the largest key of the child before it.
-/

namespace RustSql.Sqlite3

/-- `PAGE_SIZE`. -/
def pageSize : ℕ := 4096

/-- The next page number and the pages written so far. -/
structure PageFile where
  nextPageNo : ℕ
  pages : ℕ → Option Bytes

/-- `allocate_page`. -/
def allocatePage : Eff PageFile ℕ := do
  let s ← Eff.get
  if s.nextPageNo+1 < 2^32 then
    Eff.modify fun s => { s with nextPageNo := s.nextPageNo+1 }
    pure s.nextPageNo
  else Eff.fail (.storage "sqlite page number overflow")

/-- `insert_page`. The map a failed write leaves behind is dropped, so the page it
already holds stays here. -/
def insertPage (pageNo : ℕ) (page : Bytes) : Eff PageFile Unit := do
  let s ← Eff.get
  if (s.pages pageNo).isSome then
    Eff.fail (.storage s!"sqlite page {pageNo} was assigned more than once")
  else Eff.modify fun s => { s with pages := Function.update s.pages pageNo (some page) }

/-- `IndexLeafCellData`. -/
structure IndexLeafCellData where
  key : List Value
  payload : Bytes
  deriving DecidableEq

/-- `IndexChildPage`. -/
structure IndexChildPage where
  pageNo : ℕ
  maxKey : List Value
  deriving DecidableEq

/-! ## Cells -/

/-- `leaf_max_local`. -/
def leafMaxLocal (isIndex : Bool) : ℕ :=
  if isIndex then (pageSize-12)*64/255-23 else pageSize-35

/-- `leaf_min_local`. -/
def leafMinLocal : ℕ := (pageSize-12)*32/255-23

/-- `leaf_local_payload_len`. -/
def leafLocalPayloadLen (payloadLen : ℕ) (isIndex : Bool) : ℕ :=
  if payloadLen ≤ leafMaxLocal isIndex then payloadLen
  else overflowingLocal leafMinLocal (leafMaxLocal isIndex) (pageSize-4) payloadLen

/-- A payload's length as a varint. -/
def payloadLenVarint (payload : Bytes) : Except DbError Bytes :=
  if payload.length < 2^64 then .ok (encodeVarint payload.length)
  else .error (.storage "sqlite payload length overflow")

/-- An overflow page: the number of the next page and a part of the payload. -/
def overflowPage (next : ℕ) (bytes : Bytes) : Bytes :=
  copyInto (copyInto (List.replicate pageSize 0) 0 (encodeBe 4 next)) 4 bytes

/-- The pages of an overflow chain: each starts with the number of the next. -/
def writeChunks (chunkSize : ℕ) : List ℕ → Bytes → Eff PageFile Unit
  | [], _ => pure ()
  | pageNo :: rest, bytes => do
    insertPage pageNo (overflowPage (rest.headD 0) (bytes.take chunkSize))
    writeChunks chunkSize rest (bytes.drop chunkSize)

/-- `write_overflow_chain`. -/
def writeOverflowChain (bytes : Bytes) : Eff PageFile ℕ :=
  if bytes=[] then
    Eff.fail (.storage "sqlite overflow writer requires at least one overflow payload byte")
  else do
    let chunkSize := pageSize-4
    let pageCount := (bytes.length+(chunkSize-1))/chunkSize
    let pageNos ← Eff.mapEach (List.replicate pageCount ()) fun _ => allocatePage
    writeChunks chunkSize pageNos bytes
    pure (pageNos.headD 0)

/-- A cell: what stands before the payload, the payload's local part and the first
page of its overflow chain. -/
def renderCell (head payload : Bytes) (isIndex : Bool) : Eff PageFile Bytes := do
  let kept := leafLocalPayloadLen payload.length isIndex
  if kept < payload.length then
    let firstOverflow ← writeOverflowChain (payload.drop kept)
    pure (head++payload.take kept++encodeBe 4 firstOverflow)
  else pure (head++payload.take kept)

/-- The length of such a cell. -/
def renderedLen (head payload : Bytes) (isIndex : Bool) : ℕ :=
  let kept := leafLocalPayloadLen payload.length isIndex
  head.length+kept+if kept < payload.length then 4 else 0

/-- `render_index_leaf_cell`. -/
def renderIndexLeafCell (cell : IndexLeafCellData) : Eff PageFile Bytes := do
  let head ← Eff.lift (payloadLenVarint cell.payload)
  renderCell head cell.payload true

/-- `leaf_index_cell_len`. -/
def leafIndexCellLen (cell : IndexLeafCellData) : Except DbError ℕ := do
  let head ← payloadLenVarint cell.payload
  .ok (renderedLen head cell.payload true)

/-- `render_interior_index_cell`. -/
def renderInteriorIndexCell (child : IndexChildPage) : Eff PageFile Bytes := do
  let payload ← Eff.lift (encodeRecord child.maxKey)
  let head ← Eff.lift (payloadLenVarint payload)
  renderCell (encodeBe 4 child.pageNo++head) payload true

/-- `interior_index_cell_len`. -/
def interiorIndexCellLen (child : IndexChildPage) : Except DbError ℕ := do
  let payload ← encodeRecord child.maxKey
  let head ← payloadLenVarint payload
  .ok (4+renderedLen head payload true)

/-! ## Pages -/

/-- A page while its cells are placed from its end on. -/
structure PageImage where
  page : Bytes
  contentStart : ℕ
  pointers : List ℕ

/-- The page before its first cell. -/
def PageImage.empty : PageImage := ⟨List.replicate pageSize 0,pageSize,[]⟩

/-- Place one cell below those already placed, above `requiredStart`. -/
def PageImage.place (requiredStart : ℕ) (message : String) (image : PageImage) (cell : Bytes) :
    Except DbError PageImage :=
  if image.contentStart < requiredStart+cell.length then .error (.storage message)
  else
    let start := image.contentStart-cell.length
    if start < 2^16 then
      .ok ⟨copyInto image.page start cell,start,image.pointers++[start]⟩
    else .error (.storage "sqlite cell offset does not fit in u16")

/-- Render and place the cells of a page, in order. -/
def placeCells {α : Type} (requiredStart : ℕ) (message : String)
    (render : α → Eff PageFile Bytes) : List α → PageImage → Eff PageFile PageImage
  | [], image => pure image
  | cell :: cells, image => do
    let rendered ← render cell
    let image ← Eff.lift (image.place requiredStart message rendered)
    placeCells requiredStart message render cells image

/-- The header of a page, with the rightmost child of an interior one. -/
def pageHeader (kind : UInt8) (cellCount contentStart : ℕ) (rightmost : Bytes) : Bytes :=
  [kind]++encodeBe 2 0++encodeBe 2 cellCount++encodeBe 2 contentStart++[0]++rightmost

/-- Write the header and the pointer array of a page. -/
def finishPage (kind : UInt8) (cellCount : ℕ) (rightmost : Bytes) (image : PageImage) :
    Except DbError Bytes :=
  if 2^16 ≤ cellCount then .error (.storage "sqlite cell count does not fit in u16")
  else if 2^16 ≤ image.contentStart then
    .error (.storage "sqlite content start does not fit in u16")
  else
    let header := pageHeader kind cellCount image.contentStart rightmost
    .ok (copyInto (copyInto image.page 0 header) header.length
      (image.pointers.flatMap (encodeBe 2)))

/-- `build_leaf_index_page_cells`. -/
def buildLeafIndexPageCells (cells : List IndexLeafCellData) : Eff PageFile Bytes := do
  let image ← placeCells (8+2*cells.length)
    "sqlite writer does not support index records that overflow a single leaf page"
    renderIndexLeafCell cells .empty
  Eff.lift (finishPage 0x0a cells.length [] image)

/-- `build_interior_index_page`. -/
def buildInteriorIndexPage (children : List IndexChildPage) : Eff PageFile Bytes :=
  match children.getLast? with
  | some rightmost =>
    if children.length < 2 then
      Eff.fail (.storage "sqlite interior index page requires at least two children")
    else do
      let image ← placeCells (12+2*(children.length-1))
        "sqlite writer does not support interior index pages that overflow a single page"
        renderInteriorIndexCell children.dropLast .empty
      Eff.lift (finishPage 0x02 (children.length-1) (encodeBe 4 rightmost.pageNo) image)
  | none => Eff.fail (.storage "sqlite interior index page requires at least two children")

/-! ## Levels -/

/-- The loop of `paginate_leaf_cells`, from the page it is filling on. -/
def paginateLeafFrom {α : Type} (headerSize : ℕ) (cellLen : α → Except DbError ℕ) :
    List α → List α → ℕ → Except DbError (List (List α))
  | [], current, _ => .ok [current]
  | cell :: cells, current, size => do
    let len ← cellLen cell
    if current≠[] ∧ pageSize < size+(2+len) then
      if pageSize < headerSize+(2+len) then
        .error (.storage
          "sqlite writer does not support a single btree cell larger than a page")
      else do
        let pages ← paginateLeafFrom headerSize cellLen cells [cell] (headerSize+(2+len))
        .ok (current :: pages)
    else if pageSize < size+(2+len) then
      .error (.storage "sqlite writer does not support a single btree cell larger than a page")
    else paginateLeafFrom headerSize cellLen cells (current++[cell]) (size+(2+len))

/-- `paginate_leaf_cells`. -/
def paginateLeafCells {α : Type} (cells : List α) (headerSize : ℕ)
    (cellLen : α → Except DbError ℕ) : Except DbError (List (List α)) :=
  if cells.isEmpty then .ok [[]] else paginateLeafFrom headerSize cellLen cells [] headerSize

/-- The loop of `paginate_interior_children`: the page being filled, its last child
and its size. -/
def paginateInteriorFrom {α : Type} (cellLen : α → Except DbError ℕ) :
    List α → List α → α → ℕ → Except DbError (List (List α))
  | [], current, last, _ => .ok [current++[last]]
  | child :: children, current, last, size => do
    let len ← cellLen last
    if current≠[] ∧ pageSize < size+(2+len) then
      let groups ← paginateInteriorFrom cellLen children [] child 12
      .ok ((current++[last]) :: groups)
    else if pageSize < size+(2+len) then
      .error (.storage
        "sqlite writer does not support an interior btree cell larger than a page")
    else paginateInteriorFrom cellLen children (current++[last]) child (size+(2+len))

/-- `interior_page_size`: the cells of all children but the last. -/
def interiorPageSize {α : Type} (cellLen : α → Except DbError ℕ) (children : List α) :
    Except DbError ℕ :=
  if children.isEmpty then .error (.storage "sqlite interior page must have children")
  else
    match children.dropLast.mapM cellLen with
    | .ok lens => .ok (12+(lens.map (2 + ·)).sum)
    | .error _ => .error (.storage "sqlite interior page size overflow")

/-- The last group gets a second child from the group before it. -/
def rebalance {α : Type} (cellLen : α → Except DbError ℕ) :
    List (List α) → Except DbError (List (List α))
  | [previous,[lone]] =>
    match previous.getLast? with
    | none => .error (.storage
        "sqlite writer could not balance interior btree children across pages")
    | some moved =>
      if previous.length < 3 then .error (.storage
        "sqlite writer could not balance interior btree children across pages")
      else do
        let size ← interiorPageSize cellLen [moved,lone]
        if pageSize < size then .error (.storage
          "sqlite writer could not fit rebalanced interior btree children on a page")
        else .ok [previous.dropLast,[moved,lone]]
  | [] => .ok []
  | group :: groups => do
    let groups ← rebalance cellLen groups
    .ok (group :: groups)

/-- `paginate_interior_children`. -/
def paginateInteriorChildren {α : Type} (children : List α) (cellLen : α → Except DbError ℕ) :
    Except DbError (List (List α)) :=
  match children with
  | [] => .error (.storage "sqlite interior page must have at least one child")
  | [child] => .ok [[child]]
  | first :: rest => do
    let groups ← paginateInteriorFrom cellLen rest [] first 12
    rebalance cellLen groups

/-- `paginate_index_children`. -/
def paginateIndexChildren (children : List IndexChildPage) :
    Except DbError (List (List IndexChildPage)) :=
  paginateInteriorChildren children interiorIndexCellLen

/-- The largest key of a page, or the error of an empty one. -/
def lastKey {α : Type} (key : α → List Value) (message : String) (group : List α) :
    Except DbError (List Value) :=
  match group.getLast? with
  | some last => .ok (key last)
  | none => .error (.storage message)

/-- One interior page of a level. -/
def buildParent (message : String) (allocate : Eff PageFile ℕ) (group : List IndexChildPage) :
    Eff PageFile IndexChildPage := do
  let pageNo ← allocate
  let maxKey ← Eff.lift (lastKey IndexChildPage.maxKey message group)
  let page ← buildInteriorIndexPage group
  insertPage pageNo page
  pure ⟨pageNo,maxKey⟩

/-- The levels above the leaves, until one page is left. Every level has at most half
the pages of the one below, so the number of children bounds the rounds. -/
def buildLevels (message : String) (rootPage : ℕ) :
    ℕ → List IndexChildPage → Eff PageFile Unit
  | 0, _ => Eff.hang
  | fuel+1, children =>
    if children.length ≤ 1 then pure ()
    else do
      let groups ← Eff.lift (paginateIndexChildren children)
      let allocate := if groups.length=1 then pure rootPage else allocatePage
      let parents ← Eff.mapEach groups (buildParent message allocate)
      buildLevels message rootPage fuel parents

/-- One leaf page of a tree with several. -/
def buildLeaf (message : String) (group : List IndexLeafCellData) :
    Eff PageFile IndexChildPage := do
  let pageNo ← allocatePage
  let maxKey ← Eff.lift (lastKey IndexLeafCellData.key message group)
  let page ← buildLeafIndexPageCells group
  insertPage pageNo page
  pure ⟨pageNo,maxKey⟩

/-- The order cells are sorted by. -/
def cellLe (left right : IndexLeafCellData) : Prop :=
  compareLists Value.cmp left.key right.key≠.gt

instance instDecidableRelCellLe : DecidableRel cellLe := fun left right =>
  inferInstanceAs (Decidable (compareLists Value.cmp left.key right.key≠.gt))

/-- The cells in the order of their keys (`sort_by`; cells of one key stay in order). -/
def sortCells (cells : List IndexLeafCellData) : List IndexLeafCellData :=
  cells.insertionSort cellLe

/-- The tree of a list of cells, as all builders of index pages write it; their error
texts differ. -/
def buildCellTree (leafMessage interiorMessage : String) (cells : List IndexLeafCellData)
    (rootPage : ℕ) : Eff PageFile Unit := do
  let leafGroups ← Eff.lift (paginateLeafCells (sortCells cells) 8 leafIndexCellLen)
  match leafGroups with
  | [group] => do
    let root ← buildLeafIndexPageCells group
    insertPage rootPage root
  | _ => do
    let children ← Eff.mapEach leafGroups (buildLeaf leafMessage)
    buildLevels interiorMessage rootPage (children.length+1) children

/-- The end of `write_database`: the pages one after the other, the first with the
file header written into it. -/
def assembleFile (writeHeader : Bytes → Bytes) (pages : ℕ → Option Bytes) (pageCount : ℕ) :
    Except DbError Bytes := do
  let parts ← (List.range pageCount).mapM fun i =>
    let pageNo := i+1
    match pages pageNo with
    | none => .error (.storage s!"missing sqlite page {pageNo} during file assembly")
    | some page => .ok (if pageNo=1 then writeHeader page else page)
  .ok parts.flatten

/-! ## Indexes -/

/-- The parser and evaluator of the expressions an index is declared with. -/
structure IndexExpressions where
  /-- Whether a row satisfies the predicate of a partial index. -/
  predicate : Table → String → Row → Except DbError Bool
  /-- The value of an index term that is no column. -/
  scalar : Table → Row → String → Except DbError Value

variable (expressions : IndexExpressions)

/-- `row_matches_partial_index`. -/
def rowMatchesPartialIndex (schema : Table) (index : IndexMeta) (row : Row) :
    Except DbError Bool :=
  match index.predicate with
  | none => .ok true
  | some predicate => expressions.predicate schema predicate row

/-- The value of a row at a column, or the error of a row too short. -/
def columnValue (schema : Table) (row : Row) (column : String) (position : ℕ) :
    Except DbError Value :=
  match row[position]? with
  | some value => .ok value
  | none => .error (.storage s!"row for table {schema.name} is missing column {column}")

/-- `evaluate_index_term`. -/
def evaluateIndexTerm (schema : Table) (row : Row) (term : String) : Except DbError Value :=
  match schema.columnIndex term with
  | .ok position => columnValue schema row term position
  | .error _ => expressions.scalar schema row term

/-- The values of an index record of a table with row numbers: the key and the row's
number. -/
def rowidIndexValues (schema : Table) (index : IndexMeta) (rowId : RowId) (row : Row) :
    Except DbError (List Value) := do
  let key ← index.columns.mapM (evaluateIndexTerm expressions schema row)
  if rowId < 2^63 then .ok (key++[.integer (Int64.ofNat rowId)])
  else .error (.storage "sqlite rowid does not fit in i64")

/-- `encode_without_rowid_index_record_values`: the key and the rest of the primary
key. -/
def withoutRowidIndexValues (schema : Table) (index : IndexMeta) (row : Row) :
    Except DbError (List Value) :=
  match schema.primaryKeyConstraint with
  | none => .error (.storage
      s!"WITHOUT ROWID table {schema.name} is missing PRIMARY KEY metadata")
  | some primaryKey => do
    let key ← index.columns.mapM (evaluateIndexTerm expressions schema row)
    let rest ← (primaryKey.filter fun column => column∉index.columns).mapM fun column => do
      let position ← schema.columnIndex column
      columnValue schema row column position
    .ok (key++rest)

/-- The values of a row's index record. -/
def indexValues (schema : Table) (index : IndexMeta) (row : RowId × Row) :
    Except DbError (List Value) :=
  if schema.withoutRowid then withoutRowidIndexValues expressions schema index row.2
  else rowidIndexValues expressions schema index row.1 row.2

/-- The cell of a row, when the index covers it. -/
def indexCell (schema : Table) (index : IndexMeta) (row : RowId × Row) :
    Except DbError (Option IndexLeafCellData) := do
  if ← rowMatchesPartialIndex expressions schema index row.2 then
    let values ← indexValues expressions schema index row
    let payload ← encodeRecord values
    .ok (some ⟨values,payload⟩)
  else .ok none

/-- The cells of the rows an index covers, in the order of the rows. -/
def indexCells (schema : Table) (rows : List (RowId × Row)) (index : IndexMeta) :
    Except DbError (List IndexLeafCellData) := do
  let cells ← rows.mapM (indexCell expressions schema index)
  .ok cells.reduceOption

/-- `build_index_btree` and, for a `WITHOUT ROWID` table,
`build_without_rowid_index_btree`. -/
def buildIndexBtree (schema : Table) (rows : List (RowId × Row)) (index : IndexMeta)
    (rootPage : ℕ) : Eff PageFile Unit := do
  let cells ← Eff.lift (indexCells expressions schema rows index)
  if schema.withoutRowid then
    buildCellTree "sqlite WITHOUT ROWID index leaf page has no cells"
      "sqlite WITHOUT ROWID index interior page has no children" cells rootPage
  else
    buildCellTree "sqlite index leaf page has no cells"
      "sqlite interior index page has no children" cells rootPage

end RustSql.Sqlite3
