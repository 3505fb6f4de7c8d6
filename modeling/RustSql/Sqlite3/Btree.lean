import Mathlib.Data.Finset.Sort
import RustSql.Base.Panics
import RustSql.Sqlite3.Pager
import RustSql.Sqlite3.Record

/-!
# Reading b-trees

The scans of a table or an index walk the pages from the root on. A page is either
a leaf, whose cells are added to what has been collected, or an interior page, whose
children are scanned in order. Row numbers of index records without one are a hash
of the trailing key, which is a parameter here.
-/

namespace RustSql.Sqlite3

/-- `ColumnType`. -/
inductive ColumnType where
  | any
  | boolean
  | integer
  | numeric
  | real
  | blob
  | text
  deriving DecidableEq

/-- What the readers and writers use of `ColumnDef`. -/
structure Column where
  name : String
  columnType : ColumnType
  primaryKey : Bool
  /-- The primary key is declared `DESC`. -/
  primaryKeyDescending : Bool
  deriving DecidableEq

/-- What the readers and writers use of `Schema`. -/
structure Table where
  name : String
  columns : List Column
  /-- The columns of the table's primary key constraint. -/
  primaryKeyConstraint : Option (List String)
  withoutRowid : Bool

/-- `column_index`. -/
def Table.columnIndex (schema : Table) (column : String) : Except DbError ℕ :=
  match schema.columns.findIdx? fun entry => entry.name=column with
  | some position => .ok position
  | none => .error (.storage s!"unknown column: {column}")

/-- The columns an `INTEGER PRIMARY KEY` makes another name of the row number. -/
def Column.aliasesRowid (column : Column) : Bool :=
  column.primaryKey && column.columnType=.integer && !column.primaryKeyDescending

/-- `IndexEntry`. -/
structure IndexEntry where
  key : List Value
  rowId : RowId
  deriving DecidableEq

/-- The columns of a row that stand for its number, filled in where they are null. -/
def fillRowid (rowId : RowId) : List Column → Row → Except DbError Row
  | column :: columns, value :: row =>
    if column.aliasesRowid ∧ value=.null then
      if rowId < 2^63 then do
        let row ← fillRowid rowId columns row
        .ok (.integer (Int64.ofNat rowId) :: row)
      else .error (.storage "sqlite rowid does not fit in i64")
    else do
      let row ← fillRowid rowId columns row
      .ok (value :: row)
  | _, row => .ok row

/-- `patch_integer_primary_key_alias`. -/
def patchIntegerPrimaryKeyAlias (schema : Table) (rowId : RowId) (row : Row) :
    Except DbError Row :=
  let expected := schema.columns.length
  if row.length≠expected then
    .error (.storage
      s!"sqlite table row for {schema.name} expected {expected} columns but decoded {row.length}")
  else fillRowid rowId schema.columns row

/-- `decode_leaf_table_cell`. -/
def decodeLeafTableCell (pager : Pager) (schema : Table) (page : Bytes) (cellOffset : ℕ) :
    Except DbError (RowId × Row) := do
  let cell ← sliceFrom page cellOffset
  let (payloadSize,payloadLen) ← decodeVarint cell
  let (rowId,rowIdLen) ← decodeVarint (cell.drop payloadLen)
  let payload ← readBtreePayload pager page cellOffset (payloadLen+rowIdLen) payloadSize false
    "table"
  let values ← decodeTableRecord payload
  let row ← patchIntegerPrimaryKeyAlias schema rowId values
  .ok (rowId,row)

/-- The payload of an index cell; an interior cell has a child pointer before it. -/
def indexPayload (pager : Pager) (page : Bytes) (cellOffset pointerLen : ℕ) (kind : String) :
    Except DbError Bytes := do
  let cell ← sliceFrom page cellOffset
  if cell.length < pointerLen then
    .error (.storage "sqlite interior index cell is truncated")
  else
    let (payloadSize,payloadLen) ← decodeVarint (cell.drop pointerLen)
    readBtreePayload pager page cellOffset (pointerLen+payloadLen) payloadSize true kind

/-- The cells of a leaf page of a type, read one by one. -/
def leafCells {α : Type} (pageType : PageType) (message : String)
    (cell : Bytes → ℕ → Except DbError α) (page : Bytes) (firstPage : Bool) :
    Except DbError (List α) := do
  let header ← BtreePageHeader.decode page firstPage
  if header.pageType≠pageType then .error (.storage message)
  else
    let offsets ← cellOffsets page firstPage header
    offsets.mapM (cell page)

/-- `decode_leaf_table_cells`. -/
def decodeLeafTableCells (pager : Pager) (schema : Table) :
    Bytes → Bool → Except DbError (List (RowId × Row)) :=
  leafCells .leafTable "sqlite leaf-table cell reader requires a leaf table page"
    (decodeLeafTableCell pager schema)

/-- The names of a `WITHOUT ROWID` table's columns in the order of its records. -/
def Table.recordOrder (schema : Table) (primaryKey : List String) : List String :=
  primaryKey++(schema.columns.map Column.name).filter fun column => column∉primaryKey

/-- Put each value of a record in its column's place. -/
def placeValues (schema : Table) : List (Value × String) → Row → Except DbError Row
  | [], row => .ok row
  | (value,column) :: rest, row => do
    let position ← schema.columnIndex column
    placeValues schema rest (row.set position value)

/-- `reorder_without_rowid_record`. -/
def reorderWithoutRowidRecord (schema : Table) (values : List Value) : Except DbError Row :=
  let expected := schema.columns.length
  let decoded := values.length
  if decoded≠expected then
    .error (.storage
      s!"sqlite WITHOUT ROWID row for {schema.name} expected {expected} columns but decoded {decoded}")
  else
    match schema.primaryKeyConstraint with
    | none => .error (.storage
        s!"WITHOUT ROWID table {schema.name} is missing PRIMARY KEY metadata")
    | some primaryKey =>
      if (schema.recordOrder primaryKey).length≠schema.columns.length then
        .error (.storage
          s!"WITHOUT ROWID table {schema.name} column layout could not be reconstructed")
      else placeValues schema (values.zip (schema.recordOrder primaryKey))
        (List.replicate schema.columns.length .null)

/-- The row of a `WITHOUT ROWID` record. -/
def decodeWithoutRowidRecord (schema : Table) (payload : Bytes) : Except DbError Row := do
  let values ← decodeIndexRecord payload
  reorderWithoutRowidRecord schema values

/-- `decode_leaf_without_rowid_table_cell`. -/
def decodeLeafWithoutRowidTableCell (pager : Pager) (schema : Table) (page : Bytes)
    (cellOffset : ℕ) : Except DbError Row := do
  let payload ← indexPayload pager page cellOffset 0 "WITHOUT ROWID table"
  decodeWithoutRowidRecord schema payload

/-- `decode_leaf_without_rowid_table_rows`. -/
def decodeLeafWithoutRowidTableRows (pager : Pager) (schema : Table) :
    Bytes → Bool → Except DbError (List Row) :=
  leafCells .leafIndex "sqlite WITHOUT ROWID table reader requires a leaf index page"
    (decodeLeafWithoutRowidTableCell pager schema)

/-- `synthetic_row_id_from_key`, over the hash of a key. -/
def syntheticRowIdFromKey (hash : List Value → RowId) (key : List Value) : RowId :=
  if hash key=0 then 1 else hash key

/-- The row number an index record ends in, when it has one value more than the
index has columns and that value is an integer. -/
def trailingRowid (index : IndexMeta) (values : List Value) : Option Int64 :=
  if values.length=index.columns.length+1 then
    match values.getLast? with
    | some (.integer rowId) => some rowId
    | _ => none
  else none

/-- `minimum_index_record_value_count`. -/
def minimumIndexRecordValueCount (index : IndexMeta) : ℕ := index.columns.length+1

/-- The error of a record with fewer values than the index has columns, and one. -/
def tooFewValues (kind : String) (index : IndexMeta) (values : List Value) : DbError :=
  let minimum := minimumIndexRecordValueCount index
  let decoded := values.length
  .storage (s!"sqlite {kind} {index.name} expected at least {minimum} record values"++
    s!" but decoded {decoded}")

/-- `decode_index_entry_values`. -/
def decodeIndexEntryValues (hash : List Value → RowId) (index : IndexMeta)
    (values : List Value) : Except DbError IndexEntry :=
  if values.length < minimumIndexRecordValueCount index then
    .error (tooFewValues "index" index values)
  else
    match trailingRowid index values with
    | some rowId =>
      if 0 ≤ rowId.toInt then .ok ⟨values.dropLast,rowId.toInt.toNat⟩
      else .error (.storage "sqlite index rowid must be a non-negative INTEGER")
    | none => .ok ⟨values.take index.columns.length,
        syntheticRowIdFromKey hash (values.drop index.columns.length)⟩

/-- The entry of an index record. -/
def decodeIndexRecordEntry (hash : List Value → RowId) (index : IndexMeta) (payload : Bytes) :
    Except DbError IndexEntry := do
  let values ← decodeIndexRecord payload
  decodeIndexEntryValues hash index values

/-- `decode_leaf_index_cell`. -/
def decodeLeafIndexCell (hash : List Value → RowId) (pager : Pager) (index : IndexMeta)
    (page : Bytes) (cellOffset : ℕ) : Except DbError IndexEntry := do
  let payload ← indexPayload pager page cellOffset 0 "index"
  decodeIndexRecordEntry hash index payload

/-- `decode_leaf_index_cells`. -/
def decodeLeafIndexCells (hash : List Value → RowId) (pager : Pager) (index : IndexMeta) :
    Bytes → Bool → Except DbError (List IndexEntry) :=
  leafCells .leafIndex "sqlite leaf-index cell reader requires a leaf index page"
    (decodeLeafIndexCell hash pager index)

/-- The children of an interior page of a type, each cell read by `cell`. -/
def interiorChildren (kind : String) (pageType : PageType) (cell : Bytes → ℕ → Except DbError ℕ)
    (page : Bytes) (firstPage : Bool) (header : BtreePageHeader) : Except DbError (List ℕ) := do
  if header.pageType≠pageType then
    .error (.storage s!"sqlite interior-{kind} child reader requires an interior {kind} page")
  else
    let offsets ← cellOffsets page firstPage header
    let children ← offsets.mapM (cell page)
    match header.rightmostPointer with
    | none => .error (.storage s!"sqlite interior {kind} page is missing rightmost pointer")
    | some rightmost => .ok (children++[rightmost])

/-- `decode_interior_table_children`. -/
def decodeInteriorTableChildren : Bytes → Bool → BtreePageHeader → Except DbError (List ℕ) :=
  interiorChildren "table" .interiorTable decodeInteriorChildPointer

/-- `decode_interior_index_child_pointers`. -/
def decodeInteriorIndexChildPointers :
    Bytes → Bool → BtreePageHeader → Except DbError (List ℕ) :=
  interiorChildren "index" .interiorIndex decodeInteriorChildPointer

/-- `validate_interior_index_cell`. -/
def validateInteriorIndexCell (pager : Pager) (index : IndexMeta) (page : Bytes)
    (cellOffset : ℕ) : Except DbError Unit := do
  let payload ← indexPayload pager page cellOffset 4 "interior index"
  let values ← decodeIndexRecord payload
  if values.length < minimumIndexRecordValueCount index then
    .error (tooFewValues "interior index" index values)
  else .ok ()

/-- `decode_interior_index_children`: the entries of the cells are checked and
dropped. -/
def decodeInteriorIndexChildren (pager : Pager) (index : IndexMeta) :
    Bytes → Bool → BtreePageHeader → Except DbError (List ℕ) :=
  interiorChildren "index" .interiorIndex fun page cellOffset => do
    validateInteriorIndexCell pager index page cellOffset
    decodeInteriorChildPointer page cellOffset

/-- What a page adds to a scan: a leaf leaves the scan at a new state, an interior
page names the children to go on with. -/
inductive Visit (σ : Type) where
  | leaf (state : σ)
  | interior (children : List ℕ)

/-- The recursion of the scans: the page is read, visited, and its children are
scanned in order. -/
def scanPages {σ : Type} (pager : Pager)
    (visit : Bytes → Bool → BtreePageHeader → σ → Except DbError (Visit σ)) :
    ℕ → ℕ → σ → Outcome σ
  | 0, _, _ => .stuck
  | fuel+1, pageNo, state => do
    let page ← .ofExcept (pager.readPage pageNo)
    let header ← .ofExcept (BtreePageHeader.decode page (pageNo=1))
    let visited ← .ofExcept (visit page (pageNo=1) header state)
    match visited with
    | .leaf state => .ok state
    | .interior children =>
      children.foldlM (fun state child => scanPages pager visit fuel child state) state

section Step

variable {σ : Type} {pager : Pager} {page : Bytes} {header : BtreePageHeader} {pageNo fuel : ℕ}
  {visit : Bytes → Bool → BtreePageHeader → σ → Except DbError (Visit σ)} {state : σ}

/-- A scan that meets a leaf ends there. -/
theorem scanPages_leaf {state' : σ} (hpage : pager.readPage pageNo=.ok page)
    (hheader : BtreePageHeader.decode page (pageNo=1)=.ok header)
    (hvisit : visit page (pageNo=1) header state=.ok (.leaf state')) :
    scanPages pager visit (fuel+1) pageNo state=.ok state' := by
  rw [scanPages,hpage]
  change (Outcome.ofExcept (BtreePageHeader.decode page _) >>= _)=_
  rw [hheader]
  change (Outcome.ofExcept (visit page _ header state) >>= _)=_
  rw [hvisit]
  rfl

/-- A scan that meets an interior page goes on with its children. -/
theorem scanPages_interior {children : List ℕ} (hpage : pager.readPage pageNo=.ok page)
    (hheader : BtreePageHeader.decode page (pageNo=1)=.ok header)
    (hvisit : visit page (pageNo=1) header state=.ok (.interior children)) :
    scanPages pager visit (fuel+1) pageNo state=
      children.foldlM (fun state child => scanPages pager visit fuel child state) state := by
  rw [scanPages,hpage]
  change (Outcome.ofExcept (BtreePageHeader.decode page _) >>= _)=_
  rw [hheader]
  change (Outcome.ofExcept (visit page _ header state) >>= _)=_
  rw [hvisit]
  rfl

end Step

/-- Number the rows after those already collected. -/
def numberRows (rows : List (RowId × Row)) : List Row → List (RowId × Row)
  | [] => rows
  | row :: rest => numberRows (rows++[(rows.length+1,row)]) rest

/-- The page of `scan_table_page`. -/
def visitTablePage (pager : Pager) (schema : Table) (page : Bytes) (firstPage : Bool)
    (header : BtreePageHeader) (rows : List (RowId × Row)) :
    Except DbError (Visit (List (RowId × Row))) :=
  match header.pageType,schema.withoutRowid with
  | .leafTable,_ => do
    let cells ← decodeLeafTableCells pager schema page firstPage
    .ok (.leaf (rows++cells))
  | .interiorTable,_ => do
    let children ← decodeInteriorTableChildren page firstPage header
    .ok (.interior children)
  | .leafIndex,true => do
    let added ← decodeLeafWithoutRowidTableRows pager schema page firstPage
    .ok (.leaf (numberRows rows added))
  | .interiorIndex,true => do
    let children ← decodeInteriorIndexChildPointers page firstPage header
    .ok (.interior children)
  | other,_ => .error (.storage
      s!"sqlite table reader does not support page type {other.debug}")

/-- `scan_table_rows`. -/
def scanTableRows (pager : Pager) (rootPage : ℕ) (schema : Table) (fuel : ℕ) :
    Outcome (List (RowId × Row)) :=
  scanPages pager (visitTablePage pager schema) fuel rootPage []

/-- The child of an interior table page to look for a row in: that of the first cell whose
row number is not below it. -/
def tableRowChild (page : Bytes) (header : BtreePageHeader) (rowId : RowId) :
    List ℕ → Except DbError ℕ
  | [] =>
    match header.rightmostPointer with
    | some rightmost => .ok rightmost
    | none => .error (.storage "sqlite interior table page is missing rightmost pointer")
  | cellOffset :: cellOffsets => do
    let leftChild ← decodeInteriorChildPointer page cellOffset
    let key ← sliceFrom page (cellOffset+4)
    let (pivotRowid,_) ← decodeVarint key
    if rowId ≤ pivotRowid then .ok leftChild
    else tableRowChild page header rowId cellOffsets

/-- `get_table_row_from_page`. -/
def getTableRowFromPage (pager : Pager) (schema : Table) (rowId : RowId) :
    ℕ → ℕ → Outcome (Option Row)
  | 0, _ => .stuck
  | fuel+1, pageNo => do
    let page ← .ofExcept (pager.readPage pageNo)
    let header ← .ofExcept (BtreePageHeader.decode page (pageNo=1))
    match header.pageType with
    | .leafTable => do
      let cells ← .ofExcept (decodeLeafTableCells pager schema page (pageNo=1))
      .ok ((cells.find? fun cell => cell.1==rowId).map Prod.snd)
    | .interiorTable => do
      let offsets ← .ofExcept (cellOffsets page (pageNo=1) header)
      let child ← .ofExcept (tableRowChild page header rowId offsets)
      getTableRowFromPage pager schema rowId fuel child
    | other => .err (.storage
        s!"sqlite table reader does not support page type {other.debug}")

/-- `get_table_row`. -/
def getTableRow (pager : Pager) (rootPage : ℕ) (schema : Table) (rowId : RowId) (fuel : ℕ) :
    Outcome (Option Row) :=
  getTableRowFromPage pager schema rowId fuel rootPage

/-- The page of an index scan that adds the entries of a leaf to its state. -/
def visitIndexPage {σ : Type} (hash : List Value → RowId) (pager : Pager) (index : IndexMeta)
    (add : σ → List IndexEntry → σ) (page : Bytes) (firstPage : Bool)
    (header : BtreePageHeader) (state : σ) : Except DbError (Visit σ) :=
  match header.pageType with
  | .leafIndex => do
    let cells ← decodeLeafIndexCells hash pager index page firstPage
    .ok (.leaf (add state cells))
  | .interiorIndex => do
    let children ← decodeInteriorIndexChildren pager index page firstPage header
    .ok (.interior children)
  | other => .error (.storage
      s!"sqlite index reader does not support page type {other.debug}")

/-- `scan_index_entries`. -/
def scanIndexEntries (hash : List Value → RowId) (pager : Pager) (rootPage : ℕ)
    (index : IndexMeta) (fuel : ℕ) : Outcome (List IndexEntry) :=
  scanPages pager (visitIndexPage hash pager index (· ++ ·)) fuel rootPage []

/-- The row numbers of the entries whose key starts with `keyPrefix`. -/
def matchingRowIds (keyPrefix : List Value) (entries : List IndexEntry) : List RowId :=
  (entries.filter fun entry => keyPrefix.isPrefixOf entry.key).map IndexEntry.rowId

/-- `lookup_index_entries`: the row numbers as an ordered set. -/
def lookupIndexEntries (hash : List Value → RowId) (pager : Pager) (rootPage : ℕ)
    (index : IndexMeta) (keyPrefix : List Value) (fuel : ℕ) : Outcome (List RowId) := do
  let rowIds ← scanPages pager
    (visitIndexPage hash pager index fun (rowIds : Finset RowId) entries =>
      rowIds∪(matchingRowIds keyPrefix entries).toFinset) fuel rootPage ∅
  .ok (rowIds.sort (· ≤ ·))

end RustSql.Sqlite3
