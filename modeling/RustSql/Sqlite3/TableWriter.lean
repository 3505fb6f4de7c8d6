import RustSql.Sqlite3.WithoutRowid

/-!
# Writing table b-trees

A table is written like an index, bottom up, with the row numbers as keys. The cell of an interior
page has the largest row number of the child before it.
-/

namespace RustSql.Sqlite3

/-- `TableLeafCellData`. -/
structure TableLeafCellData where
  rowId : RowId
  payload : Bytes
  deriving DecidableEq

/-- `TableChildPage`. -/
structure TableChildPage where
  pageNo : ℕ
  maxRowId : RowId
  deriving DecidableEq

/-! ## Cells -/

/-- What stands before the payload of a row. -/
def tableCellHead (cell : TableLeafCellData) : Except DbError Bytes := do
  let length ← payloadLenVarint cell.payload
  .ok (length++encodeVarint cell.rowId)

/-- `render_table_leaf_cell`. -/
def renderTableLeafCell (cell : TableLeafCellData) : Eff PageFile Bytes := do
  let head ← Eff.lift (tableCellHead cell)
  renderCell head cell.payload false

/-- `leaf_table_cell_len`. -/
def leafTableCellLen (cell : TableLeafCellData) : Except DbError ℕ := do
  let head ← tableCellHead cell
  .ok (renderedLen head cell.payload false)

/-- A cell of an interior table page. -/
def interiorTableCell (child : TableChildPage) : Bytes :=
  encodeBe 4 child.pageNo++encodeVarint child.maxRowId

/-- The length of such a cell, as `paginate_table_children` computes it. -/
def interiorTableCellLen (child : TableChildPage) : Except DbError ℕ :=
  .ok (4+(encodeVarint child.maxRowId).length)

/-! ## Pages -/

/-- `build_leaf_table_page_cells`. -/
def buildLeafTablePageCells (cells : List TableLeafCellData) : Eff PageFile Bytes := do
  let image ← placeCells (8+2*cells.length)
    "sqlite writer does not support records that overflow a single leaf page"
    renderTableLeafCell cells .empty
  Eff.lift (finishPage 0x0d cells.length [] image)

/-- `build_interior_table_page`. -/
def buildInteriorTablePage (children : List TableChildPage) : Eff PageFile Bytes :=
  match children.getLast? with
  | some rightmost =>
    if children.length < 2 then
      Eff.fail (.storage "sqlite interior table page requires at least two children")
    else do
      let image ← placeCells (12+2*(children.length-1))
        "sqlite writer does not support interior table pages that overflow a single page"
        (fun child => pure (interiorTableCell child)) children.dropLast .empty
      Eff.lift (finishPage 0x05 (children.length-1) (encodeBe 4 rightmost.pageNo) image)
  | none => Eff.fail (.storage "sqlite interior table page requires at least two children")

/-! ## Levels -/

/-- `paginate_table_children`. -/
def paginateTableChildren (children : List TableChildPage) :
    Except DbError (List (List TableChildPage)) :=
  paginateInteriorChildren children interiorTableCellLen

/-- One leaf page of a tree with several. -/
def buildTableLeaf (group : List TableLeafCellData) : Eff PageFile TableChildPage := do
  let pageNo ← allocatePage
  let page ← buildLeafTablePageCells group
  insertPage pageNo page
  pure ⟨pageNo,(group.getLast?.map TableLeafCellData.rowId).getD 0⟩

/-- The largest row number below a page, or the error of a page without children. -/
def lastRowId (group : List TableChildPage) : Except DbError RowId :=
  match group.getLast? with
  | some last => .ok last.maxRowId
  | none => .error (.storage "sqlite interior table page has no children")

/-- One interior page of a level. -/
def buildTableParent (allocate : Eff PageFile ℕ) (group : List TableChildPage) :
    Eff PageFile TableChildPage := do
  let pageNo ← allocate
  let maxRowId ← Eff.lift (lastRowId group)
  let page ← buildInteriorTablePage group
  insertPage pageNo page
  pure ⟨pageNo,maxRowId⟩

/-- The levels above the leaves, until one page is left. -/
def buildTableLevels (rootPage : ℕ) : ℕ → List TableChildPage → Eff PageFile Unit
  | 0, _ => Eff.hang
  | fuel+1, children =>
    if children.length ≤ 1 then pure ()
    else do
      let groups ← Eff.lift (paginateTableChildren children)
      let allocate := if groups.length=1 then pure rootPage else allocatePage
      let parents ← Eff.mapEach groups (buildTableParent allocate)
      buildTableLevels rootPage fuel parents

/-- The order of the cells of a table. -/
def rowIdLe (left right : TableLeafCellData) : Prop := left.rowId ≤ right.rowId

instance instDecidableRelRowIdLe : DecidableRel rowIdLe := fun left right =>
  inferInstanceAs (Decidable (left.rowId ≤ right.rowId))

/-- The cells in the order of their row numbers (`sort_by_key`). -/
def sortRows (cells : List TableLeafCellData) : List TableLeafCellData :=
  cells.insertionSort rowIdLe

/-- The tree of a list of rows. -/
def buildRowTree (cells : List TableLeafCellData) (rootPage : ℕ) : Eff PageFile Unit := do
  let leafGroups ← Eff.lift (paginateLeafCells (sortRows cells) 8 leafTableCellLen)
  match leafGroups with
  | [group] => do
    let root ← buildLeafTablePageCells group
    insertPage rootPage root
  | _ => do
    let children ← Eff.mapEach leafGroups buildTableLeaf
    buildTableLevels rootPage (children.length+1) children

/-! ## Tables -/

/-- The row without the columns that stand for its number. -/
def blankRowid : List Column → Row → Row
  | column :: columns, value :: row =>
    (if column.aliasesRowid then .null else value) :: blankRowid columns row
  | _, row => row

/-- `encode_table_row_payload`. -/
def encodeTableRowPayload (schema : Table) (row : Row) : Except DbError Bytes :=
  encodeRecord (blankRowid schema.columns row)

/-- The cell of a row. -/
def tableCell (schema : Table) (row : RowId × Row) : Except DbError TableLeafCellData := do
  let payload ← encodeTableRowPayload schema row.2
  .ok ⟨row.1,payload⟩

/-- The cell of a row of a `WITHOUT ROWID` table. -/
def keyedCell (schema : Table) (primaryKey : List String) (row : RowId × Row) :
    Except DbError IndexLeafCellData := do
  let key ← primaryKey.mapM (storedValue schema row.2)
  let payload ← encodeWithoutRowidTablePayload schema row.2
  .ok ⟨key,payload⟩

/-- `build_without_rowid_table_btree`. -/
def buildWithoutRowidTableBtree (schema : Table) (rows : List (RowId × Row)) (rootPage : ℕ) :
    Eff PageFile Unit :=
  match schema.primaryKeyConstraint with
  | none => Eff.fail (.storage
      s!"WITHOUT ROWID table {schema.name} is missing PRIMARY KEY metadata")
  | some primaryKey => do
    let cells ← Eff.lift (rows.mapM (keyedCell schema primaryKey))
    buildCellTree "sqlite WITHOUT ROWID leaf page has no cells"
      "sqlite WITHOUT ROWID interior page has no children" cells rootPage

/-- `build_table_btree`. -/
def buildTableBtree (schema : Table) (rows : List (RowId × Row)) (rootPage : ℕ) :
    Eff PageFile Unit :=
  if schema.withoutRowid then buildWithoutRowidTableBtree schema rows rootPage
  else do
    let cells ← Eff.lift (rows.mapM (tableCell schema))
    buildRowTree cells rootPage

end RustSql.Sqlite3
