import RustSql.Sqlite3.Btree

/-!
# Reading the catalog

The rows of the schema table, which starts on the first page. Its reader has its own
decoders: they know nulls, integers and texts only, and a page below the root is never
taken for the first one.
-/

namespace RustSql.Sqlite3

/-- `RecordValue`. -/
inductive RecordValue where
  | null
  | integer (value : Int64)
  | text (value : String)
  deriving DecidableEq

/-- `SchemaRow`. -/
structure SchemaRow where
  entryType : String
  name : String
  tableName : String
  rootPage : ℕ
  sql : Option String
  deriving DecidableEq

/-- The reader's own text for an error. -/
def withMessage {α : Type} (message : String) (x : Except DbError α) : Except DbError α :=
  x.mapError fun _ => .storage message

/-- `schema_cell_offsets`. -/
def schemaCellOffsets (page : Bytes) (firstPage : Bool) (header : BtreePageHeader) :
    Except DbError (List ℕ) :=
  withMessage "sqlite schema page has truncated cell pointer array"
    (cellOffsets page firstPage header)

/-- `decode_interior_child_pointer`. -/
def decodeSchemaChildPointer (page : Bytes) (cellOffset : ℕ) : Except DbError ℕ :=
  withMessage "sqlite schema interior table cell is truncated"
    (decodeInteriorChildPointer page cellOffset)

/-- `decode_interior_table_children`. -/
def decodeSchemaChildren (page : Bytes) (firstPage : Bool) (header : BtreePageHeader) :
    Except DbError (List ℕ) := do
  if header.pageType≠.interiorTable then
    .error (.storage "sqlite schema interior child reader requires an interior table page")
  else
    let offsets ← schemaCellOffsets page firstPage header
    let children ← offsets.mapM (decodeSchemaChildPointer page)
    match header.rightmostPointer with
    | none =>
      .error (.storage "sqlite schema interior table page is missing rightmost pointer")
    | some rightmost => .ok (children++[rightmost])

/-- `read_leaf_table_payload`. -/
def readLeafTablePayload (pager : Pager) (page : Bytes)
    (cellOffset cellHeaderLen payloadSize : ℕ) : Except DbError Bytes := do
  let usable ← pager.usableSize
  if usable < 35 then .error (.storage "sqlite schema max-local computation overflow")
  else
    let maxLocal := usable-35
    let minLocal ← localBound usable 32 "sqlite schema min-local computation overflow"
    let kept := if payloadSize ≤ maxLocal then payloadSize
      else overflowingLocal minLocal maxLocal (usable-4) payloadSize
    let start := cellOffset+cellHeaderLen
    match window page start (start+kept) with
    | none => .error (.storage
        "sqlite schema payload bytes are truncated before overflow handling")
    | some bytes =>
      if payloadSize ≤ kept then .ok bytes
      else
        match window page (start+kept) (start+kept+4) with
        | none => .error (.storage "sqlite schema overflow pointer is truncated")
        | some pointer =>
          if decodeBe pointer=0 then .error (.storage
            "sqlite schema overflow payload is missing its first overflow page pointer")
          else do
            let overflow ← pager.readOverflowChain (decodeBe pointer) (payloadSize-kept)
            .ok (bytes++overflow)

/-- `decode_serial_value`: the value and the place behind its bytes. -/
def decodeSchemaValue (bytes : Bytes) (cursor serial : ℕ) :
    Except DbError (RecordValue × ℕ) :=
  let unsupported := DbError.storage s!"unsupported sqlite schema serial type {serial}"
  if serial=0 then .ok (.null,cursor)
  else if serial ≤ 6 then do
    let part ← valueBytes bytes cursor (integerLen serial) "invalid sqlite integer record length"
    .ok (.integer (decodeInteger part),cursor+integerLen serial)
  else if serial=8 then .ok (.integer 0,cursor)
  else if serial=9 then .ok (.integer 1,cursor)
  else if 12 ≤ serial ∧ serial%2=0 then do
    let _ ← valueBytes bytes cursor ((serial-12)/2) "invalid sqlite blob record length"
    .error unsupported
  else if 13 ≤ serial ∧ serial%2=1 then do
    let part ← valueBytes bytes cursor ((serial-13)/2) "invalid sqlite text record length"
    match textOfBytes part with
    | some text => .ok (.text text,cursor+(serial-13)/2)
    | none => .error (.storage "invalid utf-8 in sqlite text record")
  else .error unsupported

/-- The loop of `decode_record_values`. -/
def decodeSchemaValuesFrom (bytes : Bytes) : List ℕ → ℕ → Except DbError (List RecordValue)
  | [], _ => .ok []
  | serial :: serials, cursor => do
    let (value,cursor) ← decodeSchemaValue bytes cursor serial
    let values ← decodeSchemaValuesFrom bytes serials cursor
    .ok (value :: values)

/-- `decode_record_values`. -/
def decodeSchemaRecord (bytes : Bytes) : Except DbError (List RecordValue) := do
  let (serials,headerEnd) ← decodeRecordHeader bytes
  decodeSchemaValuesFrom bytes serials headerEnd

/-- `require_text`. -/
def requireText (value : RecordValue) (column : String) : Except DbError String :=
  match value with
  | .text text => .ok text
  | _ => .error (.storage s!"sqlite schema column {column} is not TEXT")

/-- `optional_text`. -/
def optionalText (value : RecordValue) (column : String) : Except DbError (Option String) :=
  match value with
  | .null => .ok none
  | .text text => .ok (some text)
  | _ => .error (.storage s!"sqlite schema column {column} is not TEXT or NULL")

/-- `require_u32`. -/
def requireU32 (value : RecordValue) (column : String) : Except DbError ℕ :=
  match value with
  | .integer value =>
    if 0 ≤ value.toInt ∧ value.toInt < 2^32 then .ok value.toInt.toNat
    else .error (.storage s!"sqlite schema column {column} is not a supported positive INTEGER")
  | _ => .error (.storage s!"sqlite schema column {column} is not INTEGER")

/-- `decode_schema_cell_with_pager`, with a pager. -/
def decodeSchemaCell (pager : Pager) (page : Bytes) (cellOffset : ℕ) :
    Except DbError SchemaRow := do
  let cell ← withMessage "sqlite schema cell offset is out of bounds" (sliceFrom page cellOffset)
  let (payloadSize,payloadSizeLen) ← decodeVarint cell
  let (_,rowidLen) ← decodeVarint (cell.drop payloadSizeLen)
  let payload ← readLeafTablePayload pager page cellOffset (payloadSizeLen+rowidLen) payloadSize
  let values ← decodeSchemaRecord payload
  match values with
  | [entryType,name,tableName,rootPage,sql] => do
    let entryType ← requireText entryType "type"
    let name ← requireText name "name"
    let tableName ← requireText tableName "tbl_name"
    let rootPage ← requireU32 rootPage "rootpage"
    let sql ← optionalText sql "sql"
    .ok ⟨entryType,name,tableName,rootPage,sql⟩
  | _ => .error (.storage "sqlite schema row does not contain the expected five columns")

/-- The page of `scan_schema_page`. -/
def visitSchemaPage (pager : Pager) (page : Bytes) (firstPage : Bool) (header : BtreePageHeader)
    (rows : List SchemaRow) : Except DbError (Visit (List SchemaRow)) :=
  match header.pageType with
  | .leafTable => do
    let offsets ← schemaCellOffsets page firstPage header
    let cells ← offsets.mapM (decodeSchemaCell pager page)
    .ok (.leaf (rows++cells))
  | .interiorTable => do
    let children ← decodeSchemaChildren page firstPage header
    .ok (.interior children)
  | other => .error (.storage
      s!"sqlite schema loader does not support page type {other.debug}")

/-- `scan_schema_page`. -/
def scanSchemaPage (pager : Pager) : ℕ → ℕ → Bool → List SchemaRow → Outcome (List SchemaRow)
  | 0, _, _, _ => .stuck
  | fuel+1, pageNo, firstPage, rows => do
    let page ← .ofExcept (pager.readPage pageNo)
    let header ← .ofExcept (BtreePageHeader.decode page firstPage)
    let visited ← .ofExcept (visitSchemaPage pager page firstPage header rows)
    match visited with
    | .leaf rows => .ok rows
    | .interior children =>
      children.foldlM (fun rows child => scanSchemaPage pager fuel child false rows) rows

/-- `read_schema_rows`. -/
def readSchemaRows (pager : Pager) (fuel : ℕ) : Outcome (List SchemaRow) :=
  scanSchemaPage pager fuel 1 true []

/-- `load_catalog`, over what it makes of the rows without reading the file any more. -/
def loadCatalog {α : Type} (catalogOf : List SchemaRow → Except DbError α) (pager : Pager)
    (fuel : ℕ) : Outcome α := do
  let rows ← readSchemaRows pager fuel
  .ofExcept (catalogOf rows)

end RustSql.Sqlite3
