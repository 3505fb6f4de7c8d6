import RustSql.V2.FileStorage

/-!
# Rows and index entries

Reading and inserting the rows of a table and the entries of its indexes. An insert
checks everything first, then records how to undo itself and changes the trees;
when a tree gets a new root, the shared catalog is changed at once.
-/

namespace RustSql.V2

/-- `project_index_key`. -/
def projectIndexKey {S C : Type} [TableSchema S C] (schema : S) (index : IndexMeta) (row : Row) :
    Except DbError (List Value) :=
  index.columns.mapM fun column =>
    let position := (TableSchema.columnNames schema).findIdx (·=column)
    if position < (TableSchema.columnNames schema).length then
      match row[position]? with
      | some value => .ok value
      | none => .error (.storage
        s!"row for table {TableSchema.name schema} is missing column {column}")
    else .error (.storage s!"unknown column {column} on table {TableSchema.name schema}")

namespace FileStorage

variable {S C : Type} [TableSchema S C] [StoreText S]

/-- A row tree's `get`. -/
def getRowBytes (root : PageId) (rowId : RowId) : Eff (FileStorage S) (Option StoredRow) :=
  onPager (BTree.get root rowId)

/-- A row tree's `scan_all`. -/
def scanRowBytes (root : PageId) : Eff (FileStorage S) (List (RowId × StoredRow)) :=
  onPager (BTree.scanAll root)

/-- A row tree's `insert`; the root afterwards. -/
def putRowBytes (txnId : TransactionId) (root : PageId) (rowId : RowId) (bytes : StoredRow) :
    Eff (FileStorage S) PageId :=
  onPager (BTree.insert txnId root rowId bytes)

/-- A row tree's `delete`. -/
def removeRowBytes (txnId : TransactionId) (root : PageId) (rowId : RowId) :
    Eff (FileStorage S) Unit :=
  onPager (BTree.delete StoredRow txnId root rowId)

/-- The row ids under an encoded index key. -/
def getIndexEntry (root : PageId) (key : IndexKey) : Eff (FileStorage S) (Option (List RowId)) :=
  onPager (BTree.get root key)

/-- `upsert_index_entry`; the root afterwards. -/
def upsertIndexEntry (txnId : TransactionId) (root : PageId) (key : IndexKey) (rowId : RowId) :
    Eff (FileStorage S) PageId := do
  let rowIds := (← getIndexEntry root key).getD []
  let rowIds := if rowId∈rowIds then rowIds else (rowIds++[rowId]).insertionSort (· ≤ ·)
  onPager (BTree.insert txnId root key rowIds)

/-- `visible_row_at_root`. -/
def visibleRowAtRoot (txnId : TransactionId) (root : PageId) (rowId : RowId) :
    Eff (FileStorage S) (Option Row) := do
  let snapshot ← snapshotForTransaction txnId
  let bytes ← getRowBytes root rowId
  pure (bytes.bind fun bytes => visibleRow bytes txnId snapshot)

/-- `filter_index_row_ids_for_key`. -/
def filterIndexRowIdsForKey (txnId : TransactionId) (schema : S) (tableRoot : PageId)
    (index : IndexMeta) (keyValues : List Value) : List RowId → Eff (FileStorage S) (List RowId)
  | [] => pure []
  | rowId :: rest => do
    match ← visibleRowAtRoot txnId tableRoot rowId with
    | none => filterIndexRowIdsForKey txnId schema tableRoot index keyValues rest
    | some row => do
      let key ← Eff.lift (projectIndexKey schema index row)
      let visible ← filterIndexRowIdsForKey txnId schema tableRoot index keyValues rest
      pure (if key=keyValues then rowId :: visible else visible)

/-- The rows of a table a transaction sees. -/
def visibleRows (txnId : TransactionId) (snapshot : TxnSnapshot)
    (rows : List (RowId × StoredRow)) : List (RowId × Row) :=
  rows.filterMap fun entry =>
    (visibleRow entry.2 txnId snapshot).map fun row => (entry.1,row)

/-- The check that a unique index has no other visible row with the key. -/
def checkUniqueIndex (txnId : TransactionId) (schema : S) (tableRoot : PageId)
    (index : IndexMeta) (indexRoot : PageId) (key : List Value) (itself : Option RowId) :
    Eff (FileStorage S) Unit := do
  if !index.enforcesUniqueKey key then pure ()
  else do
    let found ← getIndexEntry indexRoot (StoreText.encodeIndexKey S key)
    let conflicting ← filterIndexRowIdsForKey txnId schema tableRoot index key (found.getD [])
    if (conflicting.filter fun rowId => itself≠some rowId).isEmpty then pure ()
    else Eff.fail (.storage s!"unique index {index.name} constraint failed")

/-- The number of values a row must have. -/
def checkRowWidth (schema : S) (row : Row) (what : String) : Except DbError Unit :=
  if row.length=(TableSchema.columnNames schema).length then .ok ()
  else .error (.storage
    s!"{what} expected {(TableSchema.columnNames schema).length} values but got {row.length}")

/-- `insert_row`. -/
def insertRow (txnId : TransactionId) (table : String) (row : Row) :
    Eff (FileStorage S) RowId := do
  validateTransaction txnId
  waitForTableWriteLock txnId table
  let (schema,root) ← Eff.reads (tableSchemaAndRoot table)
  Eff.lift (checkRowWidth schema row s!"insert into {table}")
  Eff.lift (TableSchema.validateRowValues schema row)
  Eff.lift (TableSchema.validateCheckConstraints schema row)
  let indexes ← Eff.reads (indexesForTable table)
  let writeKeys ← Eff.lift (indexes.mapM fun entry =>
    (projectIndexKey schema entry.2.1 row).map fun key => (entry.2.1.name,key))
  waitForWriteConflicts txnId table writeKeys
  let snapshot ← snapshotForTransaction txnId
  let rows ← scanRowBytes root
  Eff.lift (TableSchema.validatePrimaryKeyUniqueness schema row
    ((visibleRows txnId snapshot rows).map Prod.snd))
  let indexes ← Eff.reads (indexesForTable table)
  Eff.forEach indexes fun entry => do
    let key ← Eff.lift (projectIndexKey schema entry.2.1 row)
    checkUniqueIndex txnId schema root entry.2.1 entry.2.2 key none
  let s ← Eff.get
  let rowId ← onManager (TxnManager.allocateRowId txnId table
    ((s.catalog.nextRowIds[table]?).getD 1))
  modifyCatalog fun c => {c with nextRowIds := c.nextRowIds.insert table (rowId+1)}
  recordUndo txnId (.insertRow table rowId)
  let newRoot ← putRowBytes txnId root rowId (encodeUncommittedRowVersion row txnId)
  storeTableRoot table root newRoot
  let indexes ← Eff.reads (indexesForTable table)
  Eff.forEach indexes fun entry => do
    let key ← Eff.lift (projectIndexKey schema entry.2.1 row)
    recordUndo txnId (.indexInsert table entry.1 rowId key)
    let newRoot ← upsertIndexEntry txnId entry.2.2 (StoreText.encodeIndexKey S key) rowId
    storeIndexRoot table entry.1 entry.2.2 newRoot
  pure rowId

/-- `scan_rows`. -/
def scanRows (txnId : TransactionId) (table : String) :
    Eff (FileStorage S) (List (RowId × Row)) := do
  validateTransaction txnId
  waitForTableScanLock txnId table
  let s ← Eff.get
  match tableSchemaAndRoot table s with
  | .error _ => pure []
  | .ok (_,root) => do
    let snapshot ← snapshotForTransaction txnId
    let rows ← scanRowBytes root
    pure (visibleRows txnId snapshot rows)

end FileStorage

end RustSql.V2

/-!
## Indexes

Creating and reading the indexes of a table. An index entry may name
rows that a transaction does not see or that have another key by now, so every
read filters what it finds.
-/

namespace RustSql.V2.FileStorage

variable {S C : Type} [TableSchema S C] [StoreText S]

/-- The columns of a new index, one by one. -/
def validateIndexColumns (schema : S) : List String → List String → Except DbError Unit
  | _, [] => .ok ()
  | seen, column :: rest =>
    if column∉TableSchema.columnNames schema then
      .error (.storage s!"unknown column {column} on table {TableSchema.name schema}")
    else if column∈seen then .error (.storage s!"duplicate index column {column}")
    else validateIndexColumns schema (column :: seen) rest

/-- `validate_new_index`. -/
def validateNewIndex (schema : S) (indexes : StringMap IndexMeta) (index : IndexMeta) :
    Except DbError Unit := do
  if index.columns.isEmpty then
    .error (.storage "index must define at least one column")
  else do
    validateIndexColumns schema [] index.columns
    if index.name∈indexes then .error (.storage s!"index {index.name} already exists")
    else .ok ()

/-- The entries of a new index, made from the newest version of every row. -/
def fillIndex (txnId : TransactionId) (schema : S) (index : IndexMeta) :
    PageId → List (RowId × StoredRow) → Eff (FileStorage S) PageId
  | root, [] => pure root
  | root, entry :: rest => do
    let keyValues ← Eff.lift (projectIndexKey schema index (decodeRow entry.2))
    let key := StoreText.encodeIndexKey S keyValues
    let found ← if index.enforcesUniqueKey keyValues then getIndexEntry root key else pure none
    if (found.getD []).isEmpty then do
      let newRoot ← upsertIndexEntry txnId root key entry.1
      fillIndex txnId schema index newRoot rest
    else Eff.fail (.storage s!"unique index {index.name} constraint failed")

/-- `create_index`. -/
def createIndex (txnId : TransactionId) (table : String) (index : IndexMeta) :
    Eff (FileStorage S) Unit := do
  validateTransaction txnId
  waitForTableExclusiveLock txnId table
  let (schema,tableRoot) ← Eff.reads (tableSchemaAndRoot table)
  Eff.reads fun s => validateNewIndex schema (s.catalog.indexesOf table) index
  let rows ← scanRowBytes tableRoot
  let created ← onPager (BTree.create IndexKey (List RowId) txnId)
  let root ← fillIndex txnId schema index created rows
  modifyCatalog fun c => {c with
    indexes := c.indexes.insert table ((c.indexesOf table).insert index.name index)
    indexRoots := c.indexRoots.insert table ((c.indexRootsOf table).insert index.name root)}

/-- `lookup_index`. -/
def lookupIndex (txnId : TransactionId) (table indexName : String) (key : List Value) :
    Eff (FileStorage S) (List RowId) := do
  validateTransaction txnId
  waitForTableReadLock txnId table
  let (schema,tableRoot) ← Eff.reads (tableSchemaAndRoot table)
  let (index,root) ← Eff.reads (indexMetaAndRoot table indexName)
  if key.length≠index.columns.length then
    Eff.fail (.storage
      s!"index {index.name} expected {index.columns.length} key values but got {key.length}")
  else do
    onManager (TxnManager.acquireRecordLock txnId table indexName key)
    match ← getIndexEntry root (StoreText.encodeIndexKey S key) with
    | none => pure []
    | some rowIds => filterIndexRowIdsForKey txnId schema tableRoot index key rowIds

/-- The row ids of the entries whose keys pass a test, each filtered. -/
def collectIndexRows (txnId : TransactionId) (schema : S) (tableRoot : PageId)
    (index : IndexMeta) (test : List Value → Bool) :
    List (IndexKey × List RowId) → Eff (FileStorage S) (List RowId)
  | [] => pure []
  | entry :: rest => do
    let key ← Eff.lift (StoreText.decodeIndexKey S entry.1)
    let here ← if test key then
      filterIndexRowIdsForKey txnId schema tableRoot index key entry.2 else pure []
    let others ← collectIndexRows txnId schema tableRoot index test rest
    pure (here++others)

/-- Row ids in increasing order, each once (a `BTreeSet`). -/
def sortRowIds (rowIds : List RowId) : List RowId := rowIds.dedup.insertionSort (· ≤ ·)

/-- `scan_index_prefix`. -/
def scanIndexPrefix (txnId : TransactionId) (table indexName : String)
    (keyPrefix : List Value) : Eff (FileStorage S) (List RowId) := do
  validateTransaction txnId
  waitForTableReadLock txnId table
  let (schema,tableRoot) ← Eff.reads (tableSchemaAndRoot table)
  let (index,root) ← Eff.reads (indexMetaAndRoot table indexName)
  if index.columns.length < keyPrefix.length then
    Eff.fail (.storage
      s!"index {index.name} expected at most {index.columns.length} key values but got {keyPrefix.length}")
  else do
    onManager (TxnManager.acquirePrefixLock txnId table indexName keyPrefix)
    let entries ← onPager (BTree.scanAll root)
    let rowIds ← collectIndexRows txnId schema tableRoot index
      (fun key => keyPrefix.isPrefixOf key) entries
    pure (sortRowIds rowIds)

/-- A key lies behind the prefix, with its next value between the bounds. -/
def inIndexRange (keyPrefix : List Value) (lower upper : Option (CompareOp × Value))
    (key : List Value) : Bool :=
  keyPrefix.isPrefixOf key && (match key[keyPrefix.length]? with
    | none => false
    | some candidate => TxnManager.matchesBounds candidate lower upper)

/-- `scan_index_range`. -/
def scanIndexRange (txnId : TransactionId) (table indexName : String)
    (keyPrefix : List Value) (lower upper : Option (CompareOp × Value)) :
    Eff (FileStorage S) (List RowId) := do
  validateTransaction txnId
  waitForTableReadLock txnId table
  let (schema,tableRoot) ← Eff.reads (tableSchemaAndRoot table)
  let (index,root) ← Eff.reads (indexMetaAndRoot table indexName)
  if index.columns.length ≤ keyPrefix.length then
    Eff.fail (.storage
      s!"index {index.name} has no range column after prefix of length {keyPrefix.length}")
  else do
    onManager (TxnManager.acquireNextKeyLock txnId table indexName keyPrefix lower upper)
    let entries ← onPager (BTree.scanAll root)
    let rowIds ← collectIndexRows txnId schema tableRoot index
      (inIndexRange keyPrefix lower upper) entries
    pure (sortRowIds rowIds)

end RustSql.V2.FileStorage

/-!
## Schemas

Creating tables. A table is put into the catalog all transactions of the handle share,
under an exclusive lock on it.
-/

namespace RustSql.V2

namespace CatalogState

variable {S C : Type} [TableSchema S C]

/-- Give a table to a schema and a root, keeping a row id counter it has. -/
def withTable (c : CatalogState S) (schema : S) (root : PageId) : CatalogState S :=
  let table := TableSchema.name schema
  {c with
    schemas := c.schemas.insert table schema
    tableRoots := c.tableRoots.insert table root
    nextRowIds := c.nextRowIds.insertIfNew table 1}

end CatalogState

namespace FileStorage

variable {S C : Type} [TableSchema S C] [StoreText S]

/-- `create_schema`. -/
def createSchema (txnId : TransactionId) (schema : S) : Eff (FileStorage S) Unit := do
  let table := TableSchema.name schema
  validateTransaction txnId
  waitForTableExclusiveLock txnId table
  let s ← Eff.get
  if table∈s.catalog.schemas then Eff.fail (.storage s!"table {table} already exists")
  else do
    let root ← onPager (BTree.create ℕ StoredRow txnId)
    modifyCatalog fun c => c.withTable schema root

end FileStorage

end RustSql.V2
