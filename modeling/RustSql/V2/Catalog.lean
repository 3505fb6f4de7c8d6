import RustSql.Common.Value
import RustSql.V2.Tree

/-!
# The catalog and the pages of a storage handle

A storage handle keeps the catalog, the row trees and the index trees on the
pages of one pager. Page texts are JSON and are not modelled; a page is the value
its text stands for, and the length of a text decides whether it fits.
-/

namespace RustSql.V2

open Std (ExtTreeMap)

/-- A map with string keys; the code's `BTreeMap<String, _>`. -/
abbrev StringMap (α : Type) := ExtTreeMap String α compare

/-- `CatalogState`. -/
structure CatalogState (S : Type) where
  schemas : StringMap S
  tableRoots : StringMap PageId
  nextRowIds : StringMap ℕ
  indexes : StringMap (StringMap IndexMeta)
  indexRoots : StringMap (StringMap PageId)

namespace CatalogState

variable {S : Type}

/-- `CatalogState::default`. -/
def empty : CatalogState S := ⟨∅,∅,∅,∅,∅⟩

/-- The indexes of a table (`indexes.get(table)`). -/
def indexesOf (c : CatalogState S) (table : String) : StringMap IndexMeta :=
  (c.indexes[table]?).getD ∅

/-- The index roots of a table. -/
def indexRootsOf (c : CatalogState S) (table : String) : StringMap PageId :=
  (c.indexRoots[table]?).getD ∅

end CatalogState

/-- An encoded index key. -/
abbrev IndexKey := Bytes

/-- A page of the store. -/
inductive StorePage (S : Type) where
  | metaPage (m : MetaPage)
  /-- A catalog page; without a payload it stands for the empty catalog. -/
  | catalogPage (catalog : Option (CatalogState S))
  | rowNode (node : Node ℕ StoredRow)
  | indexNode (node : Node IndexKey (List RowId))
  /-- A page of some other kind that nothing has been written to. -/
  | blank (kind : PageKind)
  /-- A page of the file nobody has written: zeros. -/
  | hole

/-- The texts of the JSON library, as far as the store depends on them. -/
class StoreText (S : Type) where
  encodeIndexKey : List Value → IndexKey
  decodeIndexKey : IndexKey → Except DbError (List Value)
  rowNodeLength : Node ℕ StoredRow → ℕ
  indexNodeLength : Node IndexKey (List RowId) → ℕ
  catalogLength : CatalogState S → ℕ

/-- `PAGE_SIZE - PAYLOAD_OFFSET`. -/
def payloadCapacity : ℕ := pageSize-payloadOffset

/-- The check of `encode_payload_page`. -/
def checkPayload (length : ℕ) : Except DbError Unit :=
  if payloadCapacity < length then
    .error (.storage s!"payload of {length} bytes exceeds page capacity {payloadCapacity}")
  else .ok ()

/-- The `Debug` text of a page kind. -/
def PageKind.debug : PageKind → String
  | .metaPage => "Meta"
  | .catalogPage => "Catalog"
  | .leafPage => "Leaf"
  | .internalPage => "Internal"

namespace StorePage

variable {S : Type}

/-- The error of a payload that is not the text of the node that is read; the
position in the text is left out. -/
def wrongNode : DbError := .serde "invalid type"

/-- The error of an empty payload. -/
def noPayload : DbError := .serde "EOF while parsing a value at line 1 column 0"

/-- The error of a page that is not a tree page. -/
def notTree (pageId : PageId) (kind : PageKind) : DbError :=
  .storage s!"page {pageId} has non-tree page kind {kind.debug}"

/-- `read_node` of the row trees: an index leaf without entries reads as a row
leaf, other index nodes do not parse. -/
def decodeRowNode (pageId : PageId) : StorePage S → Except DbError (Node ℕ StoredRow)
  | .rowNode node => .ok node
  | .indexNode (.leaf [] next) => .ok (.leaf [] next)
  | .indexNode _ => .error wrongNode
  | .metaPage _ => .error (notTree pageId .metaPage)
  | .catalogPage _ => .error (notTree pageId .catalogPage)
  | .blank .leafPage => .error noPayload
  | .blank .internalPage => .error noPayload
  | .blank kind => .error (notTree pageId kind)
  | .hole => .error (.storage "invalid storage_v2 page magic")

/-- `read_node` of the index trees. -/
def decodeIndexNode (pageId : PageId) : StorePage S → Except DbError (Node IndexKey (List RowId))
  | .indexNode node => .ok node
  | .rowNode (.leaf [] next) => .ok (.leaf [] next)
  | .rowNode _ => .error wrongNode
  | .metaPage _ => .error (notTree pageId .metaPage)
  | .catalogPage _ => .error (notTree pageId .catalogPage)
  | .blank .leafPage => .error noPayload
  | .blank .internalPage => .error noPayload
  | .blank kind => .error (notTree pageId kind)
  | .hole => .error (.storage "invalid storage_v2 page magic")

end StorePage

section Pages

variable {S : Type}

instance : PageImage (StorePage S) where
  ofMeta := .metaPage
  toMeta
    | .metaPage m => .ok m
    | .blank .metaPage => .ok ⟨0,0,0,0⟩
    | .hole => .error (.storage "invalid storage_v2 page magic")
    | _ => .error (.storage "storage_v2 meta page has wrong page kind")
  empty
    | .catalogPage => .catalogPage none
    | kind => .blank kind
  hole := .hole

instance [StoreText S] : TreePage ℕ StoredRow (StorePage S) where
  decodeNode := StorePage.decodeRowNode
  encodeNode node := do
    checkPayload (StoreText.rowNodeLength S node)
    .ok (.rowNode node)

instance [StoreText S] : TreePage IndexKey (List RowId) (StorePage S) where
  decodeNode := StorePage.decodeIndexNode
  encodeNode node := do
    checkPayload (StoreText.indexNodeLength S node)
    .ok (.indexNode node)

/-- The log of a storage handle, record by record. -/
instance {P : Type} : WalFormat P (WalRecord P) where
  encode record := [record]
  recoverFrames records := .ok (replay records)

/-- The pager of a storage handle. -/
abbrev StorePager (S : Type) := Pager (StorePage S) (WalRecord (StorePage S))

/-- `store_catalog`. -/
def storeCatalog [StoreText S] (txnId : TransactionId) (catalog : CatalogState S) :
    Eff (StorePager S) Unit := do
  Eff.lift (checkPayload (StoreText.catalogLength catalog))
  Pager.writePage txnId 1 (.catalogPage (some catalog))

end Pages

end RustSql.V2
