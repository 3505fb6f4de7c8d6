import Mathlib.Order.Defs.LinearOrder
import RustSql.V2.Pager

/-!
# B+ trees on pages

The row trees and the index trees of the store: leaves hold entries in key order
and are chained to the right, inner nodes hold separators. `btree.rs` and
`index_tree.rs` are the same code for two key types, so the trees here are
generic in keys and values. Inserting locks every page from the root down;
deleting removes an entry and never merges nodes.

The descent follows page numbers, so it is bounded by the number of pages there
are: a tree without cycles never reaches the bound. An index out of range, where
the code panics, does not return either.
-/

namespace RustSql.V2

/-- `LEAF_MAX_ENTRIES`. -/
def leafMaxEntries : ℕ := 16

/-- `INTERNAL_MAX_KEYS`. -/
def internalMaxKeys : ℕ := 16

/-- `Node`. -/
inductive Node (K V : Type) where
  | leaf (entries : List (K × V)) (next : Option PageId)
  | internal (separators : List K) (children : List PageId)
  deriving DecidableEq

/-- `SplitResult`. -/
structure SplitResult (K : Type) where
  separatorKey : K
  rightPageId : PageId

/-- How nodes are stored on pages. -/
class TreePage (K V P : Type) where
  /-- What `read_node` does with the page it has read. -/
  decodeNode : PageId → P → Except DbError (Node K V)
  /-- `encode_payload_page` of the node's text. -/
  encodeNode : Node K V → Except DbError P

/-- `LeafNode::lookup`. -/
def lookupEntry {K V : Type} [DecidableEq K] (entries : List (K × V)) (key : K) : Option V :=
  (entries.find? fun entry => entry.1=key).map Prod.snd

/-- Put a key into sorted entries, replacing its value when it is there. -/
def upsertEntry {K V : Type} [LinearOrder K] (entries : List (K × V)) (key : K) (value : V) :
    List (K × V) :=
  match entries with
  | [] => [(key,value)]
  | entry :: rest =>
    if key < entry.1 then (key,value) :: entry :: rest
    else if key=entry.1 then (key,value) :: rest
    else entry :: upsertEntry rest key value

/-- `InternalNode::child_index`. -/
def childIndex {K : Type} [LinearOrder K] (separators : List K) (key : K) : ℕ :=
  (separators.takeWhile fun separator => separator ≤ key).length

namespace BTree

variable {K V P U : Type} [LinearOrder K] [TreePage K V P]

/-- More than the number of pages there are. -/
def treeFuel (p : Pager P U) : ℕ := p.pageCache.size+p.files.db.length+1

/-- `read_node`. -/
def readNode (pageId : PageId) (p : Pager P U) : Except DbError (Node K V) := do
  let page ← p.readPage pageId
  TreePage.decodeNode pageId page

/-- `write_node`. -/
def writeNode (txnId : TransactionId) (pageId : PageId) (node : Node K V) :
    Eff (Pager P U) Unit := do
  let page ← Eff.lift (TreePage.encodeNode node)
  Pager.writePage txnId pageId page

/-- The child of an inner node a key belongs to. -/
def childFor (separators : List K) (children : List PageId) (key : K) : Eff (Pager P U) PageId :=
  match children[childIndex separators key]? with
  | some child => pure child
  | none => Eff.hang

/-- `find_leaf`. -/
def findLeafFrom : ℕ → PageId → K → Eff (Pager P U) (List (K × V))
  | 0, _, _ => Eff.hang
  | fuel+1, pageId, key => do
    let node : Node K V ← Eff.reads (readNode pageId)
    match node with
    | .leaf entries _ => pure entries
    | .internal separators children => do
      let child ← childFor separators children key
      findLeafFrom fuel child key

/-- `get`. -/
def get (root : PageId) (key : K) : Eff (Pager P U) (Option V) := fun p =>
  (do
    let entries ← findLeafFrom (treeFuel p) root key
    pure (lookupEntry entries key)) p

/-- `leftmost_leaf_page`. -/
def leftmostLeafFrom (K V : Type) [LinearOrder K] [TreePage K V P] :
    ℕ → PageId → Eff (Pager P U) PageId
  | 0, _ => Eff.hang
  | fuel+1, pageId => do
    let node : Node K V ← Eff.reads (readNode pageId)
    match node with
    | .leaf _ _ => pure pageId
    | .internal _ children =>
      match children.head? with
      | some child => leftmostLeafFrom K V fuel child
      | none => Eff.hang

/-- The message of a scan that meets an inner node; the two trees word it
differently. -/
class ScanMessage (K : Type) where
  expectedLeaf : PageId → String

instance : ScanMessage ℕ where
  expectedLeaf pageId := s!"expected leaf page {pageId} while scanning B+Tree leaf chain"

instance : ScanMessage Bytes where
  expectedLeaf pageId := s!"expected leaf page {pageId} while scanning index leaf chain"

/-- The leaf chain from a page on. -/
def scanChainFrom [ScanMessage K] : ℕ → Option PageId → Eff (Pager P U) (List (K × V))
  | _, none => pure []
  | 0, some _ => Eff.hang
  | fuel+1, some pageId => do
    let node : Node K V ← Eff.reads (readNode pageId)
    match node with
    | .leaf entries next => do
      let rest ← scanChainFrom fuel next
      pure (entries++rest)
    | .internal _ _ => Eff.fail (.storage (ScanMessage.expectedLeaf K pageId))

/-- `scan_all`. -/
def scanAll [ScanMessage K] (root : PageId) : Eff (Pager P U) (List (K × V)) := fun p =>
  (do
    let first ← leftmostLeafFrom K V (treeFuel p) root
    scanChainFrom (treeFuel p) (some first)) p

section Writes

variable [PageImage P]

/-- `create`. -/
def create (K V : Type) [LinearOrder K] [TreePage K V P] (txnId : TransactionId) :
    Eff (Pager P U) PageId := do
  let root ← Pager.allocatePageWithKind txnId .leafPage
  writeNode txnId root (.leaf [] none : Node K V)
  pure root

/-- The part of `insert_into_page` that stores a leaf, splitting it when it is
too long. -/
def storeLeaf (txnId : TransactionId) (pageId : PageId) (entries : List (K × V))
    (next : Option PageId) : Eff (Pager P U) (Option (SplitResult K)) :=
  if entries.length ≤ leafMaxEntries then do
    writeNode txnId pageId (.leaf entries next)
    pure none
  else
    let splitAt := entries.length/2
    match entries.drop splitAt with
    | [] => Eff.hang
    | right :: rest => do
      let newPageId ← Pager.allocatePageWithKind txnId .leafPage
      writeNode txnId pageId (.leaf (entries.take splitAt) (some newPageId))
      writeNode txnId newPageId (.leaf (right :: rest) next)
      pure (some ⟨right.1,newPageId⟩)

/-- The part of `insert_into_page` that stores an inner node, splitting it when
it has too many keys. The middle key goes up. -/
def storeInternal (V : Type) [TreePage K V P] (txnId : TransactionId) (pageId : PageId)
    (separators : List K) (children : List PageId) :
    Eff (Pager P U) (Option (SplitResult K)) :=
  if separators.length ≤ internalMaxKeys then do
    writeNode txnId pageId (.internal separators children : Node K V)
    pure none
  else
    let mid := separators.length/2
    match separators[mid]? with
    | none => Eff.hang
    | some promotedKey => do
      let newPageId ← Pager.allocatePageWithKind txnId .internalPage
      writeNode txnId pageId
        (.internal (separators.take mid) (children.take (mid+1)) : Node K V)
      writeNode txnId newPageId
        (.internal (separators.drop (mid+1)) (children.drop (mid+1)) : Node K V)
      pure (some ⟨promotedKey,newPageId⟩)

/-- `insert_into_page`. -/
def insertIntoPage : ℕ → TransactionId → PageId → K → V →
    Eff (Pager P U) (Option (SplitResult K))
  | 0, _, _, _, _ => Eff.hang
  | fuel+1, txnId, pageId, key, value => do
    Pager.acquirePageWriteLock txnId pageId
    let node : Node K V ← Eff.reads (readNode pageId)
    match node with
    | .leaf entries next => storeLeaf txnId pageId (upsertEntry entries key value) next
    | .internal separators children => do
      let child ← childFor separators children key
      let index := childIndex separators key
      match ← insertIntoPage fuel txnId child key value with
      | none => pure none
      | some split =>
        storeInternal V txnId pageId (separators.insertIdx index split.separatorKey)
          (children.insertIdx (index+1) split.rightPageId)

/-- `insert`; the root of the tree afterwards. -/
def insert (txnId : TransactionId) (root : PageId) (key : K) (value : V) :
    Eff (Pager P U) PageId := fun p =>
  (do
    match ← insertIntoPage (treeFuel p) txnId root key value with
    | none => pure root
    | some split => do
      let newRoot ← Pager.allocatePageWithKind txnId .internalPage
      writeNode txnId newRoot
        (.internal [split.separatorKey] [root,split.rightPageId] : Node K V)
      pure newRoot) p

/-- `delete_from_page`. -/
def deleteFromPage (V : Type) [TreePage K V P] :
    ℕ → TransactionId → PageId → K → Eff (Pager P U) Unit
  | 0, _, _, _ => Eff.hang
  | fuel+1, txnId, pageId, key => do
    Pager.acquirePageWriteLock txnId pageId
    let node : Node K V ← Eff.reads (readNode pageId)
    match node with
    | .leaf entries next =>
      if entries.any fun entry => entry.1=key then
        writeNode txnId pageId
          (.leaf (entries.eraseP fun entry => entry.1=key) next : Node K V)
      else pure ()
    | .internal separators children => do
      let child ← childFor separators children key
      deleteFromPage V fuel txnId child key

/-- `delete`. -/
def delete (V : Type) [TreePage K V P] (txnId : TransactionId) (root : PageId) (key : K) :
    Eff (Pager P U) Unit := fun p =>
  deleteFromPage V (treeFuel p) txnId root key p

end Writes

end BTree

end RustSql.V2

/-!
## Reading a tree

Searches and scans read pages and change nothing.
-/

namespace RustSql.V2.BTree

variable {K V P U : Type} [LinearOrder K] [TreePage K V P]

/-- A call that leaves the state as it is. -/
def ReadsOnly {σ α : Type} (s : σ) (x : Eff σ α) : Prop :=
  Guarantee (· = ·) s x fun _ _ => True

theorem readsOnly_reads {σ α : Type} (s : σ) (f : σ → Except DbError α) :
    ReadsOnly s (Eff.reads f) :=
  Guarantee.reads fun _ _ => trivial

/-- One reading after the other. -/
theorem ReadsOnly.bind {σ α β : Type} {s : σ} {x : Eff σ α} {f : α → Eff σ β}
    (hx : ReadsOnly s x) (hf : ∀ a, ReadsOnly s (f a)) : ReadsOnly s (x >>= f) := by
  refine Guarantee.bind hx fun a t hst _ => ?_
  obtain rfl := hst
  exact hf a

theorem childFor_readsOnly (p : Pager P U) (separators : List K) (children : List PageId)
    (key : K) : ReadsOnly p (childFor separators children key) := by
  unfold childFor
  split
  · exact Guarantee.ret trivial
  · exact Guarantee.hang

theorem findLeafFrom_readsOnly (fuel : ℕ) (p : Pager P U) (pageId : PageId) (key : K) :
    ReadsOnly p (findLeafFrom fuel pageId key : Eff (Pager P U) (List (K × V))) := by
  induction fuel generalizing pageId with
  | zero => exact Guarantee.hang
  | succ fuel ih =>
    refine (readsOnly_reads p _).bind fun node => ?_
    cases node with
    | leaf entries next => exact Guarantee.ret trivial
    | internal separators children =>
      exact (childFor_readsOnly p separators children key).bind fun child => ih child

theorem get_readsOnly (p : Pager P U) (root : PageId) (key : K) :
    ReadsOnly p (get root key : Eff (Pager P U) (Option V)) :=
  ReadsOnly.bind (findLeafFrom_readsOnly (treeFuel p) p root key) fun _ =>
    Guarantee.ret trivial

theorem leftmostLeafFrom_readsOnly (fuel : ℕ) (p : Pager P U) (pageId : PageId) :
    ReadsOnly p (leftmostLeafFrom K V fuel pageId : Eff (Pager P U) PageId) := by
  induction fuel generalizing pageId with
  | zero => exact Guarantee.hang
  | succ fuel ih =>
    refine (readsOnly_reads p _).bind fun node => ?_
    cases node with
    | leaf entries next => exact Guarantee.ret trivial
    | internal separators children =>
      dsimp only
      split
      · exact ih _
      · exact Guarantee.hang

omit [LinearOrder K] in
theorem scanChainFrom_readsOnly [ScanMessage K] (fuel : ℕ) (p : Pager P U)
    (pageId : Option PageId) :
    ReadsOnly p (scanChainFrom fuel pageId : Eff (Pager P U) (List (K × V))) := by
  induction fuel generalizing pageId with
  | zero =>
    cases pageId with
    | none => exact Guarantee.ret trivial
    | some pageId => exact Guarantee.hang
  | succ fuel ih =>
    cases pageId with
    | none => exact Guarantee.ret trivial
    | some pageId =>
      refine (readsOnly_reads p _).bind fun node => ?_
      cases node with
      | leaf entries next => exact (ih next).bind fun _ => Guarantee.ret trivial
      | internal separators children => exact Guarantee.fail _

theorem scanAll_readsOnly [ScanMessage K] (p : Pager P U) (root : PageId) :
    ReadsOnly p (scanAll root : Eff (Pager P U) (List (K × V))) :=
  ReadsOnly.bind (leftmostLeafFrom_readsOnly (treeFuel p) p root) fun first =>
    scanChainFrom_readsOnly (treeFuel p) p (some first)

end RustSql.V2.BTree
