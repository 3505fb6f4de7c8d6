import RustSql.Base.SeparatedRow
import RustSql.V2.SortedEntries
import RustSql.Base.Completes

/-!
# What a tree on pages stands for

A subtree is the list of its nodes with the pages they are on, from its root down and
from left to right. Its leaves hold entries in key order within the subtree's bounds, and
the separators of an inner node bound the subtrees of its children. The leaves of a whole
tree are chained in that order. Searching and scanning such a tree finds its entries.
-/

namespace RustSql.V2

variable {K V : Type} [LinearOrder K]

/-- A node and its page. -/
abbrev Part (K V : Type) := PageId × Node K V

/-- A leaf, as `LeafNode` and the page it is on. -/
structure Leaf (K V : Type) where
  pageId : PageId
  entries : List (K × V)
  next : Option PageId

/-- The leaf a part is, if it is one. -/
def Part.leaf? : Part K V → Option (Leaf K V)
  | (pageId,.leaf entries next) => some ⟨pageId,entries,next⟩
  | (_,.internal _ _) => none

/-- The leaves among some parts. -/
def leavesOf (parts : List (Part K V)) : List (Leaf K V) := parts.filterMap Part.leaf?

/-- The entries of some parts. -/
def contents (parts : List (Part K V)) : List (K × V) := (leavesOf parts).flatMap Leaf.entries

/-- The keys of a part's entries. -/
def Part.keys (part : Part K V) : List K := (contents [part]).map Prod.fst

/-- A subtree of some height: its bounds, the page of its root and its parts. -/
def Subtree : ℕ → Bounded K PageId (Part K V)
  | 0, lo, hi, pageId, parts => ∃ entries next, parts=[(pageId,.leaf entries next)] ∧
    Ascending entries ∧
      ∀ entry∈entries, lo ≤ (entry.1 : WithBot K) ∧ (entry.1 : WithTop K) < hi
  | height+1, lo, hi, pageId, parts => ∃ separators children rest,
    parts=(pageId,.internal separators children)::rest ∧
      SeparatedRow (Subtree height) lo hi separators children rest

/-- The page a chain of leaves begins with. -/
def firstPage : List (Leaf K V) → Option PageId → Option PageId
  | [], last => last
  | leaf::_, _ => some leaf.pageId

/-- Each leaf's next page is the one of the leaf behind it, up to a last page. -/
def Linked : List (Leaf K V) → Option PageId → Prop
  | [], _ => True
  | leaf::rest, last => leaf.next=firstPage rest last ∧ Linked rest last

/-! ## Parts one after the other -/

section Lists

variable {parts parts' : List (Part K V)}

omit [LinearOrder K] in
/-- The leaves of parts in a row. -/
@[simp] theorem leavesOf_append : leavesOf (parts++parts')=leavesOf parts++leavesOf parts' := by
  unfold leavesOf
  exact List.filterMap_append

omit [LinearOrder K] in
/-- Their contents. -/
@[simp] theorem contents_append : contents (parts++parts')=contents parts++contents parts' := by
  unfold contents
  rw [leavesOf_append,List.flatMap_append]

omit [LinearOrder K] in
/-- A leaf is its own only leaf. -/
@[simp] theorem leavesOf_leaf {pageId : PageId} {entries : List (K × V)} {next : Option PageId} :
    leavesOf [(pageId,.leaf entries next)]=[⟨pageId,entries,next⟩] := rfl

omit [LinearOrder K] in
/-- Its contents are its entries. -/
@[simp] theorem contents_leaf {pageId : PageId} {entries : List (K × V)} {next : Option PageId} :
    contents [(pageId,.leaf entries next)]=entries := by
  simp [contents]

omit [LinearOrder K] in
/-- An inner page is no leaf. -/
@[simp] theorem leavesOf_internal {pageId : PageId} {separators : List K}
    {children : List PageId} : leavesOf ((pageId,.internal separators children)::parts)=
      leavesOf parts := rfl

omit [LinearOrder K] in
/-- It has no contents of its own. -/
@[simp] theorem contents_internal {pageId : PageId} {separators : List K}
    {children : List PageId} : contents ((pageId,.internal separators children)::parts)=
      contents parts := rfl

omit [LinearOrder K] in
/-- The entries of some parts, part by part. -/
theorem mem_contents {entry : K × V} :
    entry∈contents parts ↔ ∃ part∈parts, entry∈contents [part] := by
  induction parts with
  | nil => simp [contents,leavesOf]
  | cons part parts ih =>
    rw [←List.singleton_append,contents_append,List.mem_append,ih]
    simp only [List.singleton_append,List.mem_cons,exists_eq_or_imp]

omit [LinearOrder K] in
/-- The first of leaves in a row. -/
theorem firstPage_append {leaves leaves' : List (Leaf K V)} {last : Option PageId} :
    firstPage (leaves++leaves') last=firstPage leaves (firstPage leaves' last) := by
  cases leaves <;> rfl

omit [LinearOrder K] in
/-- Leaves in a row are linked when both parts are. -/
theorem linked_append {leaves leaves' : List (Leaf K V)} {last : Option PageId} :
    Linked (leaves++leaves') last ↔
      Linked leaves (firstPage leaves' last) ∧ Linked leaves' last := by
  induction leaves with
  | nil => exact ⟨fun h => ⟨trivial,h⟩,And.right⟩
  | cons leaf leaves ih =>
    rw [List.cons_append,Linked,Linked,ih,firstPage_append,and_assoc]

end Lists

/-! ## Bounds and order -/

section Shape

variable {height : ℕ} {lo : WithBot K} {hi : WithTop K} {pageId : PageId}
  {parts : List (Part K V)}

/-- All keys of a subtree lie between its bounds. -/
theorem Subtree.keys_bounded (h : Subtree height lo hi pageId parts) :
    ∀ part∈parts, ∀ key∈part.keys, lo ≤ (key : WithBot K) ∧ (key : WithTop K) < hi := by
  induction height generalizing lo hi pageId parts with
  | zero =>
    obtain ⟨entries,next,rfl,-,hbounds⟩ := h
    intro part hmem key hkey
    obtain rfl := List.mem_singleton.mp hmem
    unfold Part.keys at hkey
    rw [contents_leaf] at hkey
    obtain ⟨entry,hentry,rfl⟩ := List.mem_map.mp hkey
    exact hbounds entry hentry
  | succ height ih =>
    obtain ⟨separators,children,rest,rfl,hrow⟩ := h
    intro part hmem key hkey
    rcases List.mem_cons.mp hmem with rfl | hmem
    · exact absurd hkey (by simp [Part.keys,contents,leavesOf,Part.leaf?])
    · exact SeparatedRow.keys_bounded (fun h => ih h) hrow part hmem key hkey

/-- So do its entries. -/
theorem Subtree.bounded (h : Subtree height lo hi pageId parts) :
    ∀ entry∈contents parts, lo ≤ (entry.1 : WithBot K) ∧ (entry.1 : WithTop K) < hi := by
  intro entry hmem
  obtain ⟨part,hpart,hentry⟩ := mem_contents.mp hmem
  exact h.keys_bounded part hpart entry.1 (List.mem_map_of_mem hentry)

/-- So do the entries of a row of subtrees. -/
theorem SeparatedRow.bounded {separators : List K} {children : List PageId}
    (h : SeparatedRow (Subtree height) lo hi separators children parts) :
    ∀ entry∈contents parts, lo ≤ (entry.1 : WithBot K) ∧ (entry.1 : WithTop K) < hi := by
  intro entry hmem
  obtain ⟨part,hpart,hentry⟩ := mem_contents.mp hmem
  exact h.keys_bounded Subtree.keys_bounded part hpart entry.1 (List.mem_map_of_mem hentry)

/-- The entries of a subtree ascend. -/
theorem Subtree.ascending (h : Subtree height lo hi pageId parts) :
    Ascending (contents parts) := by
  induction height generalizing lo hi pageId parts with
  | zero =>
    obtain ⟨entries,next,rfl,hascending,-⟩ := h
    rw [contents_leaf]
    exact hascending
  | succ height ih =>
    obtain ⟨separators,children,rest,rfl,hrow⟩ := h
    rw [contents_internal]
    induction hrow with
    | last h => exact ih h
    | cons hlo hhi h hrest ihRow =>
      rw [contents_append]
      refine (ih h).append ihRow fun entry hentry other hother => ?_
      have hbelow := WithTop.coe_lt_coe.mp (h.bounded entry hentry).2
      have habove := WithBot.coe_le_coe.mp (SeparatedRow.bounded hrest other hother).1
      exact hbelow.trans_le habove

/-- A subtree has a leaf. -/
theorem Subtree.leaves (h : Subtree height lo hi pageId parts) :
    ∃ leaf rest, leavesOf parts=leaf::rest := by
  induction height generalizing lo hi pageId parts with
  | zero =>
    obtain ⟨entries,next,rfl,-,-⟩ := h
    exact ⟨_,[],rfl⟩
  | succ height ih =>
    obtain ⟨separators,children,rest,rfl,hrow⟩ := h
    rw [leavesOf_internal]
    cases hrow with
    | last h => exact ih h
    | cons hlo hhi h hrest =>
      obtain ⟨leaf,later,hleaves⟩ := ih h
      exact ⟨leaf,later++_,by rw [leavesOf_append,hleaves,List.cons_append]⟩

/-- A subtree has more nodes than levels below its root. -/
theorem Subtree.height_lt (h : Subtree height lo hi pageId parts) : height < parts.length := by
  induction height generalizing lo hi pageId parts with
  | zero =>
    obtain ⟨entries,next,rfl,-,-⟩ := h
    exact Nat.zero_lt_one
  | succ height ih =>
    obtain ⟨separators,children,rest,rfl,hrow⟩ := h
    have hrest : height < rest.length := by
      cases hrow with
      | last h => exact ih h
      | cons hlo hhi h hrest =>
        have hchild := ih h
        rw [List.length_append]
        omega
    rw [List.length_cons]
    omega

end Shape

end RustSql.V2

/-!
## Searching a tree

A descent by separators reaches the leaf a key belongs to, and the chain of leaves from
the leftmost one on has every entry of the tree once, in key order. The number of pages
bounds both, so neither runs out of steps.
-/

namespace RustSql.V2.BTree

variable {K V P U : Type} [LinearOrder K] [TreePage K V P] {p p' : Pager P U}

/-- The nodes can be read off the pages they are on. -/
def Stored (p : Pager P U) (parts : List (Part K V)) : Prop :=
  ∀ part∈parts, readNode part.1 p=(.ok part.2 : Except DbError (Node K V))

omit [LinearOrder K] in
/-- Stored parts in a row. -/
theorem stored_append {parts parts' : List (Part K V)} :
    Stored p (parts++parts') ↔ Stored p parts ∧ Stored p parts' := by
  unfold Stored
  simp only [List.mem_append,or_imp,forall_and]

omit [LinearOrder K] in
/-- One stored part and the others. -/
theorem stored_cons {pageId : PageId} {node : Node K V} {parts : List (Part K V)} :
    Stored p ((pageId,node)::parts) ↔ readNode pageId p=.ok node ∧ Stored p parts := by
  unfold Stored
  simp only [List.mem_cons,forall_eq_or_imp]

variable {height fuel : ℕ} {lo : WithBot K} {hi : WithTop K} {pageId : PageId}
  {parts : List (Part K V)} {key : K}

omit [LinearOrder K] in
/-- Reading a node of the tree. -/
theorem reads_node {node : Node K V} (h : readNode pageId p=.ok node) :
    (Eff.reads (readNode pageId)) p=(.ok node,p) := by
  unfold Eff.reads
  rw [h]

variable {separators : List K} {children : List PageId} {root : PageId}

/-- The child for a key is the one at its place. -/
theorem childFor_ok {child : PageId} (h : children[childIndex separators key]?=some child) :
    (childFor separators children key : Eff (Pager P U) PageId) p=(.ok child,p) := by
  unfold childFor
  rw [h]
  rfl

/-- The entries around the place of a key do not have it. -/
theorem contents_place
    (place : SeparatedRow.Place (Subtree height) Part.keys key lo hi separators children parts) :
    (∀ entry∈contents place.front, entry.1 < key) ∧
      ∀ entry∈contents place.back, key < entry.1 := by
  refine ⟨fun entry hmem => ?_,fun entry hmem => ?_⟩
  · obtain ⟨part,hpart,hentry⟩ := mem_contents.mp hmem
    exact place.front_lt part hpart entry.1 (List.mem_map_of_mem hentry)
  · obtain ⟨part,hpart,hentry⟩ := mem_contents.mp hmem
    exact place.lt_back part hpart entry.1 (List.mem_map_of_mem hentry)

/-- The entries of a row of children, around the place of a key. -/
theorem contents_rest
    (place : SeparatedRow.Place (Subtree height) Part.keys key lo hi separators children parts) :
    contents parts=contents place.front++(contents place.own++contents place.back) := by
  have hcongr := congrArg contents place.parts_eq
  rwa [contents_append,contents_append] at hcongr

/-- `find_leaf` returns the leaf that has the key if any leaf of the subtree has it. -/
theorem findLeafFrom_ok (h : Subtree height lo hi pageId parts) (hstored : Stored p parts)
    (hlo : lo ≤ (key : WithBot K)) (hhi : (key : WithTop K) < hi) (hfuel : height < fuel) :
    ∃ entries : List (K × V), findLeafFrom fuel pageId key p=(.ok entries,p) ∧
      lookupEntry entries key=lookupEntry (contents parts) key := by
  induction height generalizing lo hi pageId parts fuel with
  | zero =>
    obtain ⟨entries,next,rfl,-,-⟩ := h
    obtain ⟨fuel,rfl⟩ : ∃ n, fuel=n+1 := ⟨fuel-1,by omega⟩
    have hread := reads_node (stored_cons.mp hstored).1
    refine ⟨entries,?_,by rw [contents_leaf]⟩
    unfold findLeafFrom
    rw [Eff.bind_of_ok hread]
    rfl
  | succ height ih =>
    obtain ⟨separators,children,rest,rfl,hrow⟩ := h
    obtain ⟨fuel,rfl⟩ : ∃ n, fuel=n+1 := ⟨fuel-1,by omega⟩
    obtain ⟨hnode,hrest⟩ := stored_cons.mp hstored
    obtain ⟨place⟩ := hrow.place Subtree.keys_bounded hlo hhi
    rw [place.parts_eq] at hrest
    have hown := (stored_append.mp (stored_append.mp hrest).2).1
    have hless : height < fuel := by omega
    obtain ⟨entries,hfind,hlookup⟩ := ih place.child_holds hown place.low_le place.lt_high hless
    obtain ⟨hfront,hback⟩ := contents_place place
    refine ⟨entries,?_,?_⟩
    · unfold findLeafFrom
      rw [Eff.bind_of_ok (reads_node hnode)]
      dsimp only
      rw [Eff.bind_of_ok (childFor_ok place.at_index)]
      exact hfind
    · rw [contents_internal,contents_rest place,lookupEntry_middle hfront hback]
      exact hlookup

/-- `leftmost_leaf_page` returns the first leaf's page. -/
theorem leftmostLeafFrom_ok (h : Subtree height lo hi pageId parts) (hstored : Stored p parts)
    (hfuel : height < fuel) (last : Option PageId) :
    ∃ leafPage, leftmostLeafFrom K V fuel pageId p=(.ok leafPage,p) ∧
      firstPage (leavesOf parts) last=some leafPage := by
  induction height generalizing lo hi pageId parts fuel with
  | zero =>
    obtain ⟨entries,next,rfl,-,-⟩ := h
    obtain ⟨fuel,rfl⟩ : ∃ n, fuel=n+1 := ⟨fuel-1,by omega⟩
    have hread := reads_node (stored_cons.mp hstored).1
    refine ⟨pageId,?_,rfl⟩
    unfold leftmostLeafFrom
    rw [Eff.bind_of_ok hread]
    rfl
  | succ height ih =>
    obtain ⟨separators,children,rest,rfl,hrow⟩ := h
    obtain ⟨fuel,rfl⟩ : ∃ n, fuel=n+1 := ⟨fuel-1,by omega⟩
    obtain ⟨hnode,hrest⟩ := stored_cons.mp hstored
    have hless : height < fuel := by omega
    obtain ⟨child,leafPage,hhead,hfound,hfirst⟩ : ∃ child leafPage, children.head?=some child ∧
        leftmostLeafFrom K V fuel child p=(.ok leafPage,p) ∧
        firstPage (leavesOf rest) last=some leafPage := by
      cases hrow with
      | last h =>
        obtain ⟨leafPage,hfound,hfirst⟩ := ih h hrest hless
        exact ⟨_,leafPage,rfl,hfound,hfirst⟩
      | cons hlo hhi h hlater =>
        obtain ⟨leafPage,hfound,hfirst⟩ := ih h (stored_append.mp hrest).1 hless
        obtain ⟨leaf,others,hleaves⟩ := h.leaves
        refine ⟨_,leafPage,rfl,hfound,?_⟩
        rw [leavesOf_append,firstPage_append]
        rw [hleaves] at hfirst ⊢
        exact hfirst
    refine ⟨leafPage,?_,hfirst⟩
    unfold leftmostLeafFrom
    rw [Eff.bind_of_ok (reads_node hnode)]
    dsimp only
    rw [hhead]
    exact hfound

omit [LinearOrder K] in
/-- The leaves that can be read off their pages. -/
theorem Stored.leaf {leaf : Leaf K V} (h : Stored p parts) (hmem : leaf∈leavesOf parts) :
    readNode leaf.pageId p=(.ok (.leaf leaf.entries leaf.next) : Except DbError (Node K V)) := by
  obtain ⟨⟨pageId,node⟩,hpart,hleaf⟩ := List.mem_filterMap.mp hmem
  have hread := h _ hpart
  cases node with
  | leaf entries next =>
    obtain rfl := Option.some.inj hleaf
    exact hread
  | internal separators children => cases hleaf

omit [LinearOrder K] in
/-- The chain of some leaves up to its end. -/
theorem scanChainFrom_ok [ScanMessage K] {leaves : List (Leaf K V)} (hstored : ∀ leaf∈leaves,
      readNode leaf.pageId p=(.ok (.leaf leaf.entries leaf.next) : Except DbError (Node K V)))
    (hlinked : Linked leaves none) (hfuel : leaves.length < fuel) :
    scanChainFrom fuel (firstPage leaves none) p=(.ok (leaves.flatMap Leaf.entries),p) := by
  induction leaves generalizing fuel with
  | nil =>
    cases fuel <;> rfl
  | cons leaf leaves ih =>
    obtain ⟨fuel,rfl⟩ : ∃ n, fuel=n+1 := ⟨fuel-1,by omega⟩
    obtain ⟨hnext,hlinked⟩ := hlinked
    have hread := reads_node (hstored leaf List.mem_cons_self)
    have hless : leaves.length < fuel := by
      rw [List.length_cons] at hfuel
      omega
    have hrest := ih (fun other hmem => hstored other (List.mem_cons_of_mem leaf hmem)) hlinked hless
    rw [←hnext] at hrest
    change scanChainFrom (fuel+1) (some leaf.pageId) p=_
    unfold scanChainFrom
    rw [Eff.bind_of_ok hread]
    dsimp only
    rw [Eff.bind_of_ok hrest]
    rfl

/-! ## Whole trees -/

/-- A whole tree: no bounds, no page twice, every leaf chained to the next one. -/
structure IsTree (p : Pager P U) (root : PageId) (height : ℕ) (parts : List (Part K V)) : Prop where
  shape : Subtree height ⊥ ⊤ root parts
  stored : Stored p parts
  distinct : (parts.map Prod.fst).Nodup
  linked : Linked (leavesOf parts) none

omit [LinearOrder K] [TreePage K V P] in
/-- A page that can be read is in the cache or in the file. -/
theorem readable_cases {page : P} (h : p.readPage pageId=.ok page) :
    pageId∈p.pageCache.keys ∨ pageId < p.files.db.length := by
  unfold Pager.readPage at h
  cases hcached : p.pageCache[pageId]? with
  | some found =>
    refine Or.inl (Std.ExtTreeMap.mem_keys.mpr ?_)
    exact Std.ExtTreeMap.mem_iff_isSome_getElem?.mpr (by rw [hcached]; rfl)
  | none =>
    rw [hcached] at h
    dsimp only at h
    split at h
    · cases h
    · unfold readRawPage at h
      cases hfile : p.files.db[pageId]? with
      | none =>
        rw [hfile] at h
        cases h
      | some found => exact Or.inr (List.getElem?_eq_some_iff.mp hfile).1

omit [LinearOrder K] [TreePage K V P] in
/-- There are not more readable pages than the fuel of a tree's operations counts. -/
theorem length_lt_treeFuel {pageIds : List PageId} (hdistinct : pageIds.Nodup)
    (hread : ∀ pageId∈pageIds, pageId∈p.pageCache.keys ∨ pageId < p.files.db.length) :
    pageIds.length < treeFuel p := by
  have hsubset : pageIds ⊆ p.pageCache.keys++List.range p.files.db.length := by
    intro pageId hmem
    rcases hread pageId hmem with hcached | hfile
    · exact List.mem_append_left _ hcached
    · exact List.mem_append_right _ (List.mem_range.mpr hfile)
  have hlength := (hdistinct.subperm hsubset).length_le
  rw [List.length_append,List.length_range,Std.ExtTreeMap.length_keys] at hlength
  unfold treeFuel
  omega

/-- A tree has fewer parts than there is fuel. -/
theorem IsTree.length_lt (h : IsTree p root height parts) :
    parts.length < treeFuel p := by
  rw [←List.length_map Prod.fst]
  refine length_lt_treeFuel h.distinct fun pageId hmem => ?_
  obtain ⟨part,hpart,rfl⟩ := List.mem_map.mp hmem
  have hnode := h.stored part hpart
  unfold readNode at hnode
  cases hread : p.readPage part.1 with
  | error e =>
    rw [hread] at hnode
    cases hnode
  | ok page => exact readable_cases hread

/-- It is less high than that. -/
theorem IsTree.height_lt (h : IsTree p root height parts) :
    height < treeFuel p :=
  h.shape.height_lt.trans h.length_lt

/-- `get` looks the key up among the entries of the tree. -/
theorem IsTree.get (h : IsTree p root height parts) (key : K) :
    BTree.get root key p=(.ok (lookupEntry (contents parts) key),p) := by
  have hlo : (⊥ : WithBot K) ≤ (key : WithBot K) := bot_le
  obtain ⟨entries,hfind,hlookup⟩ := findLeafFrom_ok h.shape h.stored hlo (WithTop.coe_lt_top key)
    h.height_lt
  unfold BTree.get
  rw [Eff.bind_of_ok hfind,hlookup]
  rfl

/-- `scan_all` returns the entries of the tree. -/
theorem IsTree.scanAll [ScanMessage K] (h : IsTree p root height parts) :
    BTree.scanAll root p=(.ok (contents parts),p) := by
  obtain ⟨leafPage,hleaf,hfirst⟩ := leftmostLeafFrom_ok h.shape h.stored h.height_lt none
  have hshort : (leavesOf parts).length < treeFuel p :=
    Nat.lt_of_le_of_lt (List.length_filterMap_le _ _) h.length_lt
  have hchain := scanChainFrom_ok (fun leaf => h.stored.leaf) h.linked hshort
  rw [hfirst] at hchain
  unfold BTree.scanAll
  rw [Eff.bind_of_ok hleaf]
  exact hchain

end RustSql.V2.BTree
