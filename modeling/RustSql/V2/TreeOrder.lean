import RustSql.V2.TreeSearch

/-!
# The order of a tree, seen from its pages

What can be read by following page numbers from the root: every inner node has a child
more than separators, a separator is above every key below the children left of it and
not above any key below the others, and the chain of leaves visits every leaf once, with
its keys ascending.
-/

namespace RustSql.V2

variable {K V : Type} [LinearOrder K] {height : ℕ} {lo : WithBot K} {hi : WithTop K}
  {pageId root : PageId} {parts : List (Part K V)} {separators : List K} {children : List PageId}

/-- The root of a subtree is one of its parts. -/
theorem Subtree.root_mem (h : Subtree height lo hi pageId parts) : pageId∈parts.map Prod.fst := by
  cases height with
  | zero =>
    obtain ⟨entries,next,rfl,-,-⟩ := h
    exact List.mem_singleton_self _
  | succ height =>
    obtain ⟨separators,children,rest,rfl,-⟩ := h
    exact List.mem_cons_self

/-- The children of an inner node of a subtree are a row of its parts. -/
theorem Subtree.inner (h : Subtree height lo hi root parts)
    (hmem : (pageId,.internal separators children)∈parts) :
    ∃ height' low high rest, SeparatedRow (Subtree height') low high separators children rest ∧
      rest ⊆ parts := by
  induction height generalizing lo hi root parts with
  | zero =>
    obtain ⟨entries,next,rfl,-,-⟩ := h
    cases List.mem_singleton.mp hmem
  | succ height ih =>
    obtain ⟨separators',children',rest,rfl,hrow⟩ := h
    rcases List.mem_cons.mp hmem with heq | hmem
    · obtain ⟨-,hnode⟩ := Prod.mk.inj heq
      obtain ⟨rfl,rfl⟩ := Node.internal.inj hnode
      exact ⟨height,lo,hi,rest,hrow,List.subset_cons_self _ _⟩
    · obtain ⟨child,-,low,high,own,hown,hpart,hsubset⟩ := hrow.child_of_part hmem
      obtain ⟨height',low',high',rest',hrow',hsubset'⟩ := ih hown hpart
      exact ⟨height',low',high',rest',hrow',
        List.Subset.trans hsubset' (List.Subset.trans hsubset (List.subset_cons_self _ _))⟩

namespace BTree

variable {P U : Type} [TreePage K V P] {p p' : Pager P U}

/-- The pages that are reached from a root through inner nodes. -/
inductive Reaches (K V : Type) [TreePage K V P] (p : Pager P U) (root : PageId) : PageId → Prop
  | root : Reaches K V p root root
  | child {pageId child : PageId} {separators : List K} {children : List PageId}
      (h : Reaches K V p root pageId)
      (hnode : readNode pageId p=.ok (.internal separators children : Node K V))
      (hmem : child∈children) : Reaches K V p root child

/-- A leaf below a page has an entry with the key. -/
def HasKey (V : Type) [TreePage K V P] (p : Pager P U) (pageId : PageId) (key : K) : Prop :=
  ∃ leafPage entries next, Reaches K V p pageId leafPage ∧
    readNode leafPage p=.ok (.leaf entries next : Node K V) ∧ ∃ value, (key,value)∈entries

/-- The leaves a chain visits from a page on. -/
inductive Visits (p : Pager P U) : Option PageId → List (Leaf K V) → Prop
  | done : Visits p none []
  | leaf {leaf : Leaf K V} {leaves : List (Leaf K V)}
      (hread : readNode leaf.pageId p=.ok (.leaf leaf.entries leaf.next : Node K V))
      (h : Visits p leaf.next leaves) : Visits p (some leaf.pageId) (leaf::leaves)

/-- The order of the tree below a root. -/
structure Ordered (K V : Type) [LinearOrder K] [TreePage K V P] (p : Pager P U) (root : PageId) :
    Prop where
  /-- Children number separators plus one. -/
  length_children : ∀ pageId separators children, Reaches K V p root pageId →
    readNode pageId p=.ok (.internal separators children : Node K V) →
      children.length=separators.length+1
  /-- A separator is above the keys left of it. -/
  below_separator : ∀ pageId separators children, Reaches K V p root pageId →
    readNode pageId p=.ok (.internal separators children : Node K V) →
      ∀ (i j : ℕ) (separator : K) (child : PageId), separators[i]?=some separator →
        children[j]?=some child → j ≤ i → ∀ key, HasKey V p child key → key < separator
  /-- A separator is not above the keys right of it. -/
  above_separator : ∀ pageId separators children, Reaches K V p root pageId →
    readNode pageId p=.ok (.internal separators children : Node K V) →
      ∀ (i j : ℕ) (separator : K) (child : PageId), separators[i]?=some separator →
        children[j]?=some child → i < j → ∀ key, HasKey V p child key → separator ≤ key
  /-- The chain from the leftmost leaf visits every leaf once, in key order. -/
  chain : ∃ first leaves, leftmostLeafFrom K V (treeFuel p) root p=(.ok first,p) ∧
    Visits p (some first) leaves ∧ Ascending (leaves.flatMap Leaf.entries) ∧
      (leaves.map Leaf.pageId).Nodup ∧ ∀ pageId entries next, Reaches K V p root pageId →
        readNode pageId p=.ok (.leaf entries next : Node K V) → ⟨pageId,entries,next⟩∈leaves

/-- What is reached in a subtree is one of its parts. -/
theorem Reaches.mem (h : Reaches K V p root pageId) (hshape : Subtree height lo hi root parts)
    (hstored : Stored p parts) : ∃ node, (pageId,node)∈parts := by
  have hpage : pageId∈parts.map Prod.fst := by
    induction h with
    | root => exact hshape.root_mem
    | child h hnode hmem ih =>
      obtain ⟨⟨page,node⟩,hpart,rfl⟩ := List.mem_map.mp ih
      have hread := (hstored _ hpart).symm.trans hnode
      obtain rfl := Except.ok.inj hread
      obtain ⟨height',low,high,rest,hrow,hsubset⟩ := hshape.inner hpart
      obtain ⟨low',high',own,hown,hown'⟩ := hrow.parts_of_child hmem
      obtain ⟨part,hpart',heq⟩ := List.mem_map.mp hown.root_mem
      exact List.mem_map.mpr ⟨part,hsubset (hown' hpart'),heq⟩
  obtain ⟨⟨page,node⟩,hpart,rfl⟩ := List.mem_map.mp hpage
  exact ⟨node,hpart⟩

/-- What is reached and read is a part. -/
theorem Reaches.mem_of_read {node : Node K V} (h : Reaches K V p root pageId)
    (hnode : readNode pageId p=.ok node) (hshape : Subtree height lo hi root parts)
    (hstored : Stored p parts) : (pageId,node)∈parts := by
  obtain ⟨node',hpart⟩ := h.mem hshape hstored
  have hread := (hstored _ hpart).symm.trans hnode
  obtain rfl := Except.ok.inj hread
  exact hpart

/-- The parts of a subtree are reached. -/
theorem Subtree.reaches (hshape : Subtree height lo hi root parts) (hstored : Stored p parts)
    {top : PageId} (htop : Reaches K V p top root) :
    ∀ part∈parts, Reaches K V p top part.1 := by
  induction height generalizing lo hi root parts with
  | zero =>
    obtain ⟨entries,next,rfl,-,-⟩ := hshape
    intro part hmem
    obtain rfl := List.mem_singleton.mp hmem
    exact htop
  | succ height ih =>
    obtain ⟨separators,children,rest,rfl,hrow⟩ := hshape
    obtain ⟨hnode,hrest⟩ := stored_cons.mp hstored
    intro part hmem
    rcases List.mem_cons.mp hmem with rfl | hmem
    · exact htop
    · obtain ⟨child,hchild,low,high,own,hown,hpart,hsubset⟩ := hrow.child_of_part hmem
      exact ih hown (fun other hother => hrest other (hsubset hother)) (htop.child hnode hchild)
        part hpart

omit [LinearOrder K] in
/-- The leaves are on some of the pages. -/
theorem leavesOf_pages (parts : List (Part K V)) :
    ((leavesOf parts).map Leaf.pageId).Sublist (parts.map Prod.fst) := by
  induction parts with
  | nil => exact List.Sublist.refl _
  | cons part parts ih =>
    obtain ⟨pageId,node⟩ := part
    cases node with
    | leaf entries next => exact List.Sublist.cons_cons pageId ih
    | internal separators children => exact List.Sublist.cons pageId ih

omit [LinearOrder K] in
/-- A chain of leaves visits them. -/
theorem visits_of_linked {leaves : List (Leaf K V)}
    (hstored : ∀ leaf∈leaves,
      readNode leaf.pageId p=.ok (.leaf leaf.entries leaf.next : Node K V))
    (hlinked : Linked leaves none) : Visits p (firstPage leaves none) leaves := by
  induction leaves with
  | nil => exact Visits.done
  | cons leaf leaves ih =>
    have hrest := ih (fun other hmem => hstored other (List.mem_cons_of_mem leaf hmem)) hlinked.2
    rw [←hlinked.1] at hrest
    exact Visits.leaf (hstored leaf List.mem_cons_self) hrest

/-- The keys below a child of a row are within the row's bounds. -/
theorem HasKey.bounded {rest : List (Part K V)} {child : PageId} {key : K} (h : HasKey V p child key)
    (hrow : SeparatedRow (Subtree height) lo hi separators children rest) (hmem : child∈children)
    (hstored : Stored p rest) : lo ≤ (key : WithBot K) ∧ (key : WithTop K) < hi := by
  obtain ⟨leafPage,entries,next,hreach,hread,value,hentry⟩ := h
  obtain ⟨low,high,own,hown,hsubset⟩ := hrow.parts_of_child hmem
  have hstored' : Stored p own := fun part hpart => hstored part (hsubset hpart)
  have hpart := hsubset (hreach.mem_of_read hread hown hstored')
  refine hrow.keys_bounded Subtree.keys_bounded _ hpart key ?_
  unfold Part.keys
  rw [contents_leaf]
  exact List.mem_map_of_mem hentry

/-- The tree's pages are ordered. -/
theorem IsTree.ordered (h : IsTree p root height parts) : Ordered K V p root where
  length_children := by
    intro pageId separators children hreach hread
    obtain ⟨_,_,_,rest,hrow,-⟩ := h.shape.inner (hreach.mem_of_read hread h.shape h.stored)
    exact hrow.length_children
  below_separator := by
    intro pageId separators children hreach hread i j separator child hseparator hchild hle key hkey
    obtain ⟨_,_,_,rest,hrow,hrest⟩ := h.shape.inner (hreach.mem_of_read hread h.shape h.stored)
    obtain ⟨left,right,rfl,-,-,hleft,-⟩ := hrow.split hseparator
    have hmem : child∈children.take (i+1) := by
      refine List.mem_of_getElem? (i := j) ?_
      rw [List.getElem?_take_of_lt (Nat.lt_succ_of_le hle)]
      exact hchild
    have hstored : Stored p left := fun part hpart =>
      h.stored part (hrest (List.mem_append_left _ hpart))
    exact WithTop.coe_lt_coe.mp (hkey.bounded hleft hmem hstored).2
  above_separator := by
    intro pageId separators children hreach hread i j separator child hseparator hchild hlt key hkey
    obtain ⟨_,_,_,rest,hrow,hrest⟩ := h.shape.inner (hreach.mem_of_read hread h.shape h.stored)
    obtain ⟨left,right,rfl,-,-,-,hright⟩ := hrow.split hseparator
    have hmem : child∈children.drop (i+1) := by
      refine List.mem_of_getElem? (i := j-(i+1)) ?_
      rw [List.getElem?_drop,Nat.add_sub_cancel' hlt]
      exact hchild
    have hstored : Stored p right := fun part hpart =>
      h.stored part (hrest (List.mem_append_right _ hpart))
    exact WithBot.coe_le_coe.mp (hkey.bounded hright hmem hstored).1
  chain := by
    obtain ⟨first,hleftmost,hfirst⟩ := leftmostLeafFrom_ok h.shape h.stored h.height_lt none
    have hvisits := visits_of_linked (fun leaf => h.stored.leaf) h.linked
    rw [hfirst] at hvisits
    have hnodup := (leavesOf_pages parts).nodup h.distinct
    refine ⟨first,leavesOf parts,hleftmost,hvisits,h.shape.ascending,hnodup,?_⟩
    intro pageId entries next hreach hread
    exact List.mem_filterMap.mpr ⟨_,hreach.mem_of_read hread h.shape h.stored,rfl⟩

end BTree

end RustSql.V2
