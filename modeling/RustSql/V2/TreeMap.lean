import Mathlib.Logic.Function.Basic
import RustSql.V2.PhantomLocks
import RustSql.V2.TreeInserts
import RustSql.V2.TreeOrder

/-!
# Trees as finite maps

A tree that was created and has then been inserted into and deleted from, with other work
on the pager in between, stands for a finite map: looking a key up returns what the map
has, and a scan returns the map's entries in key order. The operations end well unless one
of their own page calls fails.
-/

namespace RustSql.V2.BTree

variable {K V P U : Type} [LinearOrder K] [TreePage K V P] {p p' : Pager P U} {height fuel : ℕ}
  {lo : WithBot K} {hi : WithTop K} {pageId root : PageId} {parts : List (Part K V)}
  {txnId : TransactionId} {key : K} {value : V}

/-- A tree on pages that exist. -/
structure OwnTree (p : Pager P U) (root : PageId) (height : ℕ) (parts : List (Part K V)) : Prop where
  shape : Subtree height ⊥ ⊤ root parts
  onPages : OnPages p parts
  linked : Linked (leavesOf parts) none

theorem OwnTree.isTree (h : OwnTree p root height parts) : IsTree p root height parts :=
  ⟨h.shape,h.onPages.stored,h.onPages.distinct,h.linked⟩

section Writes

variable [PageImage P] [LawfulTreePage K V P]

omit [LinearOrder K] in
/-- A node on a new page. -/
theorem newNode_completes (hparts : OnPages p parts) (kind : PageKind) (node : Node K V) :
    Eff.Completes (callOf K V txnId) p (do
      let newPageId ← Pager.allocatePageWithKind txnId kind
      writeNode txnId newPageId node
      pure newPageId) fun newPageId p' => OnPages p' ((newPageId,node)::parts) ∧
        newPageId=p.metaPage.pageCount ∧ p.metaPage.pageCount ≤ p'.metaPage.pageCount ∧
        ∀ other, other≠newPageId → p'.readPage other=p.readPage other := by
  refine Eff.Completes.bind (allocate_completes txnId kind p) fun newPageId p₁ hnew => ?_
  obtain ⟨hnew,hcount,hreads⟩ := hnew
  refine Eff.Completes.bind (write_completes txnId newPageId node p₁) fun u p₂ hwrite => ?_
  obtain ⟨hwrite,hchanged⟩ := hwrite
  have hcount' : p₂.metaPage.pageCount=newPageId+1 := by rw [hchanged.count,hcount,hnew]
  have hsame : ∀ other, other≠newPageId → p₂.readPage other=p.readPage other := fun other hne => by
    rw [hchanged.reads other hne,hreads other hne]
  have hfresh : newPageId∉parts.map Prod.fst := fun hmem =>
    absurd (hparts.below newPageId hmem) (Nat.not_lt.mpr hnew.ge)
  have hgrows : p.metaPage.pageCount ≤ p₂.metaPage.pageCount := by
    rw [hcount',hnew]
    exact Nat.le_succ _
  refine Eff.Completes.ret ⟨⟨?_,?_,?_⟩,hnew,hgrows,hsame⟩
  · refine stored_cons.mpr ⟨hwrite,fun part hmem => ?_⟩
    have hne : part.1≠newPageId := fun heq => hfresh (heq ▸ List.mem_map_of_mem hmem)
    rw [readNode_congr (hsame part.1 hne)]
    exact hparts.stored part hmem
  · exact List.nodup_cons.mpr ⟨hfresh,hparts.distinct⟩
  · intro other hmem
    rcases List.mem_cons.mp hmem with rfl | hmem
    · exact Nat.lt_of_lt_of_le (Nat.lt_succ_self _) hcount'.ge
    · exact Nat.lt_of_lt_of_le (hparts.below other hmem) hgrows

/-- `create` makes an empty tree. -/
theorem create_completes (p : Pager P U) :
    Eff.Completes (callOf K V txnId) p (BTree.create K V txnId) fun root p' =>
      ∃ parts : List (Part K V), OwnTree p' root 0 parts ∧ contents parts=[] := by
  have hnone : OnPages p ([] : List (Part K V)) :=
    ⟨fun _ hmem => absurd hmem List.not_mem_nil,List.nodup_nil,
      fun _ hmem => absurd hmem List.not_mem_nil⟩
  refine (newNode_completes hnone .leafPage (.leaf [] none)).mono fun root p' hnew => ?_
  refine ⟨[(root,.leaf [] none)],⟨⟨[],none,rfl,List.Pairwise.nil,?_⟩,hnew.1,rfl,trivial⟩,rfl⟩
  exact fun _ hmem => absurd hmem List.not_mem_nil

/-- `insert` upserts the key. -/
theorem insert_completes (h : OwnTree p root height parts) (key : K) (value : V) :
    Eff.Completes (callOf K V txnId) p (BTree.insert txnId root key value) fun root' p' =>
      ∃ height' parts', OwnTree p' root' height' parts' ∧
        contents parts'=upsertEntry (contents parts) key value ∧ Rewritten p p' parts parts' := by
  have hlo : (⊥ : WithBot K) ≤ (key : WithBot K) := bot_le
  change Eff.Completes (callOf K V txnId) p (_ >>= _) _
  refine Eff.Completes.bind (insertIntoPage_completes h.shape h.onPages hlo (WithTop.coe_lt_top key)
    h.isTree.height_lt) fun split p₁ hgrown => ?_
  obtain ⟨parts₁,hrow,hcontents,hrewritten⟩ := hgrown
  have hlinked := (hrewritten.chained none).2 h.linked
  cases split with
  | none =>
    refine Eff.Completes.ret ⟨height,parts₁,⟨?_,hrewritten.onPages,hlinked⟩,hcontents,hrewritten⟩
    cases hrow with
    | last h => exact h
  | some split =>
    refine (newNode_completes hrewritten.onPages .internalPage
      (.internal [split.separatorKey] [root,split.rightPageId])).mono fun newRoot p' hnew => ?_
    obtain ⟨honPages,hnew,hcount,hreads⟩ := hnew
    have hroot : Rewritten p₁ p' parts₁
        ((newRoot,.internal [split.separatorKey] [root,split.rightPageId])::parts₁) := by
      refine ⟨honPages,fun pageId hmem => ?_,hcount,fun pageId hlt _ => ?_,Chained.refl _⟩
      · rcases List.mem_cons.mp hmem with rfl | hmem
        · exact Or.inr hnew.ge
        · exact Or.inl hmem
      · exact hreads pageId (Nat.ne_of_lt (hnew ▸ hlt))
    refine ⟨height+1,_,⟨?_,honPages,hlinked⟩,hcontents,hrewritten.trans hroot⟩
    exact ⟨[split.separatorKey],[root,split.rightPageId],parts₁,rfl,hrow⟩

/-- Deleting from a subtree leaves its nodes where they are. -/
theorem deleteFromPage_completes (h : Subtree height lo hi pageId parts) (hparts : OnPages p parts)
    (hlo : lo ≤ (key : WithBot K)) (hhi : (key : WithTop K) < hi) (hfuel : height < fuel) :
    Eff.Completes (callOf K V txnId) p (deleteFromPage V fuel txnId pageId key) fun _ p' =>
      ∃ parts', Subtree height lo hi pageId parts' ∧
        contents parts'=eraseEntry (contents parts) key ∧ Rewritten p p' parts parts' := by
  induction height generalizing lo hi pageId parts p fuel with
  | zero =>
    obtain ⟨entries,next,rfl,hascending,hbounds⟩ := h
    obtain ⟨fuel,rfl⟩ : ∃ n, fuel=n+1 := ⟨fuel-1,by omega⟩
    unfold deleteFromPage
    refine Eff.Completes.bind (lock_completes txnId pageId p) fun u p₁ hsame => ?_
    have hlocked := hsame.rewritten hparts
    refine Eff.Completes.bind_value (reads_node (stored_cons.mp hlocked.onPages.stored).1) ?_
    dsimp only
    split
    · refine (write_completes txnId pageId (.leaf (eraseEntry entries key) next) p₁).mono
        fun u p₂ hwrite => ?_
      have hbelow := hlocked.onPages.below pageId (List.mem_singleton_self _)
      have hchained : Chained (leavesOf [(pageId,(.leaf entries next : Node K V))])
          (leavesOf [(pageId,.leaf (eraseEntry entries key) next)]) := fun last => ⟨rfl,id⟩
      refine ⟨[(pageId,.leaf (eraseEntry entries key) next)],?_,?_,
        hlocked.trans (hwrite.2.rewritten hwrite.1 hbelow hchained)⟩
      · exact ⟨_,next,rfl,hascending.eraseEntry,fun entry hmem =>
          hbounds entry (mem_of_mem_eraseEntry hmem)⟩
      · rw [contents_leaf,contents_leaf]
    · next hnone =>
      have hkey : ∀ entry∈entries, entry.1≠key := fun entry hmem heq =>
        hnone (List.any_eq_true.mpr ⟨entry,hmem,decide_eq_true heq⟩)
      refine Eff.Completes.ret ⟨_,⟨entries,next,rfl,hascending,hbounds⟩,?_,hlocked⟩
      rw [contents_leaf,eraseEntry_eq_self hkey]
  | succ height ih =>
    obtain ⟨separators,children,rest,rfl,hrow⟩ := h
    obtain ⟨fuel,rfl⟩ : ∃ n, fuel=n+1 := ⟨fuel-1,by omega⟩
    obtain ⟨place⟩ := hrow.place Subtree.keys_bounded hlo hhi
    obtain ⟨hfront,hback⟩ := contents_place place
    unfold deleteFromPage
    refine Eff.Completes.bind (lock_completes txnId pageId p) fun u p₁ hsame => ?_
    have hlocked := hsame.rewritten hparts
    have hnode := (stored_cons.mp hlocked.onPages.stored).1
    refine Eff.Completes.bind_value (reads_node hnode) ?_
    dsimp only
    refine Eff.Completes.bind_value (childFor_ok place.at_index) ?_
    have hsplit : (pageId,.internal separators children)::rest=
        ((pageId,.internal separators children)::place.front)++(place.own++place.back) := by
      rw [List.cons_append,←place.parts_eq]
    rw [hsplit] at hlocked
    refine (ih place.child_holds hlocked.onPages.sub place.low_le place.lt_high (by omega)).mono
      fun u p₂ herased => ?_
    obtain ⟨own,hown,hcontents,hrewritten⟩ := herased
    have hwhole := hlocked.trans (hrewritten.within hlocked.onPages)
    refine ⟨_,⟨separators,children,_,rfl,place.replace hown⟩,?_,by rw [hsplit]; exact hwhole⟩
    rw [contents_internal,contents_internal,contents_rest place,contents_append,contents_append,
      eraseEntry_middle hfront hback,hcontents]

/-- `delete` erases the key. -/
theorem delete_completes (h : OwnTree p root height parts) (key : K) :
    Eff.Completes (callOf K V txnId) p (BTree.delete V txnId root key) fun _ p' =>
      ∃ parts', OwnTree p' root height parts' ∧
        contents parts'=eraseEntry (contents parts) key ∧ Rewritten p p' parts parts' := by
  have hlo : (⊥ : WithBot K) ≤ (key : WithBot K) := bot_le
  refine (deleteFromPage_completes h.shape h.onPages hlo (WithTop.coe_lt_top key)
    h.isTree.height_lt).mono fun u p' herased => ?_
  obtain ⟨parts',hshape,hcontents,hrewritten⟩ := herased
  have hlinked := (hrewritten.chained none).2 h.linked
  exact ⟨parts',⟨hshape,hrewritten.onPages,hlinked⟩,hcontents,hrewritten⟩

end Writes

/-! ## Runs -/

/-- An operation that writes to a tree. -/
inductive TreeOp (K V : Type) where
  | insert (key : K) (value : V)
  | delete (key : K)

namespace TreeOp

/-- What an operation makes of a map. -/
def apply (map : K → Option V) : TreeOp K V → K → Option V
  | insert key value => Function.update map key (some value)
  | delete key => Function.update map key none

theorem apply_insert (map : K → Option V) (key : K) (value : V) (other : K) :
    (insert key value : TreeOp K V).apply map other=
      if other=key then some value else map other :=
  Function.update_apply map key (some value) other

theorem apply_delete (map : K → Option V) (key : K) (other : K) :
    (delete key : TreeOp K V).apply map other=if other=key then none else map other :=
  Function.update_apply map key none other

/-- Run an operation; the root of the tree afterwards. -/
def run [PageImage P] (txnId : TransactionId) (root : PageId) :
    TreeOp K V → Eff (Pager P U) PageId
  | insert key value => BTree.insert txnId root key value
  | delete key => do
    BTree.delete V txnId root key
    pure root

/-- Run operations one after the other; the root afterwards. -/
def runAll [PageImage P] (txnId : TransactionId) :
    List (TreeOp K V) → PageId → Eff (Pager P U) PageId
  | [], root => pure root
  | op::ops, root => do
    let root' ← op.run txnId root
    runAll txnId ops root'

end TreeOp

/-- Work on the pager that leaves a tree alone: its pages still exist and read as before. -/
def LeavesTree (K V : Type) [TreePage K V P] (root : PageId) (p p' : Pager P U) : Prop :=
  ∀ pageId, Reaches K V p root pageId →
    p'.readPage pageId=p.readPage pageId ∧ pageId < p'.metaPage.pageCount

/-- The states of a tree and of the map it stands for: it is created, transactions insert
into it and delete from it, and between that other work leaves it alone. -/
inductive TreeRun [PageImage P] : (K → Option V) → PageId → Pager P U → Prop
  | create {txnId : TransactionId} {root : PageId} {p p' : Pager P U}
      (h : BTree.create K V txnId p=(.ok root,p')) : TreeRun (fun _ => none) root p'
  | write {map : K → Option V} {root root' : PageId} {p p' : Pager P U} {txnId : TransactionId}
      {op : TreeOp K V} (hrun : TreeRun map root p) (h : op.run txnId root p=(.ok root',p')) :
      TreeRun (op.apply map) root' p'
  | elsewhere {map : K → Option V} {root : PageId} {p p' : Pager P U} (hrun : TreeRun map root p)
      (h : LeavesTree K V root p p') : TreeRun map root p'

/-- Operations one after the other go on with a run. -/
theorem TreeRun.writes [PageImage P] {map : K → Option V} {ops : List (TreeOp K V)}
    {root' : PageId} (h : TreeRun map root p)
    (hrun : TreeOp.runAll txnId ops root p=(.ok root',p')) :
    TreeRun (ops.foldl TreeOp.apply map) root' p' := by
  induction ops generalizing map root p with
  | nil =>
    obtain ⟨hroot,rfl⟩ := Prod.mk.inj hrun
    exact Outcome.ok.inj hroot ▸ h
  | cons op ops ih =>
    obtain ⟨root₁,p₁,hop,hrest⟩ := Eff.bind_ok_inv hrun
    exact ih (h.write hop) hrest

/-- A tree with the entries of a map. -/
def Represents (map : K → Option V) (root : PageId) (p : Pager P U) : Prop :=
  ∃ height parts, OwnTree p root height parts ∧
    ∀ key, lookupEntry (contents parts) key=map key

/-- A tree that is left alone. -/
theorem OwnTree.elsewhere (h : OwnTree p root height parts) (hleaves : LeavesTree K V root p p') :
    OwnTree p' root height parts := by
  have hreached : ∀ pageId∈parts.map Prod.fst, Reaches K V p root pageId := by
    intro pageId hmem
    obtain ⟨part,hpart,rfl⟩ := List.mem_map.mp hmem
    exact Subtree.reaches h.shape h.onPages.stored Reaches.root part hpart
  refine ⟨h.shape,⟨fun part hpart => ?_,h.onPages.distinct,fun pageId hmem => ?_⟩,h.linked⟩
  · have hpage : part.1∈parts.map Prod.fst := List.mem_map_of_mem hpart
    rw [readNode_congr (hleaves part.1 (hreached _ hpage)).1]
    exact h.onPages.stored part hpart
  · exact (hleaves pageId (hreached pageId hmem)).2

section Runs

variable [PageImage P] [LawfulTreePage K V P] {map : K → Option V}

/-- An operation does to the tree what it does to the map. -/
theorem Represents.op (h : Represents map root p) (txnId : TransactionId) (op : TreeOp K V) :
    Eff.Completes (callOf K V txnId) p (op.run txnId root) fun root' p' =>
      Represents (op.apply map) root' p' := by
  obtain ⟨height,parts,htree,hmap⟩ := h
  have hascending := htree.shape.ascending
  cases op with
  | insert key value =>
    refine (insert_completes htree key value).mono fun root' p' hinserted => ?_
    obtain ⟨height',parts',htree',hcontents,-⟩ := hinserted
    refine ⟨height',parts',htree',fun other => ?_⟩
    rw [hcontents,hascending.lookupEntry_upsertEntry,hmap]
    rw [TreeOp.apply_insert]
  | delete key =>
    refine Eff.Completes.bind (delete_completes htree key) fun u p' herased => ?_
    obtain ⟨parts',htree',hcontents,-⟩ := herased
    refine Eff.Completes.ret ⟨height,parts',htree',fun other => ?_⟩
    rw [hcontents,hascending.lookupEntry_eraseEntry,hmap]
    rw [TreeOp.apply_delete]

/-- The tree of a run stands for the run's map. -/
theorem TreeRun.represents (h : TreeRun map root p) : Represents map root p := by
  induction h with
  | create h =>
    obtain ⟨parts,htree,hcontents⟩ := (create_completes _).of_ok h
    refine ⟨0,parts,htree,fun key => ?_⟩
    rw [hcontents]
    rfl
  | write hrun h ih => exact (ih.op _ _).of_ok h
  | elsewhere hrun h ih =>
    obtain ⟨height,parts,htree,hmap⟩ := ih
    exact ⟨height,parts,htree.elsewhere h,hmap⟩

/-- In every state of a run a lookup returns what the map has, a scan returns the entries
of the map in ascending order, the pages are ordered, and an operation returns with the
map changed accordingly unless one of its page calls fails. -/
theorem trees_are_maps [ScanMessage K] (h : TreeRun map root p) :
    (∀ key, BTree.get root key p=(.ok (map key),p)) ∧
    (∃ rows, BTree.scanAll root p=(.ok rows,p) ∧ Ascending rows ∧
      ∀ key value, (key,value)∈rows ↔ map key=some value) ∧
    Ordered K V p root ∧
    ∀ txnId (op : TreeOp K V), Eff.Completes (callOf K V txnId) p (op.run txnId root)
      fun root' p' => TreeRun (op.apply map) root' p' := by
  obtain ⟨height,parts,htree,hmap⟩ := h.represents
  have hascending := htree.shape.ascending
  refine ⟨fun key => ?_,⟨contents parts,htree.isTree.scanAll,hascending,fun key value => ?_⟩,
    htree.isTree.ordered,fun txnId op => ?_⟩
  · rw [htree.isTree.get,hmap]
  · rw [←hascending.lookupEntry_eq_some,hmap]
  · exact (h.represents.op txnId op).with_run.mono fun root' p' hrun => h.write hrun.1

end Runs

/-! ## A tree whose root was split -/

/-- A new database in which transaction 1 has created an index tree. -/
def createdTree : StorePager BareSchema :=
  (BTree.create IndexKey (List RowId) 1 (Pager.begin' newHandle.pager).2).2

/-- The keys 0 to 16 are inserted, which splits the root; then 3 gets another value and 5
is deleted. -/
def splitOps : List (TreeOp IndexKey (List RowId)) :=
  ((List.range 17).map fun n => .insert [n.toUInt8] [n])++[.insert [3] [99],.delete [5]]

/-- The pager after that. -/
def splitTree : StorePager BareSchema := (TreeOp.runAll 1 splitOps 2 createdTree).2

/-- The map it stands for. -/
def splitMap : IndexKey → Option (List RowId) := splitOps.foldl TreeOp.apply fun _ => none

theorem createdTree_run :
    TreeRun (fun _ : IndexKey => (none : Option (List RowId))) 2 createdTree := by
  have hcreate : (BTree.create IndexKey (List RowId) 1 (Pager.begin' newHandle.pager).2).1=
      .ok 2 := by
    decide +kernel
  exact TreeRun.create (Eff.eq_of_fst hcreate)

/-- The tree has a new root over two leaves; it answers as the map does, and a deletion of
one more key goes on with the run. -/
theorem trees_are_maps_splitTree :
    (readNode 4 splitTree).toOption=
      some (.internal [[8]] [2,3] : Node IndexKey (List RowId)) ∧
    BTree.get 4 ([3] : IndexKey) splitTree=(.ok (some [(99 : RowId)]),splitTree) ∧
    BTree.get 4 ([5] : IndexKey) splitTree=(.ok (none : Option (List RowId)),splitTree) ∧
    (∃ rows : List (IndexKey × List RowId), BTree.scanAll 4 splitTree=(.ok rows,splitTree) ∧
      Ascending rows ∧ ([16],[16])∈rows ∧ ∀ value, ([5],value)∉rows) ∧
    Ordered IndexKey (List RowId) splitTree 4 ∧
    Eff.Completes (callOf IndexKey (List RowId) 1) splitTree
      ((TreeOp.delete [16] : TreeOp IndexKey (List RowId)).run 1 4)
      fun root' p' => TreeRun ((TreeOp.delete [16]).apply splitMap) root' p' := by
  have hops : (TreeOp.runAll 1 splitOps 2 createdTree).1=.ok 4 := by decide +kernel
  have hrun : TreeRun splitMap 4 splitTree := createdTree_run.writes (Eff.eq_of_fst hops)
  have hmap : splitMap [3]=some [99] ∧ splitMap [5]=none ∧ splitMap [16]=some [16] := by
    decide +kernel
  obtain ⟨hget,⟨rows,hscan,hascending,hrows⟩,hordered,hnext⟩ := trees_are_maps hrun
  have hpresent := hget [3]
  have habsent := hget [5]
  rw [hmap.1] at hpresent
  rw [hmap.2.1] at habsent
  refine ⟨by decide +kernel,hpresent,habsent,⟨rows,hscan,hascending,(hrows _ _).mpr hmap.2.2,
    fun value hmem => ?_⟩,hordered,hnext 1 (.delete [16])⟩
  exact absurd ((hrows _ _).mp hmem) (by rw [hmap.2.1]; exact fun h => nomatch h)

/-- What a deletion returns does not tell whether the key was there. -/
theorem delete_reports_nothing : ¬∃ report : Outcome Unit → Bool,
    ∀ (map : IndexKey → Option (List RowId)) (root : PageId) (p : StorePager BareSchema)
      (txnId : TransactionId) (key : IndexKey), TreeRun map root p →
        ¬Eff.Refused (callOf IndexKey (List RowId) txnId) p
          (BTree.delete (List RowId) txnId root key p) →
        (report (BTree.delete (List RowId) txnId root key p).1=true ↔ map key≠none) := by
  rintro ⟨report,hreport⟩
  have hops : (TreeOp.runAll 1 splitOps 2 createdTree).1=.ok 4 := by decide +kernel
  have hrun : TreeRun splitMap 4 splitTree := createdTree_run.writes (Eff.eq_of_fst hops)
  have hmap : splitMap [16]≠none ∧ splitMap [5]=none := by decide +kernel
  have hpresent : (BTree.delete (List RowId) 1 4 ([16] : IndexKey) splitTree).1=.ok () := by
    decide +kernel
  have habsent : (BTree.delete (List RowId) 1 4 ([5] : IndexKey) splitTree).1=.ok () := by
    decide +kernel
  have hfirst := hreport _ 4 splitTree 1 [16] hrun (by
    rw [Eff.eq_of_fst hpresent]
    exact Eff.Refused.not_ok)
  have hsecond := hreport _ 4 splitTree 1 [5] hrun (by
    rw [Eff.eq_of_fst habsent]
    exact Eff.Refused.not_ok)
  rw [hpresent] at hfirst
  rw [habsent] at hsecond
  exact hsecond.mp (hfirst.mpr hmap.1) hmap.2

end RustSql.V2.BTree
