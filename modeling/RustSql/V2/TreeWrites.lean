import RustSql.V2.Catalog
import RustSql.V2.PagerHandles
import RustSql.V2.TreeSearch

/-!
# The page calls of a tree

A tree locks, allocates and writes pages. Each of these calls, when it returns, changes
what is read of one page at most, and a page that has been written reads as written.
-/

namespace RustSql.V2

/-- A page call of a tree. -/
inductive TreeCall (K V : Type) where
  | lock (pageId : PageId)
  | allocate (kind : PageKind)
  | write (pageId : PageId) (node : Node K V)

/-- A node that is written is read back: the text of a node parses to the node. -/
class LawfulTreePage (K V P : Type) [TreePage K V P] : Prop where
  decode_encode (node : Node K V) (page : P) (pageId : PageId) :
    (TreePage.encodeNode node : Except DbError P)=.ok page →
      (TreePage.decodeNode pageId page : Except DbError (Node K V))=.ok node

/-- A page that is built after its payload has been checked. -/
theorem page_of_checked {S : Type} {length : ℕ} {built page : StorePage S}
    (h : (do checkPayload length; .ok built : Except DbError (StorePage S))=.ok page) :
    page=built := by
  cases hcheck : checkPayload length with
  | error e =>
    rw [hcheck] at h
    cases h
  | ok u =>
    rw [hcheck] at h
    exact (Except.ok.inj h).symm

/-- Row nodes are read back. -/
instance lawfulRowPage (S : Type) [StoreText S] : LawfulTreePage ℕ StoredRow (StorePage S) where
  decode_encode node page pageId h := by
    obtain rfl := page_of_checked h
    rfl

/-- Index nodes are read back. -/
instance lawfulIndexPage (S : Type) [StoreText S] :
    LawfulTreePage IndexKey (List RowId) (StorePage S) where
  decode_encode node page pageId h := by
    obtain rfl := page_of_checked h
    rfl

namespace BTree

variable {K V P U : Type} [TreePage K V P] [PageImage P] {p p' : Pager P U}
  {txnId : TransactionId} {pageId : PageId}

/-- What a page call does. -/
def callOf (K V : Type) [TreePage K V P] (txnId : TransactionId) :
    TreeCall K V → Eff (Pager P U) Unit
  | .lock pageId => Pager.acquirePageWriteLock txnId pageId
  | .allocate kind => do
    let _ ← Pager.allocatePageWithKind txnId kind
    pure ()
  | .write pageId node => writeNode txnId pageId node

/-- Every page reads the same, and no page is added. -/
structure SameReads (p p' : Pager P U) : Prop where
  reads : ∀ pageId, p'.readPage pageId=p.readPage pageId
  count : p'.metaPage.pageCount=p.metaPage.pageCount

/-- One page may read differently, and no page is added. -/
structure OneChanged (p p' : Pager P U) (pageId : PageId) : Prop where
  reads : ∀ other, other≠pageId → p'.readPage other=p.readPage other
  count : p'.metaPage.pageCount=p.metaPage.pageCount

omit [TreePage K V P] [PageImage P] in
/-- A written page is read back, the others as before. -/
theorem readPage_putWrite (p : Pager P U) (txnId : TransactionId) (pageId : PageId)
    (beforeImage : Option P) (page : P) (other : PageId) :
    (p.putWrite txnId pageId beforeImage page).readPage other=
      if pageId=other then .ok page else p.readPage other := by
  have hcache : (p.putWrite txnId pageId beforeImage page).pageCache[other]?=
      if pageId=other then some page else p.pageCache[other]? := by
    unfold Pager.putWrite
    rw [Std.ExtTreeMap.getElem?_insert]
    simp only [Std.LawfulEqCmp.compare_eq_iff_eq]
  unfold Pager.readPage
  rw [hcache]
  by_cases heq : pageId=other
  · rw [if_pos heq,if_pos heq]
  · rw [if_neg heq,if_neg heq]
    rfl

omit [TreePage K V P] [PageImage P] in
/-- A wait that ends well leaves the pages and the page count. -/
theorem waitForPageWriteLock_ok (h : Pager.waitForPageWriteLock txnId pageId p=(.ok (),p')) :
    ∃ m, p'={p with txnManager := m} := by
  obtain ⟨m,hok | ⟨e,herr⟩ | ⟨e,herr⟩ | hstuck⟩ := Pager.waitForPageWriteLock_cases p txnId pageId
  · rw [hok] at h
    exact ⟨m,(Prod.mk.inj h).2.symm⟩
  · rw [herr] at h
    cases (Prod.mk.inj h).1
  · rw [herr] at h
    cases (Prod.mk.inj h).1
  · rw [h] at hstuck
    cases hstuck

omit [TreePage K V P] [PageImage P] in
/-- A page lock changes no page. -/
theorem acquirePageWriteLock_ok (h : Pager.acquirePageWriteLock txnId pageId p=(.ok (),p')) :
    SameReads p p' := by
  obtain ⟨u,p₁,hvalid,hwait⟩ := Eff.bind_ok_inv h
  obtain ⟨-,rfl⟩ := TxnManager.reads_ok hvalid
  obtain ⟨m,rfl⟩ := waitForPageWriteLock_ok hwait
  exact ⟨fun _ => rfl,rfl⟩

omit [TreePage K V P] [PageImage P] in
/-- A written page is the only one that changes. -/
theorem writePage_ok {page : P} (h : Pager.writePage txnId pageId page p=(.ok (),p')) :
    p'.readPage pageId=.ok page ∧ OneChanged p p' pageId := by
  obtain ⟨u,p₁,hvalid,hrest⟩ := Eff.bind_ok_inv h
  obtain ⟨-,rfl⟩ := TxnManager.reads_ok hvalid
  have hbody : (if p₁.metaPage.pageCount ≤ pageId then Eff.fail (.storage
      s!"page {pageId} is out of bounds for database with {p₁.metaPage.pageCount} pages")
    else do
      Pager.waitForPageWriteLock txnId pageId
      Pager.storePage txnId pageId page) p₁=(.ok (),p') := hrest
  split at hbody
  · cases (Prod.mk.inj hbody).1
  obtain ⟨u,p₂,hwait,hstore⟩ := Eff.bind_ok_inv hbody
  obtain ⟨m,rfl⟩ := waitForPageWriteLock_ok hwait
  obtain ⟨beforeImage,p₃,hread,hput⟩ := Eff.bind_ok_inv hstore
  obtain ⟨-,rfl⟩ := TxnManager.reads_ok hread
  obtain rfl := (Prod.mk.inj hput).2
  refine ⟨?_,fun other hne => ?_,rfl⟩
  · rw [readPage_putWrite,if_pos rfl]
  · rw [readPage_putWrite,if_neg hne.symm]
    rfl

omit [TreePage K V P] in
/-- A new page is the next one or a free one. -/
theorem allocatePageWithKind_ok {kind : PageKind} {newPageId : PageId}
    (h : Pager.allocatePageWithKind txnId kind p=(.ok newPageId,p')) :
    (newPageId=p.metaPage.pageCount ∧ p'.metaPage.pageCount=p.metaPage.pageCount+1 ∧
      ∀ other, other≠newPageId → p'.readPage other=p.readPage other) ∧
      p'.readPage newPageId=.ok (PageImage.empty kind) := by
  obtain ⟨u,p₁,hvalid,hrest⟩ := Eff.bind_ok_inv h
  obtain ⟨-,rfl⟩ := TxnManager.reads_ok hvalid
  obtain ⟨q,p₂,hget,hrest⟩ := Eff.bind_ok_inv hrest
  obtain ⟨hq,rfl⟩ := Prod.mk.inj hget
  obtain rfl := Outcome.ok.inj hq
  obtain ⟨u,p₃,hmodify,hrest⟩ := Eff.bind_ok_inv hrest
  obtain rfl := (Prod.mk.inj hmodify).2
  unfold Eff.attempt at hrest
  rcases hwait : Pager.waitForPageWriteLock txnId p₁.metaPage.pageCount
    (p₁.setPageCount (p₁.metaPage.pageCount+1)) with ⟨outcome,p₃⟩
  rw [hwait] at hrest
  cases outcome with
  | ok u =>
    obtain ⟨m,rfl⟩ := waitForPageWriteLock_ok hwait
    obtain ⟨hvalue,rfl⟩ := Prod.mk.inj hrest
    obtain rfl := Outcome.ok.inj hvalue
    refine ⟨⟨rfl,rfl,fun other hne => ?_⟩,?_⟩
    · rw [readPage_putWrite,if_neg hne.symm]
      rfl
    · rw [readPage_putWrite,if_pos rfl]
  | err e => cases (Prod.mk.inj hrest).1
  | stuck => cases (Prod.mk.inj hrest).1

omit [PageImage P] in
/-- A node that has been written is read, and no other page has changed. -/
theorem writeNode_ok [LawfulTreePage K V P] {node : Node K V}
    (h : writeNode txnId pageId node p=(.ok (),p')) :
    readNode pageId p'=.ok node ∧ OneChanged p p' pageId := by
  obtain ⟨page,p₁,hencode,hwrite⟩ := Eff.bind_ok_inv h
  obtain ⟨hpage,rfl⟩ := TxnManager.reads_ok hencode
  obtain ⟨hread,hchanged⟩ := writePage_ok hwrite
  refine ⟨?_,hchanged⟩
  unfold readNode
  rw [hread]
  exact LawfulTreePage.decode_encode node page pageId hpage

/-! ## A tree's calls either return or end it -/

section Calls

variable [LawfulTreePage K V P]

omit [LawfulTreePage K V P] in
/-- A page lock is taken or refused. -/
theorem lock_completes (txnId : TransactionId) (pageId : PageId) (p : Pager P U) :
    Eff.Completes (callOf K V txnId) p (Pager.acquirePageWriteLock txnId pageId)
      fun _ p' => SameReads p p' := by
  have hcall := @Eff.Completes.call _ _ (callOf K V txnId) p (.lock pageId)
    fun _ p' => SameReads p p'
  exact hcall fun _ h => acquirePageWriteLock_ok h

/-- A page is written or refused. -/
theorem write_completes (txnId : TransactionId) (pageId : PageId) (node : Node K V)
    (p : Pager P U) :
    Eff.Completes (callOf K V txnId) p (writeNode txnId pageId node)
      fun _ p' => readNode pageId p'=.ok node ∧ OneChanged p p' pageId := by
  have hcall := @Eff.Completes.call _ _ (callOf K V txnId) p (.write pageId node)
    fun _ p' => readNode pageId p'=.ok node ∧ OneChanged p p' pageId
  exact hcall fun _ h => writeNode_ok h

omit [LawfulTreePage K V P] in
/-- A page is allocated or refused. -/
theorem allocate_completes (txnId : TransactionId) (kind : PageKind) (p : Pager P U) :
    Eff.Completes (callOf K V txnId) p (Pager.allocatePageWithKind txnId kind)
      fun newPageId p' => newPageId=p.metaPage.pageCount ∧
        p'.metaPage.pageCount=p.metaPage.pageCount+1 ∧
        ∀ other, other≠newPageId → p'.readPage other=p.readPage other := by
  have hcall : callOf K V txnId (.allocate kind)=
      (do let _ ← Pager.allocatePageWithKind (P := P) (U := U) txnId kind; pure ()) := rfl
  exact Eff.Completes.call_value hcall fun _ _ h => (allocatePageWithKind_ok h).1

end Calls

end BTree

end RustSql.V2

/-!
## Writing a tree

A write of a tree puts other parts in the place of a subtree's, on its pages and on new
ones, and everything else of the tree stays as it was. Inserting a key upserts it into the
entries; a node that gets too long becomes two nodes with a separator between them, up to
the root. Deleting a key erases it and leaves every node where it was.
-/

namespace RustSql.V2

/-- One chain of leaves can stand in the place of another. -/
def Chained {K V : Type} (leaves leaves' : List (Leaf K V)) : Prop :=
  ∀ last, firstPage leaves' last=firstPage leaves last ∧ (Linked leaves last → Linked leaves' last)

/-- Leaves lead to themselves. -/
theorem Chained.refl {K V : Type} (leaves : List (Leaf K V)) : Chained leaves leaves :=
  fun _ => ⟨rfl,id⟩

/-- Leaves that lead on. -/
theorem Chained.trans {K V : Type} {leaves leaves' leaves'' : List (Leaf K V)}
    (h : Chained leaves leaves') (h' : Chained leaves' leaves'') : Chained leaves leaves'' :=
  fun last => ⟨(h' last).1.trans (h last).1,fun hlinked => (h' last).2 ((h last).2 hlinked)⟩

/-- A chain within a longer one. -/
theorem Chained.within {K V : Type} {leaves leaves' : List (Leaf K V)} (h : Chained leaves leaves')
    (front back : List (Leaf K V)) :
    Chained (front++(leaves++back)) (front++(leaves'++back)) := by
  intro last
  have hfirst : firstPage (leaves'++back) last=firstPage (leaves++back) last := by
    rw [firstPage_append,firstPage_append,(h _).1]
  refine ⟨by rw [firstPage_append,hfirst,←firstPage_append],fun hlinked => ?_⟩
  rw [linked_append,linked_append] at hlinked
  rw [linked_append,linked_append,hfirst]
  exact ⟨hlinked.1,(h _).2 hlinked.2.1,hlinked.2.2⟩

namespace BTree

variable {K V P U : Type} [TreePage K V P] {p p' p'' : Pager P U} {pageId newPageId : PageId}
  {node node' : Node K V} {parts parts' parts'' rest : List (Part K V)}

/-- Parts of a tree on their pages: each can be read, no page is used twice, and all of
the pages exist. -/
structure OnPages (p : Pager P U) (parts : List (Part K V)) : Prop where
  stored : Stored p parts
  distinct : (parts.map Prod.fst).Nodup
  below : ∀ pageId∈parts.map Prod.fst, pageId < p.metaPage.pageCount

/-- Other parts in the place of some: they use the pages of the old ones and new pages,
and no other page has changed. -/
structure Rewritten (p p' : Pager P U) (parts parts' : List (Part K V)) : Prop where
  onPages : OnPages p' parts'
  pages : ∀ pageId∈parts'.map Prod.fst, pageId∈parts.map Prod.fst ∨ p.metaPage.pageCount ≤ pageId
  count : p.metaPage.pageCount ≤ p'.metaPage.pageCount
  reads : ∀ pageId < p.metaPage.pageCount, pageId∉parts.map Prod.fst →
    p'.readPage pageId=p.readPage pageId
  chained : Chained (leavesOf parts) (leavesOf parts')

/-- The same page holds the same node. -/
theorem readNode_congr (h : p'.readPage pageId=p.readPage pageId) :
    (readNode pageId p' : Except DbError (Node K V))=readNode pageId p := by
  unfold readNode
  rw [h]

/-- Nothing has been written yet. -/
theorem SameReads.rewritten (h : SameReads p p') (hparts : OnPages p parts) :
    Rewritten p p' parts parts where
  onPages := by
    refine ⟨fun part hmem => ?_,hparts.distinct,fun pageId hmem => ?_⟩
    · rw [readNode_congr (h.reads part.1)]
      exact hparts.stored part hmem
    · rw [h.count]
      exact hparts.below pageId hmem
  pages := fun _ hmem => Or.inl hmem
  count := h.count.ge
  reads := fun pageId _ _ => h.reads pageId
  chained := Chained.refl _

/-- One change after another. -/
theorem Rewritten.trans (h : Rewritten p p' parts parts') (h' : Rewritten p' p'' parts' parts'') :
    Rewritten p p'' parts parts'' where
  onPages := h'.onPages
  pages := by
    intro pageId hmem
    rcases h'.pages pageId hmem with hold | hnew
    · exact h.pages pageId hold
    · exact Or.inr (Nat.le_trans h.count hnew)
  count := Nat.le_trans h.count h'.count
  reads := by
    intro pageId hbelow hnot
    have hnot' : pageId∉parts'.map Prod.fst := by
      intro hmem
      rcases h.pages pageId hmem with hold | hnew
      · exact hnot hold
      · exact absurd hbelow (Nat.not_lt.mpr hnew)
    rw [h'.reads pageId (Nat.lt_of_lt_of_le hbelow h.count) hnot',h.reads pageId hbelow hnot]
  chained := h.chained.trans h'.chained

/-- Some parts within more of them. -/
theorem Rewritten.within {front own own' back : List (Part K V)} (h : Rewritten p p' own own')
    (hparts : OnPages p (front++(own++back))) :
    Rewritten p p' (front++(own++back)) (front++(own'++back)) := by
  obtain ⟨hstored,hdistinct,hbelow⟩ := hparts
  rw [List.map_append,List.map_append] at hdistinct hbelow
  simp only [List.nodup_append,List.mem_append] at hdistinct
  obtain ⟨hfront,⟨hown,hback,hownBack⟩,hfrontRest⟩ := hdistinct
  have hbelowFront : ∀ pageId∈front.map Prod.fst, pageId < p.metaPage.pageCount := fun pageId hmem =>
    hbelow pageId (List.mem_append_left _ hmem)
  have hbelowBack : ∀ pageId∈back.map Prod.fst, pageId < p.metaPage.pageCount := fun pageId hmem =>
    hbelow pageId (List.mem_append_right _ (List.mem_append_right _ hmem))
  have hnotFront : ∀ pageId∈front.map Prod.fst, pageId∉own.map Prod.fst := fun pageId hmem hown =>
    hfrontRest pageId hmem pageId (Or.inl hown) rfl
  have hnotBack : ∀ pageId∈back.map Prod.fst, pageId∉own.map Prod.fst := fun pageId hmem hown =>
    hownBack pageId hown pageId hmem rfl
  -- the other parts are neither rewritten nor among the new pages
  have hnotNew : ∀ pageId < p.metaPage.pageCount, pageId∉own.map Prod.fst →
      pageId∉own'.map Prod.fst := by
    intro pageId hlt hnot hmem
    rcases h.pages pageId hmem with hold | hnew
    · exact hnot hold
    · exact absurd hlt (Nat.not_lt.mpr hnew)
  rw [stored_append,stored_append] at hstored
  refine ⟨⟨?_,?_,?_⟩,?_,h.count,?_,?_⟩
  · rw [stored_append,stored_append]
    refine ⟨fun part hmem => ?_,h.onPages.stored,fun part hmem => ?_⟩
    · have hpage := List.mem_map_of_mem (f := Prod.fst) hmem
      rw [readNode_congr (h.reads part.1 (hbelowFront _ hpage) (hnotFront _ hpage))]
      exact hstored.1 part hmem
    · have hpage := List.mem_map_of_mem (f := Prod.fst) hmem
      rw [readNode_congr (h.reads part.1 (hbelowBack _ hpage) (hnotBack _ hpage))]
      exact hstored.2.2 part hmem
  · rw [List.map_append,List.map_append]
    simp only [List.nodup_append,List.mem_append]
    refine ⟨hfront,⟨h.onPages.distinct,hback,fun a ha b hb hab => ?_⟩,fun a ha b hb hab => ?_⟩
    · subst hab
      exact hnotNew a (hbelowBack a hb) (hnotBack a hb) ha
    · subst hab
      rcases hb with hb | hb
      · exact hnotNew a (hbelowFront a ha) (hnotFront a ha) hb
      · exact hfrontRest a ha a (Or.inr hb) rfl
  · intro pageId hmem
    rw [List.map_append,List.map_append,List.mem_append,List.mem_append] at hmem
    rcases hmem with hmem | hmem | hmem
    · exact Nat.lt_of_lt_of_le (hbelowFront pageId hmem) h.count
    · exact h.onPages.below pageId hmem
    · exact Nat.lt_of_lt_of_le (hbelowBack pageId hmem) h.count
  · intro pageId hmem
    rw [List.map_append,List.map_append,List.mem_append,List.mem_append] at hmem ⊢
    rcases hmem with hmem | hmem | hmem
    · exact Or.inl (Or.inl hmem)
    · exact (h.pages pageId hmem).imp_left fun hold => Or.inr (Or.inl hold)
    · exact Or.inl (Or.inr (Or.inr hmem))
  · intro pageId hlt hnot
    rw [List.map_append,List.map_append,List.mem_append,List.mem_append] at hnot
    exact h.reads pageId hlt fun hmem => hnot (Or.inr (Or.inl hmem))
  · simp only [leavesOf_append]
    exact h.chained.within _ _

/-- A page that is written. -/
theorem OneChanged.rewritten (h : OneChanged p p' pageId) (hread : readNode pageId p'=.ok node')
    (hbelow : pageId < p.metaPage.pageCount)
    (hchained : Chained (leavesOf [(pageId,node)]) (leavesOf [(pageId,node')])) :
    Rewritten p p' [(pageId,node)] [(pageId,node')] where
  onPages := by
    refine ⟨stored_cons.mpr ⟨hread,fun _ hmem => absurd hmem List.not_mem_nil⟩,
      List.nodup_singleton _,fun other hmem => ?_⟩
    rw [h.count,List.mem_singleton.mp hmem]
    exact hbelow
  pages := fun _ hmem => Or.inl hmem
  count := h.count.ge
  reads := fun other _ hnot => h.reads other fun heq => hnot (heq ▸ List.mem_singleton_self _)
  chained := hchained

/-- What is read after a page has been split. -/
structure PageSplit (p p' : Pager P U) (pageId newPageId : PageId) (left right : Node K V) :
    Prop where
  new : newPageId=p.metaPage.pageCount
  count : p'.metaPage.pageCount=newPageId+1
  left : readNode pageId p'=.ok left
  right : readNode newPageId p'=.ok right
  reads : ∀ other, other≠pageId → other≠newPageId → p'.readPage other=p.readPage other

/-- The parts of a split page, with the parts below it divided among the two. -/
theorem PageSplit.rewritten {before left right : Node K V} {leftParts rightParts : List (Part K V)}
    (h : PageSplit p p' pageId newPageId left right)
    (hparts : OnPages p ((pageId,before)::(leftParts++rightParts)))
    (hchained : Chained (leavesOf ((pageId,before)::(leftParts++rightParts)))
      (leavesOf ((pageId,left)::leftParts++(newPageId,right)::rightParts))) :
    Rewritten p p' ((pageId,before)::(leftParts++rightParts))
      ((pageId,left)::leftParts++(newPageId,right)::rightParts) := by
  obtain ⟨hstored,hdistinct,hbelow⟩ := hparts
  have hperm : (((pageId,left)::leftParts++(newPageId,right)::rightParts).map Prod.fst).Perm
      (newPageId::((pageId,before)::(leftParts++rightParts)).map Prod.fst) := by
    rw [List.map_append,List.map_cons,List.map_cons,List.map_cons,List.map_append]
    exact List.perm_middle
  have hfresh : newPageId∉((pageId,before)::(leftParts++rightParts)).map Prod.fst := fun hmem =>
    absurd (hbelow newPageId hmem) (Nat.not_lt.mpr h.new.ge)
  have hsame : ∀ part∈leftParts++rightParts, readNode part.1 p'=.ok part.2 := by
    intro part hmem
    have hpage : part.1∈(leftParts++rightParts).map Prod.fst := List.mem_map_of_mem hmem
    have hne : part.1≠pageId := fun heq => (List.nodup_cons.mp hdistinct).1 (heq ▸ hpage)
    have hne' : part.1≠newPageId := fun heq => hfresh (heq ▸ List.mem_cons_of_mem _ hpage)
    rw [readNode_congr (h.reads part.1 hne hne')]
    exact (stored_cons.mp hstored).2 part hmem
  have hcount : p.metaPage.pageCount ≤ p'.metaPage.pageCount := by
    rw [h.count,h.new]
    exact Nat.le_succ _
  refine ⟨⟨?_,?_,?_⟩,?_,hcount,?_,hchained⟩
  · rw [stored_append,stored_cons,stored_cons]
    exact ⟨⟨h.left,fun part hmem => hsame part (List.mem_append_left _ hmem)⟩,h.right,
      fun part hmem => hsame part (List.mem_append_right _ hmem)⟩
  · exact hperm.nodup_iff.mpr (List.nodup_cons.mpr ⟨hfresh,hdistinct⟩)
  · intro other hmem
    rcases List.mem_cons.mp (hperm.mem_iff.mp hmem) with rfl | hmem
    · rw [h.count]
      exact Nat.lt_succ_self _
    · exact Nat.lt_of_lt_of_le (hbelow other hmem) hcount
  · intro other hmem
    rcases List.mem_cons.mp (hperm.mem_iff.mp hmem) with rfl | hmem
    · exact Or.inr h.new.ge
    · exact Or.inl hmem
  · intro other hlt hnot
    refine h.reads other (fun heq => hnot (heq ▸ List.mem_cons_self)) fun heq => ?_
    rw [heq,h.new] at hlt
    exact absurd hlt (Nat.lt_irrefl _)

section Stores

variable [PageImage P] [LawfulTreePage K V P] {txnId : TransactionId}

/-- A page is split by allocating a page and writing both. -/
theorem split_completes (kind : PageKind) (left : PageId → Node K V) (right : Node K V)
    (separator : K) (hbelow : pageId < p.metaPage.pageCount) :
    Eff.Completes (callOf K V txnId) p (do
      let newPageId ← Pager.allocatePageWithKind txnId kind
      writeNode txnId pageId (left newPageId)
      writeNode txnId newPageId right
      pure (some (SplitResult.mk separator newPageId))) fun split p' => ∃ newPageId,
        split=some ⟨separator,newPageId⟩ ∧
          PageSplit p p' pageId newPageId (left newPageId) right := by
  refine Eff.Completes.bind (allocate_completes txnId kind p) fun newPageId p₁ hnew => ?_
  obtain ⟨hnew,hcount,hreads⟩ := hnew
  refine Eff.Completes.bind (write_completes txnId pageId (left newPageId) p₁) fun u p₂ hleft => ?_
  refine Eff.Completes.bind (write_completes txnId newPageId right p₂) fun u p₃ hright => ?_
  obtain ⟨hleft,hchanged⟩ := hleft
  obtain ⟨hright,hchanged'⟩ := hright
  have hne : pageId≠newPageId := by
    rw [hnew]
    exact Nat.ne_of_lt hbelow
  refine Eff.Completes.ret ⟨newPageId,rfl,hnew,?_,?_,hright,fun other hother hother' => ?_⟩
  · rw [hchanged'.count,hchanged.count,hcount,hnew]
  · rw [readNode_congr (hchanged'.reads pageId hne)]
    exact hleft
  · rw [hchanged'.reads other hother',hchanged.reads other hother,hreads other hother']

end Stores

end BTree

end RustSql.V2
