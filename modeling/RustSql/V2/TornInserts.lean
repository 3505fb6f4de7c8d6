import RustSql.V2.TreePlans

/-!
# Insertions that break off

An insertion that meets a node too long for a page stops there. The pages it has written
by then stay written. Only one thing decides whether this can be seen: once the left half
of a split leaf is on its page, the rest of the chain is either unreadable or has the new
entry, although the insertion failed.
-/

namespace RustSql.V2.BTree

/-! ## Entries -/

section Entries

variable {K V : Type} [LinearOrder K] {entries : List (K × V)} {key : K} {value : V}

theorem length_upsertEntry_le (entries : List (K × V)) (key : K) (value : V) :
    (upsertEntry entries key value).length ≤ entries.length+1 := by
  induction entries with
  | nil => exact le_refl _
  | cons first entries ih =>
    rw [upsertEntry]
    split
    · exact le_refl _
    · split
      · rw [List.length_cons,List.length_cons]
        omega
      · rw [List.length_cons,List.length_cons]
        omega

theorem mem_upsertEntry_self : (key,value)∈upsertEntry entries key value := by
  induction entries with
  | nil => exact List.mem_singleton_self _
  | cons first entries ih =>
    rw [upsertEntry]
    split
    · exact List.mem_cons_self
    · split
      · exact List.mem_cons_self
      · exact List.mem_cons_of_mem first ih

/-- A key that is there is not added. -/
theorem length_upsertEntry_of_mem (value : V) (h : Ascending entries) (hmem : ∃ entry∈entries, entry.1=key) :
    (upsertEntry entries key value).length=entries.length := by
  induction entries with
  | nil =>
    obtain ⟨entry,hmem,-⟩ := hmem
    exact absurd hmem List.not_mem_nil
  | cons first entries ih =>
    obtain ⟨hfirst,hrest⟩ := List.pairwise_cons.mp h
    obtain ⟨entry,hmem,hkey⟩ := hmem
    rw [upsertEntry]
    rcases List.mem_cons.mp hmem with rfl | hmem
    · rw [if_neg hkey.not_gt,if_pos hkey.symm]
      rfl
    · have hlt : first.1 < key := hkey▸hfirst entry hmem
      rw [if_neg hlt.not_gt,if_neg hlt.ne',List.length_cons,List.length_cons,
        ih hrest ⟨entry,hmem,hkey⟩]

end Entries

variable {K V P U : Type} [LinearOrder K] [TreePage K V P] {p p' : Pager P U} {height fuel : ℕ}
  {lo : WithBot K} {hi : WithTop K} {pageId root newPageId : PageId}
  {parts parts' : List (Part K V)} {steps later : List (TreeStep K V)} {key : K} {value : V}
  {txnId : TransactionId}

/-! ## The shape of a plan -/

/-- No leaf has too many entries. -/
def Short (parts : List (Part K V)) : Prop :=
  ∀ leaf∈leavesOf parts, leaf.entries.length ≤ leafMaxEntries

/-- A step above the leaves: on a page newer than the new leaf, or on an inner node, whose
first child stays. -/
def Upward (newPageId : PageId) (parts : List (Part K V)) (step : TreeStep K V) : Prop :=
  (∀ entries next, step.2≠some (.leaf entries next)) ∧
    (newPageId < step.1 ∨ ∃ separators children separators' children',
      (step.1,.internal separators children)∈parts ∧
        step.2=some (.internal separators' children') ∧ children'.head?=children.head?)

/-- What an insertion plans for some parts: a leaf is stored, or it is split, which takes a
new key, and steps above the leaves follow. -/
inductive PlanShape (newPageId : PageId) (parts : List (Part K V)) (key : K) (value : V) :
    List (TreeStep K V) → Option (SplitResult K) → Prop
  | stored {leaf : Leaf K V} (hmem : leaf∈leavesOf parts)
      (hshort : (upsertEntry leaf.entries key value).length ≤ leafMaxEntries) :
      PlanShape newPageId parts key value
        [(leaf.pageId,some (.leaf (upsertEntry leaf.entries key value) leaf.next))] none
  | split {leaf : Leaf K V} {left right : List (K × V)} {above : List (TreeStep K V)}
      {split : Option (SplitResult K)} (hmem : leaf∈leavesOf parts)
      (hkey : ∀ entry∈contents parts, entry.1≠key)
      (hentries : left++right=upsertEntry leaf.entries key value)
      (hleft : left.length ≤ leafMaxEntries) (hright : right.length ≤ leafMaxEntries)
      (habove : ∀ step∈above, Upward newPageId parts step) :
      PlanShape newPageId parts key value
        ((newPageId,none)::(leaf.pageId,some (.leaf left (some newPageId)))::
          (newPageId,some (.leaf right leaf.next))::above) split

omit [LinearOrder K] in
theorem Upward.mono {step : TreeStep K V} (h : Upward newPageId parts step)
    (hparts : parts ⊆ parts') : Upward newPageId parts' step := by
  refine ⟨h.1,h.2.imp_right ?_⟩
  rintro ⟨separators,children,separators',children',hmem,hstep⟩
  exact ⟨separators,children,separators',children',hparts hmem,hstep⟩

/-- A plan for some parts, among more of them. -/
theorem PlanShape.within {front own back : List (Part K V)} {split : Option (SplitResult K)}
    (h : PlanShape newPageId own key value steps split)
    (hfront : ∀ entry∈contents front, entry.1 < key)
    (hback : ∀ entry∈contents back, key < entry.1) :
    PlanShape newPageId (front++(own++back)) key value steps split := by
  have hleaves : ∀ leaf∈leavesOf own, leaf∈leavesOf (front++(own++back)) := fun leaf hmem => by
    rw [leavesOf_append,leavesOf_append]
    exact List.mem_append_right _ (List.mem_append_left _ hmem)
  cases h with
  | stored hmem hshort => exact PlanShape.stored (hleaves _ hmem) hshort
  | split hmem hkey hentries hleft hright habove =>
    refine PlanShape.split (hleaves _ hmem) (fun entry hentry => ?_) hentries hleft hright
      fun step hstep => (habove step hstep).mono ?_
    · rw [contents_append,contents_append,List.mem_append,List.mem_append] at hentry
      rcases hentry with hentry | hentry | hentry
      · exact (hfront entry hentry).ne
      · exact hkey entry hentry
      · exact (hback entry hentry).ne'
    · exact List.Subset.trans (List.subset_append_left _ _) (List.subset_append_right _ _)

/-- The plan of a split, with steps above it. -/
theorem PlanShape.above {split : SplitResult K} {split' : Option (SplitResult K)}
    (h : PlanShape newPageId parts key value steps (some split))
    (hlater : ∀ step∈later, Upward newPageId parts step) :
    PlanShape newPageId parts key value (steps++later) split' := by
  cases h with
  | split hmem hkey hentries hleft hright habove =>
    refine PlanShape.split hmem hkey hentries hleft hright fun step hstep => ?_
    rcases List.mem_append.mp hstep with hstep | hstep
    · exact habove step hstep
    · exact hlater step hstep

/-- A split allocates a page. -/
theorem PlanShape.allocates {split : SplitResult K}
    (h : PlanShape newPageId parts key value steps (some split)) : 0 < allocations steps := by
  cases h with
  | split hmem hkey hentries hleft hright habove => exact Nat.succ_pos _

omit [LinearOrder K] in
/-- The steps of an inner node are above the leaves. -/
theorem internalPlan_upward {above : InsertPlan K V} {index : ℕ} {right later : PageId}
    {separators separators' : List K} {children : List PageId} (hlater : newPageId < later)
    (hmem : (pageId,.internal separators children)∈parts) (hne : children≠[])
    (hplan : internalPlan V later pageId separators' (children.insertIdx (index+1) right)=
      some above) : ∀ step∈above.steps, Upward newPageId parts step := by
  obtain ⟨first,others,rfl⟩ := List.exists_cons_of_ne_nil hne
  have hinner (separators'' : List K) (children'' : List PageId)
      (hhead : children''.head?=some first) :
      Upward newPageId parts (pageId,some (.internal separators'' children'' : Node K V)) := by
    refine ⟨fun entries next heq => ?_,Or.inr ⟨separators,_,separators'',children'',hmem,rfl,hhead⟩⟩
    cases Option.some.inj heq
  unfold internalPlan at hplan
  rw [List.insertIdx_succ_cons] at hplan
  split at hplan
  · obtain rfl := Option.some.inj hplan
    intro step hstep
    obtain rfl := List.mem_singleton.mp hstep
    exact hinner _ _ rfl
  · obtain ⟨promotedKey,-,rfl⟩ := Option.map_eq_some_iff.mp hplan
    intro step hstep
    unfold splitPlan at hstep
    simp only [List.mem_cons,List.not_mem_nil,or_false] at hstep
    rcases hstep with rfl | rfl | rfl
    · exact ⟨fun entries next => (Option.some_ne_none _).symm,Or.inl hlater⟩
    · exact hinner _ _ rfl
    · refine ⟨fun entries next heq => ?_,Or.inl hlater⟩
      cases Option.some.inj heq

/-- The plan for a leaf. -/
theorem leafPlan_shape {entries : List (K × V)} {next : Option PageId}
    (hascending : Ascending entries) (hshort : entries.length ≤ leafMaxEntries) :
    ∃ plan, leafPlan newPageId pageId (upsertEntry entries key value) next=some plan ∧
      PlanShape newPageId [(pageId,(.leaf entries next : Node K V))] key value plan.steps
        plan.split := by
  have hmem : (⟨pageId,entries,next⟩ : Leaf K V)∈leavesOf [(pageId,.leaf entries next)] :=
    List.mem_singleton_self _
  unfold leafPlan
  split
  · next hfits => exact ⟨_,rfl,PlanShape.stored hmem hfits⟩
  · next hlong =>
    have hle := length_upsertEntry_le entries key value
    have hmax : leafMaxEntries=16 := rfl
    have hkey : ∀ entry∈contents [(pageId,(.leaf entries next : Node K V))], entry.1≠key := by
      intro entry hentry heq
      rw [contents_leaf] at hentry
      have hsame := length_upsertEntry_of_mem value hascending ⟨entry,hentry,heq⟩
      omega
    cases hdrop : (upsertEntry entries key value).drop ((upsertEntry entries key value).length/2) with
    | nil =>
      have hnone := List.drop_eq_nil_iff.mp hdrop
      omega
    | cons right rest =>
      refine ⟨_,rfl,PlanShape.split hmem hkey ?_ ?_ ?_ fun _ hstep => absurd hstep List.not_mem_nil⟩
      · rw [←hdrop,List.take_append_drop]
      · rw [List.length_take]
        omega
      · rw [←hdrop,List.length_drop]
        omega

/-- The plan of an insertion into a subtree. -/
theorem planFrom_shape (newPageId : PageId) (value : V) (h : Subtree height lo hi pageId parts) (hstored : Stored p parts)
    (hshort : Short parts) (hlo : lo ≤ (key : WithBot K)) (hhi : (key : WithTop K) < hi)
    (hfuel : height < fuel) : ∃ plan,
      planFrom (fun pageId => readNode pageId p) newPageId key value fuel pageId=some plan ∧
        PlanShape newPageId parts key value plan.steps plan.split := by
  induction height generalizing lo hi pageId parts fuel with
  | zero =>
    obtain ⟨entries,next,rfl,hascending,-⟩ := h
    obtain ⟨fuel,rfl⟩ : ∃ n, fuel=n+1 := ⟨fuel-1,by omega⟩
    unfold planFrom
    rw [(stored_cons.mp hstored).1]
    exact leafPlan_shape hascending (hshort _ (List.mem_singleton_self _))
  | succ height ih =>
    obtain ⟨separators,children,rest,rfl,hrow⟩ := h
    obtain ⟨fuel,rfl⟩ : ∃ n, fuel=n+1 := ⟨fuel-1,by omega⟩
    obtain ⟨place⟩ := hrow.place Subtree.keys_bounded hlo hhi
    obtain ⟨hnode,hrest⟩ := stored_cons.mp hstored
    have hsplit : (pageId,.internal separators children)::rest=
        ((pageId,.internal separators children)::place.front)++(place.own++place.back) := by
      rw [List.cons_append,←place.parts_eq]
    rw [place.parts_eq] at hrest
    have hown := (stored_append.mp (stored_append.mp hrest).2).1
    have hshortOwn : Short place.own := fun leaf hmem => by
      refine hshort leaf ?_
      rw [hsplit,leavesOf_append,leavesOf_append]
      exact List.mem_append_right _ (List.mem_append_left _ hmem)
    obtain ⟨hfront,hback⟩ := contents_place place
    obtain ⟨below,hbelow,hshape⟩ := ih place.child_holds hown hshortOwn place.low_le place.lt_high
      (Nat.lt_of_succ_lt_succ hfuel)
    have hfront' : ∀ entry∈contents ((pageId,.internal separators children)::place.front),
        entry.1 < key := by
      rw [contents_internal]
      exact hfront
    have hwhole := hshape.within hfront' hback
    rw [←hsplit] at hwhole
    unfold planFrom
    rw [hnode]
    dsimp only
    have hindex : children[childIndex separators key]?=some place.child := place.at_index
    rw [hindex,Option.bind_eq_bind,Option.bind_some,hbelow,Option.bind_eq_bind,Option.bind_some]
    unfold planAbove
    cases hsplitBelow : below.split with
    | none =>
      rw [hsplitBelow] at hwhole
      exact ⟨below,rfl,hsplitBelow▸hwhole⟩
    | some split =>
      rw [hsplitBelow] at hwhole
      dsimp only
      obtain ⟨above,habove⟩ : ∃ above, internalPlan V (newPageId+allocations below.steps) pageId
          (separators.insertIdx (childIndex separators key) split.separatorKey)
          (children.insertIdx (childIndex separators key+1) split.rightPageId)=some above := by
        unfold internalPlan
        split
        · exact ⟨_,rfl⟩
        · next hlong =>
          have hmid := List.getElem?_eq_getElem (l := separators.insertIdx (childIndex separators key)
            split.separatorKey) (i := (separators.insertIdx (childIndex separators key)
              split.separatorKey).length/2) (by unfold internalMaxKeys at hlong; omega)
          dsimp only
          rw [hmid]
          exact ⟨_,rfl⟩
      have hne : children≠[] := by
        rintro rfl
        cases hindex
      have hlater : newPageId < newPageId+allocations below.steps :=
        Nat.lt_add_of_pos_right hwhole.allocates
      rw [habove]
      exact ⟨_,rfl,hwhole.above (internalPlan_upward hlater List.mem_cons_self hne habove)⟩

/-- The plan of an insertion into a tree. -/
theorem insertPlan_shape (key : K) (value : V) (h : OwnTree p root height parts) (hshort : Short parts) :
    ∃ steps root', insertPlan p root key value=some (steps,root') ∧
      PlanShape p.metaPage.pageCount parts key value steps none := by
  have hlo : (⊥ : WithBot K) ≤ (key : WithBot K) := bot_le
  obtain ⟨plan,hplan,hshape⟩ := planFrom_shape p.metaPage.pageCount value
    h.shape h.onPages.stored hshort hlo (WithTop.coe_lt_top key) h.isTree.height_lt
  unfold insertPlan
  rw [hplan,Option.map_some]
  unfold planRoot
  cases hsplit : plan.split with
  | none =>
    rw [hsplit] at hshape
    exact ⟨plan.steps,root,rfl,hshape⟩
  | some split =>
    rw [hsplit] at hshape
    have hlater : p.metaPage.pageCount < p.metaPage.pageCount+allocations plan.steps :=
      Nat.lt_add_of_pos_right hshape.allocates
    refine ⟨_,_,rfl,hshape.above fun step hstep => ?_⟩
    simp only [List.mem_cons,List.not_mem_nil,or_false] at hstep
    rcases hstep with rfl | rfl
    · exact ⟨fun entries next => (Option.some_ne_none _).symm,Or.inl hlater⟩
    · refine ⟨fun entries next heq => ?_,Or.inl hlater⟩
      cases Option.some.inj heq

/-! ## Leaves stay short -/

section Runs

variable [PageImage P] [LawfulTreePage K V P] {map : K → Option V}

omit [LinearOrder K] [PageImage P] [LawfulTreePage K V P] in
/-- What is read of a part's page is the part. -/
theorem OnPages.part_of_read {node : Node K V} (h : OnPages p parts)
    (hpage : pageId∈parts.map Prod.fst) (hread : readNode pageId p=.ok node) :
    (pageId,node)∈parts := by
  obtain ⟨⟨page,found⟩,hpart,rfl⟩ := List.mem_map.mp hpage
  obtain rfl := Except.ok.inj ((h.stored _ hpart).symm.trans hread)
  exact hpart

omit [LinearOrder K] [PageImage P] [LawfulTreePage K V P] in
/-- The leaf that is read of a part's page is short. -/
theorem OnPages.short_of_read {entries : List (K × V)} {next : Option PageId} (h : OnPages p parts)
    (hshort : Short parts) (hpage : pageId∈parts.map Prod.fst)
    (hread : readNode pageId p=.ok (.leaf entries next : Node K V)) :
    entries.length ≤ leafMaxEntries :=
  hshort ⟨pageId,entries,next⟩ (List.mem_filterMap.mpr ⟨_,h.part_of_read hpage hread,rfl⟩)

/-- An insertion keeps the leaves short. -/
theorem short_of_insert [BlankPages K V P] {root' : PageId} (h : OwnTree p root height parts)
    (hshort : Short parts) (hrewritten : Rewritten p p' parts parts')
    (hrun : BTree.insert txnId root key value p=(.ok root',p')) : Short parts' := by
  obtain ⟨steps,planned,hplan,hshape⟩ := insertPlan_shape key value h hshort
  have hafter : After p p' steps := by
    cases insert_follows txnId hplan with
    | refused hrefused =>
      rw [hrun] at hrefused
      exact hrefused.not_ok.elim
    | done hdone hmade hfits hafter => exact (Prod.mk.inj (hdone.symm.trans hrun)).2▸hafter
    | torn hsteps hfits herror htorn hmade hafter => cases (Prod.mk.inj (htorn.symm.trans hrun)).1
  intro leaf hmem
  have hread := hrewritten.onPages.stored.leaf hmem
  have hpage : leaf.pageId∈parts'.map Prod.fst :=
    (leavesOf_pages parts').subset (List.mem_map_of_mem hmem)
  cases hlast : lastStep steps leaf.pageId with
  | none =>
    rw [readNode_congr (hafter.kept leaf.pageId hlast)] at hread
    have hold : leaf.pageId∈parts.map Prod.fst := by
      refine (hrewritten.pages leaf.pageId hpage).resolve_right fun hle => ?_
      exact hafter.fresh leaf.pageId hle (hrewritten.onPages.below leaf.pageId hpage) hlast
    exact h.onPages.short_of_read hshort hold hread
  | some node =>
    cases node with
    | none =>
      obtain ⟨e,he⟩ := hafter.blank leaf.pageId hlast
      cases he.symm.trans hread
    | some node =>
      have hnode := Except.ok.inj ((hafter.stored leaf.pageId node hlast).symm.trans hread)
      subst hnode
      have hstep := lastStep_mem hlast
      cases hshape with
      | stored hleaf hfits =>
        have hsame := (Prod.mk.inj (List.mem_singleton.mp hstep)).2
        obtain ⟨hentries,-⟩ := Node.leaf.inj (Option.some.inj hsame)
        exact hentries▸hfits
      | split hleaf hkey hentries hleft hright habove =>
        simp only [List.mem_cons] at hstep
        rcases hstep with hstep | hstep | hstep | hstep
        · cases (Prod.mk.inj hstep).2
        · obtain ⟨heq,-⟩ := Node.leaf.inj (Option.some.inj (Prod.mk.inj hstep).2)
          exact heq▸hleft
        · obtain ⟨heq,-⟩ := Node.leaf.inj (Option.some.inj (Prod.mk.inj hstep).2)
          exact heq▸hright
        · exact absurd rfl ((habove _ hstep).1 leaf.entries leaf.next)

/-- Every leaf was there before, with as many entries or more, and no page is added. -/
structure Thinned (K V : Type) [TreePage K V P] (p p' : Pager P U) : Prop where
  count : p'.metaPage.pageCount=p.metaPage.pageCount
  leaves : ∀ (pageId : PageId) (entries : List (K × V)) (next : Option PageId),
    readNode pageId p'=.ok (.leaf entries next) →
      ∃ before, readNode pageId p=.ok (.leaf before next : Node K V) ∧
        entries.length ≤ before.length

omit [LinearOrder K] [PageImage P] [LawfulTreePage K V P] in
theorem SameReads.thinned (h : SameReads p p') : Thinned K V p p' where
  count := h.count
  leaves pageId entries next hread := by
    rw [readNode_congr (h.reads pageId)] at hread
    exact ⟨entries,hread,le_refl _⟩

omit [LinearOrder K] [PageImage P] [LawfulTreePage K V P] in
theorem Thinned.trans {p'' : Pager P U} (h : Thinned K V p p') (h' : Thinned K V p' p'') :
    Thinned K V p p'' where
  count := h'.count.trans h.count
  leaves pageId entries next hread := by
    obtain ⟨between,hbetween,hle⟩ := h'.leaves pageId entries next hread
    obtain ⟨before,hbefore,hle'⟩ := h.leaves pageId between next hbetween
    exact ⟨before,hbefore,Nat.le_trans hle hle'⟩

omit [TreePage K V P] [PageImage P] [LawfulTreePage K V P] in
theorem childFor_state {separators : List K} {children : List PageId} {child : PageId}
    (h : childFor separators children key p=(.ok child,p')) : p'=p := by
  unfold childFor at h
  cases hchild : children[childIndex separators key]? with
  | none =>
    rw [hchild] at h
    cases (Prod.mk.inj h).1
  | some found =>
    rw [hchild] at h
    exact (Prod.mk.inj h).2.symm

omit [PageImage P] in
/-- A deletion takes an entry out of a leaf at most. -/
theorem deleteFromPage_thinned (h : deleteFromPage V fuel txnId pageId key p=(.ok (),p')) :
    Thinned K V p p' := by
  induction fuel generalizing pageId p with
  | zero => cases (Prod.mk.inj h).1
  | succ fuel ih =>
    unfold deleteFromPage at h
    obtain ⟨u,p₁,hlock,h⟩ := Eff.bind_ok_inv h
    have hlocked : Thinned K V p p₁ := (acquirePageWriteLock_ok hlock).thinned
    obtain ⟨node,p₂,hread,h⟩ := Eff.bind_ok_inv h
    obtain ⟨hnode,rfl⟩ := TxnManager.reads_ok hread
    cases node with
    | leaf before next =>
      dsimp only at h
      split at h
      · obtain ⟨hstored,hchanged⟩ := writeNode_ok h
        refine hlocked.trans ⟨hchanged.count,fun other entries next' hother => ?_⟩
        by_cases hpage : other=pageId
        · subst hpage
          obtain ⟨rfl,rfl⟩ := Node.leaf.inj (Except.ok.inj (hstored.symm.trans hother))
          exact ⟨before,hnode,List.eraseP_sublist.length_le⟩
        · rw [readNode_congr (hchanged.reads other hpage)] at hother
          exact ⟨entries,hother,le_refl _⟩
      · obtain rfl := (Prod.mk.inj h).2
        exact hlocked
    | internal separators children =>
      obtain ⟨child,p₃,hchild,hbelow⟩ := Eff.bind_ok_inv h
      obtain rfl := childFor_state hchild
      exact hlocked.trans (ih hbelow)

omit [PageImage P] in
/-- A deletion keeps the leaves short. -/
theorem short_of_delete (h : OwnTree p root height parts) (hshort : Short parts)
    (hrewritten : Rewritten p p' parts parts')
    (hrun : BTree.delete V txnId root key p=(.ok (),p')) : Short parts' := by
  have hthinned : Thinned K V p p' := deleteFromPage_thinned hrun
  intro leaf hmem
  obtain ⟨before,hbefore,hle⟩ := hthinned.leaves leaf.pageId leaf.entries leaf.next
    (hrewritten.onPages.stored.leaf hmem)
  have hpage : leaf.pageId∈parts'.map Prod.fst :=
    (leavesOf_pages parts').subset (List.mem_map_of_mem hmem)
  have hold : leaf.pageId∈parts.map Prod.fst := by
    refine (hrewritten.pages leaf.pageId hpage).resolve_right fun hnew => ?_
    have hlt := hrewritten.onPages.below leaf.pageId hpage
    rw [hthinned.count] at hlt
    exact absurd hlt (Nat.not_lt.mpr hnew)
  exact Nat.le_trans hle (h.onPages.short_of_read hshort hold hbefore)

/-- In every state of a run the tree has short leaves. -/
theorem TreeRun.short [BlankPages K V P] (h : TreeRun map root p) :
    ∃ height parts, OwnTree (K := K) (V := V) p root height parts ∧ Short parts ∧
      ∀ key, lookupEntry (contents parts) key=map key := by
  induction h with
  | create h =>
    obtain ⟨parts,htree,hcontents⟩ := (create_completes _).of_ok h
    refine ⟨0,parts,htree,fun leaf hmem => ?_,fun key => by rw [hcontents]; rfl⟩
    have hnone := List.flatMap_eq_nil_iff.mp hcontents leaf hmem
    rw [hnone]
    exact Nat.zero_le _
  | @write map root root' p p' txnId op hrun h ih =>
    obtain ⟨height,parts,htree,hshort,hmap⟩ := ih
    cases op with
    | insert key value =>
      obtain ⟨height',parts',htree',hcontents,hrewritten⟩ := (insert_completes htree key value).of_ok h
      refine ⟨height',parts',htree',short_of_insert htree hshort hrewritten h,fun other => ?_⟩
      rw [hcontents,htree.shape.ascending.lookupEntry_upsertEntry,hmap,TreeOp.apply_insert]
    | delete key =>
      obtain ⟨u,p₁,hdelete,hret⟩ := Eff.bind_ok_inv h
      obtain ⟨hroot,rfl⟩ := Prod.mk.inj hret
      obtain rfl := Outcome.ok.inj hroot
      obtain ⟨parts',htree',hcontents,hrewritten⟩ := (delete_completes htree key).of_ok hdelete
      refine ⟨height,parts',htree',short_of_delete htree hshort hrewritten hdelete,fun other => ?_⟩
      rw [hcontents,htree.shape.ascending.lookupEntry_eraseEntry,hmap,TreeOp.apply_delete]
  | elsewhere hrun h ih =>
    obtain ⟨height,parts,htree,hshort,hmap⟩ := ih
    exact ⟨height,parts,htree.elsewhere h,hshort,hmap⟩

end Runs

/-! ## What a broken-off insertion shows -/

/-- What is read of a tree after the left half of a leaf has been written: inner nodes have
the first children they had, the other leaves are as they were, and the new leaf cannot be
read or is the right half. -/
structure Torn (p' : Pager P U) (parts : List (Part K V)) (newPageId : PageId) (leaf : Leaf K V)
    (left right : List (K × V)) : Prop where
  inner : ∀ pageId separators children, (pageId,.internal separators children)∈parts →
    ∃ separators' children',
      readNode pageId p'=.ok (.internal separators' children' : Node K V) ∧
        children'.head?=children.head?
  others : ∀ other∈leavesOf parts, other.pageId≠leaf.pageId →
    readNode other.pageId p'=.ok (.leaf other.entries other.next : Node K V)
  left : readNode leaf.pageId p'=.ok (.leaf left (some newPageId) : Node K V)
  right : (∃ e, (readNode newPageId p' : Except DbError (Node K V))=.error e) ∨
    readNode newPageId p'=.ok (.leaf right leaf.next : Node K V)

section Torn

variable {leaf : Leaf K V} {left right : List (K × V)}

omit [LinearOrder K] in
/-- A leaf's page is below the page count. -/
theorem OnPages.leaf_below (h : OnPages p parts) (hmem : leaf∈leavesOf parts) :
    leaf.pageId < p.metaPage.pageCount :=
  h.below leaf.pageId ((leavesOf_pages parts).subset (List.mem_map_of_mem hmem))

omit [LinearOrder K] in
/-- A leaf and an inner node are on different pages. -/
theorem OnPages.leaf_ne_inner {separators : List K} {children : List PageId} (h : OnPages p parts)
    (hmem : leaf∈leavesOf parts) (hinner : (pageId,.internal separators children)∈parts) :
    pageId≠leaf.pageId := by
  rintro rfl
  cases Except.ok.inj ((h.stored _ hinner).symm.trans (h.stored.leaf hmem))

omit [LinearOrder K] in
/-- Steps above the leaves leave the leaves. -/
theorem Upward.ne_leaf {step : TreeStep K V} (h : Upward p.metaPage.pageCount parts step)
    (hparts : OnPages p parts) (hmem : leaf∈leavesOf parts) : step.1≠leaf.pageId := by
  intro heq
  rcases h.2 with hlt | ⟨separators,children,_,_,hinner,-,-⟩
  · exact absurd (heq▸hlt) (hparts.leaf_below hmem).not_gt
  · exact hparts.leaf_ne_inner hmem hinner heq

omit [LinearOrder K] in
/-- Steps above the leaves leave the new leaf. -/
theorem Upward.ne_new {step : TreeStep K V} (h : Upward p.metaPage.pageCount parts step)
    (hparts : OnPages p parts) : step.1≠p.metaPage.pageCount := by
  rcases h.2 with hlt | ⟨separators,children,_,_,hinner,-,-⟩
  · exact hlt.ne'
  · exact (hparts.below step.1 (List.mem_map_of_mem hinner)).ne

omit [LinearOrder K] in
/-- The left half of a leaf has been written, and then nothing, or the right half and nodes
above. -/
theorem After.torn {between : List (TreeStep K V)} (hmem : leaf∈leavesOf parts)
    (hparts : OnPages p parts)
    (h : After p p' ((p.metaPage.pageCount,none)::
      (leaf.pageId,some (.leaf left (some p.metaPage.pageCount)))::between))
    (hbetween : between=[] ∨ ∃ above, between=(p.metaPage.pageCount,some (.leaf right leaf.next))::
      above ∧ ∀ step∈above, Upward p.metaPage.pageCount parts step) :
    Torn p' parts p.metaPage.pageCount leaf left right := by
  have hnew := (hparts.leaf_below hmem).ne
  have hlater : ∀ step∈between,
      step.1=p.metaPage.pageCount ∨ Upward p.metaPage.pageCount parts step := by
    intro step hstep
    rcases hbetween with rfl | ⟨above,rfl,habove⟩
    · exact absurd hstep List.not_mem_nil
    · rcases List.mem_cons.mp hstep with rfl | hstep
      · exact Or.inl rfl
      · exact Or.inr (habove step hstep)
  -- a step on a page of the tree other than the leaf's is above the leaves
  have hcases : ∀ pageId node, pageId < p.metaPage.pageCount → pageId≠leaf.pageId →
      lastStep ((p.metaPage.pageCount,none)::
        (leaf.pageId,some (.leaf left (some p.metaPage.pageCount)))::between) pageId=some node →
        Upward p.metaPage.pageCount parts (pageId,node) := by
    intro pageId node hbelow hne hlast
    have hstep := lastStep_mem hlast
    rw [List.mem_cons,List.mem_cons] at hstep
    rcases hstep with hstep | hstep | hstep
    · exact absurd (Prod.mk.inj hstep).1 hbelow.ne
    · exact absurd (Prod.mk.inj hstep).1 hne
    · exact (hlater _ hstep).resolve_left hbelow.ne
  have hsplit : (p.metaPage.pageCount,none)::
      (leaf.pageId,some (.leaf left (some p.metaPage.pageCount)))::between=
        [(p.metaPage.pageCount,none)]++
          ([(leaf.pageId,some (.leaf left (some p.metaPage.pageCount)))]++between) := rfl
  refine ⟨fun pageId separators children hinner => ?_,fun other hother hne => ?_,?_,?_⟩
  · have hbelow := hparts.below pageId (List.mem_map_of_mem hinner)
    have hread := hparts.stored _ hinner
    cases hlast : lastStep ((p.metaPage.pageCount,none)::
        (leaf.pageId,some (.leaf left (some p.metaPage.pageCount)))::between) pageId with
    | none =>
      refine ⟨separators,children,?_,rfl⟩
      rw [readNode_congr (h.kept pageId hlast)]
      exact hread
    | some node =>
      have hup := hcases pageId node hbelow (hparts.leaf_ne_inner hmem hinner) hlast
      rcases hup.2 with hlt | ⟨separators₁,children₁,separators',children',hmem',rfl,hhead⟩
      · exact absurd hbelow (Nat.not_lt.mpr (Nat.le_of_lt hlt))
      · have hsame := Except.ok.inj ((hparts.stored _ hmem').symm.trans hread)
        obtain ⟨-,rfl⟩ := Node.internal.inj hsame
        exact ⟨separators',children',h.stored pageId _ hlast,hhead⟩
  · rw [readNode_congr (h.kept other.pageId ?_)]
    · exact hparts.stored.leaf hother
    · by_contra hsome
      obtain ⟨node,hlast⟩ := Option.ne_none_iff_exists'.mp hsome
      exact (hcases _ node (hparts.leaf_below hother) hne hlast).ne_leaf hparts hother rfl
  · refine h.stored leaf.pageId _ ?_
    have hnone : lastStep between leaf.pageId=none := by
      by_contra hsome
      obtain ⟨node,hlast⟩ := Option.ne_none_iff_exists'.mp hsome
      rcases hlater _ (lastStep_mem hlast) with heq | hup
      · exact hnew heq
      · exact hup.ne_leaf hparts hmem rfl
    rw [hsplit,lastStep_append,lastStep_append,hnone,lastStep_singleton,if_pos rfl]
    rfl
  · rcases hbetween with rfl | ⟨above,rfl,habove⟩
    · refine Or.inl (h.blank _ ?_)
      rw [hsplit,lastStep_append,List.append_nil,lastStep_singleton,lastStep_singleton,if_neg hnew,
        if_pos rfl]
      rfl
    · refine Or.inr (h.stored _ _ ?_)
      have hnone : lastStep above p.metaPage.pageCount=none := by
        by_contra hsome
        obtain ⟨node,hlast⟩ := Option.ne_none_iff_exists'.mp hsome
        exact (habove _ (lastStep_mem hlast)).ne_new hparts rfl
      rw [hsplit,lastStep_append,lastStep_append,←List.singleton_append,lastStep_append,hnone,
        lastStep_singleton,if_pos rfl]
      rfl

/-- The descent to the first leaf goes as before. -/
theorem Torn.leftmost (h : Torn p' parts newPageId leaf left right) {own : List (Part K V)}
    (hshape : Subtree height lo hi pageId own) (hown : own ⊆ parts) {first : PageId}
    {q : Pager P U} (last : Option PageId)
    (hrun : leftmostLeafFrom K V fuel pageId p'=(.ok first,q)) :
    q=p' ∧ firstPage (leavesOf own) last=some first := by
  induction height generalizing lo hi pageId own fuel with
  | zero =>
    obtain ⟨entries,next,rfl,-,-⟩ := hshape
    have hleaf : (⟨pageId,entries,next⟩ : Leaf K V)∈leavesOf parts :=
      List.mem_filterMap.mpr ⟨_,hown (List.mem_singleton_self _),rfl⟩
    obtain ⟨entries',next',hread⟩ : ∃ entries' next',
        readNode pageId p'=.ok (.leaf entries' next' : Node K V) := by
      by_cases hpage : pageId=leaf.pageId
      · exact ⟨_,_,hpage▸h.left⟩
      · exact ⟨_,_,h.others _ hleaf hpage⟩
    cases fuel with
    | zero => cases (Prod.mk.inj hrun).1
    | succ fuel =>
      unfold leftmostLeafFrom at hrun
      rw [Eff.bind_of_ok (reads_node hread)] at hrun
      obtain ⟨hfirst,hstate⟩ := Prod.mk.inj hrun
      exact ⟨hstate.symm,congrArg some (Outcome.ok.inj hfirst)⟩
  | succ height ih =>
    obtain ⟨separators,children,rest,rfl,hrow⟩ := hshape
    obtain ⟨separators',children',hread,hhead⟩ := h.inner _ _ _ (hown List.mem_cons_self)
    have hrest : rest ⊆ parts := List.Subset.trans (List.subset_cons_self _ _) hown
    cases fuel with
    | zero => cases (Prod.mk.inj hrun).1
    | succ fuel =>
      unfold leftmostLeafFrom at hrun
      rw [Eff.bind_of_ok (reads_node hread)] at hrun
      dsimp only at hrun
      rw [hhead] at hrun
      rw [leavesOf_internal]
      cases hrow with
      | last hchild => exact ih hchild hrest hrun
      | cons hlo hhi hchild hlater =>
        obtain ⟨hstate,hfirst⟩ := ih hchild (List.Subset.trans (List.subset_append_left _ _) hrest)
          hrun
        refine ⟨hstate,?_⟩
        obtain ⟨leaf',others,hleaves⟩ := hchild.leaves
        rw [leavesOf_append,firstPage_append]
        rw [hleaves] at hfirst ⊢
        exact hfirst

omit [LinearOrder K] in
/-- A chain that returns has gone through its leaves. -/
theorem scanChainFrom_through [ScanMessage K] {leaves : List (Leaf K V)} {next : Option PageId}
    {rows : List (K × V)} {q : Pager P U}
    (hstored : ∀ other∈leaves,
      readNode other.pageId p'=(.ok (.leaf other.entries other.next) : Except DbError (Node K V)))
    (hlinked : Linked leaves next)
    (hrun : scanChainFrom fuel (firstPage leaves next) p'=(.ok rows,q)) :
    ∃ fuel' rows', rows=leaves.flatMap Leaf.entries++rows' ∧
      scanChainFrom fuel' next p'=(.ok rows',q) := by
  induction leaves generalizing fuel rows with
  | nil => exact ⟨fuel,rows,rfl,hrun⟩
  | cons other leaves ih =>
    obtain ⟨hnext,hlinked⟩ := hlinked
    cases fuel with
    | zero => cases (Prod.mk.inj hrun).1
    | succ fuel =>
      change scanChainFrom (fuel+1) (some other.pageId) p'=_ at hrun
      unfold scanChainFrom at hrun
      rw [Eff.bind_of_ok (reads_node (hstored other List.mem_cons_self))] at hrun
      obtain ⟨rest,p₁,hrest,hret⟩ := Eff.bind_ok_inv hrun
      obtain ⟨hrows,rfl⟩ := Prod.mk.inj hret
      obtain rfl := Outcome.ok.inj hrows
      rw [hnext] at hrest
      obtain ⟨fuel',rows',rfl,hlast⟩ := ih
        (fun leaf' hmem => hstored leaf' (List.mem_cons_of_mem other hmem)) hlinked hrest
      refine ⟨fuel',rows',?_,hlast⟩
      rw [List.flatMap_cons,List.append_assoc]

/-- A scan that returns has the new entry. -/
theorem Torn.mem_scan [ScanMessage K] {entry : K × V} {rows : List (K × V)} {q : Pager P U}
    (h : Torn p' parts newPageId leaf left right) (htree : OwnTree p root height parts)
    (hmem : leaf∈leavesOf parts) (hentry : entry∈left++right)
    (hrun : scanAll root p'=(.ok rows,q)) : entry∈rows := by
  obtain ⟨first,p₁,hleftmost,hchain⟩ := Eff.bind_ok_inv hrun
  obtain ⟨rfl,hfirst⟩ := h.leftmost htree.shape (List.Subset.refl _) none hleftmost
  obtain ⟨front,back,hleaves⟩ := List.append_of_mem hmem
  have hnodup := (leavesOf_pages parts).nodup htree.onPages.distinct
  have hlinked := htree.linked
  rw [hleaves,linked_append] at hlinked
  rw [hleaves,firstPage_append] at hfirst
  have hfront : ∀ other∈front, readNode other.pageId p₁=
      (.ok (.leaf other.entries other.next) : Except DbError (Node K V)) := by
    intro other hother
    refine h.others other (hleaves▸List.mem_append_left _ hother) fun heq => ?_
    rw [hleaves,List.map_append,List.map_cons] at hnodup
    exact (List.nodup_append.mp hnodup).2.2 _ (List.mem_map_of_mem hother) _ List.mem_cons_self heq
  rw [←hfirst] at hchain
  obtain ⟨fuel₁,rows₁,rfl,hleaf⟩ := scanChainFrom_through hfront hlinked.1 hchain
  refine List.mem_append_right _ ?_
  cases fuel₁ with
  | zero => cases (Prod.mk.inj hleaf).1
  | succ fuel₁ =>
    change scanChainFrom (fuel₁+1) (some leaf.pageId) p₁=_ at hleaf
    unfold scanChainFrom at hleaf
    rw [Eff.bind_of_ok (reads_node h.left)] at hleaf
    obtain ⟨rows₂,p₂,hnew,hret⟩ := Eff.bind_ok_inv hleaf
    obtain ⟨hrows,rfl⟩ := Prod.mk.inj hret
    obtain rfl := Outcome.ok.inj hrows
    rcases List.mem_append.mp hentry with hentry | hentry
    · exact List.mem_append_left _ hentry
    refine List.mem_append_right _ ?_
    cases fuel₁ with
    | zero => cases (Prod.mk.inj hnew).1
    | succ fuel₁ =>
      unfold scanChainFrom at hnew
      rcases h.right with ⟨e,herror⟩ | hread
      · have hstop : (Eff.reads (readNode newPageId) : Eff (Pager P U) (Node K V)) p₁=(.err e,p₁) := by
          unfold Eff.reads
          rw [herror]
        rw [Eff.bind_of_err hstop] at hnew
        cases (Prod.mk.inj hnew).1
      · rw [Eff.bind_of_ok (reads_node hread)] at hnew
        obtain ⟨rows₃,p₃,hlast,hret⟩ := Eff.bind_ok_inv hnew
        obtain ⟨hrows,-⟩ := Prod.mk.inj hret
        obtain rfl := Outcome.ok.inj hrows
        exact List.mem_append_left _ hentry

end Torn

/-! ## When a failed insertion can be seen -/

/-- Every lookup and the scan return what they returned before. -/
def SameAnswers (K V : Type) [LinearOrder K] [TreePage K V P] [ScanMessage K] (root : PageId)
    (p p' : Pager P U) : Prop :=
  (∀ key : K, (BTree.get root key p' : Outcome (Option V) × Pager P U).1=(BTree.get root key p).1) ∧
    (scanAll root p' : Outcome (List (K × V)) × Pager P U).1=(scanAll root p).1

/-- The first node that has to be written fits a page, and a later one does not. -/
def LateRefusal (P : Type) [TreePage K V P] (nodes : List (Node K V)) : Prop :=
  ∃ first later, nodes=first::later ∧ Fits P first ∧ ∃ node∈later, ¬Fits P node

/-- The nodes an insertion has to write, in order. -/
def nodesToWrite (p : Pager P U) (root : PageId) (key : K) (value : V) : List (Node K V) :=
  match insertPlan p root key value with
  | some (steps,_) => written steps
  | none => []

/-- Without a step on the tree's pages the answers stay. -/
theorem OwnTree.sameAnswers [ScanMessage K] (h : OwnTree p root height parts)
    (hreads : ∀ pageId < p.metaPage.pageCount, p'.readPage pageId=p.readPage pageId)
    (hcount : p.metaPage.pageCount ≤ p'.metaPage.pageCount) : SameAnswers K V root p p' := by
  have htree : OwnTree p' root height parts := by
    refine ⟨h.shape,⟨fun part hpart => ?_,h.onPages.distinct,fun pageId hmem => ?_⟩,h.linked⟩
    · rw [readNode_congr (hreads part.1 (h.onPages.below part.1 (List.mem_map_of_mem hpart)))]
      exact h.onPages.stored part hpart
    · exact Nat.lt_of_lt_of_le (h.onPages.below pageId hmem) hcount
  constructor
  · intro key
    rw [htree.isTree.get,h.isTree.get]
  · rw [htree.isTree.scanAll,h.isTree.scanAll]

section Atomic

variable [PageImage P] [LawfulTreePage K V P] [BlankPages K V P] {map : K → Option V}
  {front rest : List (TreeStep K V)} {node : Node K V}

omit [PageImage P] [LawfulTreePage K V P] [BlankPages K V P] in
/-- Before the first write a plan allocates at most. -/
theorem PlanShape.front_reads {split : Option (SplitResult K)}
    (h : PlanShape p.metaPage.pageCount parts key value steps split)
    (hsteps : steps=front++(pageId,some node)::rest) (hnone : written front=[])
    (hafter : After p p' front) :
    (∀ pageId < p.metaPage.pageCount, p'.readPage pageId=p.readPage pageId) ∧
      p.metaPage.pageCount ≤ p'.metaPage.pageCount := by
  have hfront : ∀ step∈front, step=(p.metaPage.pageCount,none) := by
    intro step hstep
    have hblank : step.2=none := by
      by_contra hsome
      obtain ⟨node',hnode⟩ := Option.ne_none_iff_exists'.mp hsome
      have hwritten : node'∈written front := List.mem_filterMap.mpr ⟨step,hstep,hnode⟩
      rw [hnone] at hwritten
      exact absurd hwritten List.not_mem_nil
    cases front with
    | nil => exact absurd hstep List.not_mem_nil
    | cons first front =>
      cases h with
      | stored hmem hshort =>
        have hlength := congrArg List.length hsteps
        rw [List.length_singleton,List.length_append,List.length_cons,List.length_cons] at hlength
        omega
      | split hmem hkey hentries hleft hright habove =>
        obtain ⟨rfl,hrest⟩ := List.cons.inj hsteps
        cases front with
        | nil => exact List.mem_singleton.mp hstep
        | cons second front =>
          obtain ⟨rfl,-⟩ := List.cons.inj hrest
          cases hnone
  refine ⟨fun pageId hlt => hafter.kept pageId ?_,?_⟩
  · by_contra hsome
    obtain ⟨node',hlast⟩ := Option.ne_none_iff_exists'.mp hsome
    exact hlt.ne (Prod.mk.inj (hfront _ (lastStep_mem hlast))).1
  · rw [hafter.count]
    exact Nat.le_add_right _ _

omit [PageImage P] [LawfulTreePage K V P] [BlankPages K V P] in
/-- After the first write the scan does not return what it returned. -/
theorem PlanShape.scan_changed [ScanMessage K] (htree : OwnTree p root height parts)
    (h : PlanShape p.metaPage.pageCount parts key value steps none)
    (hsteps : steps=front++(pageId,some node)::rest) (hsome : written front≠[])
    (hafter : After p p' front) : ¬SameAnswers K V root p p' := by
  rintro ⟨-,hscan⟩
  cases front with
  | nil => exact hsome rfl
  | cons first front =>
    cases h with
    | stored hmem hshort =>
      have hlength := congrArg List.length hsteps
      rw [List.length_singleton,List.length_append,List.length_cons,List.length_cons] at hlength
      omega
    | @split leaf left right above _ hmem hkey hentries hleft hright habove =>
      obtain ⟨rfl,hrest⟩ := List.cons.inj hsteps
      cases front with
      | nil => exact hsome rfl
      | cons second between =>
        obtain ⟨rfl,hbehind⟩ := List.cons.inj hrest
        have hbetween : between=[] ∨ ∃ later, between=(p.metaPage.pageCount,
            some (.leaf right leaf.next))::later ∧
              ∀ step∈later, Upward p.metaPage.pageCount parts step := by
          cases between with
          | nil => exact Or.inl rfl
          | cons third later =>
            obtain ⟨rfl,habove'⟩ := List.cons.inj hbehind
            refine Or.inr ⟨later,rfl,fun step hstep => habove step ?_⟩
            rw [habove']
            exact List.mem_append_left _ hstep
        have htorn := hafter.torn hmem htree.onPages hbetween
        have hentry : (key,value)∈left++right := hentries▸mem_upsertEntry_self
        rw [htree.isTree.scanAll] at hscan
        have hmem' := htorn.mem_scan htree hmem hentry (Eff.eq_of_fst hscan)
        exact hkey _ hmem' rfl

/-- In every state of a run, an insertion none of whose page calls fails leaves every later
answer as it was when it fails, exactly when it does not meet a node that does not fit
after one that does. -/
theorem insert_atomic_iff [ScanMessage K] (h : TreeRun map root p)
    (hcalls : ¬Eff.Refused (pageCallOf txnId) p (BTree.insert txnId root key value p)) :
    (∀ e p', BTree.insert txnId root key value p=(.err e,p') → SameAnswers K V root p p') ↔
      ¬LateRefusal P (nodesToWrite p root key value) := by
  obtain ⟨height,parts,htree,hshort,-⟩ := h.short
  obtain ⟨steps,root',hplan,hshape⟩ := insertPlan_shape key value htree hshort
  have hnodes : nodesToWrite p root key value=written steps := by
    unfold nodesToWrite
    rw [hplan]
  rw [hnodes]
  cases insert_follows txnId hplan with
  | refused hrefused => exact absurd hrefused hcalls
  | done hrun hmade hfits hafter =>
    constructor
    · rintro - ⟨first,later,hwritten,-,other,hother,hnot⟩
      rw [hwritten] at hfits
      exact hnot (hfits other (List.mem_cons_of_mem first hother))
    · intro _ e p' herror
      cases (Prod.mk.inj (hrun.symm.trans herror)).1
  | @torn front rest other node e p₁ hsteps hfits herror hrun hmade hafter =>
    have hnot : ¬Fits P node := by
      rintro ⟨page,hpage⟩
      cases herror.symm.trans hpage
    have hwritten : written steps=written front++node::written rest := by
      rw [hsteps,written_append]
      rfl
    constructor
    · rintro hsame ⟨first,later,hfirst,hfitsFirst,-⟩
      have hsome : written front≠[] := by
        intro hnone
        rw [hwritten,hnone,List.nil_append] at hfirst
        exact hnot ((List.cons.inj hfirst).1▸hfitsFirst)
      exact hshape.scan_changed htree hsteps hsome hafter (hsame e p₁ hrun)
    · intro hlate e' p' hrun'
      obtain ⟨-,rfl⟩ := Prod.mk.inj (hrun.symm.trans hrun')
      have hnone : written front=[] := by
        cases hfront : written front with
        | nil => rfl
        | cons first later =>
          refine absurd ⟨first,later++node::written rest,?_,?_,node,?_,hnot⟩ hlate
          · rw [hwritten,hfront,List.cons_append]
          · exact hfits first (hfront▸List.mem_cons_self)
          · exact List.mem_append_right _ List.mem_cons_self
      obtain ⟨hreads,hcount⟩ := hshape.front_reads hsteps hnone hafter
      exact htree.sameAnswers hreads hcount

end Atomic

/-! ## Keys that are too long for a half -/

/-- A schema of a store whose index nodes have the lengths of their texts. -/
structure TextSchema where
  name : String
  deriving DecidableEq

/-- The length of a JSON array, from those of its elements. -/
def arrayLength (lengths : List ℕ) : ℕ := lengths.foldr (· + ·) (2+(lengths.length-1))

/-- The length of a number. -/
def numberLength (n : ℕ) : ℕ := (Nat.toDigits 10 n).length

/-- The length of a byte string: an array of numbers. -/
def bytesLength (bytes : Bytes) : ℕ := arrayLength (bytes.map fun byte => numberLength byte.toNat)

/-- The length of the bytes of an array of row ids: brackets and commas are bytes of two
digits, and so are digits. -/
def rowIdsLength (rowIds : List RowId) : ℕ :=
  arrayLength (List.replicate (arrayLength (rowIds.map numberLength)) 2)

/-- The length of a node's text; 19, 8, 2 and so on are those of the fixed parts. -/
def indexTextLength : Node IndexKey (List RowId) → ℕ
  | .leaf entries next =>
    19+arrayLength (entries.map fun entry => 7+bytesLength entry.1+9+rowIdsLength entry.2+1)+8+
      (next.map numberLength).getD 4+2
  | .internal separators children =>
    26+arrayLength (separators.map bytesLength)+12+arrayLength (children.map numberLength)+2

instance : StoreText TextSchema where
  encodeIndexKey key := key.map fun
    | .integer value => value.toInt.toNat.toUInt8
    | _ => 0
  decodeIndexKey bytes := .ok (bytes.map fun byte => .integer (Int64.ofNat byte.toNat))
  rowNodeLength _ := 0
  indexNodeLength := indexTextLength
  catalogLength _ := 0

/-- A new database in which transaction 1 has begun. -/
def textPager : StorePager TextSchema := (Pager.begin' (Pager.opened bootstrapNewFile ∅ [])).2

/-- It has created an index tree. -/
def textTree : StorePager TextSchema := (BTree.create IndexKey (List RowId) 1 textPager).2

/-- Insertions of sixteen short keys. -/
def shortKeys : List (TreeOp IndexKey (List RowId)) :=
  (List.range 16).map fun n => .insert [n.toUInt8] [7]

/-- The tree with these keys. -/
def fullTree : StorePager TextSchema := (TreeOp.runAll 1 shortKeys 2 textTree).2

theorem fullTree_run : TreeRun (shortKeys.foldl TreeOp.apply fun _ => none) 2 fullTree := by
  have hcreate : (BTree.create IndexKey (List RowId) 1 textPager).1=.ok 2 := by decide +kernel
  have hkeys : (TreeOp.runAll 1 shortKeys 2 textTree).1=.ok 2 := by decide +kernel
  have hcreated : TreeRun (fun _ : IndexKey => (none : Option (List RowId))) 2 textTree :=
    TreeRun.create (Eff.eq_of_fst hcreate)
  exact hcreated.writes (Eff.eq_of_fst hkeys)

/-- A key of 1101 bytes that belongs to the left half. -/
def lowKey : IndexKey := 0::List.replicate 1100 200

/-- The pager after it was refused. -/
def refusedTree : StorePager TextSchema := (BTree.insert 1 2 lowKey [(7 : RowId)] fullTree).2

/-- The first node to write is the left half, which does not fit: the insertion fails, and
every later answer is as before. -/
theorem insert_atomic_lowKey :
    BTree.insert 1 2 lowKey [(7 : RowId)] fullTree=
      (.err (.storage "payload of 4679 bytes exceeds page capacity 4080"),refusedTree) ∧
    SameAnswers IndexKey (List RowId) 2 fullTree refusedTree := by
  have hinsert : (BTree.insert 1 2 lowKey [(7 : RowId)] fullTree).1=
      .err (.storage "payload of 4679 bytes exceeds page capacity 4080") := by
    decide +kernel
  have hrefused : BTree.insert 1 2 lowKey [(7 : RowId)] fullTree=(_,refusedTree) :=
    Eff.eq_of_fst_err hinsert
  have hcalls : ¬Eff.Refused (pageCallOf 1) fullTree
      (BTree.insert 1 2 lowKey [(7 : RowId)] fullTree) := by
    rw [hrefused]
    intro hfailed
    cases hfailed with
    | err _ hcall =>
      rcases pageCallOf_raises 1 _ _ _ _ hcall with ⟨_,heq⟩ | ⟨_,heq⟩ | ⟨rest,heq⟩
      · cases heq
      · cases heq
      · have hfourth := congrArg (fun text : String => text.toList[3]?) (DbError.storage.inj heq)
        rw [String.toList_append] at hfourth
        have hletters : some 'l'=some 'e' := hfourth
        exact absurd hletters (by decide)
  have hfirst : (nodesToWrite fullTree 2 lowKey [(7 : RowId)]).head?.map (fun node =>
      (TreePage.encodeNode node : Except DbError (StorePage TextSchema)).toOption.isSome)=
      some false := by
    decide +kernel
  refine ⟨hrefused,(insert_atomic_iff fullTree_run hcalls).mpr ?_ _ _ hrefused⟩
  rintro ⟨first,later,hnodes,⟨page,hpage⟩,-⟩
  rw [hnodes,List.head?_cons,Option.map_some,hpage] at hfirst
  cases hfirst

/-- A key of 1100 bytes. -/
def longKey : IndexKey := List.replicate 1100 200

/-- What is left when it is inserted. -/
def tornTree : StorePager TextSchema := (BTree.insert 1 2 longKey [(7 : RowId)] fullTree).2

/-- The insertion fails as the right half of the leaf does not fit, and then a scan fails
that returned sixteen entries before. -/
theorem tornTree_scan : ∃ map : IndexKey → Option (List RowId), TreeRun map 2 fullTree ∧
    BTree.insert 1 2 longKey [(7 : RowId)] fullTree=
      (.err (.storage "payload of 4717 bytes exceeds page capacity 4080"),tornTree) ∧
    (scanAll 2 fullTree : Outcome (List (IndexKey × List RowId)) × _).1=
      .ok ((List.range 16).map fun n => ([n.toUInt8],[7])) ∧
    (scanAll 2 tornTree : Outcome (List (IndexKey × List RowId)) × _).1=
      .err StorePage.noPayload := by
  have hinsert : (BTree.insert 1 2 longKey [(7 : RowId)] fullTree).1=
      .err (.storage "payload of 4717 bytes exceeds page capacity 4080") := by
    decide +kernel
  have hbefore : (scanAll 2 fullTree : Outcome (List (IndexKey × List RowId)) × _).1=
      .ok ((List.range 16).map fun n => ([n.toUInt8],[7])) := by
    decide +kernel
  have hafter : (scanAll 2 tornTree : Outcome (List (IndexKey × List RowId)) × _).1=
      .err StorePage.noPayload := by
    decide +kernel
  exact ⟨_,fullTree_run,Eff.eq_of_fst_err hinsert,hbefore,hafter⟩

end RustSql.V2.BTree
