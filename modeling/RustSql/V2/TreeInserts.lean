import RustSql.V2.TreeWrites

/-!
# Inserting into a tree

An insertion replaces a subtree by one subtree with the same bounds, or by two of the same
height with a separator between them. Either way the entries are the old ones with the key
upserted. Only the root of the whole tree gets a new node above it.
-/

namespace RustSql.V2.BTree

variable {K V P U : Type} [LinearOrder K] [TreePage K V P] {p p' : Pager P U} {height fuel : ℕ}
  {lo : WithBot K} {hi : WithTop K} {pageId : PageId} {parts rest : List (Part K V)}
  {entries : List (K × V)} {separators : List K} {children : List PageId}
  {txnId : TransactionId} {key : K} {value : V}

/-- What an insertion has made of a subtree: one or two subtrees within the bounds, whose
leaves have some entries. -/
def Grown (height : ℕ) (lo : WithBot K) (hi : WithTop K) (pageId : PageId) (p : Pager P U)
    (parts : List (Part K V)) (entries : List (K × V)) (split : Option (SplitResult K))
    (p' : Pager P U) : Prop :=
  ∃ parts', SeparatedRow (Subtree height) lo hi (split.toList.map SplitResult.separatorKey)
    (pageId::split.toList.map SplitResult.rightPageId) parts' ∧ contents parts'=entries ∧
      Rewritten p p' parts parts'

omit [LinearOrder K] in
/-- Some of the parts are on their pages when all are. -/
theorem OnPages.sub {front own back : List (Part K V)} (h : OnPages p (front++(own++back))) :
    OnPages p own := by
  obtain ⟨hstored,hdistinct,hbelow⟩ := h
  rw [stored_append,stored_append] at hstored
  rw [List.map_append,List.map_append] at hdistinct hbelow
  refine ⟨hstored.2.1,?_,fun pageId hmem => ?_⟩
  · exact (List.nodup_append.mp (List.nodup_append.mp hdistinct).2.1).1
  · exact hbelow pageId (List.mem_append_right _ (List.mem_append_left _ hmem))

omit [TreePage K V P] in
/-- The two halves of a leaf, with the first key of the right one between them. -/
theorem halves_row {left others : List (K × V)} {first : K × V} {newPageId : PageId}
    {next next' : Option PageId} (hleft : left≠[]) (hascending : Ascending (left++first::others))
    (hbounds : ∀ entry∈left++first::others,
      lo ≤ (entry.1 : WithBot K) ∧ (entry.1 : WithTop K) < hi) :
    SeparatedRow (Subtree 0) lo hi [first.1] [pageId,newPageId]
      ([(pageId,(.leaf left next' : Node K V))]++[(newPageId,.leaf (first::others) next)]) := by
  obtain ⟨hascLeft,hascRight,hless⟩ := List.pairwise_append.mp hascending
  have hfirst := hbounds first (List.mem_append_right _ List.mem_cons_self)
  have hlow : lo < (first.1 : WithBot K) := by
    obtain ⟨entry,hmem⟩ := List.exists_mem_of_ne_nil left hleft
    have hlt := WithBot.coe_lt_coe.mpr (hless entry hmem first List.mem_cons_self)
    exact (hbounds entry (List.mem_append_left _ hmem)).1.trans_lt hlt
  refine SeparatedRow.cons hlow hfirst.2 ?_ (SeparatedRow.last ?_)
  · refine ⟨left,next',rfl,hascLeft,fun entry hmem => ⟨?_,?_⟩⟩
    · exact (hbounds entry (List.mem_append_left _ hmem)).1
    · exact WithTop.coe_lt_coe.mpr (hless entry hmem first List.mem_cons_self)
  · refine ⟨first::others,next,rfl,hascRight,fun entry hmem => ⟨?_,?_⟩⟩
    · rcases List.mem_cons.mp hmem with rfl | hmem
      · exact le_refl _
      · exact WithBot.coe_le_coe.mpr ((List.pairwise_cons.mp hascRight).1 entry hmem).le
    · exact (hbounds entry (List.mem_append_right _ hmem)).2

/-- A subtree that grew after it had been rewritten. -/
theorem Grown.after {p₁ : Pager P U} {parts₁ : List (Part K V)} {split : Option (SplitResult K)}
    (h : Grown height lo hi pageId p₁ parts₁ entries split p')
    (hbefore : Rewritten p p₁ parts parts₁) :
    Grown height lo hi pageId p parts entries split p' := by
  obtain ⟨parts',hrow,hcontents,hrewritten⟩ := h
  exact ⟨parts',hrow,hcontents,hbefore.trans hrewritten⟩

section Writes

variable [PageImage P] [LawfulTreePage K V P]

/-- A leaf is stored on its page, or its second half on a new one. -/
theorem storeLeaf_completes {before : List (K × V)} {next : Option PageId}
    (hparts : OnPages p [(pageId,(.leaf before next : Node K V))]) (hascending : Ascending entries)
    (hbounds : ∀ entry∈entries, lo ≤ (entry.1 : WithBot K) ∧ (entry.1 : WithTop K) < hi) :
    Eff.Completes (callOf K V txnId) p (storeLeaf txnId pageId entries next)
      (Grown 0 lo hi pageId p [(pageId,(.leaf before next : Node K V))] entries) := by
  have hbelow := hparts.below pageId (List.mem_singleton_self _)
  unfold storeLeaf
  split
  · refine Eff.Completes.bind (write_completes txnId pageId (.leaf entries next) p)
      fun u p₁ hwrite => ?_
    have hchained : Chained (leavesOf [(pageId,(.leaf before next : Node K V))])
        (leavesOf [(pageId,.leaf entries next)]) := fun last => ⟨rfl,id⟩
    refine Eff.Completes.ret ⟨[(pageId,.leaf entries next)],SeparatedRow.last ?_,contents_leaf,
      hwrite.2.rewritten hwrite.1 hbelow hchained⟩
    exact ⟨entries,next,rfl,hascending,hbounds⟩
  · next hlong =>
    have hlength : 16 < entries.length := Nat.lt_of_not_le hlong
    obtain ⟨left,first,others,hentries,htake,hdrop⟩ : ∃ left first others,
        entries=left++first::others ∧ entries.take (entries.length/2)=left ∧
          entries.drop (entries.length/2)=first::others := by
      cases hdrop : entries.drop (entries.length/2) with
      | nil =>
        have hnone := List.drop_eq_nil_iff.mp hdrop
        omega
      | cons first others =>
        refine ⟨_,first,others,?_,rfl,rfl⟩
        rw [←hdrop,List.take_append_drop]
    have hleft : left≠[] := by
      intro hnil
      have hsize := congrArg List.length htake
      rw [hnil,List.length_take,List.length_nil] at hsize
      omega
    dsimp only
    rw [hdrop,htake]
    have hsplit := @split_completes _ _ _ _ _ p pageId _ _ txnId .leafPage
      (fun newPageId => .leaf left (some newPageId)) (.leaf (first::others) next) first.1 hbelow
    refine hsplit.mono fun split p' hsplit => ?_
    obtain ⟨newPageId,rfl,hsplit⟩ := hsplit
    rw [hentries] at hascending hbounds
    have hchained : Chained (leavesOf [(pageId,(.leaf before next : Node K V))])
        (leavesOf ([(pageId,.leaf left (some newPageId))]++[(newPageId,.leaf (first::others) next)]))
      := fun last => ⟨rfl,fun hlinked => ⟨rfl,hlinked.1,trivial⟩⟩
    have hrow : SeparatedRow (Subtree 0) lo hi [first.1] [pageId,newPageId]
        ([(pageId,(.leaf left (some newPageId) : Node K V))]++[(newPageId,.leaf (first::others) next)])
      := halves_row hleft hascending hbounds
    refine ⟨_,hrow,?_,?_⟩
    · rw [contents_append,contents_leaf,contents_leaf,hentries]
    · exact @PageSplit.rewritten _ _ _ _ _ _ _ _ _ _ _ _ [] [] hsplit hparts hchained

/-- An inner node is stored on its page, or what is behind its middle key on a new one. -/
theorem storeInternal_completes {separatorsBefore : List K} {childrenBefore : List PageId}
    (hparts : OnPages p ((pageId,.internal separatorsBefore childrenBefore)::rest))
    (hrow : SeparatedRow (Subtree height) lo hi separators children rest) :
    Eff.Completes (callOf K V txnId) p (storeInternal V txnId pageId separators children)
      (Grown (height+1) lo hi pageId p
        ((pageId,.internal separatorsBefore childrenBefore)::rest) (contents rest)) := by
  have hbelow := hparts.below pageId List.mem_cons_self
  unfold storeInternal
  split
  · refine Eff.Completes.bind (write_completes txnId pageId (.internal separators children) p)
      fun u p₁ hwrite => ?_
    have hchained : Chained (leavesOf [(pageId,(.internal separatorsBefore childrenBefore : Node K V))])
        (leavesOf [(pageId,.internal separators children)]) := Chained.refl []
    have hone := hwrite.2.rewritten hwrite.1 hbelow hchained
    refine Eff.Completes.ret ⟨(pageId,.internal separators children)::rest,SeparatedRow.last ?_,
      contents_internal,?_⟩
    · exact ⟨separators,children,rest,rfl,hrow⟩
    · exact @Rewritten.within _ _ _ _ _ _ _ [] _ _ rest hone hparts
  · next hlong =>
    have hlength : 16 < separators.length := Nat.lt_of_not_le hlong
    obtain ⟨promotedKey,hmid⟩ : ∃ promotedKey, separators[separators.length/2]?=some promotedKey :=
      ⟨_,List.getElem?_eq_getElem (by omega)⟩
    obtain ⟨left,right,rfl,hlo,hhi,hleft,hright⟩ := hrow.split hmid
    dsimp only
    rw [hmid]
    have hsplit := @split_completes _ _ _ _ _ p pageId _ _ txnId .internalPage
      (fun _ => .internal (separators.take (separators.length/2))
        (children.take (separators.length/2+1)))
      (.internal (separators.drop (separators.length/2+1))
        (children.drop (separators.length/2+1)) : Node K V) promotedKey hbelow
    refine hsplit.mono fun split p' hsplit => ?_
    obtain ⟨newPageId,rfl,hsplit⟩ := hsplit
    refine ⟨_,SeparatedRow.cons hlo hhi ⟨_,_,left,rfl,hleft⟩
      (SeparatedRow.last ⟨_,_,right,rfl,hright⟩),?_,hsplit.rewritten hparts ?_⟩
    · rw [contents_append,contents_append,contents_internal,contents_internal]
    · intro last
      rw [leavesOf_append,leavesOf_internal,leavesOf_internal,leavesOf_internal,leavesOf_append]
      exact Chained.refl _ last

/-- Inserting into a subtree. -/
theorem insertIntoPage_completes (h : Subtree height lo hi pageId parts) (hparts : OnPages p parts)
    (hlo : lo ≤ (key : WithBot K)) (hhi : (key : WithTop K) < hi) (hfuel : height < fuel) :
    Eff.Completes (callOf K V txnId) p (insertIntoPage fuel txnId pageId key value)
      (Grown height lo hi pageId p parts (upsertEntry (contents parts) key value)) := by
  induction height generalizing lo hi pageId parts p fuel with
  | zero =>
    obtain ⟨entries,next,rfl,hascending,hbounds⟩ := h
    obtain ⟨fuel,rfl⟩ : ∃ n, fuel=n+1 := ⟨fuel-1,by omega⟩
    unfold insertIntoPage
    refine Eff.Completes.bind (lock_completes txnId pageId p) fun u p₁ hsame => ?_
    have hlocked := hsame.rewritten hparts
    refine Eff.Completes.bind_value (reads_node (stored_cons.mp hlocked.onPages.stored).1) ?_
    dsimp only
    have hbounds' : ∀ entry∈upsertEntry entries key value,
        lo ≤ (entry.1 : WithBot K) ∧ (entry.1 : WithTop K) < hi := by
      intro entry hmem
      rcases mem_upsertEntry hmem with rfl | hmem
      · exact ⟨hlo,hhi⟩
      · exact hbounds entry hmem
    refine (storeLeaf_completes hlocked.onPages hascending.upsertEntry hbounds').mono
      fun split p' hgrown => ?_
    rw [contents_leaf]
    exact hgrown.after hlocked
  | succ height ih =>
    obtain ⟨separators,children,rest,rfl,hrow⟩ := h
    obtain ⟨fuel,rfl⟩ : ∃ n, fuel=n+1 := ⟨fuel-1,by omega⟩
    obtain ⟨place⟩ := hrow.place Subtree.keys_bounded hlo hhi
    obtain ⟨hfront,hback⟩ := contents_place place
    unfold insertIntoPage
    refine Eff.Completes.bind (lock_completes txnId pageId p) fun u p₁ hsame => ?_
    have hlocked := hsame.rewritten hparts
    have hnode := (stored_cons.mp hlocked.onPages.stored).1
    refine Eff.Completes.bind_value (reads_node hnode) ?_
    dsimp only
    refine Eff.Completes.bind_value (childFor_ok place.at_index) ?_
    have hsplit : (pageId,.internal separators children)::rest=
        ((pageId,.internal separators children)::place.front)++(place.own++place.back) := by
      rw [List.cons_append,←place.parts_eq]
    have hchild : OnPages p₁ place.own := by
      have hall := hlocked.onPages
      rw [hsplit] at hall
      exact hall.sub
    refine Eff.Completes.bind (ih place.child_holds hchild place.low_le place.lt_high (by omega))
      fun split p₂ hgrown => ?_
    obtain ⟨own,hrowOwn,hcontents,hrewritten⟩ := hgrown
    have hwhole : Rewritten p p₂ ((pageId,.internal separators children)::rest)
        ((pageId,.internal separators children)::(place.front++(own++place.back))) := by
      have hlocked' := hlocked
      rw [hsplit] at hlocked'
      rw [hsplit]
      exact hlocked'.trans (hrewritten.within hlocked'.onPages)
    have hentries : upsertEntry (contents ((pageId,.internal separators children)::rest)) key value=
        contents (place.front++(own++place.back)) := by
      rw [contents_internal,contents_rest place,contents_append,contents_append,upsertEntry_middle hfront hback,
        hcontents]
    rw [hentries]
    cases split with
    | none =>
      have hchildRow : Subtree height place.low place.high place.child own := by
        cases hrowOwn with
        | last h => exact h
      refine Eff.Completes.ret ⟨_,SeparatedRow.last ?_,contents_internal,hwhole⟩
      exact ⟨separators,children,_,rfl,place.replace hchildRow⟩
    | some split =>
      exact (storeInternal_completes hwhole.onPages (place.grow hrowOwn)).mono
        fun split' p' hgrown => hgrown.after hwhole

end Writes

end RustSql.V2.BTree
