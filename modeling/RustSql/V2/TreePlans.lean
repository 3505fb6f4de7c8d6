import RustSql.V2.TreeMap

/-!
# The pages an insertion writes

What an insertion does to the pages is settled before it writes the first one: the pages
it allocates, the nodes it writes, and their order. A run follows this plan to its end, or
up to the first node whose image does not fit a page, unless one of its page calls fails.
-/

namespace RustSql.V2.BTree

/-! ## Steps -/

section Steps

variable {K V : Type} {steps later : List (PageId × Option (Node K V))}

/-- A page is allocated, or a node is written to a page. -/
abbrev TreeStep (K V : Type) := PageId × Option (Node K V)

/-- The number of pages some steps allocate. -/
def allocations (steps : List (TreeStep K V)) : ℕ :=
  (steps.filter fun step => step.2.isNone).length

/-- The nodes some steps write. -/
def written (steps : List (TreeStep K V)) : List (Node K V) := steps.filterMap Prod.snd

/-- The last step on a page. -/
def lastStep (steps : List (TreeStep K V)) (pageId : PageId) : Option (Option (Node K V)) :=
  (steps.reverse.find? fun step => step.1=pageId).map Prod.snd

/-- Allocations add up. -/
@[simp] theorem allocations_append :
    allocations (steps++later)=allocations steps+allocations later := by
  unfold allocations
  rw [List.filter_append,List.length_append]

/-- Written pages of steps in a row. -/
@[simp] theorem written_append : written (steps++later)=written steps++written later := by
  unfold written
  rw [List.filterMap_append]

/-- The last step on a page is among the later ones, if any. -/
theorem lastStep_append (pageId : PageId) :
    lastStep (steps++later) pageId=(lastStep later pageId).or (lastStep steps pageId) := by
  unfold lastStep
  rw [List.reverse_append,List.find?_append]
  cases later.reverse.find? fun step => step.1=pageId <;> rfl

/-- No step, no last one. -/
@[simp] theorem lastStep_nil (pageId : PageId) :
    lastStep ([] : List (TreeStep K V)) pageId=none := rfl

/-- One step. -/
theorem lastStep_singleton (step : TreeStep K V) (pageId : PageId) :
    lastStep [step] pageId=if step.1=pageId then some step.2 else none := by
  unfold lastStep
  rw [List.reverse_singleton,List.find?_singleton]
  by_cases h : step.1=pageId
  · simp [h]
  · simp [h]

/-- The last step is a step. -/
theorem lastStep_mem {pageId : PageId} {node : Option (Node K V)}
    (h : lastStep steps pageId=some node) : (pageId,node)∈steps := by
  obtain ⟨step,hfind,rfl⟩ := Option.map_eq_some_iff.mp h
  have hpage : step.1=pageId := by simpa using List.find?_some hfind
  rw [← hpage]
  exact List.mem_reverse.mp (List.mem_of_find?_eq_some hfind)

end Steps

/-- A page that has been allocated and not written has no node. -/
class BlankPages (K V P : Type) [TreePage K V P] [PageImage P] : Prop where
  decode_empty (kind : PageKind) (pageId : PageId) : kind=.leafPage ∨ kind=.internalPage →
    ∃ e, (TreePage.decodeNode pageId (PageImage.empty kind : P) : Except DbError (Node K V))=.error e

instance blankRowPages (S : Type) [StoreText S] : BlankPages ℕ StoredRow (StorePage S) where
  decode_empty kind pageId h := by
    rcases h with rfl | rfl
    · exact ⟨StorePage.noPayload,rfl⟩
    · exact ⟨StorePage.noPayload,rfl⟩

instance blankIndexPages (S : Type) [StoreText S] :
    BlankPages IndexKey (List RowId) (StorePage S) where
  decode_empty kind pageId h := by
    rcases h with rfl | rfl
    · exact ⟨StorePage.noPayload,rfl⟩
    · exact ⟨StorePage.noPayload,rfl⟩

/-! ## Following steps -/

variable {K V P U α β : Type} [TreePage K V P] {p p' p'' : Pager P U} {pageId : PageId}
  {txnId : TransactionId} {steps later : List (TreeStep K V)}

/-- A page call whose page has been built. -/
inductive PageCall (P : Type) where
  | lock (pageId : PageId)
  | allocate (kind : PageKind)
  | write (pageId : PageId) (page : P)

/-- What a page call does. -/
def pageCallOf [PageImage P] (txnId : TransactionId) : PageCall P → Eff (Pager P U) Unit
  | .lock pageId => Pager.acquirePageWriteLock txnId pageId
  | .allocate kind => do
    let _ ← Pager.allocatePageWithKind txnId kind
    pure ()
  | .write pageId page => Pager.writePage txnId pageId page

/-- The error of a page call: one of the transaction manager or of the file, or the page is
out of bounds. -/
def IsPageError (e : DbError) : Prop :=
  TxnManager.IsTxn e ∨ (∃ message, e=.io message) ∨ ∃ rest, e=.storage ("page "++rest)

/-- Waiting for a page raises errors of pages only. -/
theorem waitForPageWriteLock_raises (txnId : TransactionId) (pageId : PageId) :
    Eff.Raises IsPageError (Pager.waitForPageWriteLock txnId pageId : Eff (Pager P U) Unit) := by
  refine Eff.Raises.bind (Eff.Raises.attempt (Eff.Raises.zoom ?_) ?_ ?_) fun locked => ?_
  · exact fun m e m' h => Or.inl (TxnManager.acquirePageWrite_raises txnId pageId m e m' h)
  · exact fun _ => Eff.Raises.ret true
  · intro e he
    refine Eff.Raises.bind (Eff.Raises.modify _) fun _ => ?_
    split
    · exact Eff.Raises.fail he
    · split
      · exact Eff.Raises.ret false
      · exact Eff.Raises.fail he
  · split
    · exact Eff.Raises.ret ()
    · exact Eff.Raises.hang

/-- So does the check of a transaction. -/
theorem validateTransaction_raises (p : Pager P U) (txnId : TransactionId) (e : DbError)
    (h : p.validateTransaction txnId=.error e) : IsPageError e := by
  unfold Pager.validateTransaction at h
  split at h
  · cases h
  · cases h
    exact Or.inl ⟨_,rfl⟩

/-- So does reading the page that is replaced. -/
theorem replacedPage_raises (p : Pager P U) (txnId : TransactionId) (pageId : PageId)
    (e : DbError) (h : p.replacedPage txnId pageId=.error e) : IsPageError e := by
  unfold Pager.replacedPage Pager.currentBeforeImage readRawPage at h
  split at h
  · cases h
  · split at h
    · cases h
    · split at h
      · split at h
        · cases h
        · cases h
          exact Or.inr (Or.inl ⟨_,rfl⟩)
      · cases h

/-- So an insertion that fails with another error has not had a page call fail. -/
theorem pageCallOf_raises [PageImage P] (txnId : TransactionId) (call : PageCall P) :
    Eff.Raises IsPageError (pageCallOf txnId call : Eff (Pager P U) Unit) := by
  have hvalid : Eff.Raises IsPageError
      (Eff.reads fun p : Pager P U => p.validateTransaction txnId) :=
    Eff.Raises.reads fun p => validateTransaction_raises p txnId
  cases call with
  | lock pageId =>
    exact Eff.Raises.bind hvalid fun _ => waitForPageWriteLock_raises txnId pageId
  | allocate kind =>
    refine Eff.Raises.bind (Eff.Raises.bind hvalid fun _ => ?_) fun _ => Eff.Raises.ret ()
    refine Eff.Raises.bind Eff.Raises.get fun p => ?_
    refine Eff.Raises.bind (Eff.Raises.modify _) fun _ => ?_
    refine Eff.Raises.attempt (waitForPageWriteLock_raises txnId _) (fun _ => ?_) fun e he => ?_
    · exact Eff.Raises.bind (Eff.Raises.modify _) fun _ => Eff.Raises.ret _
    · exact Eff.Raises.bind (Eff.Raises.modify _) fun _ => Eff.Raises.fail he
  | write pageId page =>
    refine Eff.Raises.bind hvalid fun _ => Eff.Raises.bind Eff.Raises.get fun p => ?_
    split
    · refine Eff.Raises.fail (Or.inr (Or.inr ⟨toString pageId++
        (" is out of bounds for database with "++toString p.metaPage.pageCount++" pages"),?_⟩))
      simp only [String.append_assoc]
      rfl
    · refine Eff.Raises.bind (waitForPageWriteLock_raises txnId pageId) fun _ => ?_
      refine Eff.Raises.bind (Eff.Raises.reads fun p => ?_) fun _ => Eff.Raises.modify _
      exact replacedPage_raises p txnId pageId

/-- The image of a node fits a page. -/
def Fits (P : Type) [TreePage K V P] (node : Node K V) : Prop :=
  ∃ page : P, TreePage.encodeNode node=.ok page

/-- What is read after some steps: on each page what the last step on it left, and an
allocated page that has not been written has no node. -/
structure After (p p' : Pager P U) (steps : List (TreeStep K V)) : Prop where
  count : p'.metaPage.pageCount=p.metaPage.pageCount+allocations steps
  fresh : ∀ pageId, p.metaPage.pageCount ≤ pageId → pageId < p'.metaPage.pageCount →
    lastStep steps pageId≠none
  kept : ∀ pageId, lastStep steps pageId=none → p'.readPage pageId=p.readPage pageId
  blank : ∀ pageId, lastStep steps pageId=some none →
    ∃ e, (readNode pageId p' : Except DbError (Node K V))=.error e
  stored : ∀ pageId node, lastStep steps pageId=some (some node) → readNode pageId p'=.ok node

/-- Nothing is written. -/
theorem SameReads.after (h : SameReads p p') : After p p' ([] : List (TreeStep K V)) where
  count := h.count
  fresh pageId hle hlt := by
    rw [h.count] at hlt
    exact absurd hlt (Nat.not_lt.mpr hle)
  kept pageId _ := h.reads pageId
  blank pageId hnone := by cases hnone
  stored pageId node hnone := by cases hnone

/-- Steps in a row. -/
theorem After.append (h : After p p' steps) (h' : After p' p'' later) :
    After p p'' (steps++later) where
  count := by
    rw [h'.count,h.count,allocations_append,Nat.add_assoc]
  fresh pageId hle hlt := by
    rw [lastStep_append]
    by_cases hbefore : pageId < p'.metaPage.pageCount
    · have hstep := h.fresh pageId hle hbefore
      cases lastStep later pageId with
      | none => exact hstep
      | some node => simp
    · have hstep := h'.fresh pageId (Nat.not_lt.mp hbefore) hlt
      obtain ⟨node,hnode⟩ := Option.ne_none_iff_exists'.mp hstep
      rw [hnode]
      simp
  kept pageId hnone := by
    rw [lastStep_append,Option.or_eq_none_iff] at hnone
    rw [h'.kept pageId hnone.1,h.kept pageId hnone.2]
  blank pageId hblank := by
    rw [lastStep_append] at hblank
    cases hlater : lastStep later pageId with
    | none =>
      rw [hlater,Option.none_or] at hblank
      rw [readNode_congr (h'.kept pageId hlater)]
      exact h.blank pageId hblank
    | some node =>
      rw [hlater,Option.some_or] at hblank
      exact h'.blank pageId (hlater.trans hblank)
  stored pageId node hnode := by
    rw [lastStep_append] at hnode
    cases hlater : lastStep later pageId with
    | none =>
      rw [hlater,Option.none_or] at hnode
      rw [readNode_congr (h'.kept pageId hlater)]
      exact h.stored pageId node hnode
    | some found =>
      rw [hlater,Option.some_or] at hnode
      exact h'.stored pageId node (hlater.trans hnode)

section Follows

variable [PageImage P]

/-- A sequence makes some steps and returns a value, stops at a node that does not fit, or
ends where one of its page calls fails. -/
inductive Follows (txnId : TransactionId) (p : Pager P U) (x : Eff (Pager P U) α)
    (steps : List (TreeStep K V)) (a : α) : Prop
  | refused (h : Eff.Refused (pageCallOf txnId) p (x p))
  | done {p' : Pager P U} (hrun : x p=(.ok a,p')) (hmade : Eff.Made (pageCallOf txnId) p p')
      (hfits : ∀ node∈written steps, Fits P node) (hafter : After p p' steps)
  | torn {front rest : List (TreeStep K V)} {pageId : PageId} {node : Node K V} {e : DbError}
      {p' : Pager P U} (hsteps : steps=front++(pageId,some node)::rest)
      (hfits : ∀ node∈written front, Fits P node)
      (herror : (TreePage.encodeNode node : Except DbError P)=.error e) (hrun : x p=(.err e,p'))
      (hmade : Eff.Made (pageCallOf txnId) p p') (hafter : After p p' front)

namespace Follows

omit [TreePage K V P] [PageImage P] in
/-- A pager reads like itself. -/
theorem same_reads (p : Pager P U) : SameReads p p := ⟨fun _ => rfl,rfl⟩

variable {a : α} {x : Eff (Pager P U) β} {f : β → Eff (Pager P U) α}

/-- Nothing is left to do. -/
theorem ret : Follows txnId p (pure a) ([] : List (TreeStep K V)) a :=
  done rfl Relation.ReflTransGen.refl (fun _ hmem => absurd hmem List.not_mem_nil)
    (same_reads p).after

/-- First some steps, then the others. -/
theorem bind {b : β} (hx : Follows txnId p x steps b)
    (hf : ∀ p', After p p' steps → Follows txnId p' (f b) later a) :
    Follows txnId p (x >>= f) (steps++later) a := by
  cases hx with
  | refused h => exact refused h.bind
  | torn hsteps hfits herror hrun hmade hafter =>
    refine torn (hsteps▸List.append_assoc _ _ _) hfits herror (Eff.bind_of_err hrun) hmade hafter
  | @done p₁ hrun hmade hfits hafter =>
    have hgoes : (x >>= f) p=f b p₁ := Eff.bind_of_ok hrun
    cases hf p₁ hafter with
    | refused h => exact refused (hgoes▸h.after hmade)
    | done hrun' hmade' hfits' hafter' =>
      refine done (hgoes.trans hrun') (hmade.trans hmade') (fun node hmem => ?_)
        (hafter.append hafter')
      rw [written_append] at hmem
      exact (List.mem_append.mp hmem).elim (hfits node) (hfits' node)
    | @torn front rest other node e p₂ hsteps hfits' herror hrun' hmade' hafter' =>
      have hwhole : steps++later=steps++front++(other,some node)::rest := by
        rw [hsteps,List.append_assoc]
      refine torn hwhole (fun node hmem => ?_) herror (hgoes.trans hrun') (hmade.trans hmade')
        (hafter.append hafter')
      rw [written_append] at hmem
      exact (List.mem_append.mp hmem).elim (hfits node) (hfits' node)

/-- What a sequence does depends on its run only. -/
theorem congr {x y : Eff (Pager P U) α} (hrun : y p=x p) (h : Follows txnId p x steps a) :
    Follows txnId p y steps a := by
  cases h with
  | refused h => exact refused (hrun▸h)
  | done h hmade hfits hafter => exact done (hrun.trans h) hmade hfits hafter
  | torn hsteps hfits herror h hmade hafter =>
    exact torn hsteps hfits herror (hrun.trans h) hmade hafter

/-- What is returned after the last step. -/
theorem bind_last {b : β}
    (hx : Follows txnId p x steps b) (hf : f b=pure a) : Follows txnId p (x >>= f) steps a := by
  have hlast : ∀ p', After p p' steps → Follows txnId p' (f b) ([] : List (TreeStep K V)) a :=
    fun _ _ => hf▸ret
  have hwhole := hx.bind hlast
  rw [List.append_nil] at hwhole
  exact hwhole

/-- Sequencing after a step that makes no call. -/
theorem bind_value {b : β} (hx : x p=(.ok b,p)) (hf : Follows txnId p (f b) steps a) :
    Follows txnId p (x >>= f) steps a :=
  congr (Eff.bind_of_ok hx) hf

/-- A page call, by the steps it makes when it returns. -/
theorem call {x : Eff (Pager P U) α} (made : PageCall P)
    (hcall : pageCallOf txnId made=(do let _ ← x; pure ()))
    (hwritten : written steps=[]) (h : ∀ b p', x p=(.ok b,p') → b=a ∧ After p p' steps) :
    Follows txnId p x steps a := by
  rcases hrun : x p with ⟨outcome,p'⟩
  cases outcome with
  | ok b =>
    obtain ⟨rfl,hafter⟩ := h b p' hrun
    have hmade : pageCallOf txnId made p=(.ok (),p') := by
      rw [hcall,Eff.bind_of_ok hrun]
      rfl
    refine done hrun (Relation.ReflTransGen.single ⟨made,hmade⟩) (fun node hmem => ?_) hafter
    rw [hwritten] at hmem
    exact absurd hmem List.not_mem_nil
  | err e =>
    have hmade : pageCallOf txnId made p=(.err e,p') := by rw [hcall,Eff.bind_of_err hrun]
    refine refused ?_
    rw [hrun]
    exact Eff.Refused.err Relation.ReflTransGen.refl hmade
  | stuck =>
    have hmade : pageCallOf txnId made p=(.stuck,p') := by rw [hcall,Eff.bind_of_stuck hrun]
    refine refused ?_
    rw [hrun]
    exact Eff.Refused.stuck Relation.ReflTransGen.refl hmade

/-- Taking a page's lock makes no step. -/
theorem lock : Follows txnId p (Pager.acquirePageWriteLock txnId pageId)
    ([] : List (TreeStep K V)) () := by
  have hcall : pageCallOf txnId (.lock pageId)=(do
      let _ ← Pager.acquirePageWriteLock (P := P) (U := U) txnId pageId
      pure ()) := by
    funext q
    rw [Eff.bind_eq]
    change Pager.acquirePageWriteLock txnId pageId q=_
    rcases Pager.acquirePageWriteLock txnId pageId q with ⟨outcome,q'⟩
    cases outcome <;> rfl
  exact call (.lock pageId) hcall rfl fun _ _ h => ⟨rfl,(acquirePageWriteLock_ok h).after⟩

/-- Allocating a page. -/
theorem allocate [BlankPages K V P] {kind : PageKind} (hkind : kind=.leafPage ∨ kind=.internalPage) :
    Follows txnId p (Pager.allocatePageWithKind txnId kind)
      [(p.metaPage.pageCount,(none : Option (Node K V)))] p.metaPage.pageCount := by
  refine call (.allocate kind) rfl rfl fun newPageId p' h => ?_
  obtain ⟨⟨rfl,hcount,hreads⟩,hempty⟩ := allocatePageWithKind_ok h
  have hlast (pageId : PageId) : lastStep [(p.metaPage.pageCount,(none : Option (Node K V)))] pageId=
      if p.metaPage.pageCount=pageId then some none else none := lastStep_singleton _ _
  refine ⟨rfl,hcount,fun pageId hle hlt => ?_,fun pageId hnone => ?_,fun pageId hblank => ?_,
    fun pageId node hnode => ?_⟩
  · have heq : p.metaPage.pageCount=pageId := by omega
    rw [hlast,if_pos heq]
    exact Option.some_ne_none _
  · rw [hlast] at hnone
    split at hnone
    · cases hnone
    · next hne => exact hreads pageId (Ne.symm hne)
  · rw [hlast] at hblank
    split at hblank
    · next heq =>
      subst heq
      obtain ⟨e,he⟩ := BlankPages.decode_empty (K := K) (V := V) (P := P) kind
        p.metaPage.pageCount hkind
      refine ⟨e,?_⟩
      unfold readNode
      rw [hempty]
      exact he
    · cases hblank
  · rw [hlast] at hnode
    split at hnode
    · cases hnode
    · cases hnode

/-- Writing a node. -/
theorem write [LawfulTreePage K V P] (node : Node K V) :
    Follows txnId p (writeNode txnId pageId node) [(pageId,some node)] () := by
  cases hencode : (TreePage.encodeNode node : Except DbError P) with
  | error e =>
    have hrun : writeNode txnId pageId node p=(.err e,p) := by
      unfold writeNode Eff.lift Eff.reads
      rw [hencode]
      rfl
    have hnone : ∀ other∈written ([] : List (TreeStep K V)), Fits P other := fun _ hmem =>
      absurd hmem List.not_mem_nil
    have hsteps : [(pageId,some node)]=([] : List (TreeStep K V))++(pageId,some node)::[] := rfl
    exact torn hsteps hnone hencode hrun Relation.ReflTransGen.refl (same_reads p).after
  | ok page =>
    have hgoes : writeNode txnId pageId node p=Pager.writePage txnId pageId page p := by
      unfold writeNode Eff.lift
      exact Eff.bind_of_ok (by unfold Eff.reads; rw [hencode])
    have hlast (other : PageId) : lastStep [(pageId,some node)] other=
        if pageId=other then some (some node) else none := lastStep_singleton _ _
    rcases hrun : Pager.writePage txnId pageId page p with ⟨outcome,p'⟩
    have hcall : pageCallOf txnId (.write pageId page) p=(outcome,p') := hrun
    cases outcome with
    | ok u =>
      obtain ⟨hstored,hchanged⟩ := writeNode_ok (hgoes.trans hrun)
      refine done (hgoes.trans hrun) (Relation.ReflTransGen.single ⟨.write pageId page,hcall⟩)
        (fun other hmem => ?_) ⟨hchanged.count,fun other hle hlt => ?_,fun other hnone => ?_,
          fun other hblank => ?_,fun other found hfound => ?_⟩
      · obtain rfl := List.mem_singleton.mp hmem
        exact ⟨page,hencode⟩
      · rw [hchanged.count] at hlt
        exact absurd hlt (Nat.not_lt.mpr hle)
      · rw [hlast] at hnone
        split at hnone
        · cases hnone
        · next hne => exact hchanged.reads other (Ne.symm hne)
      · rw [hlast] at hblank
        split at hblank
        · cases hblank
        · cases hblank
      · rw [hlast] at hfound
        split at hfound
        · next heq =>
          obtain rfl := Option.some.inj (Option.some.inj hfound)
          exact heq▸hstored
        · cases hfound
    | err e =>
      refine refused ?_
      rw [hgoes,hrun]
      exact Eff.Refused.err Relation.ReflTransGen.refl hcall
    | stuck =>
      refine refused ?_
      rw [hgoes,hrun]
      exact Eff.Refused.stuck Relation.ReflTransGen.refl hcall

end Follows

end Follows

/-! ## The plan of an insertion -/

/-- The steps of an insertion below a page, and what it returns. -/
structure InsertPlan (K V : Type) where
  steps : List (TreeStep K V)
  split : Option (SplitResult K)

/-- Two nodes in the place of one, the second on a new page. -/
def splitPlan (newPageId pageId : PageId) (left right : Node K V) (separatorKey : K) :
    InsertPlan K V :=
  ⟨[(newPageId,none),(pageId,some left),(newPageId,some right)],some ⟨separatorKey,newPageId⟩⟩

/-- The steps that store a leaf. -/
def leafPlan (newPageId pageId : PageId) (entries : List (K × V)) (next : Option PageId) :
    Option (InsertPlan K V) :=
  if entries.length ≤ leafMaxEntries then some ⟨[(pageId,some (.leaf entries next))],none⟩
  else
    match entries.drop (entries.length/2) with
    | [] => none
    | right::rest => some (splitPlan newPageId pageId
        (.leaf (entries.take (entries.length/2)) (some newPageId)) (.leaf (right::rest) next)
        right.1)

/-- The steps that store an inner node. -/
def internalPlan (V : Type) (newPageId pageId : PageId) (separators : List K)
    (children : List PageId) : Option (InsertPlan K V) :=
  if separators.length ≤ internalMaxKeys then
    some ⟨[(pageId,some (.internal separators children))],none⟩
  else
    let mid := separators.length/2
    separators[mid]?.map fun promotedKey => splitPlan newPageId pageId
      (.internal (separators.take mid) (children.take (mid+1)))
      (.internal (separators.drop (mid+1)) (children.drop (mid+1))) promotedKey

/-- What is done above a page below which a plan has been carried out. -/
def planAbove (newPageId pageId : PageId) (separators : List K) (children : List PageId)
    (index : ℕ) (plan : InsertPlan K V) : Option (InsertPlan K V) :=
  match plan.split with
  | none => some plan
  | some split =>
    (internalPlan V (newPageId+allocations plan.steps) pageId
      (separators.insertIdx index split.separatorKey)
      (children.insertIdx (index+1) split.rightPageId)).map fun above =>
        ⟨plan.steps++above.steps,above.split⟩

/-- The plan of an insertion below a page, from what the pages read. -/
def planFrom [LinearOrder K] (read : PageId → Except DbError (Node K V)) (newPageId : PageId)
    (key : K) (value : V) : ℕ → PageId → Option (InsertPlan K V)
  | 0, _ => none
  | fuel+1, pageId =>
    match read pageId with
    | .error _ => none
    | .ok (.leaf entries next) => leafPlan newPageId pageId (upsertEntry entries key value) next
    | .ok (.internal separators children) => do
      let child ← children[childIndex separators key]?
      let plan ← planFrom read newPageId key value fuel child
      planAbove newPageId pageId separators children (childIndex separators key) plan

/-- What is done above the root, and the root afterwards. -/
def planRoot (newPageId root : PageId) (plan : InsertPlan K V) : List (TreeStep K V) × PageId :=
  match plan.split with
  | none => (plan.steps,root)
  | some split =>
    let newRoot := newPageId+allocations plan.steps
    (plan.steps++[(newRoot,none),
      (newRoot,some (.internal [split.separatorKey] [root,split.rightPageId]))],newRoot)

/-- The plan of an insertion. -/
def insertPlan [LinearOrder K] (p : Pager P U) (root : PageId) (key : K) (value : V) :
    Option (List (TreeStep K V) × PageId) :=
  (planFrom (fun pageId => readNode pageId p) p.metaPage.pageCount key value (treeFuel p) root).map
    (planRoot p.metaPage.pageCount root)

section Plans

variable [PageImage P] [LawfulTreePage K V P] [BlankPages K V P] {plan : InsertPlan K V}

/-- A page is split. -/
theorem split_follows {kind : PageKind} (hkind : kind=.leafPage ∨ kind=.internalPage)
    (left : PageId → Node K V) (right : Node K V) (separatorKey : K) :
    Follows txnId p (do
      let newPageId ← Pager.allocatePageWithKind txnId kind
      writeNode txnId pageId (left newPageId)
      writeNode txnId newPageId right
      pure (some (SplitResult.mk separatorKey newPageId)))
      (splitPlan p.metaPage.pageCount pageId (left p.metaPage.pageCount) right separatorKey).steps
      (some ⟨separatorKey,p.metaPage.pageCount⟩) :=
  (Follows.allocate hkind).bind fun _ _ =>
    (Follows.write (left p.metaPage.pageCount)).bind fun _ _ =>
      (Follows.write right).bind fun _ _ => Follows.ret

/-- A leaf is stored as planned. -/
theorem storeLeaf_follows [LinearOrder K] {entries : List (K × V)} {next : Option PageId}
    (hplan : leafPlan p.metaPage.pageCount pageId entries next=some plan) :
    Follows txnId p (storeLeaf txnId pageId entries next) plan.steps plan.split := by
  unfold leafPlan at hplan
  by_cases hshort : entries.length ≤ leafMaxEntries
  · rw [if_pos hshort] at hplan
    obtain rfl := Option.some.inj hplan
    unfold storeLeaf
    rw [if_pos hshort]
    exact (Follows.write _).bind fun _ _ => Follows.ret
  · rw [if_neg hshort] at hplan
    cases hright : entries.drop (entries.length/2) with
    | nil =>
      rw [hright] at hplan
      cases hplan
    | cons right rest =>
      rw [hright] at hplan
      obtain rfl := Option.some.inj hplan
      unfold storeLeaf
      rw [if_neg hshort]
      dsimp only
      rw [hright]
      exact split_follows (Or.inl rfl)
        (fun newPageId => .leaf (entries.take (entries.length/2)) (some newPageId)) _ _

/-- An inner node is stored as planned. -/
theorem storeInternal_follows [LinearOrder K] {separators : List K} {children : List PageId}
    (hplan : internalPlan V p.metaPage.pageCount pageId separators children=some plan) :
    Follows txnId p (storeInternal V txnId pageId separators children) plan.steps plan.split := by
  unfold internalPlan at hplan
  unfold storeInternal
  split at hplan
  · next hshort =>
    obtain rfl := Option.some.inj hplan
    rw [if_pos hshort]
    exact (Follows.write _).bind fun _ _ => Follows.ret
  · next hlong =>
    rw [if_neg hlong]
    obtain ⟨promotedKey,hmid,rfl⟩ := Option.map_eq_some_iff.mp hplan
    dsimp only
    rw [hmid]
    exact split_follows (Or.inr rfl) (fun _ => .internal (separators.take (separators.length/2))
      (children.take (separators.length/2+1))) _ _

/-- An insertion below a page goes as planned. -/
theorem insertIntoPage_follows [LinearOrder K] (txnId : TransactionId) {key : K} {value : V} {fuel : ℕ}
    (hplan : planFrom (fun pageId => readNode pageId p) p.metaPage.pageCount key value fuel pageId=
      some plan) :
    Follows txnId p (insertIntoPage fuel txnId pageId key value) plan.steps plan.split := by
  induction fuel generalizing pageId p plan with
  | zero => cases hplan
  | succ fuel ih =>
    unfold insertIntoPage
    refine Follows.bind (b := ()) Follows.lock fun p₁ hlocked => ?_
    have hreads : (fun pageId => readNode (K := K) (V := V) pageId p₁)=
        fun pageId => readNode pageId p :=
      funext fun pageId => readNode_congr (hlocked.kept pageId rfl)
    have hcount : p₁.metaPage.pageCount=p.metaPage.pageCount := hlocked.count
    rw [←hreads,←hcount] at hplan
    unfold planFrom at hplan
    split at hplan
    · cases hplan
    · next entries next hread =>
      refine Follows.bind_value (reads_node hread) ?_
      exact storeLeaf_follows hplan
    · next separators children hread =>
      refine Follows.bind_value (reads_node hread) ?_
      obtain ⟨child,hchild,hplan⟩ := Option.bind_eq_some_iff.mp hplan
      obtain ⟨below,hbelow,habove⟩ := Option.bind_eq_some_iff.mp hplan
      dsimp only
      refine Follows.bind_value (childFor_ok hchild) ?_
      unfold planAbove at habove
      cases hsplit : below.split with
      | none =>
        rw [hsplit] at habove
        obtain rfl := Option.some.inj habove
        rw [hsplit]
        have hdone := ih hbelow
        rw [hsplit] at hdone
        exact hdone.bind_last rfl
      | some split =>
        rw [hsplit] at habove
        obtain ⟨above,hinternal,rfl⟩ := Option.map_eq_some_iff.mp habove
        refine (ih hbelow).bind fun p₂ hbelow => ?_
        rw [hsplit]
        rw [←hbelow.count] at hinternal
        exact storeInternal_follows hinternal

/-- An insertion goes as planned. -/
theorem insert_follows [LinearOrder K] (txnId : TransactionId) {root root' : PageId} {key : K} {value : V}
    (hplan : insertPlan p root key value=some (steps,root')) :
    Follows txnId p (BTree.insert txnId root key value) steps root' := by
  obtain ⟨plan,hplan,hroot⟩ := Option.map_eq_some_iff.mp hplan
  have hbelow := insertIntoPage_follows txnId hplan
  refine Follows.congr (x := insertIntoPage (treeFuel p) txnId root key value >>= _) rfl ?_
  unfold planRoot at hroot
  cases hsplit : plan.split with
  | none =>
    rw [hsplit] at hroot hbelow
    obtain ⟨rfl,rfl⟩ := Prod.mk.inj hroot
    exact hbelow.bind_last rfl
  | some split =>
    rw [hsplit] at hroot hbelow
    obtain ⟨rfl,rfl⟩ := Prod.mk.inj hroot
    refine hbelow.bind fun p₁ hafter => ?_
    rw [←hafter.count]
    exact (Follows.allocate (Or.inr rfl)).bind fun _ _ =>
      (Follows.write _).bind fun _ _ => Follows.ret

end Plans

end RustSql.V2.BTree
