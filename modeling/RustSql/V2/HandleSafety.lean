import RustSql.V2.PagerHandles

/-!
# Pages shared by several handles

The committed page count is private to a handle, so a handle that has not made the
others' commits itself may hand out a committed page again and shorten the file. As long
as it does neither, committed pages are never handed out again, the page count of the
file only grows, and every handle reads what has been committed.
-/

namespace RustSql.V2

/-- Meta pages are read back, and an empty log has nothing to recover. -/
class LawfulFormat (P U : Type) [PageImage P] [WalFormat P U] : Prop where
  toMeta_ofMeta (m : MetaPage) (h : m.InRange) : PageImage.toMeta (PageImage.ofMeta m : P)=.ok m
  recoverFrames_nil :
    WalFormat.recoverFrames ([] : List U)=(.ok [] : Except DbError (List (WalFrame P)))

instance lawfulBytes : LawfulFormat BytePage UInt8 where
  toMeta_ofMeta _ h := MetaPage.decode_encode h
  recoverFrames_nil := rfl

instance lawfulStorePage (S : Type) :
    LawfulFormat (StorePage S) (WalRecord (StorePage S)) where
  toMeta_ofMeta _ _ := rfl
  recoverFrames_nil := rfl

/-- A file whose log is empty is opened as it is. -/
theorem loadMetaAndRecover_empty {P U : Type} [PageImage P] [WalFormat P U] [LawfulFormat P U]
    {files : Files P U} {m : MetaPage} (hwal : files.wal=[])
    (hmeta : (readRawPage files.db 0).bind PageImage.toMeta=.ok m) :
    loadMetaAndRecover files=.ok (m,files) := by
  obtain ⟨db,wal⟩ := files
  obtain rfl : wal=[] := hwal
  have hscript : recoveryScript (P := P) ([] : List U)=.ok [.truncateWal,.syncWal] := by
    unfold recoveryScript
    rw [LawfulFormat.recoverFrames_nil]
    rfl
  unfold loadMetaAndRecover
  rw [hscript]
  cases hread : readRawPage db 0 with
  | error e =>
    rw [hread] at hmeta
    cases hmeta
  | ok page =>
    rw [hread] at hmeta
    have hpage : PageImage.toMeta page=.ok m := hmeta
    change (do
      let metaImage ← readRawPage db 0
      let metaPage ← PageImage.toMeta metaImage
      .ok (metaPage,(⟨db,[]⟩ : Files P U)))=_
    rw [hread]
    change (PageImage.toMeta page).bind _=_
    rw [hpage]
    rfl

namespace PagerHandles

variable {ι P U : Type} {s s' : PagerHandles ι P U}

/-- Nobody has a pending write of the page. -/
def Settled (s : PagerHandles ι P U) (pageId : PageId) : Prop :=
  ∀ (i : ι) (txnId : TransactionId), ¬s.Writes i txnId pageId

/-- No page has pending writes of two transactions, on one handle or on two. -/
def OneWriter (s : PagerHandles ι P U) : Prop :=
  ∀ (i j : ι) (txnId other : TransactionId) (pageId : PageId), s.Writes i txnId pageId →
    s.Writes j other pageId → i=j ∧ txnId=other

/-- The counters fit the machine integers that hold them. -/
structure CountersFit (s : PagerHandles ι P U) : Prop where
  metaPage : ∀ i handle, s.handles i=some handle → handle.metaPage.InRange
  committed : ∀ i handle, s.handles i=some handle → handle.committedPageCount < 2^32
  pages : ∀ i txnId pageId, s.Writes i txnId pageId → pageId+1 < 2^32

section Put

variable [DecidableEq ι] {i : ι} {p : Pager P U} {waiting : Option (WaitingCall P)}
  {happened : Option PageEvent}

/-- The state after a handle's call. -/
abbrev after (s : PagerHandles ι P U) (i : ι) (p : Pager P U) (waiting : Option (WaitingCall P))
    (happened : Option PageEvent) : PagerHandles ι P U :=
  ((s.put i p waiting).remember i happened).forgetEnded

/-- The files after a call are the pager's. -/
theorem after_files : (s.after i p waiting happened).files=p.files := by
  cases happened with
  | none => rfl
  | some event => cases event <;> rfl

/-- So is the cache. -/
theorem after_pageCache : (s.after i p waiting happened).pageCache=p.pageCache := by
  cases happened with
  | none => rfl
  | some event => cases event <;> rfl

/-- One handle changes. -/
theorem after_handles : (s.after i p waiting happened).handles=Function.update s.handles i
    (some ⟨p.metaPage,p.committedPageCount,p.txnPageStates,waiting⟩) := by
  cases happened with
  | none => rfl
  | some event => cases event <;> rfl

/-- That one or another. -/
theorem after_handle {j : ι} {handle : PagerHandle P}
    (h : (s.after i p waiting happened).handles j=some handle) :
    (j=i ∧ handle=⟨p.metaPage,p.committedPageCount,p.txnPageStates,waiting⟩) ∨
      (j≠i ∧ s.handles j=some handle) := by
  rw [after_handles] at h
  by_cases hji : j=i
  · subst hji
    rw [Function.update_self] at h
    exact Or.inl ⟨rfl,(Option.some.inj h).symm⟩
  · rw [Function.update_of_ne hji] at h
    exact Or.inr ⟨hji,h⟩

/-- The pending writes after a handle's call: the handle's and the others'. -/
theorem after_writes {j : ι} {txnId : TransactionId} {pageId : PageId} :
    (s.after i p waiting happened).Writes j txnId pageId ↔
      (j=i ∧ p.Writes txnId pageId) ∨ (j≠i ∧ s.Writes j txnId pageId) := by
  constructor
  · rintro ⟨handle,hhandle,hwrites⟩
    rcases after_handle hhandle with ⟨hji,rfl⟩ | ⟨hji,hold⟩
    · exact Or.inl ⟨hji,hwrites⟩
    · exact Or.inr ⟨hji,handle,hold,hwrites⟩
  · rintro (⟨rfl,hwrites⟩ | ⟨hji,handle,hhandle,hwrites⟩)
    · exact ⟨⟨p.metaPage,p.committedPageCount,p.txnPageStates,waiting⟩,by
        rw [after_handles,Function.update_self],hwrites⟩
    · exact ⟨handle,by rw [after_handles,Function.update_of_ne hji,hhandle],hwrites⟩

/-- A page that counts as handed out after a handle's call. -/
theorem mem_after_allocations {j : ι} {txnId : TransactionId} {pageId : PageId}
    (h : (j,txnId,pageId)∈(s.after i p waiting happened).allocations) :
    ((j,txnId,pageId)∈s.allocations ∨ j=i ∧ happened=some (.handedOut txnId pageId)) ∧
      (j=i → txnId∈p.txnPageStates) := by
  obtain ⟨hmem,hopen⟩ := List.mem_filter.mp h
  have hhandles : ((s.put i p waiting).remember i happened).handles=Function.update s.handles i
      (some ⟨p.metaPage,p.committedPageCount,p.txnPageStates,waiting⟩) :=
    after_handles (s := s)
  refine ⟨?_,?_⟩
  · cases happened with
    | none => exact Or.inl hmem
    | some event =>
      cases event with
      | committed other => exact Or.inl hmem
      | handedOut other pageId' =>
        rcases List.mem_cons.mp hmem with heq | hold
        · obtain ⟨rfl,rfl,rfl⟩ : j=i ∧ txnId=other ∧ pageId=pageId' := by
            simpa using heq
          exact Or.inr ⟨rfl,rfl⟩
        · exact Or.inl hold
  · rintro rfl
    unfold isOpen at hopen
    rw [hhandles,Function.update_self] at hopen
    exact of_decide_eq_true hopen

/-- The pages of committed transactions after a handle's call. -/
theorem mem_after_committedPages {pageId : PageId}
    (h : pageId∈(s.after i p waiting happened).committedPages) :
    pageId∈s.committedPages ∨ ∃ txnId, happened=some (.committed txnId) ∧
      (i,txnId,pageId)∈s.allocations := by
  cases happened with
  | none => exact Or.inl h
  | some event =>
    cases event with
    | handedOut other pageId' => exact Or.inl h
    | committed other =>
      rcases List.mem_append.mp h with hnew | hold
      · obtain ⟨⟨j,txnId,pageId'⟩,hentry,rfl⟩ := List.mem_map.mp hnew
        obtain ⟨hmem,hmine⟩ := List.mem_filter.mp hentry
        obtain ⟨rfl,rfl⟩ : j=i ∧ txnId=other := by simpa using hmine
        exact Or.inr ⟨txnId,rfl,hmem⟩
      · exact Or.inl hold

end Put

/-! ## The pages that are counted -/

section Counted

variable [PageImage P]

/-- The pages handed out and the page count of the file. -/
structure Counted (s : PagerHandles ι P U) : Prop where
  wal : s.files.wal=[]
  metaPage : ∃ m, (readRawPage s.files.db 0).bind PageImage.toMeta=.ok m
  allocated : ∀ (i : ι) (txnId : TransactionId) (pageId : PageId),
    (i,txnId,pageId)∈s.allocations → s.Writes i txnId pageId
  committed : ∀ pageId∈s.committedPages, pageId < s.persistedPageCount

/-- The file's count is in its meta page. -/
theorem persistedPageCount_of_meta {m : MetaPage}
    (h : (readRawPage s.files.db 0).bind PageImage.toMeta=.ok m) :
    s.persistedPageCount=m.pageCount := by
  unfold persistedPageCount
  rw [h]

/-- The same files count the same. -/
theorem persistedPageCount_of_files (h : s'.files=s.files) :
    s'.persistedPageCount=s.persistedPageCount := by
  unfold persistedPageCount
  rw [h]

variable [DecidableEq ι] {i : ι} {handle : PagerHandle P} {p : Pager P U}
  {waiting : Option (WaitingCall P)} {happened : Option PageEvent}
  {committing : Option TransactionId}

variable {txnId : TransactionId} {writes : PageWrites P} {event : HandleEvent ι P}

omit [DecidableEq ι] in
/-- A commit's meta page is in the file. -/
theorem meta_of_published [WalFormat P U] [LawfulFormat P U] (hfit : s.CountersFit)
    (hhandle : s.handles i=some handle)
    (hwrites : (s.view handle).txnPageStates[txnId]?=some writes)
    (h : Pager.Published (s.view handle) p txnId writes) :
    (readRawPage p.files.db 0).bind PageImage.toMeta=
      .ok ((s.view handle).committedMeta writes.keys) := by
  have hcount : (s.view handle).committedPageCountAfterCommit writes.keys ≤ 2^32-1 := by
    refine Pager.pageEnd_le.mpr ⟨?_,fun pageId hpage => ?_⟩
    · have hcommitted := hfit.committed i handle hhandle
      exact Nat.le_sub_one_of_lt hcommitted
    · obtain ⟨write,hwrite⟩ := Option.isSome_iff_exists.mp
        (Std.ExtTreeMap.mem_iff_isSome_getElem?.mp (Std.ExtTreeMap.mem_keys.mp hpage))
      have hpages := hfit.pages i txnId pageId ⟨handle,hhandle,write,by
        rw [Pager.pending,hwrites]; exact hwrite⟩
      exact Nat.lt_sub_of_add_lt hpages
  have hmeta := hfit.metaPage i handle hhandle
  have hrange : ((s.view handle).committedMeta writes.keys).InRange :=
    ⟨hmeta.pageSize,Nat.lt_of_le_of_lt hcount (by decide),hmeta.catalogPageId,hmeta.nextTxnId⟩
  have hfile : p.files.db[0]?=
      some (PageImage.ofMeta ((s.view handle).committedMeta writes.keys)) := by
    rw [h.db]
    refine putPages_getElem?_mem _ (toList_distinct _) ?_
    refine Std.ExtTreeMap.mem_toList_iff_getElem?_eq_some.mpr ?_
    rw [Pager.committed_get,if_pos rfl]
  unfold readRawPage
  rw [hfile]
  exact LawfulFormat.toMeta_ofMeta U _ hrange

/-- The pages handed out are still pending while their transaction is open. -/
theorem allocated_after (h : Counted s) (hhandle : s.handles i=some handle)
    (hstep : (s.view handle).HandleStep p committing happened) {j : ι}
    {pageId : PageId} (hmem : (j,txnId,pageId)∈(s.after i p waiting happened).allocations) :
    (s.after i p waiting happened).Writes j txnId pageId := by
  obtain ⟨hentry,hopen⟩ := mem_after_allocations hmem
  rw [after_writes]
  by_cases hji : j=i
  · subst hji
    refine Or.inl ⟨rfl,?_⟩
    have hopen := hopen rfl
    rcases hentry with hmem | ⟨-,rfl⟩
    · obtain ⟨found,hfound,hwrites⟩ := h.allocated j txnId pageId hmem
      obtain rfl := Option.some.inj (hhandle.symm.trans hfound)
      exact hstep.kept hwrites hopen
    · exact hstep.pending_handedOut
  · rcases hentry with hold | ⟨hsame,-⟩
    · exact Or.inr ⟨hji,h.allocated j txnId pageId hold⟩
    · exact absurd hsame hji

omit [PageImage P] [DecidableEq ι] in
/-- A page the transaction writes is within the count its commit stores. -/
theorem lt_committedMeta {pageId : PageId}
    (hstate : (s.view handle).txnPageStates[txnId]?=some writes)
    (h : (s.view handle).Writes txnId pageId) :
    pageId < ((s.view handle).committedMeta writes.keys).pageCount := by
  obtain ⟨write,hwrite⟩ := h
  rw [Pager.pending,hstate] at hwrite
  have hwrite : writes[pageId]?=some write := hwrite
  refine Pager.lt_committedPageCountAfterCommit ?_
  rw [Std.ExtTreeMap.mem_keys]
  exact Std.ExtTreeMap.mem_iff_isSome_getElem?.mpr (by rw [hwrite]; rfl)

omit [DecidableEq ι] in
/-- The count a commit stores is not below the one in the file. -/
theorem le_committedMeta (hdate : event.UpToDate s) (hcommits : event.Commits i txnId)
    (hhandle : s.handles i=some handle)
    (hstate : (s.view handle).txnPageStates[txnId]?=some writes) :
    s.persistedPageCount ≤ ((s.view handle).committedMeta writes.keys).pageCount := by
  subst hcommits
  rcases hdate handle hhandle with hcommitted | ⟨pageId,hwrites,hlast⟩
  · have hafter := Pager.le_committedPageCountAfterCommit (s.view handle) writes.keys
    exact hcommitted.trans hafter
  · have hpage := lt_committedMeta hstate hwrites
    exact hlast.trans hpage

/-- Every event keeps the counts. -/
theorem Counted.step [WalFormat P U] [LawfulFormat P U]
    (h : Counted s) (hdate : event.UpToDate s) (hfit : s.CountersFit) (hdoes : event.Does s s') :
    Counted s' ∧ s.persistedPageCount ≤ s'.persistedPageCount := by
  obtain ⟨m,hmeta⟩ := h.metaPage
  cases hdoes with
  | nothing hsame =>
    subst hsame
    exact ⟨h,le_refl _⟩
  | opens i found hclosed hfound hopens =>
    rw [loadMetaAndRecover_empty h.wal hmeta] at hfound
    obtain rfl := Except.ok.inj hfound
    subst hopens
    refine ⟨⟨h.wal,⟨m,hmeta⟩,fun j txnId pageId hmem => ?_,h.committed⟩,le_refl _⟩
    obtain ⟨handle,hhandle,hwrites⟩ := h.allocated j txnId pageId hmem
    have hne : j≠i := by
      rintro rfl
      rw [hclosed] at hhandle
      cases hhandle
    have hkept : Function.update s.handles i (some (⟨m,m.pageCount,∅,none⟩ : PagerHandle P)) j=
        some handle := by
      rw [Function.update_of_ne hne,hhandle]
    exact ⟨handle,hkept,hwrites⟩
  | steps i handle p waiting committing happened hhandle hstep hafter hcommits hfresh =>
    subst hafter
    have hallocated : ∀ j txnId pageId,
        (j,txnId,pageId)∈(s.after i p waiting happened).allocations →
        (s.after i p waiting happened).Writes j txnId pageId :=
      fun j txnId pageId hmem => allocated_after h hhandle hstep hmem
    rcases hstep.files with ⟨hfiles,hnone⟩ | ⟨txnId,writes,hstate,hpublished,hwal,hcall,hevent⟩
    · -- no commit: the files are the same
      have hfiles' : (s.after i p waiting happened).files=s.files := after_files.trans hfiles
      have hcount := persistedPageCount_of_files hfiles'
      refine ⟨⟨?_,⟨m,?_⟩,hallocated,fun pageId hmem => ?_⟩,hcount.ge⟩
      · rw [hfiles']
        exact h.wal
      · rw [hfiles']
        exact hmeta
      · rcases mem_after_committedPages hmem with hold | ⟨txnId,hcommitted,-⟩
        · rw [hcount]
          exact h.committed pageId hold
        · exact absurd hcommitted (hnone txnId)
    · -- a commit of pages this handle counts
      have hfiles : (s.after i p waiting happened).files=p.files := after_files
      have hmeta' : (readRawPage (s.after i p waiting happened).files.db 0).bind
          PageImage.toMeta=.ok ((s.view handle).committedMeta writes.keys) := by
        rw [hfiles]
        exact meta_of_published hfit hhandle hstate hpublished
      have hcount := persistedPageCount_of_meta hmeta'
      have hgrows := le_committedMeta hdate (hcommits txnId hcall) hhandle hstate
      refine ⟨⟨?_,⟨_,hmeta'⟩,hallocated,fun pageId hmem => ?_⟩,hcount.symm ▸ hgrows⟩
      · rw [hfiles]
        exact hwal
      · rw [hcount]
        rcases mem_after_committedPages hmem with hold | ⟨other,hcommitted,hmine⟩
        · exact (h.committed pageId hold).trans_le hgrows
        · obtain ⟨found,hfound,hwrites⟩ := h.allocated i other pageId hmine
          obtain rfl := Option.some.inj (hhandle.symm.trans hfound)
          have hsame : other=txnId := by
            rcases hevent with hevent | hevent
            · rw [hevent] at hcommitted
              exact (PageEvent.committed.inj (Option.some.inj hcommitted)).symm
            · rw [hevent] at hcommitted
              cases hcommitted
          exact lt_committedMeta (hsame ▸ hstate) hwrites

end Counted

/-! ## The content of committed pages -/

section Content

variable [PageImage P] [DecidableEq ι] {i : ι} {handle : PagerHandle P} {p : Pager P U}
  {waiting : Option (WaitingCall P)} {happened : Option PageEvent}
  {committing : Option TransactionId} {pageCount : ℕ}

/-- A page of the file the handles were opened on, or one that was handed out to a
transaction that has committed. The meta page is left out. -/
def Known (s : PagerHandles ι P U) (pageCount : ℕ) (pageId : PageId) : Prop :=
  pageId≠0 ∧ (pageId < pageCount ∨ pageId∈s.committedPages)

/-- Cache, replaced pages and page counts agree with the file on the known pages. -/
structure ContentKept (pageCount : ℕ) (s : PagerHandles ι P U) : Prop where
  below : pageCount ≤ s.persistedPageCount
  inFile : ∀ pageId, s.Known pageCount pageId → ∃ page, s.files.db[pageId]?=some page
  cached : ∀ pageId page, s.Known pageCount pageId → s.pageCache[pageId]?=some page →
    s.Settled pageId → s.files.db[pageId]?=some page
  replaced : ∀ i handle txnId pageId write, s.handles i=some handle →
    s.Known pageCount pageId → ((s.view handle).pending txnId)[pageId]?=some write →
    write.beforeImage=s.files.db[pageId]?
  uncached : ∀ pageId, s.Known pageCount pageId → s.pageCache[pageId]?=none →
    s.Settled pageId ∧ ∀ i handle, s.handles i=some handle → pageId < handle.committedPageCount

variable {pageId : PageId} {txnId : TransactionId} {beforeImage : Option P} {writes : PageWrites P}

omit [DecidableEq ι] in
/-- Every handle reads a page that nobody writes as it is in the file. -/
theorem ContentKept.read (h : ContentKept pageCount s)
    (hknown : s.Known pageCount pageId) (hsettled : s.Settled pageId)
    (hhandle : s.handles i=some handle) {page : P} (hfile : s.files.db[pageId]?=some page) :
    (s.view handle).readPage pageId=.ok page := by
  unfold Pager.readPage
  cases hcached : s.pageCache[pageId]? with
  | some found =>
    have hsame := h.cached pageId found hknown hcached hsettled
    rw [hfile] at hsame
    obtain rfl := Option.some.inj hsame
    have hview : (s.view handle).pageCache[pageId]?=some page := hcached
    rw [hview]
  | none =>
    have hcount := (h.uncached pageId hknown hcached).2 i handle hhandle
    have hview : (s.view handle).pageCache[pageId]?=none := hcached
    have hcount' : ¬(s.view handle).committedPageCount ≤ pageId := not_le.mpr hcount
    have hfile' : (s.view handle).files.db[pageId]?=some page := hfile
    rw [hview]
    dsimp only
    rw [if_neg hcount',readRawPage,hfile']

omit [DecidableEq ι] in
/-- The first write of a known page replaces what the file holds. -/
theorem ContentKept.firstReplaced (h : ContentKept pageCount s)
    (hhandle : s.handles i=some handle) (hknown : s.Known pageCount pageId)
    (hreplaced : (s.view handle).replacedPage txnId pageId=.ok beforeImage)
    (hmine : ∀ j other, s.Writes j other pageId → j=i ∧ other=txnId) :
    beforeImage=s.files.db[pageId]? := by
  by_cases hwrites : (s.view handle).Writes txnId pageId
  · obtain ⟨write,hwrite⟩ := hwrites
    have hbefore := h.replaced i handle txnId pageId write hhandle hknown hwrite
    unfold Pager.replacedPage at hreplaced
    rw [hwrite] at hreplaced
    rw [←hbefore]
    exact (Except.ok.inj hreplaced).symm
  · have hsettled : s.Settled pageId := by
      intro j other hothers
      obtain ⟨rfl,rfl⟩ := hmine j other hothers
      obtain ⟨found,hfound,hsame⟩ := hothers
      obtain rfl := Option.some.inj (hhandle.symm.trans hfound)
      exact hwrites hsame
    obtain ⟨page,hfile⟩ := h.inFile pageId hknown
    have hread := h.read hknown hsettled hhandle hfile
    have hmatch := Pager.replacedPage_of_readPage hwrites hreplaced
    rw [hread] at hmatch
    rw [hfile]
    exact hmatch

omit [PageImage P] in
/-- Nothing is known anew but by a commit. -/
theorem known_after (hnone : ∀ txnId, happened≠some (.committed txnId))
    (h : (s.after i p waiting happened).Known pageCount pageId) : s.Known pageCount pageId := by
  refine ⟨h.1,h.2.imp_right fun hmem => ?_⟩
  rcases mem_after_committedPages hmem with hold | ⟨txnId,hcommitted,-⟩
  · exact hold
  · exact absurd hcommitted (hnone txnId)

/-- A step that leaves the file. -/
theorem ContentKept.after (h : ContentKept pageCount s) (hhandle : s.handles i=some handle)
    (hfiles : p.files=s.files) (hnone : ∀ txnId, happened≠some (.committed txnId))
    (hcount : p.committedPageCount=handle.committedPageCount)
    (hcached : ∀ pageId page, s.Known pageCount pageId → p.pageCache[pageId]?=some page →
      (s.after i p waiting happened).Settled pageId → s.files.db[pageId]?=some page)
    (hreplaced : ∀ txnId pageId write, s.Known pageCount pageId →
      (p.pending txnId)[pageId]?=some write → write.beforeImage=s.files.db[pageId]?)
    (huncached : ∀ pageId, s.Known pageCount pageId → p.pageCache[pageId]?=none →
      s.pageCache[pageId]?=none ∧ ∀ txnId, ¬p.Writes txnId pageId) :
    ContentKept pageCount (s.after i p waiting happened) := by
  have hfiles' : (s.after i p waiting happened).files=s.files := after_files.trans hfiles
  refine ⟨?_,?_,?_,?_,?_⟩
  · rw [persistedPageCount_of_files hfiles']
    exact h.below
  · intro pageId hknown
    rw [hfiles']
    exact h.inFile pageId (known_after hnone hknown)
  · intro pageId page hknown hpage hsettled
    rw [after_pageCache] at hpage
    rw [hfiles']
    exact hcached pageId page (known_after hnone hknown) hpage hsettled
  · intro j found txnId pageId write hfound hknown hwrite
    have hold := known_after hnone hknown
    rw [hfiles']
    rcases after_handle hfound with ⟨-,rfl⟩ | ⟨-,hother⟩
    · exact hreplaced txnId pageId write hold hwrite
    · exact h.replaced j found txnId pageId write hother hold hwrite
  · intro pageId hknown hpage
    have hold := known_after hnone hknown
    rw [after_pageCache] at hpage
    obtain ⟨hbefore,hnot⟩ := huncached pageId hold hpage
    obtain ⟨hsettled,hcounts⟩ := h.uncached pageId hold hbefore
    refine ⟨fun j txnId hwrites => ?_,fun j found hfound => ?_⟩
    · rcases after_writes.mp hwrites with ⟨-,hmine⟩ | ⟨-,hother⟩
      · exact hnot txnId hmine
      · exact hsettled j txnId hother
    · rcases after_handle hfound with ⟨-,rfl⟩ | ⟨-,hother⟩
      · have hlt := hcounts i handle hhandle
        exact hcount.symm ▸ hlt
      · exact hcounts j found hother

omit [DecidableEq ι] [PageImage P] in
/-- Who writes on a handle writes in its view. -/
theorem writes_of_handle (hhandle : s.handles i=some handle) : s.Writes i txnId pageId ↔
    (s.view handle).Writes txnId pageId := by
  constructor
  · rintro ⟨found,hfound,hwrites⟩
    obtain rfl := Option.some.inj (hhandle.symm.trans hfound)
    exact hwrites
  · exact fun hwrites => ⟨handle,hhandle,hwrites⟩

omit [PageImage P] in
/-- A page nobody writes after a step, when the step has ended no write of it. -/
theorem settled_before (hhandle : s.handles i=some handle)
    (hkept : ∀ txnId, (s.view handle).Writes txnId pageId → p.Writes txnId pageId)
    (h : (s.after i p waiting happened).Settled pageId) : s.Settled pageId := by
  intro j txnId hwrites
  refine h j txnId (after_writes.mpr ?_)
  by_cases hji : j=i
  · subst hji
    exact Or.inl ⟨rfl,hkept txnId ((writes_of_handle hhandle).mp hwrites)⟩
  · exact Or.inr ⟨hji,hwrites⟩

/-- A step that leaves pages and pending writes. -/
theorem ContentKept.same (h : ContentKept pageCount s) (hhandle : s.handles i=some handle)
    (hfiles : p.files=s.files) (hcache : p.pageCache=s.pageCache)
    (hpending : ∀ txnId, p.pending txnId=(s.view handle).pending txnId)
    (hcount : p.committedPageCount=handle.committedPageCount)
    (hnone : ∀ txnId, happened≠some (.committed txnId)) :
    ContentKept pageCount (s.after i p waiting happened) := by
  have hwrites : ∀ {txnId pageId}, p.Writes txnId pageId ↔ (s.view handle).Writes txnId pageId := by
    intro txnId pageId
    unfold Pager.Writes
    rw [hpending]
  refine h.after hhandle hfiles hnone hcount ?_ ?_ ?_
  · intro pageId page hknown hpage hsettled
    rw [hcache] at hpage
    have hbefore := settled_before hhandle (fun _ hmine => hwrites.mpr hmine) hsettled
    exact h.cached pageId page hknown hpage hbefore
  · intro txnId pageId write hknown hwrite
    rw [hpending] at hwrite
    exact h.replaced i handle txnId pageId write hhandle hknown hwrite
  · intro pageId hknown hpage
    rw [hcache] at hpage
    refine ⟨hpage,fun txnId hmine => ?_⟩
    have hsettled := (h.uncached pageId hknown hpage).1
    exact hsettled i txnId ((writes_of_handle hhandle).mpr (hwrites.mp hmine))

/-- An undo puts back what the file holds. -/
theorem ContentKept.undone (h : ContentKept pageCount s) (hhandle : s.handles i=some handle)
    (hundone : Pager.Undone (s.view handle) p txnId)
    (hnone : ∀ txnId, happened≠some (.committed txnId)) :
    ContentKept pageCount (s.after i p waiting happened) := by
  have hwrites : ∀ {other pageId}, p.Writes other pageId ↔
      other≠txnId ∧ (s.view handle).Writes other pageId :=
    Pager.writes_of_erase hundone.txnPageStates
  refine h.after hhandle hundone.files hnone hundone.committedPageCount ?_ ?_ ?_
  · intro pageId page hknown hpage hsettled
    rw [hundone.pageCache] at hpage
    cases hwrite : ((s.view handle).pending txnId)[pageId]? with
    | some write =>
      rw [hwrite] at hpage
      have hbefore := h.replaced i handle txnId pageId write hhandle hknown hwrite
      rw [←hbefore]
      exact hpage
    | none =>
      rw [hwrite] at hpage
      refine h.cached pageId page hknown hpage (settled_before hhandle ?_ hsettled)
      intro other hmine
      refine hwrites.mpr ⟨?_,hmine⟩
      rintro rfl
      obtain ⟨write,hsome⟩ := hmine
      rw [hwrite] at hsome
      cases hsome
  · intro other pageId write hknown hwrite
    rw [Pager.pending_of_erase hundone.txnPageStates] at hwrite
    split at hwrite
    · simp at hwrite
    · exact h.replaced i handle other pageId write hhandle hknown hwrite
  · intro pageId hknown hpage
    rw [hundone.pageCache] at hpage
    have hbefore : s.pageCache[pageId]?=none := by
      cases hwrite : ((s.view handle).pending txnId)[pageId]? with
      | none =>
        rw [hwrite] at hpage
        exact hpage
      | some write =>
        rw [hwrite] at hpage
        have hreplaced := h.replaced i handle txnId pageId write hhandle hknown hwrite
        obtain ⟨page,hfile⟩ := h.inFile pageId hknown
        rw [hfile] at hreplaced
        exact absurd (hreplaced.symm.trans hpage) (by simp)
    refine ⟨hbefore,fun other hmine => ?_⟩
    have hsettled := (h.uncached pageId hknown hbefore).1
    exact hsettled i other ((writes_of_handle hhandle).mpr (hwrites.mp hmine).2)

/-- A write remembers what the file holds, if it is of a known page. -/
theorem ContentKept.putWrite (h : ContentKept pageCount s) (hhandle : s.handles i=some handle)
    {page : P}
    (hsame : Pager.SamePages ((s.view handle).putWrite txnId pageId beforeImage page) p)
    (hbefore : s.Known pageCount pageId → beforeImage=s.files.db[pageId]?)
    (hnone : ∀ txnId, happened≠some (.committed txnId)) :
    ContentKept pageCount (s.after i p waiting happened) := by
  have hwrites : ∀ {other pageId'}, p.Writes other pageId' ↔
      (txnId=other ∧ pageId=pageId') ∨ (s.view handle).Writes other pageId' :=
    hsame.writes.trans Pager.writes_putWrite
  have hcache : ∀ pageId' : PageId, p.pageCache[pageId']?=
      if pageId=pageId' then some page else s.pageCache[pageId']? := by
    intro pageId'
    rw [hsame.pageCache]
    change (s.pageCache.insert pageId page)[pageId']?=_
    rw [Std.ExtTreeMap.getElem?_insert]
    simp only [Std.LawfulEqCmp.compare_eq_iff_eq]
  refine h.after hhandle hsame.files hnone hsame.committedPageCount ?_ ?_ ?_
  · intro pageId' page' hknown hpage hsettled
    have hne : pageId≠pageId' := by
      rintro rfl
      exact hsettled i txnId (after_writes.mpr (Or.inl ⟨rfl,hwrites.mpr (Or.inl ⟨rfl,rfl⟩)⟩))
    rw [hcache,if_neg hne] at hpage
    refine h.cached pageId' page' hknown hpage (settled_before hhandle ?_ hsettled)
    exact fun other hmine => hwrites.mpr (Or.inr hmine)
  · intro other pageId' write hknown hwrite
    rw [hsame.pending,Pager.pending_putWrite] at hwrite
    split at hwrite
    · next hnew =>
      obtain ⟨rfl,rfl⟩ := hnew
      obtain rfl := Option.some.inj hwrite
      exact hbefore hknown
    · exact h.replaced i handle other pageId' write hhandle hknown hwrite
  · intro pageId' hknown hpage
    rw [hcache] at hpage
    split at hpage
    · cases hpage
    · next hne =>
      refine ⟨hpage,fun other hmine => ?_⟩
      rcases hwrites.mp hmine with ⟨-,heq⟩ | hold
      · exact hne heq
      · have hsettled := (h.uncached pageId' hknown hpage).1
        exact hsettled i other ((writes_of_handle hhandle).mpr hold)

/-- A page that is known after a commit was known before, or the commit writes it. -/
theorem known_published (h : Counted s) (hhandle : s.handles i=some handle)
    (hstate : (s.view handle).txnPageStates[txnId]?=some writes)
    (hevent : happened=some (.committed txnId) ∨ happened=none)
    (hknown : (s.after i p waiting happened).Known pageCount pageId)
    (hnot : writes[pageId]?=none) : s.Known pageCount pageId := by
  refine ⟨hknown.1,hknown.2.imp_right fun hmem => ?_⟩
  rcases mem_after_committedPages hmem with hold | ⟨other,hcommitted,hmine⟩
  · exact hold
  · rcases hevent with hevent | hevent
    · rw [hevent] at hcommitted
      obtain rfl := PageEvent.committed.inj (Option.some.inj hcommitted)
      obtain ⟨write,hwrite⟩ := (writes_of_handle hhandle).mp (h.allocated i _ pageId hmine)
      rw [Pager.pending,hstate] at hwrite
      have hwrite : writes[pageId]?=some write := hwrite
      rw [hnot] at hwrite
      cases hwrite
    · rw [hevent] at hcommitted
      cases hcommitted

/-- What a commit does to the pages: its own are in the file and the cache as it wrote them and
nobody else's, and the other known pages are as they were. -/
structure PagesPublished (pageCount : ℕ) (s after : PagerHandles ι P U) (p : Pager P U)
    (writes : PageWrites P) : Prop where
  mine {pageId : PageId} {write : PageWrite P} : pageId≠0 → writes[pageId]?=some write →
    p.files.db[pageId]?=some write.afterImage ∧ p.pageCache[pageId]?=some write.afterImage ∧
      after.Settled pageId
  others {pageId : PageId} : after.Known pageCount pageId → writes[pageId]?=none →
    s.Known pageCount pageId ∧ p.files.db[pageId]?=s.files.db[pageId]? ∧
      p.pageCache[pageId]?=s.pageCache[pageId]?

/-- A commit publishes its pages and leaves the others. -/
theorem ContentKept.pages_published (h : ContentKept pageCount s) (hcounted : Counted s)
    (hone : s.OneWriter) (hhandle : s.handles i=some handle)
    (hstate : (s.view handle).txnPageStates[txnId]?=some writes)
    (hpublished : Pager.Published (s.view handle) p txnId writes)
    (hevent : happened=some (.committed txnId) ∨ happened=none) :
    PagesPublished pageCount s (s.after i p waiting happened) p writes := by
  have hget : ∀ {pageId}, pageId≠0 → ((writes.map fun _ write => write.afterImage).insert 0
      (PageImage.ofMeta ((s.view handle).committedMeta writes.keys)))[pageId]?=
        writes[pageId]?.map PageWrite.afterImage := by
    intro pageId hmeta
    rw [Pager.committed_get,if_neg hmeta]
  constructor
  · intro pageId write hmeta hwrite
    have hentry := hget hmeta
    rw [hwrite,Option.map_some] at hentry
    refine ⟨?_,?_,fun j other hother => ?_⟩
    · rw [hpublished.db]
      exact putPages_getElem?_mem _ (toList_distinct _)
        (Std.ExtTreeMap.mem_toList_iff_getElem?_eq_some.mpr hentry)
    · rw [hpublished.pageCache,hentry]
      rfl
    · have hpending : (s.view handle).pending txnId=writes := by rw [Pager.pending,hstate]; rfl
      have hours : s.Writes i txnId pageId :=
        (writes_of_handle hhandle).mpr ⟨write,by rw [hpending]; exact hwrite⟩
      rcases after_writes.mp hother with ⟨rfl,hsame⟩ | ⟨hji,htheirs⟩
      · obtain ⟨hne,htheirs⟩ := (Pager.writes_of_erase hpublished.txnPageStates).mp hsame
        exact hne (hone j j _ _ pageId ((writes_of_handle hhandle).mpr htheirs) hours).2
      · exact hji (hone j i _ _ pageId htheirs hours).1
  · intro pageId hknown hnot
    have hold := known_published hcounted hhandle hstate hevent hknown hnot
    have hentry := hget hold.1
    rw [hnot,Option.map_none] at hentry
    refine ⟨hold,?_,?_⟩
    · obtain ⟨page,hfile⟩ := h.inFile pageId hold
      obtain ⟨hlength,-⟩ := List.getElem?_eq_some_iff.mp hfile
      rw [hpublished.db]
      refine putPages_getElem?_of_not_mem _ hlength ?_
      rintro ⟨other,value⟩ hmem rfl
      have hsome := Std.ExtTreeMap.mem_toList_iff_getElem?_eq_some.mp hmem
      rw [hentry] at hsome
      cases hsome
    · rw [hpublished.pageCache,hentry]
      rfl

/-- A commit puts its pages into the file and the cache and leaves the others. -/
theorem ContentKept.published (h : ContentKept pageCount s) (hcounted : Counted s)
    (hone : s.OneWriter) (hhandle : s.handles i=some handle)
    (hstate : (s.view handle).txnPageStates[txnId]?=some writes)
    (hpublished : Pager.Published (s.view handle) p txnId writes)
    (hevent : happened=some (.committed txnId) ∨ happened=none)
    (hgrows : s.persistedPageCount ≤ (s.after i p waiting happened).persistedPageCount) :
    ContentKept pageCount (s.after i p waiting happened) := by
  have hpages : PagesPublished pageCount s (s.after i p waiting happened) p writes :=
    h.pages_published hcounted hone hhandle hstate hpublished hevent
  have hpending : (s.view handle).pending txnId=writes := by rw [Pager.pending,hstate]; rfl
  have hwrites : ∀ {other pageId}, p.Writes other pageId ↔
      other≠txnId ∧ (s.view handle).Writes other pageId :=
    Pager.writes_of_erase hpublished.txnPageStates
  have hfiles : (s.after i p waiting happened).files=p.files := after_files
  have hnotMine : ∀ {pageId other}, writes[pageId]?=none →
      (s.view handle).Writes other pageId → p.Writes other pageId := by
    intro pageId other hnot hother
    refine hwrites.mpr ⟨?_,hother⟩
    rintro rfl
    obtain ⟨write,hwrite⟩ := hother
    rw [hpending,hnot] at hwrite
    cases hwrite
  refine ⟨h.below.trans hgrows,?_,?_,?_,?_⟩
  · intro pageId hknown
    rw [hfiles]
    cases hwrite : writes[pageId]? with
    | some write => exact ⟨_,(hpages.mine hknown.1 hwrite).1⟩
    | none =>
      obtain ⟨hold,hfile,-⟩ := hpages.others hknown hwrite
      rw [hfile]
      exact h.inFile pageId hold
  · intro pageId page hknown hpage hsettled
    rw [after_pageCache] at hpage
    rw [hfiles]
    cases hwrite : writes[pageId]? with
    | some write =>
      obtain ⟨hfile,hcache,-⟩ := hpages.mine hknown.1 hwrite
      rw [hcache] at hpage
      rw [hfile,hpage]
    | none =>
      obtain ⟨hold,hfile,hcache⟩ := hpages.others hknown hwrite
      rw [hcache] at hpage
      rw [hfile]
      exact h.cached pageId page hold hpage
        (settled_before hhandle (fun _ => hnotMine hwrite) hsettled)
  · intro j found other pageId write hfound hknown hwrite
    rw [hfiles]
    have hpends : (s.after i p waiting happened).Writes j other pageId := ⟨found,hfound,write,hwrite⟩
    cases hours : writes[pageId]? with
    | some mine => exact absurd hpends ((hpages.mine hknown.1 hours).2.2 j other)
    | none =>
      obtain ⟨hold,hfile,-⟩ := hpages.others hknown hours
      rw [hfile]
      rcases after_handle hfound with ⟨-,rfl⟩ | ⟨-,hother⟩
      · have hwrite : (p.pending other)[pageId]?=some write := hwrite
        rw [Pager.pending_of_erase hpublished.txnPageStates] at hwrite
        split at hwrite
        · simp at hwrite
        · exact h.replaced i handle other pageId write hhandle hold hwrite
      · exact h.replaced j found other pageId write hother hold hwrite
  · intro pageId hknown hpage
    rw [after_pageCache] at hpage
    cases hours : writes[pageId]? with
    | some mine =>
      rw [(hpages.mine hknown.1 hours).2.1] at hpage
      cases hpage
    | none =>
      obtain ⟨hold,-,hcache⟩ := hpages.others hknown hours
      rw [hcache] at hpage
      obtain ⟨hsettled,hcounts⟩ := h.uncached pageId hold hpage
      refine ⟨fun j other hother => ?_,fun j found hfound => ?_⟩
      · rcases after_writes.mp hother with ⟨-,hother⟩ | ⟨-,hother⟩
        · exact hsettled i other ((writes_of_handle hhandle).mpr (hwrites.mp hother).2)
        · exact hsettled j other hother
      · rcases after_handle hfound with ⟨-,rfl⟩ | ⟨-,hother⟩
        · have hmore := Pager.le_committedPageCountAfterCommit (s.view handle) writes.keys
          have hlt := hcounts i handle hhandle
          have hcount := hpublished.committedPageCount
          exact hcount.symm ▸ hlt.trans_le hmore
        · exact hcounts j found hother

/-- A handle that is opened reads the file's page count, which covers the known pages. -/
theorem ContentKept.opened [WalFormat P U] (h : ContentKept pageCount s) (hcounted : Counted s)
    (hclosed : s.handles i=none) {m : MetaPage}
    (hmeta : (readRawPage s.files.db 0).bind PageImage.toMeta=.ok m) :
    ContentKept pageCount (s.put i
      {Pager.opened (m,s.files) s.pageCache [] with txnManager := s.txnManager} none) := by
  set opened := s.put i
    {Pager.opened (m,s.files) s.pageCache [] with txnManager := s.txnManager} none with hopened
  have hhandles : ∀ {j found}, opened.handles j=some found →
      (j=i ∧ found=⟨m,m.pageCount,∅,none⟩) ∨ (j≠i ∧ s.handles j=some found) := by
    intro j found hfound
    have hfound : Function.update s.handles i (some (⟨m,m.pageCount,∅,none⟩ : PagerHandle P)) j=
        some found := hfound
    by_cases hji : j=i
    · subst hji
      rw [Function.update_self] at hfound
      exact Or.inl ⟨rfl,(Option.some.inj hfound).symm⟩
    · rw [Function.update_of_ne hji] at hfound
      exact Or.inr ⟨hji,hfound⟩
  have hempty : ∀ txnId, (s.view (⟨m,m.pageCount,∅,none⟩ : PagerHandle P)).pending txnId=∅ := by
    intro txnId
    unfold Pager.pending view
    simp
  have hwrites : ∀ {j txnId pageId}, opened.Writes j txnId pageId ↔ s.Writes j txnId pageId := by
    intro j txnId pageId
    constructor
    · rintro ⟨found,hfound,write,hwrite⟩
      rcases hhandles hfound with ⟨-,rfl⟩ | ⟨-,hold⟩
      · have hnew : ((s.view (⟨m,m.pageCount,∅,none⟩ : PagerHandle P)).pending txnId)[pageId]?=
            some write := hwrite
        rw [hempty] at hnew
        simp at hnew
      · exact ⟨found,hold,write,hwrite⟩
    · rintro ⟨found,hfound,hwrite⟩
      have hne : j≠i := by
        rintro rfl
        rw [hclosed] at hfound
        cases hfound
      exact ⟨found,(Function.update_of_ne hne _ _).trans hfound,hwrite⟩
  have hlt : ∀ {pageId}, s.Known pageCount pageId → pageId < m.pageCount := by
    intro pageId hknown
    rw [←persistedPageCount_of_meta hmeta]
    rcases hknown.2 with hold | hmem
    · exact hold.trans_le h.below
    · exact hcounted.committed pageId hmem
  refine ⟨h.below,h.inFile,?_,?_,?_⟩
  · intro pageId page hknown hpage hsettled
    exact h.cached pageId page hknown hpage fun j txnId hmine =>
      hsettled j txnId (hwrites.mpr hmine)
  · intro j found txnId pageId write hfound hknown hwrite
    rcases hhandles hfound with ⟨-,rfl⟩ | ⟨-,hold⟩
    · have hnew : ((s.view (⟨m,m.pageCount,∅,none⟩ : PagerHandle P)).pending txnId)[pageId]?=
          some write := hwrite
      rw [hempty] at hnew
      simp at hnew
    · exact h.replaced j found txnId pageId write hold hknown hwrite
  · intro pageId hknown hpage
    obtain ⟨hsettled,hcounts⟩ := h.uncached pageId hknown hpage
    refine ⟨fun j txnId hmine => hsettled j txnId (hwrites.mp hmine),fun j found hfound => ?_⟩
    rcases hhandles hfound with ⟨-,rfl⟩ | ⟨-,hold⟩
    · exact hlt hknown
    · exact hcounts j found hold

/-- Every event keeps the content. -/
theorem ContentKept.step [WalFormat P U] [LawfulFormat P U] {event : HandleEvent ι P}
    (h : ContentKept pageCount s) (hcounted : Counted s) (hdate : event.UpToDate s)
    (hfit : s.CountersFit) (hone : s.OneWriter) (hone' : s'.OneWriter)
    (hdoes : event.Does s s') : ContentKept pageCount s' := by
  have hgrows := (hcounted.step hdate hfit hdoes).2
  cases hdoes with
  | nothing hsame => exact hsame ▸ h
  | opens i found hclosed hfound hopens =>
    obtain ⟨m,hmeta⟩ := hcounted.metaPage
    rw [loadMetaAndRecover_empty hcounted.wal hmeta] at hfound
    obtain rfl := Except.ok.inj hfound
    subst hopens
    exact h.opened hcounted hclosed hmeta
  | steps i handle p waiting committing happened hhandle hstep hafter hcommits hfresh =>
    subst hafter
    cases hstep with
    | keeps hsame =>
      exact h.same hhandle hsame.files hsame.pageCache hsame.pending hsame.committedPageCount
        (by simp)
    | begins txnId hnew hsame =>
      refine h.same hhandle hsame.files hsame.pageCache (fun other => ?_)
        hsame.committedPageCount (by simp)
      rw [hsame.pending,Pager.pending_of_insert rfl]
      split
      · next heq =>
        subst heq
        rw [Pager.pending,Std.ExtTreeMap.getElem?_eq_none hnew]
        rfl
      · rfl
    | writes txnId pageId beforeImage page hreplaced hsame =>
      refine h.putWrite hhandle hsame (fun hknown => ?_) (by simp)
      refine h.firstReplaced hhandle hknown hreplaced fun j other hold => ?_
      have hmine : (s.after i p waiting none).Writes i txnId pageId :=
        after_writes.mpr (Or.inl ⟨rfl,hsame.writes.mpr (Pager.writes_putWrite.mpr
          (Or.inl ⟨rfl,rfl⟩))⟩)
      have htheirs : (s.after i p waiting none).Writes j other pageId := by
        refine after_writes.mpr ?_
        by_cases hji : j=i
        · subst hji
          have hold := (writes_of_handle hhandle).mp hold
          exact Or.inl ⟨rfl,hsame.writes.mpr (Pager.writes_putWrite.mpr (Or.inr hold))⟩
        · exact Or.inr ⟨hji,hold⟩
      exact hone' j i other txnId pageId htheirs hmine
    | allocates txnId pageId page hsame =>
      refine h.putWrite hhandle hsame (fun hknown => ?_) (by simp)
      -- a known page is counted by the file, and this one is not
      have hnew := hfresh txnId pageId hdate rfl
      have hlt : pageId < s.persistedPageCount := by
        rcases hknown.2 with hold | hmem
        · exact hold.trans_le h.below
        · exact hcounted.committed pageId hmem
      exact absurd hlt (not_lt.mpr hnew)
    | undoes txnId hundone => exact h.undone hhandle hundone (by simp)
    | commits txnId writes event hstate hpublished hwal hcommitting hevent =>
      exact h.published hcounted hone hhandle hstate hpublished hevent hgrows

end Content

/-! ## Runs -/

section Runs

variable [PageImage P] [DecidableEq ι] [WalFormat P U]

/-- A page of the file stays until somebody with a pending write of it commits. -/
theorem file_kept {event : HandleEvent ι P} {pageId : PageId} {page : P} [LawfulFormat P U]
    (hwal : s.files.wal=[]) (hmeta : ∃ m, (readRawPage s.files.db 0).bind PageImage.toMeta=.ok m)
    (hdoes : event.Does s s') (hpage : pageId≠0) (hfile : s.files.db[pageId]?=some page)
    (hnot : ∀ i txnId, event.Commits i txnId → ¬s.Writes i txnId pageId) :
    s'.files.db[pageId]?=some page := by
  cases hdoes with
  | nothing hsame => exact hsame ▸ hfile
  | opens i found hclosed hfound hopens =>
    obtain ⟨m,hmeta⟩ := hmeta
    rw [loadMetaAndRecover_empty hwal hmeta] at hfound
    obtain rfl := Except.ok.inj hfound
    exact hopens ▸ hfile
  | steps i handle p waiting committing happened hhandle hstep hafter hcommits hfresh =>
    subst hafter
    rw [after_files]
    rcases hstep.files with ⟨hfiles,-⟩ | ⟨txnId,writes,hstate,hpublished,-,hcall,-⟩
    · rw [hfiles]
      exact hfile
    · obtain ⟨hlength,-⟩ := List.getElem?_eq_some_iff.mp hfile
      rw [hpublished.db]
      refine (putPages_getElem?_of_not_mem _ hlength ?_).trans hfile
      rintro ⟨other,value⟩ hmem rfl
      have hget := Std.ExtTreeMap.mem_toList_iff_getElem?_eq_some.mp hmem
      rw [Pager.committed_get,if_neg hpage] at hget
      obtain ⟨write,hwrite,-⟩ := Option.map_eq_some_iff.mp hget
      refine hnot i txnId (hcommits txnId hcall) ⟨handle,hhandle,write,?_⟩
      rw [Pager.pending,hstate]
      exact hwrite

/-- Files with an empty log, before any handle is opened on them; pages in the cache are
those of the file. -/
structure Unopened (s : PagerHandles ι P U) (m : MetaPage) : Prop where
  closed : ∀ i, s.handles i=none
  allocations : s.allocations=[]
  committedPages : s.committedPages=[]
  wal : s.files.wal=[]
  metaPage : (readRawPage s.files.db 0).bind PageImage.toMeta=.ok m
  length : m.pageCount ≤ s.files.db.length
  cached : ∀ pageId page, pageId≠0 → pageId < m.pageCount → s.pageCache[pageId]?=some page →
    s.files.db[pageId]?=some page

variable {m : MetaPage} {events : List (HandleEvent ι P)} {t : PagerHandles ι P U}

omit [DecidableEq ι] [WalFormat P U] in
/-- The counts are right before a handle is opened. -/
theorem Unopened.counted (h : Unopened s m) : Counted s where
  wal := h.wal
  metaPage := ⟨m,h.metaPage⟩
  allocated i txnId pageId hmem := by
    rw [h.allocations] at hmem
    cases hmem
  committed pageId hmem := by
    rw [h.committedPages] at hmem
    cases hmem

omit [DecidableEq ι] [WalFormat P U] in
/-- So is the content. -/
theorem Unopened.contentKept (h : Unopened s m) : ContentKept m.pageCount s := by
  have hlt : ∀ {pageId}, s.Known m.pageCount pageId → pageId < m.pageCount := by
    intro pageId hknown
    rcases hknown.2 with hold | hmem
    · exact hold
    · rw [h.committedPages] at hmem
      cases hmem
  have hnobody : ∀ {i handle}, s.handles i≠some handle := by
    intro i handle hhandle
    rw [h.closed] at hhandle
    cases hhandle
  refine ⟨(persistedPageCount_of_meta h.metaPage).ge,fun pageId hknown => ?_,?_,?_,?_⟩
  · exact ⟨_,List.getElem?_eq_getElem ((hlt hknown).trans_le h.length)⟩
  · exact fun pageId page hknown hpage _ => h.cached pageId page hknown.1 (hlt hknown) hpage
  · exact fun i handle txnId pageId write hhandle _ _ => absurd hhandle hnobody
  · exact fun pageId _ _ => ⟨fun i txnId hwrites => hnobody hwrites.choose_spec.1,
      fun i handle hhandle => absurd hhandle hnobody⟩

variable [LawfulFormat P U]

/-- The counts are right all along. -/
theorem counted_throughout (h : Counted s)
    (hdate : Eff.Along HandleEvent.run (fun event t => event.UpToDate t) events s)
    (hfit : Eff.Throughout HandleEvent.run CountersFit events s) :
    Eff.Throughout HandleEvent.run
      (fun t => Counted t ∧ s.persistedPageCount ≤ t.persistedPageCount) events s :=
  hdate.throughout hfit ⟨h,le_refl _⟩ fun event t t' hcounted hevent hfits _ hreturns => by
    have hstep := hcounted.1.step hevent hfits (HandleEvent.does hreturns)
    exact ⟨hstep.1,hcounted.2.trans hstep.2⟩

/-- In every run of several handles on one file in which no handle allocates or commits
with a page count that is behind the file's, and in every state it reaches: a page that was
handed out to a transaction that has committed is not handed out again, the page count of
the file does not decrease from then on, and a page of the file keeps its content until a
transaction with a pending write of it commits. While no page has two writers, that is
what every handle reads of a committed page that nobody is writing. -/
theorem committed_pages_kept (hstart : Unopened s m)
    (hdate : Eff.Along HandleEvent.run (fun event t => event.UpToDate t) events s)
    (hfit : Eff.Throughout HandleEvent.run CountersFit events s)
    {before rest : List (HandleEvent ι P)} (hsplit : events=before++rest)
    (hruns : Eff.runs HandleEvent.run before s=some t) :
    (∀ event later pageId, rest=event::later → event.handedOut t=some pageId →
      pageId∉t.committedPages) ∧
    (∀ mid later u, rest=mid++later → Eff.runs HandleEvent.run mid t=some u →
      t.persistedPageCount ≤ u.persistedPageCount) ∧
    (∀ mid later u pageId page, rest=mid++later → Eff.runs HandleEvent.run mid t=some u →
      pageId≠0 → t.files.db[pageId]?=some page →
      Eff.Along HandleEvent.run
        (fun event v => ∀ i txnId, event.Commits i txnId → ¬v.Writes i txnId pageId) mid t →
      u.files.db[pageId]?=some page) ∧
    (Eff.Throughout HandleEvent.run OneWriter events s →
      ∀ pageId, t.Known m.pageCount pageId → ∃ page, t.files.db[pageId]?=some page ∧
      (t.Settled pageId → ∀ i handle, t.handles i=some handle →
        (t.view handle).readPage pageId=.ok page)) := by
  have hcountedAll := counted_throughout hstart.counted hdate hfit
  have hcounted := (hcountedAll before rest t hsplit hruns).1
  obtain ⟨-,hdateRest⟩ := (hsplit ▸ hdate).split hruns
  have hfitRest := (hsplit ▸ hfit).later hruns
  have hcountedRest := counted_throughout hcounted hdateRest hfitRest
  refine ⟨?_,?_,?_,?_⟩
  · rintro event later pageId rfl hhanded hmem
    have hfresh := HandleEvent.handedOut_fresh hdateRest.1 hhanded
    have hlt := hcounted.committed pageId hmem
    exact absurd hlt (not_lt.mpr hfresh)
  · intro mid later u hparts hmid
    exact (hcountedRest mid later u hparts hmid).2
  · intro mid later u pageId page hparts hmid hpage hfile hnot
    subst hparts
    have hcountedMid : Eff.Throughout HandleEvent.run Counted mid t := fun front back v hfront hv =>
      (hcountedRest front (back++later) v (by rw [hfront,List.append_assoc]) hv).1
    have hkept : Eff.Throughout HandleEvent.run (fun v => v.files.db[pageId]?=some page) mid t :=
      hnot.throughout hcountedMid hfile fun event v v' hfile hnobody hcounted _ hreturns =>
        file_kept hcounted.wal hcounted.metaPage (HandleEvent.does hreturns) hpage hfile hnobody
    exact hkept mid [] u (List.append_nil mid).symm hmid
  · intro hone pageId hknown
    have hcontent : Eff.Throughout HandleEvent.run (ContentKept m.pageCount) events s :=
      hdate.throughout (hcountedAll.and (hfit.and hone)) hstart.contentKept
        fun event v v' hcontent hevent hv hv' hreturns =>
          hcontent.step hv.1.1 hevent hv.2.1 hv.2.2 hv'.2.2 (HandleEvent.does hreturns)
    obtain ⟨page,hfile⟩ := (hcontent before rest t hsplit hruns).inFile pageId hknown
    exact ⟨page,hfile,fun hsettled i handle hhandle =>
      (hcontent before rest t hsplit hruns).read hknown hsettled hhandle hfile⟩

end Runs

/-! ## Two handles on a new store -/

/-- A new store, its meta and catalog page in the file. -/
def newFiles : PagerHandles Bool (StorePage Unit) (WalRecord (StorePage Unit)) where
  files := bootstrapNewFile.2
  pageCache := ∅
  txnManager := .withNextTxnId 1
  handles _ := none
  allocations := []
  committedPages := []

/-- New files are not open. -/
theorem newFiles_unopened : Unopened newFiles bootstrapMeta := by
  refine ⟨fun _ => rfl,rfl,rfl,rfl,rfl,le_refl 2,fun pageId page _ _ hpage => ?_⟩
  simp [newFiles] at hpage

section Tests

variable {P U : Type} [PageImage P]

/-- A test of `CountersFit` for two handles. -/
def countersFitTest (s : PagerHandles Bool P U) : Bool :=
  [false,true].all fun i => match s.handles i with
    | none => true
    | some handle => decide (handle.metaPage.pageSize < 2^32 ∧ handle.metaPage.pageCount < 2^32 ∧
        handle.metaPage.catalogPageId < 2^32 ∧ handle.metaPage.nextTxnId < 2^64) &&
        decide ((s.view handle).effectivePageCount handle.committedPageCount < 2^32)

omit [PageImage P] in
/-- Counters that pass the test fit. -/
theorem countersFit_of_test {s : PagerHandles Bool P U} (h : s.countersFitTest) :
    s.CountersFit := by
  have hmem : ∀ i : Bool, i∈[false,true] := by decide
  have hhandle : ∀ i handle, s.handles i=some handle → handle.metaPage.InRange ∧
      (s.view handle).effectivePageCount handle.committedPageCount < 2^32 := by
    intro i handle hhandle
    have htest := List.all_eq_true.mp h i (hmem i)
    rw [hhandle] at htest
    simp only [Bool.and_eq_true,decide_eq_true_eq] at htest
    obtain ⟨⟨hsize,hcount,hcatalog,hnext⟩,hpages⟩ := htest
    exact ⟨⟨hsize,hcount,hcatalog,hnext⟩,hpages⟩
  refine ⟨fun i handle h => (hhandle i handle h).1,fun i handle h => ?_,?_⟩
  · have hcounts := Pager.le_effectivePageCount (s.view handle) handle.committedPageCount
    exact hcounts.trans_lt (hhandle i handle h).2
  · rintro i txnId pageId ⟨handle,hfound,hwrites⟩
    have hcounts := Pager.effectivePageCount_le.mp
      (le_refl ((s.view handle).effectivePageCount handle.committedPageCount))
    have hlt := hcounts.2 txnId pageId hwrites
    exact Nat.lt_of_le_of_lt hlt (hhandle i handle hfound).2

/-- A test of `UpToDate`. -/
def upToDateTest {ι : Type} (event : HandleEvent ι P) (s : PagerHandles ι P U) : Bool :=
  match event with
  | .call i (.allocatePageWithKind _ _) => match s.handles i with
    | none => true
    | some handle => decide (s.persistedPageCount ≤ handle.metaPage.pageCount)
  | .call i (.commit _) => match s.handles i with
    | none => true
    | some handle => decide (s.persistedPageCount ≤ handle.committedPageCount)
  | .call _ _ => true
  | .open' _ => true
  | .retry _ => false

/-- An event that passes the test is up to date. -/
theorem upToDate_of_test {ι : Type} {event : HandleEvent ι P} {s : PagerHandles ι P U}
    (h : upToDateTest event s) : event.UpToDate s := by
  cases event with
  | open' i => trivial
  | retry i => cases h
  | call i made =>
    cases made with
    | allocatePageWithKind txnId kind =>
      intro handle hhandle
      unfold upToDateTest at h
      simp only [hhandle,decide_eq_true_eq] at h
      exact h
    | commit txnId =>
      intro handle hhandle
      unfold upToDateTest at h
      simp only [hhandle,decide_eq_true_eq] at h
      exact Or.inl h
    | _ => trivial

end Tests

/-- The second handle is opened after the first one has committed a page. -/
def laterHandleRun : List (HandleEvent Bool (StorePage Unit)) :=
  [.open' false,.call false .begin',.call false (.allocatePageWithKind 1 .leafPage),
    .call false (.commit 1),.open' true,.call true .begin']

/-- The second handle is opened before. -/
def staleHandleRun : List (HandleEvent Bool (StorePage Unit)) :=
  [.open' false,.open' true,.call false .begin',
    .call false (.allocatePageWithKind 1 .leafPage),.call false (.commit 1),.call true .begin']

/-- A handle opened after a commit never hands the committed page out. -/
theorem committed_pages_kept_laterHandle :
    ∃ t, Eff.runs HandleEvent.run laterHandleRun newFiles=some t ∧ t.committedPages=[2] ∧
    ∀ pageId, (HandleEvent.call true (.allocatePageWithKind 2 .leafPage)).handedOut t=
      some pageId → pageId∉t.committedPages := by
  have hdate : Eff.Along HandleEvent.run (fun event t => event.UpToDate t)
      (laterHandleRun++[.call true (.allocatePageWithKind 2 .leafPage)]) newFiles :=
    Eff.Along.of_test (fun event t (h : upToDateTest event t=true) => upToDate_of_test h)
      (by decide +kernel)
  have hfit : Eff.Throughout HandleEvent.run CountersFit
      (laterHandleRun++[.call true (.allocatePageWithKind 2 .leafPage)]) newFiles :=
    Eff.Throughout.of_test (fun _ => countersFit_of_test) (by decide +kernel)
  have hrun : (Eff.runs HandleEvent.run laterHandleRun newFiles).map
      (fun t => t.committedPages)=some [2] := by
    decide +kernel
  obtain ⟨t,hruns,hpages⟩ := Option.map_eq_some_iff.mp hrun
  have hkept := committed_pages_kept newFiles_unopened hdate hfit rfl hruns
  exact ⟨t,hruns,hpages,fun pageId => hkept.1 _ [] pageId rfl⟩

/-- The second handle hands out the page the first one has committed, and its own commit
makes the file a page shorter. -/
theorem stale_handle_reuses_page : ∃ t,
    Eff.runs HandleEvent.run staleHandleRun newFiles=some t ∧ 2∈t.committedPages ∧
    (HandleEvent.call true (.allocatePageWithKind 2 .leafPage)).handedOut t=some 2 ∧
    t.persistedPageCount=3 ∧
    ∃ u, Eff.returns (HandleEvent.call true (.commit 2)).run t=some u ∧
      u.persistedPageCount=2 := by
  have hrun : (Eff.runs HandleEvent.run staleHandleRun newFiles).map (fun t =>
      (t.committedPages,
        (HandleEvent.call true (.allocatePageWithKind 2 .leafPage)).handedOut t,
        t.persistedPageCount,(Eff.returns (HandleEvent.call true (.commit 2)).run t).map
          persistedPageCount))=some ([2],some 2,3,some 2) := by
    decide +kernel
  obtain ⟨t,hruns,hfacts⟩ := Option.map_eq_some_iff.mp hrun
  simp only [Prod.mk.injEq] at hfacts
  obtain ⟨hpages,hhanded,hcount,hcommit⟩ := hfacts
  obtain ⟨u,hcommits,hshorter⟩ := Option.map_eq_some_iff.mp hcommit
  exact ⟨t,hruns,by rw [hpages]; exact List.mem_singleton_self 2,hhanded,hcount,u,hcommits,
    hshorter⟩

end PagerHandles

end RustSql.V2
