import RustSql.V2.Catalog
import RustSql.V2.PagerCalls

/-!
# Undoing a transaction's page writes

While a page has one writer at a time, what a transaction's writes replaced is what
the file holds, so putting it back leaves the pages of everybody else alone and makes
the transaction's own pages read as before its first write.
-/

namespace RustSql.V2.Pager

variable {P U : Type} {p p' : Pager P U}

/-- No page has pending writes of two transactions. -/
def OneWriter (p : Pager P U) : Prop :=
  ∀ (txnId other : TransactionId) (pageId : PageId), p.Writes txnId pageId →
    p.Writes other pageId → txnId=other

/-- Nobody has a pending write of the page. -/
def Settled (p : Pager P U) (pageId : PageId) : Prop :=
  ∀ txnId : TransactionId, ¬p.Writes txnId pageId

/-- The page of the file, if it is a committed one. The meta page is left out: every
commit writes it, whoever has a pending write of it. -/
def InFile (p : Pager P U) (pageId : PageId) (page : P) : Prop :=
  pageId < p.committedPageCount ∧ (pageId≠0 → p.files.db[pageId]?=some page)

/-- What the cache and the pending writes have to do with the file. -/
structure CacheSound (p : Pager P U) : Prop where
  ioFaults : p.ioFaults=[]
  committed : 2 ≤ p.committedPageCount
  counts : p.committedPageCount ≤ p.metaPage.pageCount+1
  /-- A cached page that nobody writes is the one of the file. -/
  cached : ∀ (pageId : PageId) (page : P), p.pageCache[pageId]?=some page → p.Settled pageId →
    p.InFile pageId page
  /-- So is a page that a write replaced. -/
  replaced : ∀ (txnId : TransactionId) (pageId : PageId) (write : PageWrite P) (page : P),
    (p.pending txnId)[pageId]?=some write → write.beforeImage=some page → p.InFile pageId page

/-! ## Pending writes after a step -/

theorem pending_of_eq (h : p'.txnPageStates=p.txnPageStates) (txnId : TransactionId) :
    p'.pending txnId=p.pending txnId := by
  rw [pending,pending,h]

theorem pending_of_insert {txnId other : TransactionId} {writes : PageWrites P}
    (h : p'.txnPageStates=p.txnPageStates.insert txnId writes) :
    p'.pending other=if txnId=other then writes else p.pending other := by
  rw [pending,h,Std.ExtTreeMap.getElem?_insert]
  simp only [Std.LawfulEqCmp.compare_eq_iff_eq]
  split
  · rfl
  · rfl

theorem pending_of_erase {txnId other : TransactionId}
    (h : p'.txnPageStates=p.txnPageStates.erase txnId) :
    p'.pending other=if txnId=other then ∅ else p.pending other := by
  rw [pending,h,Std.ExtTreeMap.getElem?_erase]
  simp only [Std.LawfulEqCmp.compare_eq_iff_eq]
  split
  · rfl
  · rfl

variable {pageId : PageId} {beforeImage : Option P} {page : P} {before : Except DbError P}

/-- The writes that are left when a transaction's are gone. -/
theorem writes_of_erase {txnId other : TransactionId}
    (h : p'.txnPageStates=p.txnPageStates.erase txnId) :
    p'.Writes other pageId ↔ other≠txnId ∧ p.Writes other pageId := by
  unfold Writes
  rw [pending_of_erase h]
  by_cases heq : txnId=other
  · subst heq
    simp
  · rw [if_neg heq]
    exact ⟨fun hwrites => ⟨fun hsame => heq hsame.symm,hwrites⟩,fun hwrites => hwrites.2⟩

/-- One more write of a transaction. -/
theorem pending_putWrite (p : Pager P U) (txnId other : TransactionId) (pageId : PageId)
    (beforeImage : Option P) (page : P) (pageId' : PageId) :
    ((p.putWrite txnId pageId beforeImage page).pending other)[pageId']?=
      if txnId=other ∧ pageId=pageId' then some ⟨beforeImage,page⟩
      else (p.pending other)[pageId']? := by
  have hstates : (p.putWrite txnId pageId beforeImage page).txnPageStates=
      p.txnPageStates.insert txnId ((p.pending txnId).insert pageId ⟨beforeImage,page⟩) := rfl
  rw [pending_of_insert hstates]
  by_cases htxn : txnId=other
  · subst htxn
    rw [if_pos rfl,Std.ExtTreeMap.getElem?_insert]
    simp only [Std.LawfulEqCmp.compare_eq_iff_eq,true_and]
  · rw [if_neg htxn,if_neg fun h => htxn h.1]

theorem writes_putWrite {txnId other : TransactionId} {pageId pageId' : PageId} :
    (p.putWrite txnId pageId beforeImage page).Writes other pageId' ↔
      (txnId=other ∧ pageId=pageId') ∨ p.Writes other pageId' := by
  unfold Writes
  simp only [pending_putWrite]
  split
  · next h => exact iff_of_true ⟨_,rfl⟩ (Or.inl h)
  · next h =>
    constructor
    · exact Or.inr
    · rintro (hsame | hwrites)
      · exact absurd hsame h
      · exact hwrites

/-! ## Every step keeps the cache sound -/

/-- A step that leaves pages and pending writes. -/
theorem CacheSound.of_same (h : p.CacheSound) (hpending : ∀ txnId, p'.pending txnId=p.pending txnId)
    (hcache : p'.pageCache=p.pageCache) (hfiles : p'.files=p.files)
    (hcommitted : p'.committedPageCount=p.committedPageCount) (hfaults : p'.ioFaults=p.ioFaults)
    (hcounts : p'.committedPageCount ≤ p'.metaPage.pageCount+1) : p'.CacheSound where
  ioFaults := hfaults.trans h.ioFaults
  committed := hcommitted ▸ h.committed
  counts := hcounts
  cached pageId page hcached hsettled := by
    have hold : p.Settled pageId := fun txnId hwrites => hsettled txnId (by
      unfold Writes
      rw [hpending]
      exact hwrites)
    unfold InFile
    rw [hcommitted,hfiles]
    exact h.cached pageId page (hcache ▸ hcached) hold
  replaced txnId pageId write page hwrite hbefore := by
    rw [hpending] at hwrite
    unfold InFile
    rw [hcommitted,hfiles]
    exact h.replaced txnId pageId write page hwrite hbefore

/-- A write that replaces nothing but a page of the file. -/
theorem CacheSound.putWrite (h : p.CacheSound) {txnId : TransactionId}
    (hbefore : ∀ old, beforeImage=some old → p.InFile pageId old) :
    (p.putWrite txnId pageId beforeImage page).CacheSound where
  ioFaults := h.ioFaults
  committed := h.committed
  counts := h.counts
  cached pageId' page' hcached hsettled := by
    have hother : pageId≠pageId' := by
      rintro rfl
      exact hsettled txnId (writes_putWrite.mpr (Or.inl ⟨rfl,rfl⟩))
    have hold : p.Settled pageId' := fun other hwrites =>
      hsettled other (writes_putWrite.mpr (Or.inr hwrites))
    change (p.pageCache.insert pageId page)[pageId']?=some page' at hcached
    rw [Std.ExtTreeMap.getElem?_insert,if_neg fun heq =>
      hother (Std.LawfulEqCmp.eq_of_compare heq)] at hcached
    exact h.cached pageId' page' hcached hold
  replaced other pageId' write old hwrite hold := by
    rw [pending_putWrite] at hwrite
    split at hwrite
    · next hsame =>
      obtain ⟨-,rfl⟩ := hsame
      obtain rfl := Option.some.inj hwrite
      exact hbefore old hold
    · exact h.replaced other pageId' write old hwrite hold

/-- What the first write of a page replaces is the page of the file. -/
theorem CacheSound.inFile_of_replacedPage (h : p.CacheSound) {txnId : TransactionId} {old : P}
    (hfound : p.replacedPage txnId pageId=.ok (some old))
    (halone : ∀ other, p.Writes other pageId → p.Writes txnId pageId) : p.InFile pageId old := by
  unfold replacedPage at hfound
  cases hwrite : (p.pending txnId)[pageId]? with
  | some write =>
    rw [hwrite] at hfound
    exact h.replaced txnId pageId write old hwrite (Except.ok.inj hfound)
  | none =>
    have hnot : ¬p.Writes txnId pageId := fun ⟨write,hsome⟩ => by
      rw [hwrite] at hsome
      cases hsome
    have hsettled : p.Settled pageId := fun other hwrites => hnot (halone other hwrites)
    rw [hwrite] at hfound
    dsimp only at hfound
    unfold currentBeforeImage at hfound
    cases hcached : p.pageCache[pageId]? with
    | some page =>
      rw [hcached] at hfound
      obtain rfl := Option.some.inj (Except.ok.inj hfound)
      exact h.cached pageId page hcached hsettled
    | none =>
      rw [hcached] at hfound
      dsimp only at hfound
      split at hfound
      · next hcommitted =>
        unfold readRawPage at hfound
        cases hread : p.files.db[pageId]? with
        | none =>
          rw [hread] at hfound
          cases hfound
        | some page =>
          rw [hread] at hfound
          obtain rfl := Option.some.inj (Except.ok.inj hfound)
          exact ⟨hcommitted,fun _ => hread⟩
      · cases Except.ok.inj hfound

theorem CacheSound.undone (h : p.CacheSound) {txnId : TransactionId}
    (hundone : Undone p p' txnId) : p'.CacheSound where
  ioFaults := hundone.ioFaults.trans h.ioFaults
  committed := hundone.committedPageCount ▸ h.committed
  counts := hundone.committedPageCount ▸ hundone.counts
  cached pageId page hcached hsettled := by
    have hfile : p.InFile pageId page := by
      rw [hundone.pageCache] at hcached
      cases hwrite : (p.pending txnId)[pageId]? with
      | some write =>
        rw [hwrite] at hcached
        exact h.replaced txnId pageId write page hwrite hcached
      | none =>
        rw [hwrite] at hcached
        refine h.cached pageId page hcached fun other hwrites => ?_
        by_cases heq : other=txnId
        · subst heq
          obtain ⟨write,hsome⟩ := hwrites
          rw [hwrite] at hsome
          cases hsome
        · exact hsettled other ((writes_of_erase hundone.txnPageStates).mpr ⟨heq,hwrites⟩)
    unfold InFile
    rw [hundone.committedPageCount,hundone.files]
    exact hfile
  replaced other pageId write page hwrite hbefore := by
    rw [pending_of_erase hundone.txnPageStates] at hwrite
    unfold InFile
    rw [hundone.committedPageCount,hundone.files]
    split at hwrite
    · simp at hwrite
    · exact h.replaced other pageId write page hwrite hbefore

section Commit

variable {txnId : TransactionId} {writes : PageWrites P}

/-- A commit's pages are within the new committed count. -/
theorem lt_committedPageCountAfterCommit {pageId : PageId} (h : pageId∈writes.keys) :
    pageId < p.committedPageCountAfterCommit writes.keys :=
  (pageEnd_le.mp (le_refl (p.committedPageCountAfterCommit writes.keys))).2 pageId h

theorem le_committedPageCountAfterCommit (p : Pager P U) (pageIds : List PageId) :
    p.committedPageCount ≤ p.committedPageCountAfterCommit pageIds :=
  (pageEnd_le.mp (le_refl (p.committedPageCountAfterCommit pageIds))).1

/-- What a commit puts in the place of a page. -/
theorem committed_get (metaImage : P) (pageId : PageId) :
    ((writes.map fun _ write => write.afterImage).insert 0 metaImage)[pageId]?=
      if pageId=0 then some metaImage else writes[pageId]?.map PageWrite.afterImage := by
  rw [Std.ExtTreeMap.getElem?_insert,Std.ExtTreeMap.getElem?_map]
  simp only [Std.LawfulEqCmp.compare_eq_iff_eq,eq_comm (a := (0:ℕ))]

variable [PageImage P]

/-- A page of the file stays one when somebody else commits. -/
theorem InFile.published {pageId : PageId} {page : P} (h : p.InFile pageId page)
    (hpublished : Published p p' txnId writes) (hother : writes[pageId]?=none) :
    p'.InFile pageId page := by
  have hcommitted := le_committedPageCountAfterCommit p writes.keys
  refine ⟨?_,fun hmeta => ?_⟩
  · rw [hpublished.committedPageCount]
    exact h.1.trans_le hcommitted
  · have hfile := h.2 hmeta
    obtain ⟨hlength,-⟩ := List.getElem?_eq_some_iff.mp hfile
    have hkept : ∀ edit∈p.pagesToCommit writes, edit.1≠pageId := by
      rintro ⟨other,value⟩ hmem rfl
      have hget := Std.ExtTreeMap.mem_toList_iff_getElem?_eq_some.mp hmem
      rw [committed_get,if_neg hmeta,hother] at hget
      cases hget
    rw [hpublished.db,putPages_getElem?_of_not_mem _ hlength hkept]
    exact hfile

theorem CacheSound.published (h : p.CacheSound) (hone : p.OneWriter)
    (hwrites : p.txnPageStates[txnId]?=some writes) (hpublished : Published p p' txnId writes) :
    p'.CacheSound := by
  have hpending : p.pending txnId=writes := by rw [pending,hwrites]; rfl
  have hcommitted := le_committedPageCountAfterCommit p writes.keys
  have hmore : p.committedPageCount ≤ p'.committedPageCount := by
    rw [hpublished.committedPageCount]
    exact hcommitted
  refine ⟨hpublished.ioFaults,h.committed.trans hmore,?_,?_,?_⟩
  · have hcounts := le_effectivePageCount p' p'.committedPageCount
    rw [hpublished.pageCount]
    exact hcounts.trans (Nat.le_succ _)
  · intro pageId page hcached hsettled
    rw [hpublished.pageCache] at hcached
    cases hnew : ((writes.map fun _ write => write.afterImage).insert 0
        (PageImage.ofMeta (p.committedMeta writes.keys)))[pageId]? with
    | some value =>
      rw [hnew] at hcached
      obtain rfl := Option.some.inj hcached
      refine ⟨?_,fun hmeta => ?_⟩
      · rw [committed_get] at hnew
        split at hnew
        · next hzero =>
          have htwo := h.committed
          subst hzero
          exact lt_of_lt_of_le Nat.zero_lt_two (htwo.trans hmore)
        · obtain ⟨write,hwrite,-⟩ := Option.map_eq_some_iff.mp hnew
          rw [hpublished.committedPageCount]
          refine lt_committedPageCountAfterCommit ?_
          rw [Std.ExtTreeMap.mem_keys]
          exact Std.ExtTreeMap.mem_iff_isSome_getElem?.mpr (by rw [hwrite]; rfl)
      · rw [hpublished.db]
        exact putPages_getElem?_mem _ (toList_distinct _)
          (Std.ExtTreeMap.mem_toList_iff_getElem?_eq_some.mpr hnew)
    | none =>
      rw [hnew] at hcached
      rw [committed_get] at hnew
      split at hnew
      · cases hnew
      · have hnot := Option.map_eq_none_iff.mp hnew
        refine (h.cached pageId page hcached fun other hother => ?_).published hpublished hnot
        by_cases heq : other=txnId
        · subst heq
          obtain ⟨write,hwrite⟩ := hother
          rw [hpending,hnot] at hwrite
          cases hwrite
        · exact hsettled other ((writes_of_erase hpublished.txnPageStates).mpr ⟨heq,hother⟩)
  · intro other pageId write page hwrite hbefore
    rw [pending_of_erase hpublished.txnPageStates] at hwrite
    split at hwrite
    · simp at hwrite
    · next hne =>
      have hold := h.replaced other pageId write page hwrite hbefore
      refine hold.published hpublished ?_
      by_contra hboth
      obtain ⟨mine,hmine⟩ := Option.ne_none_iff_exists'.mp hboth
      exact hne (hone txnId other pageId ⟨mine,by rw [hpending]; exact hmine⟩ ⟨write,hwrite⟩)

end Commit

/-- The cache stays sound over every step between states with one writer a page. -/
theorem CacheSound.step [PageImage P] (h : p.CacheSound) (hone : p.OneWriter)
    (hone' : p'.OneWriter) (hstep : PageStep p p') : p'.CacheSound := by
  cases hstep with
  | locks m hlocks =>
    subst hlocks
    exact h.of_same (fun _ => rfl) rfl rfl rfl rfl h.counts
  | begins txnId m hnew hbegins =>
    have hpending : ∀ other, p'.pending other=p.pending other := by
      intro other
      rw [pending_of_insert (by rw [hbegins])]
      split
      · next heq =>
        subst heq
        rw [pending,Std.ExtTreeMap.getElem?_eq_none hnew]
        rfl
      · rfl
    subst hbegins
    exact h.of_same hpending rfl rfl rfl rfl h.counts
  | writes txnId pageId beforeImage page m hopen hreplaced hwrites =>
    have hput : (p.putWrite txnId pageId beforeImage page).CacheSound := by
      refine h.putWrite fun old hold => ?_
      subst hold
      refine h.inFile_of_replacedPage hreplaced fun other hother => ?_
      have hafter : ∀ {t : TransactionId}, p'.Writes t pageId ↔
          (p.putWrite txnId pageId (some old) page).Writes t pageId := by
        intro t
        rw [hwrites]
        exact Iff.rfl
      have hmine := hafter.mpr (writes_putWrite.mpr (Or.inl ⟨rfl,rfl⟩))
      have hothers := hafter.mpr (writes_putWrite.mpr (Or.inr hother))
      exact hone' txnId other pageId hmine hothers ▸ hother
    subst hwrites
    exact hput.of_same (fun _ => rfl) rfl rfl rfl rfl hput.counts
  | allocates txnId kind m hopen hallocates =>
    have hcounted : (p.setPageCount (p.metaPage.pageCount+1)).CacheSound :=
      h.of_same (fun _ => rfl) rfl rfl rfl rfl (h.counts.trans (Nat.le_succ _))
    have hput : ((p.setPageCount (p.metaPage.pageCount+1)).putWrite txnId p.metaPage.pageCount
        none (PageImage.empty kind)).CacheSound :=
      hcounted.putWrite fun _ hold => by cases hold
    subst hallocates
    exact hput.of_same (fun _ => rfl) rfl rfl rfl rfl hput.counts
  | undoes txnId hundone => exact h.undone hundone
  | commits txnId writes hwrites hpublished => exact h.published hone hwrites hpublished

/-! ## The page before a transaction's first write -/

/-- What stays known of a page from a transaction's first write of it on, by what a
read found before. A write that allocates the page again forgets what it replaced. -/
def Kept (p : Pager P U) (txnId : TransactionId) (pageId : PageId) :
    Except DbError P → Prop
  | .ok page => p.InFile pageId page ∧ ∃ write, (p.pending txnId)[pageId]?=some write ∧
      (write.beforeImage=some page ∨ write.beforeImage=none ∧ pageId≠0)
  | .error _ => ∃ write, (p.pending txnId)[pageId]?=some write ∧ write.beforeImage=none

/-- What is read of a page nobody writes is the page of the file. -/
theorem CacheSound.inFile_of_readPage (h : p.CacheSound)
    (hsettled : p.Settled pageId) (hread : p.readPage pageId=.ok page) :
    p.InFile pageId page := by
  unfold readPage at hread
  cases hcached : p.pageCache[pageId]? with
  | some found =>
    rw [hcached] at hread
    obtain rfl := Except.ok.inj hread
    exact h.cached pageId found hcached hsettled
  | none =>
    rw [hcached] at hread
    dsimp only at hread
    split at hread
    · cases hread
    · next hcommitted =>
      have hfile : p.files.db[pageId]?=some page := by
        unfold readRawPage at hread
        cases hdb : p.files.db[pageId]? with
        | none =>
          rw [hdb] at hread
          cases hread
        | some found =>
          rw [hdb] at hread
          rw [Except.ok.inj hread]
      exact ⟨not_le.mp hcommitted,fun _ => hfile⟩

/-- The first write of a page replaces what a read finds. -/
theorem replacedPage_of_readPage {txnId : TransactionId} (hnot : ¬p.Writes txnId pageId)
    (hreplaced : p.replacedPage txnId pageId=.ok beforeImage) :
    match p.readPage pageId with
    | .ok page => beforeImage=some page
    | .error _ => beforeImage=none := by
  have hnone : (p.pending txnId)[pageId]?=none := by
    by_contra hsome
    exact hnot (Option.ne_none_iff_exists'.mp hsome)
  unfold replacedPage at hreplaced
  rw [hnone] at hreplaced
  dsimp only at hreplaced
  unfold currentBeforeImage at hreplaced
  unfold readPage
  cases hcached : p.pageCache[pageId]? with
  | some found =>
    rw [hcached] at hreplaced
    exact (Except.ok.inj hreplaced).symm
  | none =>
    rw [hcached] at hreplaced
    dsimp only at hreplaced ⊢
    by_cases hcommitted : pageId < p.committedPageCount
    · rw [if_pos hcommitted] at hreplaced
      rw [if_neg (not_le.mpr hcommitted)]
      cases hread : readRawPage p.files.db pageId with
      | error e =>
        rw [hread] at hreplaced
        cases hreplaced
      | ok page =>
        rw [hread] at hreplaced
        exact (Except.ok.inj hreplaced).symm
    · rw [if_neg hcommitted] at hreplaced
      rw [if_pos (not_lt.mp hcommitted)]
      exact (Except.ok.inj hreplaced).symm

/-- Nobody wrote a page that somebody begins to write. -/
theorem settled_of_first {txnId : TransactionId} (hone' : p'.OneWriter)
    (hnot : ¬p.Writes txnId pageId) (hwrote : p'.Writes txnId pageId)
    (hmore : ∀ other, p.Writes other pageId → p'.Writes other pageId) : p.Settled pageId := by
  intro other hother
  have hsame := hone' txnId other pageId hwrote (hmore other hother)
  exact hnot (hsame ▸ hother)

/-- After the first write of a page. -/
theorem kept_of_first [PageImage P] {txnId : TransactionId}
    (h : p.CacheSound) (hone' : p'.OneWriter) (hstep : PageStep p p')
    (hnot : ¬p.Writes txnId pageId) (hwrote : p'.Writes txnId pageId) :
    p'.Kept txnId pageId (p.readPage pageId) := by
  cases hstep with
  | locks m hlocks =>
    subst hlocks
    exact absurd hwrote hnot
  | begins other m hnew hbegins =>
    unfold Writes at hwrote
    rw [pending_of_insert (by rw [hbegins])] at hwrote
    split at hwrote
    · simp at hwrote
    · exact absurd hwrote hnot
  | undoes other hundone =>
    exact absurd ((writes_of_erase hundone.txnPageStates).mp hwrote).2 hnot
  | commits other writes hwrites hpublished =>
    exact absurd ((writes_of_erase hpublished.txnPageStates).mp hwrote).2 hnot
  | writes other pageId' beforeImage page m hopen hreplaced hwrites =>
    subst hwrites
    have hwrote : (p.putWrite other pageId' beforeImage page).Writes txnId pageId := hwrote
    rcases writes_putWrite.mp hwrote with ⟨rfl,rfl⟩ | hbefore
    · have hsettled := settled_of_first hone' hnot hwrote fun t ht =>
        (writes_putWrite.mpr (Or.inr ht) :
          (p.putWrite other pageId' beforeImage page).Writes t pageId')
      have hmatch := replacedPage_of_readPage hnot hreplaced
      have hget := pending_putWrite p other other pageId' beforeImage page pageId'
      rw [if_pos ⟨rfl,rfl⟩] at hget
      cases hread : p.readPage pageId' with
      | ok found =>
        rw [hread] at hmatch
        exact ⟨h.inFile_of_readPage hsettled hread,_,hget,Or.inl hmatch⟩
      | error e =>
        rw [hread] at hmatch
        exact ⟨_,hget,hmatch⟩
    · exact absurd hbefore hnot
  | allocates other kind m hopen hallocates =>
    subst hallocates
    set counted := p.setPageCount (p.metaPage.pageCount+1) with hcounted
    have hwrote : (counted.putWrite other p.metaPage.pageCount none
        (PageImage.empty kind)).Writes txnId pageId := hwrote
    rcases writes_putWrite.mp hwrote with ⟨rfl,rfl⟩ | hbefore
    · have hsettled := settled_of_first hone' hnot hwrote fun t ht =>
        (writes_putWrite.mpr (Or.inr ht) : (counted.putWrite other p.metaPage.pageCount none
          (PageImage.empty kind)).Writes t p.metaPage.pageCount)
      have hget := pending_putWrite counted other other p.metaPage.pageCount none
        (PageImage.empty kind) p.metaPage.pageCount
      rw [if_pos ⟨rfl,rfl⟩] at hget
      have htwo := h.committed
      have hcounts := h.counts
      have hmeta : p.metaPage.pageCount≠0 := by omega
      cases hread : p.readPage p.metaPage.pageCount with
      | ok found => exact ⟨h.inFile_of_readPage hsettled hread,_,hget,Or.inr ⟨rfl,hmeta⟩⟩
      | error e => exact ⟨_,hget,rfl⟩
    · exact absurd hbefore hnot

/-- A step that leaves the transaction's write of the page. -/
theorem Kept.of_same {txnId : TransactionId} (h : p.Kept txnId pageId before)
    (hpending : (p'.pending txnId)[pageId]?=(p.pending txnId)[pageId]?)
    (hfile : ∀ page, p.InFile pageId page → p'.InFile pageId page) :
    p'.Kept txnId pageId before := by
  cases before with
  | ok page =>
    obtain ⟨hold,hwrite⟩ := h
    exact ⟨hfile page hold,by rw [hpending]; exact hwrite⟩
  | error e =>
    unfold Kept
    rw [hpending]
    exact h

/-- Every step of others and of the transaction itself, as long as it is open. -/
theorem Kept.step [PageImage P] {txnId : TransactionId} (hkept : p.Kept txnId pageId before)
    (h : p.CacheSound)
    (hone : p.OneWriter) (hstep : PageStep p p') (hwrites' : p'.Writes txnId pageId) :
    p'.Kept txnId pageId before := by
  cases hstep with
  | locks m hlocks =>
    subst hlocks
    exact hkept.of_same rfl fun _ hfile => hfile
  | begins other m hnew hbegins =>
    refine hkept.of_same ?_ fun page hfile => by rw [hbegins]; exact hfile
    unfold Writes at hwrites'
    rw [pending_of_insert (by rw [hbegins])] at hwrites' ⊢
    split
    · next heq =>
      rw [if_pos heq] at hwrites'
      simp at hwrites'
    · rfl
  | undoes other hundone =>
    obtain ⟨hne,-⟩ := (writes_of_erase hundone.txnPageStates).mp hwrites'
    refine hkept.of_same ?_ fun page hfile => ?_
    · rw [pending_of_erase hundone.txnPageStates,if_neg fun heq => hne heq.symm]
    · unfold InFile
      rw [hundone.committedPageCount,hundone.files]
      exact hfile
  | commits other writes hwrites hpublished =>
    obtain ⟨hne,hmine⟩ := (writes_of_erase hpublished.txnPageStates).mp hwrites'
    refine hkept.of_same ?_ fun page hfile => hfile.published hpublished ?_
    · rw [pending_of_erase hpublished.txnPageStates,if_neg fun heq => hne heq.symm]
    · by_contra hboth
      obtain ⟨write,hwrite⟩ := Option.ne_none_iff_exists'.mp hboth
      have htheirs : p.Writes other pageId := ⟨write,by rw [pending,hwrites]; exact hwrite⟩
      exact hne (hone txnId other pageId hmine htheirs)
  | writes other pageId' beforeImage page m hopen hreplaced hwrites =>
    subst hwrites
    by_cases hsame : other=txnId ∧ pageId'=pageId
    · obtain ⟨rfl,rfl⟩ := hsame
      have hget := pending_putWrite p other other pageId' beforeImage page pageId'
      rw [if_pos ⟨rfl,rfl⟩] at hget
      have hfirst : ∀ write, (p.pending other)[pageId']?=some write →
          write.beforeImage=beforeImage := by
        intro write hwrite
        unfold replacedPage at hreplaced
        rw [hwrite] at hreplaced
        exact Except.ok.inj hreplaced
      cases before with
      | ok page =>
        obtain ⟨hfile,write,hwrite,hbefore⟩ := hkept
        rw [hfirst write hwrite] at hbefore
        exact ⟨hfile,_,hget,hbefore⟩
      | error e =>
        obtain ⟨write,hwrite,hbefore⟩ := hkept
        rw [hfirst write hwrite] at hbefore
        exact ⟨_,hget,hbefore⟩
    · refine hkept.of_same ?_ fun _ hfile => hfile
      exact (pending_putWrite p other txnId pageId' beforeImage page pageId).trans (if_neg hsame)
  | allocates other kind m hopen hallocates =>
    subst hallocates
    set counted := p.setPageCount (p.metaPage.pageCount+1) with hcounted
    have hget := pending_putWrite counted other txnId p.metaPage.pageCount none
      (PageImage.empty kind) pageId
    by_cases hsame : other=txnId ∧ p.metaPage.pageCount=pageId
    · rw [if_pos hsame] at hget
      have htwo := h.committed
      have hcounts := h.counts
      have hmeta : p.metaPage.pageCount≠0 := by omega
      rw [hsame.2] at hmeta
      cases before with
      | ok page => exact ⟨hkept.1,_,hget,Or.inr ⟨rfl,hmeta⟩⟩
      | error e => exact ⟨_,hget,rfl⟩
    · rw [if_neg hsame] at hget
      exact hkept.of_same hget fun _ hfile => hfile

/-! ## The rollback -/

/-- A rollback of an open transaction undoes its writes, and counts the pages that
are left. -/
theorem rollback_undone {txnId : TransactionId} (hopen : txnId∈p.txnPageStates) :
    Undone p (rollback txnId p).2 txnId ∧ (rollback txnId p).2.metaPage.pageCount=
      (rollback txnId p).2.effectivePageCount (rollback txnId p).2.committedPageCount := by
  have hvalid : (Eff.reads fun p : Pager P U => p.validateTransaction txnId) p=(.ok (),p) := by
    have hok : p.validateTransaction txnId=.ok () := if_pos hopen
    unfold Eff.reads
    dsimp only
    rw [hok]
  have hrun : rollback txnId p=
      manager (TxnManager.releaseTransactionResources txnId) (p.undoWrites txnId) := by
    unfold rollback
    rw [Eff.bind_of_ok hvalid,Eff.bind_of_ok (Eff.modify_eq _ p)]
  have hcounts := le_undoWrites_pageCount p txnId
  have hundone := undoWrites_undone p txnId (hcounts.trans (Nat.le_succ _))
  rw [hrun]
  refine ⟨⟨hundone.files,hundone.committedPageCount,hundone.ioFaults,hundone.txnPageStates,
    hundone.pageCache,hundone.counts⟩,?_⟩
  unfold manager Eff.zoom undoWrites
  dsimp only
  rw [foldl_restorePage]
  rfl

/-- After the rollback a page reads as before the transaction's first write. -/
theorem Kept.read_ok {txnId : TransactionId}
    (hkept : p.Kept txnId pageId (.ok page)) (hundone : Undone p p' txnId) :
    p'.readPage pageId=.ok page := by
  obtain ⟨⟨hcommitted,hfile⟩,write,hwrite,hbefore⟩ := hkept
  have hcache := hundone.pageCache pageId
  rw [hwrite] at hcache
  dsimp only [Option.elim] at hcache
  unfold readPage
  rcases hbefore with hsome | ⟨hnone,hmeta⟩
  · rw [hcache,hsome]
  · rw [hcache,hnone]
    dsimp only
    rw [hundone.committedPageCount,if_neg (not_le.mpr hcommitted),hundone.files,readRawPage,
      hfile hmeta]

/-- A page that could not be read then is not in the cache. -/
theorem Kept.read_error {txnId : TransactionId} {e : DbError}
    (hkept : p.Kept txnId pageId (.error e)) (hundone : Undone p p' txnId) :
    p'.pageCache[pageId]?=none := by
  obtain ⟨write,hwrite,hbefore⟩ := hkept
  have hcache := hundone.pageCache pageId
  rw [hwrite] at hcache
  exact hcache.trans hbefore

/-- A page the transaction has not written reads as before. -/
theorem Undone.read {txnId : TransactionId} (hundone : Undone p p' txnId)
    (hnot : ¬p.Writes txnId pageId) : p'.readPage pageId=p.readPage pageId := by
  have hnone : (p.pending txnId)[pageId]?=none := by
    by_contra hsome
    exact hnot (Option.ne_none_iff_exists'.mp hsome)
  have hcache := hundone.pageCache pageId
  rw [hnone] at hcache
  dsimp only [Option.elim] at hcache
  unfold readPage
  rw [hcache,hundone.committedPageCount,hundone.files]

/-- The pages that are counted: the committed ones and those somebody writes. -/
theorem effectivePageCount_le {committedPageCount n : ℕ} :
    p.effectivePageCount committedPageCount ≤ n ↔ committedPageCount ≤ n ∧
      ∀ (txnId : TransactionId) (pageId : PageId), p.Writes txnId pageId → pageId < n := by
  unfold effectivePageCount
  rw [pageEnd_le]
  refine and_congr_right fun _ => ?_
  unfold pendingPageIds
  simp only [List.mem_flatMap,Prod.exists,Std.ExtTreeMap.mem_toList_iff_getElem?_eq_some,
    Std.ExtTreeMap.mem_keys]
  constructor
  · rintro h txnId pageId ⟨write,hwrite⟩
    unfold pending at hwrite
    cases hwrites : p.txnPageStates[txnId]? with
    | none =>
      rw [hwrites] at hwrite
      simp at hwrite
    | some writes =>
      rw [hwrites] at hwrite
      have hmine : writes[pageId]?=some write := hwrite
      exact h pageId ⟨txnId,writes,hwrites,
        Std.ExtTreeMap.mem_iff_isSome_getElem?.mpr (by rw [hmine]; rfl)⟩
  · rintro h pageId ⟨txnId,writes,hwrites,hmem⟩
    obtain ⟨write,hwrite⟩ := Option.isSome_iff_exists.mp
      (Std.ExtTreeMap.mem_iff_isSome_getElem?.mp hmem)
    exact h txnId pageId ⟨write,by rw [pending,hwrites]; exact hwrite⟩

/-! ## Runs -/

/-- A handle just opened, over a cache that agrees with the file. -/
theorem cacheSound_opened {found : MetaPage × Files P U}
    {sharedCache : Std.ExtTreeMap PageId P compare} (hmeta : 2 ≤ found.1.pageCount)
    (hcache : ∀ (pageId : PageId) (page : P), sharedCache[pageId]?=some page →
      pageId < found.1.pageCount ∧ found.2.db[pageId]?=some page) :
    (opened found sharedCache []).CacheSound := by
  have hpending : ∀ txnId, (opened found sharedCache []).pending txnId=∅ := by
    intro txnId
    unfold pending opened
    simp
  refine ⟨rfl,hmeta,Nat.le_succ _,fun pageId page hcached _ => ?_,
    fun txnId pageId write page hwrite _ => ?_⟩
  · obtain ⟨hcommitted,hfile⟩ := hcache pageId page hcached
    exact ⟨hcommitted,fun _ => hfile⟩
  · rw [hpending] at hwrite
    simp at hwrite

variable [PageImage P] [WalFormat P U]

/-- In every run of a pager in which each page has one writer at a time, a rollback makes
every page of the transaction read as before its first write; a page that could not be
read then leaves the cache. The pages others write stay, and the pages that count are
the committed ones and those of the others. -/
theorem rollback_undoes {found : MetaPage × Files P U}
    {sharedCache : Std.ExtTreeMap PageId P compare} {calls : List (PagerCall P)}
    {txnId : TransactionId} (hmeta : 2 ≤ found.1.pageCount)
    (hcache : ∀ (pageId : PageId) (page : P), sharedCache[pageId]?=some page →
      pageId < found.1.pageCount ∧ found.2.db[pageId]?=some page)
    (hone : Eff.Throughout PagerCall.run OneWriter calls (opened found sharedCache []))
    (hruns : Eff.runs PagerCall.run calls (opened found sharedCache [])=some p)
    (hopen : txnId∈p.txnPageStates) :
    (∀ pageId : PageId, p.Writes txnId pageId →
      ∃ (before : List (PagerCall P)) (first : PagerCall P) (after : List (PagerCall P))
        (s s₁ : Pager P U), calls=before++first::after ∧
      Eff.runs PagerCall.run before (opened found sharedCache [])=some s ∧
      Eff.returns first.run s=some s₁ ∧ ¬s.Writes txnId pageId ∧
      Eff.Throughout PagerCall.run (fun q => q.Writes txnId pageId) after s₁ ∧
      (∀ page, s.readPage pageId=.ok page → (rollback txnId p).2.readPage pageId=.ok page) ∧
      (∀ e, s.readPage pageId=.error e → (rollback txnId p).2.pageCache[pageId]?=none)) ∧
    (∀ (other : TransactionId) (pageId : PageId), other≠txnId → p.Writes other pageId →
      (rollback txnId p).2.Writes other pageId ∧
      (rollback txnId p).2.readPage pageId=p.readPage pageId) ∧
    ∀ n : ℕ, (rollback txnId p).2.metaPage.pageCount ≤ n ↔ p.committedPageCount ≤ n ∧
      ∀ (other : TransactionId) (pageId : PageId), other≠txnId → p.Writes other pageId →
        pageId < n := by
  have hstart := cacheSound_opened hmeta hcache
  have hsound : Eff.Throughout PagerCall.run CacheSound calls (opened found sharedCache []) :=
    hone.invariant hstart fun call s s' h hs hs' hreturns =>
      h.step hs hs' (PagerCall.step h.ioFaults hreturns)
  have honeEnd := hone calls [] p (List.append_nil calls).symm hruns
  obtain ⟨hundone,hcount⟩ := rollback_undone hopen
  refine ⟨fun pageId hwrites => ?_,fun other pageId hne hother => ⟨?_,?_⟩,fun n => ?_⟩
  · have hnone : ¬(opened found sharedCache []).Writes txnId pageId := by
      rintro ⟨write,hwrite⟩
      unfold pending opened at hwrite
      simp at hwrite
    obtain ⟨before,first,after,s,s₁,hsplit,hbefore,hfirst,hafter,hnot,hkept⟩ :=
      Eff.last_start (Q := fun q => q.Writes txnId pageId) hnone hruns hwrites
    have hsplit' : calls=(before++[first])++after := by
      rw [hsplit,List.append_assoc,List.singleton_append]
    have hreach : Eff.runs PagerCall.run (before++[first]) (opened found sharedCache [])=some s₁ :=
      Eff.runs_concat_of hbefore hfirst
    have hsoundAfter := (hsplit' ▸ hsound).later hreach
    have honeAfter := (hsplit' ▸ hone).later hreach
    have hs : s.CacheSound := hsound before (first::after) s hsplit hbefore
    have hs₁ : s₁.OneWriter := honeAfter [] after s₁ rfl rfl
    have hkept₁ : s₁.Kept txnId pageId (s.readPage pageId) :=
      kept_of_first hs hs₁ (PagerCall.step hs.ioFaults hfirst) hnot (hkept [] after s₁ rfl rfl)
    have hkeptAfter : Eff.Throughout PagerCall.run
        (fun q => q.Kept txnId pageId (s.readPage pageId)) after s₁ :=
      (hsoundAfter.and (honeAfter.and hkept)).invariant hkept₁
        fun call q q' hq hI hI' hreturns =>
          hq.step hI.1 hI.2.1 (PagerCall.step hI.1.ioFaults hreturns) hI'.2.2
    have hend := hkeptAfter after [] p (List.append_nil after).symm hafter
    refine ⟨before,first,after,s,s₁,hsplit,hbefore,hfirst,hnot,hkept,?_,?_⟩
    · intro page hread
      rw [hread] at hend
      exact hend.read_ok hundone
    · intro e hread
      rw [hread] at hend
      exact hend.read_error hundone
  · exact (writes_of_erase hundone.txnPageStates).mpr ⟨hne,hother⟩
  · exact hundone.read fun hmine => hne (honeEnd other txnId pageId hother hmine)
  · rw [hcount,effectivePageCount_le,hundone.committedPageCount]
    refine and_congr_right fun _ => ?_
    constructor
    · intro h other pageId hne hother
      exact h other pageId ((writes_of_erase hundone.txnPageStates).mpr ⟨hne,hother⟩)
    · intro h other pageId hleft
      obtain ⟨hne,hother⟩ := (writes_of_erase hundone.txnPageStates).mp hleft
      exact h other pageId hne hother

/-! ## Two transactions and their new pages -/

/-- The pager of a new database. -/
def newPager : StorePager Unit := opened bootstrapNewFile ∅ []

theorem oneWriter_of_nodup {p : StorePager Unit} (h : decide p.pendingPageIds.Nodup) :
    p.OneWriter := by
  intro txnId other pageId hmine htheirs
  by_contra hne
  have hnodup := of_decide_eq_true h
  unfold pendingPageIds at hnodup
  rw [List.nodup_flatMap] at hnodup
  have hentry : ∀ {t : TransactionId}, p.Writes t pageId →
      ∃ writes, (t,writes)∈p.txnPageStates.toList ∧ pageId∈writes.keys := by
    rintro t ⟨write,hwrite⟩
    unfold pending at hwrite
    cases hwrites : p.txnPageStates[t]? with
    | none =>
      rw [hwrites] at hwrite
      simp at hwrite
    | some writes =>
      rw [hwrites] at hwrite
      have hmine : writes[pageId]?=some write := hwrite
      refine ⟨writes,Std.ExtTreeMap.mem_toList_iff_getElem?_eq_some.mpr hwrites,?_⟩
      rw [Std.ExtTreeMap.mem_keys]
      exact Std.ExtTreeMap.mem_iff_isSome_getElem?.mpr (by rw [hmine]; rfl)
  obtain ⟨writes,hmem,hpage⟩ := hentry hmine
  obtain ⟨writes',hmem',hpage'⟩ := hentry htheirs
  have hdifferent : (txnId,writes)≠(other,writes') := fun heq => hne (Prod.mk.inj heq).1
  have hsymm : Std.Symm (Function.onFun List.Disjoint
      fun entry : TransactionId × PageWrites (StorePage Unit) => entry.2.keys) :=
    ⟨fun _ _ h => h.symm⟩
  exact hnodup.2.forall hmem hmem' hdifferent hpage hpage'

/-- The first transaction writes the catalog page, the second one adds a page. -/
def twoWritersRun : List (PagerCall (StorePage Unit)) :=
  [.begin',.begin',.writePage 1 1 (.blank .catalogPage),.allocatePageWithKind 2 .leafPage]

/-- Both add a page and the second one commits. -/
def twoAllocationsRun : List (PagerCall (StorePage Unit)) :=
  [.begin',.begin',.allocatePageWithKind 1 .leafPage,.allocatePageWithKind 2 .leafPage,.commit 2]

/-- The page of the other transaction stays when the first one rolls back. -/
theorem rollback_undoes_twoWriters : ∃ p : StorePager Unit,
    Eff.runs PagerCall.run twoWritersRun newPager=some p ∧ p.Writes 1 1 ∧ p.Writes 2 2 ∧
    (rollback 1 p).2.readPage 2=p.readPage 2 ∧
    ∀ n : ℕ, (rollback 1 p).2.metaPage.pageCount ≤ n ↔ p.committedPageCount ≤ n ∧
      ∀ (other : TransactionId) (pageId : PageId), other≠1 → p.Writes other pageId →
        pageId < n := by
  have hone : Eff.Throughout PagerCall.run OneWriter twoWritersRun
      (opened bootstrapNewFile ∅ [] : StorePager Unit) :=
    Eff.Throughout.of_test (fun _ => oneWriter_of_nodup) (by decide +kernel)
  have hrun : (Eff.runs PagerCall.run twoWritersRun newPager).map (fun p =>
      ((p.pending 1)[1]?.isSome,(p.pending 2)[2]?.isSome,decide (1∈p.txnPageStates)))=
      some (true,true,true) := by
    decide +kernel
  obtain ⟨p,hruns,hfacts⟩ := Option.map_eq_some_iff.mp hrun
  simp only [Prod.mk.injEq,decide_eq_true_eq] at hfacts
  obtain ⟨hfirst,hsecond,hopen⟩ := hfacts
  obtain ⟨-,hothers,hcount⟩ := rollback_undoes (by exact le_refl 2) (by simp) hone hruns hopen
  have htwo : p.Writes 2 2 := Option.isSome_iff_exists.mp hsecond
  exact ⟨p,hruns,Option.isSome_iff_exists.mp hfirst,htwo,(hothers 2 2 (by decide) htwo).2,hcount⟩

/-- The page the first transaction had added could not be read before. After the second
one has committed a higher page and the first one is undone, it can be, and the file
has one page more than without it. -/
theorem rollback_leaves_hole :
    (∃ s p : StorePager Unit,
      Eff.runs PagerCall.run [.begin',.begin'] newPager=some s ∧
      Eff.runs PagerCall.run twoAllocationsRun newPager=some p ∧
      Eff.Throughout PagerCall.run OneWriter twoAllocationsRun newPager ∧ p.Writes 1 2 ∧
      (s.readPage 2).isOk=false ∧ ((rollback 1 p).2.readPage 2).isOk=true ∧
      (rollback 1 p).2.metaPage.pageCount=4) ∧
    ∃ q : StorePager Unit, Eff.runs PagerCall.run
        [.begin',.begin',.allocatePageWithKind 2 .leafPage,.commit 2] newPager=some q ∧
      q.metaPage.pageCount=3 := by
  have hone : Eff.Throughout PagerCall.run OneWriter twoAllocationsRun newPager :=
    Eff.Throughout.of_test (fun _ => oneWriter_of_nodup) (by decide +kernel)
  have hbegun : (Eff.runs PagerCall.run [.begin',.begin'] newPager).map (fun s =>
      (s.readPage 2).isOk)=some false := by
    decide +kernel
  have hrun : (Eff.runs PagerCall.run twoAllocationsRun newPager).map (fun p =>
      ((p.pending 1)[2]?.isSome,((rollback 1 p).2.readPage 2).isOk,
        (rollback 1 p).2.metaPage.pageCount))=some (true,true,4) := by
    decide +kernel
  have hwithout : (Eff.runs PagerCall.run
      [.begin',.begin',.allocatePageWithKind 2 .leafPage,.commit 2] newPager).map
        (fun q => q.metaPage.pageCount)=some 3 := by
    decide +kernel
  obtain ⟨s,hs,hread⟩ := Option.map_eq_some_iff.mp hbegun
  obtain ⟨p,hp,hfacts⟩ := Option.map_eq_some_iff.mp hrun
  obtain ⟨q,hq,hcount⟩ := Option.map_eq_some_iff.mp hwithout
  simp only [Prod.mk.injEq] at hfacts
  obtain ⟨hwrites,hreadAgain,hpages⟩ := hfacts
  exact ⟨⟨s,p,hs,hp,hone,Option.isSome_iff_exists.mp hwrites,hread,hreadAgain,hpages⟩,q,hq,
    hcount⟩

end RustSql.V2.Pager
