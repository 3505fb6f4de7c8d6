import RustSql.V2.CrashSafety

/-!
# The history of a database file

A file is opened, committed to, cut off by a crash and opened again, any number of times and also
during a recovery. What is read at the end are the pages it had at the start with the commits that
returned, in their order, and of the commits that were cut off each as a whole or not at all.
-/

namespace RustSql.V2

/-- A commit: the pages it writes, the meta page `metaPage` among them. -/
structure PageCommit where
  txnId : TransactionId
  pages : List (PageId × BytePage)
  metaPage : MetaPage

/-- The numbers of a commit fit the fields they are written to. -/
structure PageCommit.InRange (commit : PageCommit) : Prop where
  records : ∀ record∈commitRecords commit.txnId commit.pages, record.InRange
  metaPage : commit.metaPage.InRange

/-- What a pager commits for a transaction that has written `writes`. -/
def Pager.pageCommit (p : Pager BytePage UInt8) (txnId : TransactionId)
    (writes : PageWrites BytePage) : PageCommit :=
  ⟨txnId,p.pagesToCommit writes,p.committedMeta writes.keys⟩

/-- A commit in the history of a file, and whether it returned. -/
structure HistoryEntry where
  commit : PageCommit
  returned : Bool

/-- The file after some commits, one after the other. -/
def applied (db : List BytePage) (commits : List PageCommit) : List BytePage :=
  commits.foldl (fun db commit => putPages hole db commit.pages) db

/-- The meta page after some commits. -/
def lastMeta (metaPage : MetaPage) (commits : List PageCommit) : MetaPage :=
  commits.foldl (fun _ commit => commit.metaPage) metaPage

/-- `History start entries running f`: a life of the file `start` with the commits `entries` has
led to `f`, and `running` says whether it is open. Every pager on the open file may commit, with
any other transactions under way; a call to the file system that fails counts as a crash. -/
inductive History (start : StoreFiles) : List HistoryEntry → Bool → StoreFiles → Prop where
  | created : History start [] true start
  /-- A commit that returns. -/
  | committed {entries : List HistoryEntry} {p q : Pager BytePage UInt8} {txnId : TransactionId}
      {writes : PageWrites BytePage} (hrun : History start entries true p.files)
      (hactive : p.txnPageStates[txnId]?=some writes)
      (hrange : (p.pageCommit txnId writes).InRange)
      (hcommit : Pager.commit txnId p=(.ok (),q)) :
      History start (entries++[⟨p.pageCommit txnId writes,true⟩]) true q.files
  /-- A commit that is cut off before its `k`th call to the file system. -/
  | cut {entries : List HistoryEntry} {p : Pager BytePage UInt8} {txnId : TransactionId}
      {writes : PageWrites BytePage} {k : ℕ} {f : StoreFiles}
      (hrun : History start entries true p.files)
      (hactive : p.txnPageStates[txnId]?=some writes)
      (hrange : (p.pageCommit txnId writes).InRange)
      (hcrash : (p.files.onDisk.execAll hole
        ((commitScript UInt8 txnId (p.pagesToCommit writes)).take k)).Crash hole f) :
      History start (entries++[⟨p.pageCommit txnId writes,false⟩]) false f
  /-- A recovery that is cut off. -/
  | interrupted {entries : List HistoryEntry} {running : Bool} {f f' : StoreFiles}
      (hrun : History start entries running f) (hcrash : InterruptedRecovery f f') :
      History start entries false f'
  /-- The file is closed, or its process is gone, and it is opened again. -/
  | opened {entries : List HistoryEntry} {running : Bool} {f f' : StoreFiles}
      {metaPage : MetaPage} (hrun : History start entries running f)
      (hopen : loadMetaAndRecover f=.ok (metaPage,f')) : History start entries true f'

/-- `chosen` has every commit that returned and none that was not made, in their order. -/
def Kept (entries : List HistoryEntry) (chosen : List PageCommit) : Prop :=
  ∃ kept : List HistoryEntry, kept.Sublist entries ∧
    (entries.filter HistoryEntry.returned).Sublist kept ∧
    chosen=kept.map HistoryEntry.commit

/-- One more returned or kept commit. -/
theorem Kept.add {entries : List HistoryEntry} {chosen : List PageCommit}
    (h : Kept entries chosen) (entry : HistoryEntry) :
    Kept (entries++[entry]) (chosen++[entry.commit]) := by
  obtain ⟨kept,hkept,hreturned,rfl⟩ := h
  refine ⟨kept++[entry],hkept.append (List.Sublist.refl _),?_,by simp⟩
  rw [List.filter_append]
  exact hreturned.append List.filter_sublist

/-- A cut commit may be lost. -/
theorem Kept.lose {entries : List HistoryEntry} {chosen : List PageCommit}
    (h : Kept entries chosen) (commit : PageCommit) : Kept (entries++[⟨commit,false⟩]) chosen := by
  obtain ⟨kept,hkept,hreturned,rfl⟩ := h
  refine ⟨kept,hkept.trans (List.sublist_append_left _ _),?_,rfl⟩
  rw [List.filter_append,List.filter_cons_of_neg (by simp),List.filter_nil,List.append_nil]
  exact hreturned

/-- However often its recovery is cut off, the file is recovered to `db`. -/
def Settles (f : StoreFiles) (metaPage : MetaPage) (db : List BytePage) : Prop :=
  ∀ f', Relation.ReflTransGen InterruptedRecovery f f' →
    loadMetaAndRecover f'=.ok (metaPage,⟨db,[]⟩)

section Settles

variable {f : StoreFiles} {metaPage : MetaPage} {db : List BytePage}

/-- An interrupted recovery settles the same way. -/
theorem Settles.interrupted {f' : StoreFiles} (h : Settles f metaPage db)
    (hcrash : InterruptedRecovery f f') : Settles f' metaPage db :=
  fun f'' hrun => h f'' (.head hcrash hrun)

/-- A commit undone leaves the state before it. -/
theorem Undone.settles (h : Undone db f)
    (hmeta : (readRawPage db 0).bind PageImage.toMeta=.ok metaPage) : Settles f metaPage db := by
  intro f' hrun
  have hf' : Undone db f' := by
    induction hrun with
    | refl => exact h
    | tail _ hstep ih => exact ih.interrupted hstep
  exact hf'.recover hmeta

/-- A durable commit leaves its pages. -/
theorem Durable.settles {txnId : TransactionId} {pages : List (PageId × BytePage)}
    (h : Durable db txnId pages f) (hrange : ∀ r∈commitRecords txnId pages, r.InRange)
    (hne : pages≠[])
    (hmeta : (readRawPage (putPages hole db pages) 0).bind PageImage.toMeta=.ok metaPage) :
    Settles f metaPage (putPages hole db pages) := by
  intro f' hrun
  have hf' : Durable db txnId pages f' := by
    induction hrun with
    | refl => exact h
    | tail _ hstep ih => exact ih.interrupted hrange hne hstep
  exact hf'.recover hrange hne hmeta

/-- A committed file settles as it is. -/
theorem Committed.settles (h : Committed f metaPage) : Settles f metaPage f.db :=
  Undone.settles ⟨rfl,by rw [h.wal]; rfl⟩ h.metaPage

end Settles

section Commits

variable {p q : Pager BytePage UInt8} {txnId : TransactionId} {writes : PageWrites BytePage}

/-- A step of a commit that returns does to the files what its call does. -/
theorem Pager.commitStep_files {step : IoStep BytePage UInt8}
    (h : Pager.commitStep step p=(.ok (),q)) : q.files=p.files.exec hole step := by
  obtain ⟨u,r,hio,hrest⟩ := Eff.bind_ok_inv h
  have hr : r.files=p.files.exec hole step := by
    unfold Pager.io at hio
    split at hio
    · cases hio
    · cases hio
      rfl
  cases step <;> cases hrest <;> exact hr

/-- The steps of a commit run on the files. -/
theorem Pager.commitSteps_files {script : List (IoStep BytePage UInt8)}
    (h : Eff.forEach script Pager.commitStep p=(.ok (),q)) :
    q.files=script.foldl (Files.exec hole) p.files := by
  induction script generalizing p with
  | nil =>
    cases h
    rfl
  | cons step script ih =>
    obtain ⟨u,r,hfirst,hrest⟩ := Eff.bind_ok_inv h
    rw [ih hrest,commitStep_files hfirst,List.foldl_cons]

/-- The pages of a commit that returned are in the file, and its log is empty. -/
theorem Pager.committed_files (hactive : p.txnPageStates[txnId]?=some writes)
    (h : Pager.commit txnId p=(.ok (),q)) :
    q.files=⟨putPages hole p.files.db (p.pagesToCommit writes),[]⟩ := by
  unfold Pager.commit at h
  rw [Eff.bind_of_ok (Eff.get_eq p),hactive] at h
  simp only [Eff.bind_of_ok (Eff.modify_eq _ p)] at h
  obtain ⟨u,r,hscript,hrest⟩ := Eff.bind_ok_inv h
  have hfiles : q.files=r.files := by
    rw [Eff.bind_of_ok (Eff.modify_eq _ r)] at hrest
    exact (congrArg (fun result => result.2.files) hrest).symm
  rw [hfiles,commitSteps_files hscript]
  exact exec_applyScript ⟨p.files.db,commitLog txnId (p.pagesToCommit writes)⟩

/-- Cutting off a commit of a committed file leaves one that settles without it or with it. -/
theorem Pager.cut_settles {metaPage : MetaPage} {k : ℕ} {f : StoreFiles}
    (hc : Committed p.files metaPage) (hrange : (p.pageCommit txnId writes).InRange)
    (hcrash : (p.files.onDisk.execAll hole
      ((commitScript UInt8 txnId (p.pagesToCommit writes)).take k)).Crash hole f) :
    Settles f metaPage p.files.db ∨ Settles f (p.committedMeta writes.keys)
      (putPages hole p.files.db (p.pagesToCommit writes)) := by
  have hfiles : p.files=⟨p.files.db,[]⟩ := by rw [← hc.wal]
  rw [hfiles] at hcrash
  rcases commitScript_crash hrange.records hcrash with hf | hf
  · exact .inl (hf.settles hc.metaPage)
  · have hne : p.pagesToCommit writes≠[] := List.ne_nil_of_mem p.pagesToCommit_meta
    exact .inr (hf.settles hrange.records hne (p.committed_meta p.files.db hrange.metaPage))

end Commits

/-- What holds all the time: the file settles to the kept commits, their meta page reads back, and
an open file shows them. -/
structure Shows (start : StoreFiles) (metaPage : MetaPage) (chosen : List PageCommit)
    (running : Bool) (f : StoreFiles) : Prop where
  settles : Settles f (lastMeta metaPage chosen) (applied start.db chosen)
  reads : (readRawPage (applied start.db chosen) 0).bind PageImage.toMeta=
    .ok (lastMeta metaPage chosen)
  shown : running → f=⟨applied start.db chosen,[]⟩

section Histories

variable {start f : StoreFiles} {metaPage : MetaPage} {chosen : List PageCommit}
  {entries : List HistoryEntry}

/-- The pages of one more commit. -/
theorem applied_add (db : List BytePage) (commit : PageCommit) :
    applied db (chosen++[commit])=putPages hole (applied db chosen) commit.pages := by
  rw [applied,List.foldl_append]
  rfl

/-- Its meta page is the last. -/
theorem lastMeta_add (commit : PageCommit) :
    lastMeta metaPage (chosen++[commit])=commit.metaPage := by
  rw [lastMeta,List.foldl_append]
  rfl

/-- An open file is committed. -/
theorem Shows.committed (h : Shows start metaPage chosen true f) :
    Committed f (lastMeta metaPage chosen) := by
  rw [h.shown rfl]
  exact ⟨rfl,h.reads⟩

/-- A running store has what was applied in its file. -/
theorem Shows.db (h : Shows start metaPage chosen true f) : f.db=applied start.db chosen :=
  congrArg Files.db (h.shown rfl)

/-- Once a commit of an open file is in the file or sure to come back, it is one of the kept. -/
theorem Shows.add {p : Pager BytePage UInt8} {txnId : TransactionId}
    {writes : PageWrites BytePage} {running : Bool} (h : Shows start metaPage chosen true p.files)
    (hrange : (p.pageCommit txnId writes).InRange)
    (hsettles : Settles f (p.committedMeta writes.keys)
      (putPages hole p.files.db (p.pagesToCommit writes)))
    (hshown : running → f=⟨putPages hole p.files.db (p.pagesToCommit writes),[]⟩) :
    Shows start metaPage (chosen++[p.pageCommit txnId writes]) running f := by
  have hreads := p.committed_meta p.files.db hrange.metaPage
  rw [h.db] at hsettles hshown hreads
  refine ⟨?_,?_,?_⟩
  · rw [applied_add,lastMeta_add]
    exact hsettles
  · rw [applied_add,lastMeta_add]
    exact hreads
  · rw [applied_add]
    exact hshown

/-- Every history shows the commits that were kept. -/
theorem History.shows (hstart : Committed start metaPage) {running : Bool}
    (h : History start entries running f) :
    ∃ chosen, Kept entries chosen ∧ Shows start metaPage chosen running f := by
  induction h with
  | created =>
    refine ⟨[],⟨[],.refl _,.refl _,rfl⟩,hstart.settles,hstart.metaPage,fun _ => ?_⟩
    rw [applied,List.foldl_nil,← hstart.wal]
  | @committed entries p q txnId writes hrun hactive hrange hcommit ih =>
    obtain ⟨chosen,hkept,hshows⟩ := ih
    have hfiles := Pager.committed_files hactive hcommit
    have hafter := p.committed_meta p.files.db hrange.metaPage
    refine ⟨_,hkept.add ⟨p.pageCommit txnId writes,true⟩,hshows.add hrange ?_ fun _ => hfiles⟩
    rw [hfiles]
    exact Committed.settles ⟨rfl,hafter⟩
  | @cut entries p txnId writes k f hrun hactive hrange hcrash ih =>
    obtain ⟨chosen,hkept,hshows⟩ := ih
    rcases Pager.cut_settles hshows.committed hrange hcrash with hf | hf
    · rw [hshows.db] at hf
      exact ⟨chosen,hkept.lose _,hf,hshows.reads,fun hrunning => by cases hrunning⟩
    · exact ⟨_,hkept.add ⟨p.pageCommit txnId writes,false⟩,
        hshows.add hrange hf fun hrunning => by cases hrunning⟩
  | interrupted hrun hcrash ih =>
    obtain ⟨chosen,hkept,hshows⟩ := ih
    exact ⟨chosen,hkept,hshows.settles.interrupted hcrash,hshows.reads,
      fun hrunning => by cases hrunning⟩
  | opened hrun hopen ih =>
    obtain ⟨chosen,hkept,hshows⟩ := ih
    rw [hshows.settles _ .refl] at hopen
    cases hopen
    exact ⟨chosen,hkept,Committed.settles ⟨rfl,hshows.reads⟩,hshows.reads,fun _ => rfl⟩

/-- Durability over the whole life of a file: whatever has happened to it, opening it succeeds and
shows the pages it had with all commits that returned, in their order, and each of the others as
a whole or not at all. -/
theorem History.recovers (hstart : Committed start metaPage) {running : Bool}
    (h : History start entries running f) :
    ∃ chosen, Kept entries chosen ∧
      loadMetaAndRecover f=.ok (lastMeta metaPage chosen,⟨applied start.db chosen,[]⟩) := by
  obtain ⟨chosen,hkept,hshows⟩ := h.shows hstart
  exact ⟨chosen,hkept,hshows.settles _ .refl⟩

end Histories

/-! ## A commit that returned and one that was cut off -/

/-- A pager that has opened the new database after its first commit, and whose transaction has
written a page. -/
def grownStore : Pager BytePage UInt8 :=
  ((do
    let txnId ← Pager.begin'
    Pager.writePage txnId 2 (PageImage.empty .leafPage) : Eff (Pager BytePage UInt8) Unit)
      (Pager.opened (newStore.committedMeta [1,2],
        ⟨putPages hole newStore.files.db (newStore.pagesToCommit (newStore.pending 1)),[]⟩) ∅ [])).2

/-- The files after the first commit. -/
theorem grownStore_files : grownStore.files=
    ⟨putPages hole newStore.files.db (newStore.pagesToCommit (newStore.pending 1)),[]⟩ := rfl

/-- The second commit writes the meta page and a leaf. -/
theorem grownStore_pages : grownStore.pagesToCommit (grownStore.pending 2)=
    [(0,PageImage.ofMeta (grownStore.committedMeta [2])),(2,PageImage.empty .leafPage)] := rfl

/-- Its numbers fit. -/
theorem grownStore_inRange : (grownStore.pageCommit 2 (grownStore.pending 2)).InRange := by
  refine ⟨?_,by constructor <;> decide⟩
  rw [Pager.pageCommit,grownStore_pages]
  simp only [commitRecords,List.map_cons,List.map_nil,List.cons_append,List.nil_append,
    List.mem_cons,List.not_mem_nil,or_false,forall_eq_or_imp,forall_eq,WalRecord.InRange]
  decide

/-- The files when the second commit has been cut off with its page written, but not the meta
page. -/
def tornGrowth : StoreFiles :=
  ⟨putPages hole grownStore.files.db [(2,PageImage.empty .leafPage)],
    commitLog 2 (grownStore.pagesToCommit (grownStore.pending 2))⟩

/-- The files when the recovery has been cut off as well, behind its first page write. -/
def tornGrowthRecovery : StoreFiles :=
  {tornGrowth with
    db := putPages hole tornGrowth.db [(0,PageImage.ofMeta (grownStore.committedMeta [2]))]}

/-- It is cut within its log. -/
theorem tornGrowth_cut : (grownStore.files.onDisk.execAll hole
    ((commitScript UInt8 2 (grownStore.pagesToCommit (grownStore.pending 2))).take 5)).Crash hole
      tornGrowth := by
  rw [tornGrowth,grownStore_files,grownStore_pages]
  exact commitScript_cut (k := 2) (by decide) (by simp)

/-- And the recovery is interrupted. -/
theorem tornGrowth_interrupted : InterruptedRecovery tornGrowth tornGrowthRecovery := by
  refine ⟨_,1,recoveryScript_commitLog grownStore_inRange.records ?_,?_⟩
  · rw [grownStore_pages]
    exact List.cons_ne_nil _ _
  · rw [grownStore_pages]
    refine ⟨⟨[(0,PageImage.ofMeta (grownStore.committedMeta [2]))],?_,rfl⟩,.inl rfl⟩
    simp [applyScript,Disk.execAll,Disk.exec]

/-- A commit that returned, one that is cut off between its page writes, and its recovery cut off
too. -/
theorem History.recovers_grownStore : ∃ chosen,
    Kept [⟨newStore.pageCommit 1 (newStore.pending 1),true⟩,
      ⟨grownStore.pageCommit 2 (grownStore.pending 2),false⟩] chosen ∧
        loadMetaAndRecover tornGrowthRecovery=
          .ok (lastMeta bootstrapMeta chosen,⟨applied newStore.files.db chosen,[]⟩) := by
  have hfirst : (newStore.pageCommit 1 (newStore.pending 1)).InRange :=
    ⟨newStore_inRange,by constructor <;> decide⟩
  have hknown : newStore.txnManager.get 1=.ok _ := rfl
  obtain ⟨q,hcommit⟩ := Pager.commit_returns newStore_active rfl hknown
  have hq := Pager.committed_files newStore_active hcommit
  have hopen : loadMetaAndRecover q.files=
      .ok (newStore.committedMeta (newStore.pending 1).keys,grownStore.files) := by
    rw [hq]
    exact Undone.recover ⟨rfl,rfl⟩ (newStore.committed_meta newStore.files.db hfirst.metaPage)
  have hrun := (History.committed .created newStore_active hfirst hcommit).opened hopen
  have hcut := hrun.cut rfl grownStore_inRange tornGrowth_cut
  exact History.recovers newStore_committed (hcut.interrupted tornGrowth_interrupted)

end RustSql.V2
