import Mathlib.Logic.Relation
import RustSql.V2.Pager

/-!
# Crashes during a commit

A commit writes its log, syncs it, and only then touches the page file. So the
files a crash leaves are of two kinds: either the page file is untouched and the
log does not hold the whole commit, or the log or the page file holds all of it.
Recovery, finished or cut short by another crash, never leaves its kind, and
each kind has one outcome.
-/

namespace RustSql.V2

/-- `PageImage.hole` of byte pages. -/
abbrev hole : BytePage := PageImage.hole

/-- Files as the V2 store keeps them. -/
abbrev StoreFiles := Files BytePage UInt8

/-- The bytes a commit appends to its log. -/
def commitLog (txnId : TransactionId) (pages : List (PageId × BytePage)) : Bytes :=
  walUnits UInt8 (commitRecords txnId pages)

/-- A recovery that was cut short by a crash. -/
def InterruptedRecovery (f f' : StoreFiles) : Prop :=
  ∃ script k, recoveryScript f.wal=.ok script ∧
    (f.onDisk.execAll hole (script.take k)).Crash hole f'

/-- A committed store: its log is empty and its meta page reads back. -/
structure Committed (f : StoreFiles) (metaPage : MetaPage) : Prop where
  wal : f.wal=[]
  metaPage : (readRawPage f.db 0).bind PageImage.toMeta=.ok metaPage

/-! ## What a log of one commit replays to -/

/-- Frames of one transaction gather in the order they are logged. -/
theorem replayFrom_frames (txnId : TransactionId) (pages : List (PageId × BytePage))
    (rest : List (WalRecord BytePage)) (pending : Pending BytePage)
    (committed : List (WalFrame BytePage)) :
    ∃ pending' : Pending BytePage,
      replayFrom ((pages.map fun page => .frame ⟨txnId,page.1,page.2⟩)++rest) pending committed=
        replayFrom rest pending' committed ∧
      (pending'[txnId]?).getD []=
        (pending[txnId]?).getD []++pages.map fun page => ⟨txnId,page.1,page.2⟩ := by
  induction pages generalizing pending with
  | nil => exact ⟨pending,rfl,(List.append_nil _).symm⟩
  | cons page pages ih =>
    obtain ⟨pending',hrun,hget⟩ := ih (pending.push ⟨txnId,page.1,page.2⟩)
    refine ⟨pending',hrun,?_⟩
    rw [hget]
    simp only [Pending.push,Std.ExtTreeMap.getElem?_insert_self,Option.getD_some,List.map_cons,
      List.append_assoc,List.singleton_append]

/-- A commit mark with the right count releases every gathered frame. -/
theorem Pending.settle_eq {pending : Pending BytePage} {txnId frameCount : ℕ}
    {frames : List (WalFrame BytePage)} (hf : (pending[txnId]?).getD []=frames)
    (hc : frames.length=frameCount) : pending.settle txnId frameCount=frames := by
  unfold Pending.settle
  cases hp : pending[txnId]? with
  | none => rw [hp] at hf; exact hf
  | some waiting =>
    rw [hp] at hf
    obtain rfl : waiting=frames := hf
    simp only [hc,if_true]

/-- The whole log replays to the pages of the commit. -/
theorem replay_commitRecords (txnId : TransactionId) (pages : List (PageId × BytePage)) :
    replay (commitRecords txnId pages)=pages.map fun page => ⟨txnId,page.1,page.2⟩ := by
  obtain ⟨pending,hrun,hget⟩ := replayFrom_frames txnId pages [.commit txnId pages.length] ∅ []
  rw [Std.ExtTreeMap.getElem?_empty,Option.getD_none,List.nil_append] at hget
  have hsettle := Pending.settle_eq hget (List.length_map _)
  unfold replay commitRecords
  rw [hrun]
  simpa only [replayFrom,List.nil_append] using hsettle

/-- Without its last record the log replays to nothing. -/
theorem replay_commitRecords_take (txnId : TransactionId) (pages : List (PageId × BytePage))
    {k : ℕ} (hk : k < (commitRecords txnId pages).length) :
    replay ((commitRecords txnId pages).take k)=[] := by
  have hlen : k ≤ pages.length := by
    simp only [commitRecords,List.length_append,List.length_map,List.length_singleton] at hk
    omega
  have htake : (commitRecords txnId pages).take k=
      ((pages.take k).map fun page => .frame ⟨txnId,page.1,page.2⟩)++[] := by
    unfold commitRecords
    rw [List.take_append_of_le_length (by simpa using hlen),List.map_take,List.append_nil]
  obtain ⟨pending,hrun,-⟩ := replayFrom_frames txnId (pages.take k) [] ∅ []
  unfold replay
  rw [htake,hrun]
  rfl

section Commit

variable {db : List BytePage} {txnId : TransactionId} {pages : List (PageId × BytePage)}

/-- Recovering the whole log of a commit yields its pages. -/
theorem recoverFrames_commitLog (hr : ∀ r∈commitRecords txnId pages, r.InRange) :
    recoverFrames (commitLog txnId pages)=
      .ok (pages.map fun page => ⟨txnId,page.1,page.2⟩) := by
  have h := recoverFrames_log hr
  rw [replay_commitRecords] at h
  exact h

/-- Recovering part of the log of a commit yields nothing. -/
theorem recoverFrames_commitLog_cut (hr : ∀ r∈commitRecords txnId pages, r.InRange)
    {bytes : Bytes} (hp : bytes<+:commitLog txnId pages) (hne : bytes≠commitLog txnId pages) :
    recoverFrames bytes=.ok [] := by
  obtain ⟨k,hk,hrec⟩ := recoverFrames_cut hr hp hne
  rw [hrec,replay_commitRecords_take txnId pages hk]

/-- The page writes of a commit or of a recovery, and what follows them. -/
def applyScript (pages : List (PageId × BytePage)) : List (IoStep BytePage UInt8) :=
  (pages.map fun page => .writePage page.1 page.2)++[.syncDb,.truncateWal,.syncWal]

/-- Without records the log is cut. -/
theorem recoveryScript_empty {wal : Bytes} (h : recoverFrames wal=.ok []) :
    recoveryScript (P := BytePage) wal=.ok [.truncateWal,.syncWal] := by
  unfold recoveryScript
  simp only [WalFormat.recoverFrames,h]
  rfl

/-- A complete commit is applied again. -/
theorem recoveryScript_commitLog (hr : ∀ r∈commitRecords txnId pages, r.InRange)
    (hne : pages≠[]) : recoveryScript (commitLog txnId pages)=.ok (applyScript pages) := by
  unfold recoveryScript applyScript
  simp only [WalFormat.recoverFrames,recoverFrames_commitLog hr]
  cases pages with
  | nil => exact absurd rfl hne
  | cons page rest =>
    simp only [bind,Except.bind,List.map_cons,List.isEmpty_cons,Bool.false_eq_true,if_false,
      List.map_map,List.cons_append,List.append_assoc,List.nil_append]
    rfl

/-! ## The two kinds of files -/

/-- The page file is untouched and the log holds no whole commit. -/
def Undone (db : List BytePage) (f : StoreFiles) : Prop :=
  f.db=db ∧ recoverFrames f.wal=.ok []

/-- The commit survives: in the log, with any of its pages written, or in the
page file. -/
def Durable (db : List BytePage) (txnId : TransactionId) (pages : List (PageId × BytePage))
    (f : StoreFiles) : Prop :=
  (f.wal=commitLog txnId pages ∧ ∃ ws, (∀ w∈ws, w∈pages) ∧ f.db=putPages hole db ws) ∨
    (f.wal=[] ∧ f.db=putPages hole db pages)

variable {ws : List (PageId × BytePage)} {d : Disk BytePage UInt8} {f f' : StoreFiles}

/-- Writing the commit's pages over some of them gives the committed file. -/
theorem putPages_part (h : ∀ w∈ws, w∈pages) :
    putPages hole (putPages hole db ws) pages=putPages hole db pages :=
  putPages_absorb hole db fun v hv => ⟨v,h v hv,rfl⟩

/-- With no page written since the last sync, a crash keeps the page file. -/
theorem crash_db (h : d.Crash hole f) (hw : d.written=[]) : f.db=d.db := by
  obtain ⟨⟨ws,hws,hdb⟩,-⟩ := h
  have hnil : ws=[] := List.eq_nil_iff_forall_not_mem.mpr fun w hm => by
    have hmem := hws w hm
    rw [hw] at hmem
    exact List.not_mem_nil hmem
  rw [hdb,hnil]
  rfl

/-- A crash while the log is emptied leaves the old log or none. -/
theorem emptyLog_crash {k : ℕ} (hw : d.written=[]) (hl : d.walWritten=none)
    (h : (d.execAll hole ([.truncateWal,.syncWal].take k)).Crash hole f) :
    f.db=d.db ∧ (f.wal=d.wal ∨ f.wal=[]) := by
  match k with
  | 0 =>
    refine ⟨crash_db h hw,?_⟩
    rcases h.2 with hwal | ⟨units,hu,-⟩
    · exact .inl hwal
    · exact absurd (hl.symm.trans hu) (by simp)
  | 1 =>
    have hdb := crash_db h (show _=_ from hw)
    refine ⟨hdb,?_⟩
    rcases h.2 with hwal | ⟨units,hu,hp⟩
    · exact .inl hwal
    · obtain rfl : []=units := Option.some.inj hu
      exact .inr (List.prefix_nil.mp hp)
  | k+2 =>
    simp only [List.take_succ_cons,List.take_nil,Disk.execAll,Disk.exec] at h
    have hdb := crash_db h (show _=_ from hw)
    refine ⟨hdb,?_⟩
    rcases h.2 with hwal | ⟨units,hu,-⟩
    · exact .inr hwal
    · exact absurd hu (by simp)

/-- A crash while the pages of a logged commit are applied leaves it durable,
from whatever part of them was written before. -/
theorem applyScript_crash {k : ℕ} (hws : ∀ w∈ws, w∈pages)
    (h : ((⟨putPages hole db ws,[],commitLog txnId pages,none⟩ : Disk BytePage UInt8).execAll
      hole ((applyScript pages).take k)).Crash hole f) : Durable db txnId pages f := by
  unfold applyScript at h
  by_cases hk : k ≤ pages.length
  · -- some pages are written, none of them synced
    rw [List.take_append_of_le_length (by simpa using hk),← List.map_take,
      Disk.execAll_writes] at h
    obtain ⟨⟨vs,hvs,hdb⟩,hwal⟩ := h
    refine .inl ⟨?_,ws++vs,?_,?_⟩
    · rcases hwal with hwal | ⟨units,hu,-⟩
      · exact hwal
      · exact absurd hu (by simp)
    · intro w hw
      rcases List.mem_append.mp hw with hw | hw
      · exact hws w hw
      · exact List.mem_of_mem_take (by simpa using hvs w hw)
    · rw [putPages_append]
      exact hdb
  · -- all pages are written; the sync makes them durable
    obtain ⟨j,rfl⟩ : ∃ j, k=pages.length+j := ⟨k-pages.length,by omega⟩
    have hlen : (pages.map fun page : PageId × BytePage =>
        (IoStep.writePage page.1 page.2 : IoStep BytePage UInt8)).length=pages.length :=
      List.length_map _
    rw [List.take_append,hlen,List.take_of_length_le (by omega),Disk.execAll_append,
      Disk.execAll_writes,show pages.length+j-pages.length=j from by omega] at h
    obtain ⟨i,rfl⟩ : ∃ i, j=i+1 := ⟨j-1,by omega⟩
    rw [List.take_succ_cons,Disk.execAll] at h
    simp only [Disk.exec,List.nil_append] at h
    obtain ⟨hdb,hwal⟩ := emptyLog_crash rfl rfl h
    rw [putPages_part hws] at hdb
    rcases hwal with hwal | hwal
    · exact .inl ⟨hwal,pages,fun w hw => hw,hdb⟩
    · exact .inr ⟨hwal,hdb⟩

/-- Every crash during a commit of a committed store leaves it undone or
durable. -/
theorem commitScript_crash {k : ℕ} (hr : ∀ r∈commitRecords txnId pages, r.InRange)
    (h : (((⟨db,[]⟩ : StoreFiles).onDisk).execAll hole
      ((commitScript UInt8 txnId pages).take k)).Crash hole f) :
    Undone db f ∨ Durable db txnId pages f := by
  have hempty : recoverFrames []=.ok [] := rfl
  have hscript : commitScript UInt8 txnId pages=
      .truncateWal::.appendWal (commitLog txnId pages)::.syncWal::applyScript pages := by
    simp only [commitScript,applyScript,commitLog,List.cons_append,List.nil_append]
  rw [hscript] at h
  match k with
  | 0 =>
    have hdb := crash_db h rfl
    rcases h.2 with hwal | ⟨units,hu,-⟩
    · exact .inl ⟨hdb,hwal ▸ hempty⟩
    · exact absurd hu (by simp [Disk.execAll,Files.onDisk])
  | 1 =>
    have hdb := crash_db h rfl
    rcases h.2 with hwal | ⟨units,hu,hp⟩
    · exact .inl ⟨hdb,hwal ▸ hempty⟩
    · obtain rfl : []=units := Option.some.inj hu
      exact .inl ⟨hdb,(List.prefix_nil.mp hp) ▸ hempty⟩
  | 2 =>
    -- the log is written but not synced: any prefix of it may have reached the disk
    have hdb := crash_db h rfl
    rcases h.2 with hwal | ⟨units,hu,hp⟩
    · exact .inl ⟨hdb,hwal ▸ hempty⟩
    · obtain rfl : commitLog txnId pages=units := Option.some.inj hu
      by_cases hwhole : f.wal=commitLog txnId pages
      · exact .inr (.inl ⟨hwhole,[],by simp,hdb⟩)
      · exact .inl ⟨hdb,recoverFrames_commitLog_cut hr hp hwhole⟩
  | k+3 =>
    simp only [List.take_succ_cons,Disk.execAll,Disk.exec,Files.onDisk,Option.getD_some,
      List.nil_append] at h
    have hnone : ∀ w∈([] : List (PageId × BytePage)), w∈pages := by simp
    exact .inr (applyScript_crash hnone h)

/-- An interrupted recovery keeps undone files undone. -/
theorem Undone.interrupted (hf : Undone db f) (h : InterruptedRecovery f f') : Undone db f' := by
  obtain ⟨script,k,hs,hc⟩ := h
  rw [recoveryScript_empty hf.2] at hs
  obtain rfl := Except.ok.inj hs
  obtain ⟨hdb,hwal⟩ := emptyLog_crash rfl rfl hc
  refine ⟨hdb.trans hf.1,?_⟩
  rcases hwal with hwal | hwal
  · exact hwal ▸ hf.2
  · rw [hwal]
    rfl

/-- An interrupted recovery keeps durable files durable. -/
theorem Durable.interrupted (hr : ∀ r∈commitRecords txnId pages, r.InRange) (hne : pages≠[])
    (hf : Durable db txnId pages f) (h : InterruptedRecovery f f') :
    Durable db txnId pages f' := by
  obtain ⟨script,k,hs,hc⟩ := h
  obtain ⟨fdb,fwal⟩ := f
  rcases hf with ⟨hwal,ws,hws,hdb⟩ | ⟨hwal,hdb⟩
  · simp only at hwal hdb hs
    subst hwal hdb
    rw [recoveryScript_commitLog hr hne] at hs
    obtain rfl := Except.ok.inj hs
    exact applyScript_crash hws hc
  · simp only at hwal hdb hs
    subst hwal hdb
    rw [recoveryScript_empty rfl] at hs
    obtain rfl := Except.ok.inj hs
    obtain ⟨hdb,hwal⟩ := emptyLog_crash rfl rfl hc
    exact .inr ⟨hwal.elim id id,hdb⟩

/-- What recovery makes of undone files. -/
theorem Undone.recover {metaPage : MetaPage} (hf : Undone db f)
    (hm : (readRawPage db 0).bind PageImage.toMeta=.ok metaPage) :
    loadMetaAndRecover f=.ok (metaPage,⟨db,[]⟩) := by
  obtain ⟨rfl,hwal⟩ := hf
  unfold loadMetaAndRecover
  rw [recoveryScript_empty hwal]
  simp only [bind,Except.bind,List.foldl_cons,List.foldl_nil,Files.exec] at hm ⊢
  cases hp : readRawPage f.db 0 with
  | error e => rw [hp] at hm; exact absurd hm (by simp)
  | ok page =>
    rw [hp] at hm
    simp only [hm]

/-- Page writes, one after the other, on the files programs see. -/
theorem exec_writes (f : StoreFiles) (ws : List (PageId × BytePage)) :
    (ws.map fun w => IoStep.writePage w.1 w.2).foldl (Files.exec hole) f=
      {f with db := putPages hole f.db ws} := by
  induction ws generalizing f with
  | nil => rfl
  | cons w ws ih =>
    simp only [List.map_cons,List.foldl_cons]
    rw [ih]
    rfl

/-- Applying the pages of a commit. -/
theorem exec_applyScript (f : StoreFiles) :
    (applyScript pages).foldl (Files.exec hole) f=⟨putPages hole f.db pages,[]⟩ := by
  unfold applyScript
  rw [List.foldl_append,exec_writes]
  rfl

/-- What recovery makes of durable files. -/
theorem Durable.recover {metaPage : MetaPage}
    (hr : ∀ r∈commitRecords txnId pages, r.InRange) (hne : pages≠[])
    (hf : Durable db txnId pages f)
    (hm : (readRawPage (putPages hole db pages) 0).bind PageImage.toMeta=.ok metaPage) :
    loadMetaAndRecover f=.ok (metaPage,⟨putPages hole db pages,[]⟩) := by
  obtain ⟨fdb,fwal⟩ := f
  rcases hf with ⟨hwal,ws,hws,hdb⟩ | ⟨hwal,hdb⟩
  · simp only at hwal hdb
    subst hwal hdb
    unfold loadMetaAndRecover
    rw [recoveryScript_commitLog hr hne]
    simp only [bind,Except.bind]
    rw [exec_applyScript,putPages_part hws]
    cases hp : readRawPage (putPages hole db pages) 0 with
    | error e => rw [hp] at hm; exact absurd hm (by simp [Except.bind])
    | ok page =>
      rw [hp] at hm
      simp only [Except.bind] at hm
      simp only [hm]
  · simp only at hwal hdb
    subst hwal hdb
    exact Undone.recover ⟨rfl,rfl⟩ hm

end Commit

/-! ## The commit of the pager -/

section Pager

variable {p : Pager BytePage UInt8} {txnId : TransactionId} {writes : PageWrites BytePage}

/-- A commit always writes the meta page. -/
theorem Pager.pagesToCommit_meta :
    (0,PageImage.ofMeta (p.committedMeta writes.keys))∈p.pagesToCommit writes := by
  unfold Pager.pagesToCommit
  rw [Std.ExtTreeMap.mem_toList_iff_getElem?_eq_some,Std.ExtTreeMap.getElem?_insert_self]

/-- The meta page a commit writes reads back. -/
theorem MetaPage.toMeta_ofMeta {m : MetaPage} (h : m.InRange) :
    PageImage.toMeta (PageImage.ofMeta m : BytePage)=.ok m :=
  MetaPage.decode_encode h

/-- A commit writes each page once. -/
theorem Pager.pagesToCommit_distinct :
    (p.pagesToCommit writes).Pairwise fun v w => v.1≠w.1 := by
  refine List.Pairwise.imp (fun h he => ?_) Std.ExtTreeMap.distinct_keys_toList
  exact h (compare_eq_iff_eq.mpr he)

/-- The committed page file starts with the meta page of the commit. -/
theorem Pager.committed_meta (db : List BytePage) (h : (p.committedMeta writes.keys).InRange) :
    (readRawPage (putPages hole db (p.pagesToCommit writes)) 0).bind PageImage.toMeta=
      .ok (p.committedMeta writes.keys) := by
  have hread : readRawPage (putPages hole db (p.pagesToCommit writes)) 0=
      .ok (PageImage.ofMeta (p.committedMeta writes.keys)) := by
    unfold readRawPage
    rw [putPages_getElem?_mem hole p.pagesToCommit_distinct p.pagesToCommit_meta]
  rw [hread]
  exact MetaPage.toMeta_ofMeta h

/-- One call of a commit when the file system works. -/
theorem Pager.commitStep_ok (step : IoStep BytePage UInt8) (h : p.ioFaults=[]) :
    ∃ q, Pager.commitStep step p=(.ok (),q) ∧ q.files=p.files.exec hole step ∧
      q.ioFaults=[] ∧ q.txnManager=p.txnManager := by
  unfold Pager.commitStep
  have hio : Pager.io step p=(.ok (),{p with
      files := p.files.exec hole step, ioFaults := p.ioFaults.tail}) := by
    unfold Pager.io
    rw [h]
  rw [Eff.bind_of_ok hio]
  cases step <;> exact ⟨_,rfl,rfl,by rw [h]; rfl,rfl⟩

/-- All calls of a commit when the file system works. -/
theorem Pager.commitSteps_ok (script : List (IoStep BytePage UInt8)) (h : p.ioFaults=[]) :
    ∃ q, Eff.forEach script Pager.commitStep p=(.ok (),q) ∧
      q.files=script.foldl (Files.exec hole) p.files ∧ q.txnManager=p.txnManager := by
  induction script generalizing p with
  | nil => exact ⟨p,rfl,rfl,rfl⟩
  | cons step script ih =>
    obtain ⟨q,hq,hfiles,hfaults,hmanager⟩ := Pager.commitStep_ok step h
    obtain ⟨r,hr,hrest,hsame⟩ := ih hfaults
    refine ⟨r,?_,?_,hsame.trans hmanager⟩
    · change (Pager.commitStep step>>=fun _ => Eff.forEach script Pager.commitStep) p=_
      rw [Eff.bind_of_ok hq,hr]
    · rw [hrest,hfiles]
      rfl

/-- The pager on a file system that works. -/
def Pager.noFaults (p : Pager BytePage UInt8) : Pager BytePage UInt8 := {p with ioFaults := []}

/-- A commit after its calls to the file system: they are all made, and what is left is to release
the transaction's locks. -/
theorem Pager.commit_eq (ht : p.txnPageStates[txnId]?=some writes) (h : p.ioFaults=[]) :
    ∃ r, r.files=⟨putPages hole p.files.db (p.pagesToCommit writes),[]⟩ ∧
      r.txnManager=p.txnManager ∧
      Pager.commit txnId p=Pager.manager (TxnManager.releaseTransactionResources txnId) r := by
  let q : Pager BytePage UInt8 := {p with txnPageStates := p.txnPageStates.erase txnId}
  obtain ⟨r,hr,hfiles,hmanager⟩ := Pager.commitSteps_ok (p := q)
    (commitScript UInt8 txnId (p.pagesToCommit writes)) h
  refine ⟨r.publishPageCount (p.committedPageCountAfterCommit writes.keys),?_,hmanager,?_⟩
  · calc r.files=(commitScript UInt8 txnId (p.pagesToCommit writes)).foldl (Files.exec hole)
            p.files := hfiles
      _=(applyScript (p.pagesToCommit writes)).foldl (Files.exec hole)
            ⟨p.files.db,commitLog txnId (p.pagesToCommit writes)⟩ := rfl
      _=⟨putPages hole p.files.db (p.pagesToCommit writes),[]⟩ := exec_applyScript _
  · unfold Pager.commit
    rw [Eff.bind_of_ok (Eff.get_eq p),ht]
    simp only
    rw [Eff.bind_of_ok (Eff.modify_eq _ p),Eff.bind_of_ok hr,Eff.bind_of_ok (Eff.modify_eq _ r)]

/-- What a finished commit leaves in the files. -/
theorem Pager.commit_files (ht : p.txnPageStates[txnId]?=some writes) (h : p.ioFaults=[]) :
    (Pager.commit txnId p).2.files=
      ⟨putPages hole p.files.db (p.pagesToCommit writes),[]⟩ := by
  obtain ⟨r,hfiles,-,hrun⟩ := Pager.commit_eq ht h
  rw [hrun]
  exact hfiles

/-- A commit of a transaction that the manager knows returns, when the file system works. -/
theorem Pager.commit_returns (ht : p.txnPageStates[txnId]?=some writes) (h : p.ioFaults=[])
    {txn : TxnState BytePage} (hknown : p.txnManager.get txnId=.ok txn) :
    ∃ q, Pager.commit txnId p=(.ok (),q) := by
  obtain ⟨r,-,hmanager,hrun⟩ := Pager.commit_eq ht h
  have hread : Eff.reads (fun m : TxnManager BytePage => m.get txnId) p.txnManager=
      (.ok txn,p.txnManager) := by
    simp only [Eff.reads,hknown]
  rw [hrun,Pager.manager,Eff.zoom,hmanager,TxnManager.releaseTransactionResources,
    Eff.bind_of_ok hread]
  exact ⟨_,rfl⟩

/-- Crash atomicity: wherever a commit of a committed store is cut, whatever
the crash keeps of the unsynced writes, and however often recovery itself is
cut short, recovery yields the store before the commit or the store after it. -/
theorem Pager.commit_crash_atomic {metaPage : MetaPage} (hc : Committed p.files metaPage)
    (ht : p.txnPageStates[txnId]?=some writes)
    (hr : ∀ r∈commitRecords txnId (p.pagesToCommit writes), r.InRange)
    (hm : (p.committedMeta writes.keys).InRange) (k : ℕ) {f f' : StoreFiles}
    (hcrash : (p.files.onDisk.execAll hole
      ((commitScript UInt8 txnId (p.pagesToCommit writes)).take k)).Crash hole f)
    (hrec : Relation.ReflTransGen InterruptedRecovery f f') :
    ∃ result, (result=(metaPage,p.files) ∨ result=(p.committedMeta writes.keys,
        (Pager.commit txnId p.noFaults).2.files)) ∧
      loadMetaAndRecover f=.ok result ∧ loadMetaAndRecover f'=.ok result ∧
      loadMetaAndRecover result.2=.ok result := by
  have hne : p.pagesToCommit writes≠[] := List.ne_nil_of_mem p.pagesToCommit_meta
  have hafter := p.committed_meta p.files.db hm
  have hfiles : p.files=⟨p.files.db,[]⟩ := by rw [← hc.wal]
  rw [Pager.commit_files (p := p.noFaults) ht rfl]
  rw [hfiles] at hcrash
  rcases commitScript_crash hr hcrash with hf | hf
  · have hf' : Undone p.files.db f' := by
      induction hrec with
      | refl => exact hf
      | tail _ hstep ih => exact ih.interrupted hstep
    refine ⟨(metaPage,p.files),.inl rfl,?_,?_,?_⟩
    · exact hfiles ▸ hf.recover hc.metaPage
    · exact hfiles ▸ hf'.recover hc.metaPage
    · rw [hfiles]
      exact Undone.recover ⟨rfl,rfl⟩ hc.metaPage
  · have hf' : Durable p.files.db txnId (p.pagesToCommit writes) f' := by
      induction hrec with
      | refl => exact hf
      | tail _ hstep ih => exact ih.interrupted hr hne hstep
    exact ⟨_,.inr rfl,hf.recover hr hne hafter,hf'.recover hr hne hafter,
      Undone.recover ⟨rfl,rfl⟩ hafter⟩

/-- Cutting off a commit behind its `k`th page write leaves the whole log, and any of the pages
written so far. -/
theorem commitScript_cut {db : List BytePage} {pages ws : List (PageId × BytePage)} {k : ℕ}
    (hk : k ≤ pages.length) (hws : ∀ w∈ws, w∈pages.take k) :
    ((⟨db,[]⟩ : StoreFiles).onDisk.execAll hole
      ((commitScript UInt8 txnId pages).take (3+k))).Crash hole
        ⟨putPages hole db ws,commitLog txnId pages⟩ := by
  have htake : (commitScript UInt8 txnId pages).take (3+k)=
      [.truncateWal,.appendWal (commitLog txnId pages),.syncWal]++
        (pages.take k).map fun page => .writePage page.1 page.2 := by
    rw [commitScript,List.append_assoc,Nat.add_comm,List.map_take]
    simp [List.take_append_of_le_length,hk,commitLog]
  rw [htake,Disk.execAll_append,Disk.execAll_writes]
  exact ⟨⟨ws,hws,rfl⟩,.inl rfl⟩

/-- A new database whose first transaction has written the catalog page and a page of its own. -/
def newStore : Pager BytePage UInt8 :=
  ((do
    let txnId ← Pager.begin'
    Pager.writePage txnId 1 (PageImage.empty .leafPage)
    let _ ← Pager.allocatePageWithKind txnId .internalPage : Eff (Pager BytePage UInt8) Unit)
      (Pager.opened bootstrapNewFile ∅ [])).2

/-- The files of a new store. -/
theorem newStore_files : newStore.files=
    ⟨[PageImage.ofMeta bootstrapMeta,PageImage.empty .catalogPage],[]⟩ := rfl

/-- The commit writes the meta page and two others. -/
theorem newStore_pages : newStore.pagesToCommit (newStore.pending 1)=
    [(0,PageImage.ofMeta (newStore.committedMeta [1,2])),(1,PageImage.empty .leafPage),
      (2,PageImage.empty .internalPage)] := rfl

/-- The transaction is active. -/
theorem newStore_active : newStore.txnPageStates[1]?=some (newStore.pending 1) := rfl

/-- The new store is a committed one. -/
theorem newStore_committed : Committed newStore.files bootstrapMeta := by
  rw [newStore_files]
  refine ⟨rfl,?_⟩
  rw [readRawPage,List.getElem?_cons_zero]
  exact MetaPage.toMeta_ofMeta (by constructor <;> decide)

/-- Its numbers fit. -/
theorem newStore_inRange :
    ∀ r∈commitRecords 1 (newStore.pagesToCommit (newStore.pending 1)), r.InRange := by
  rw [newStore_pages]
  simp only [commitRecords,List.map_cons,List.map_nil,List.cons_append,List.nil_append,
    List.mem_cons,List.not_mem_nil,or_false,forall_eq_or_imp,forall_eq,WalRecord.InRange]
  decide

/-- The files when the commit has been cut off behind its second page write: the disk has the log
and that page, but not the meta page, which was written before it. -/
def tornCommit : StoreFiles :=
  ⟨putPages hole newStore.files.db [(1,PageImage.empty .leafPage)],
    commitLog 1 (newStore.pagesToCommit (newStore.pending 1))⟩

/-- The files when the recovery has been cut off as well, behind its first page write. -/
def tornRecovery : StoreFiles :=
  {tornCommit with
    db := putPages hole tornCommit.db [(0,PageImage.ofMeta (newStore.committedMeta [1,2]))]}

/-- The commit is cut between its pages. -/
theorem newStore_cut : (newStore.files.onDisk.execAll hole
    ((commitScript UInt8 1 (newStore.pagesToCommit (newStore.pending 1))).take 5)).Crash hole
      tornCommit := by
  rw [tornCommit,newStore_files,newStore_pages]
  exact commitScript_cut (k := 2) (by decide) (by simp)

/-- And the recovery is interrupted. -/
theorem tornCommit_interrupted : InterruptedRecovery tornCommit tornRecovery := by
  refine ⟨_,1,recoveryScript_commitLog newStore_inRange (by rw [newStore_pages]; simp),?_⟩
  rw [newStore_pages]
  refine ⟨⟨[(0,PageImage.ofMeta (newStore.committedMeta [1,2]))],?_,rfl⟩,.inl rfl⟩
  simp [applyScript,Disk.execAll,Disk.exec]

/-- A commit that is cut off between its page writes, and its recovery after it. -/
theorem Pager.commit_crash_atomic_newStore :
    ∃ result, (result=(bootstrapMeta,newStore.files) ∨
        result=(newStore.committedMeta (newStore.pending 1).keys,
          (Pager.commit 1 newStore.noFaults).2.files)) ∧
      loadMetaAndRecover tornCommit=.ok result ∧ loadMetaAndRecover tornRecovery=.ok result ∧
      loadMetaAndRecover result.2=.ok result := by
  have hmeta : (newStore.committedMeta (newStore.pending 1).keys).InRange := by
    constructor <;> decide
  exact @Pager.commit_crash_atomic newStore 1 (newStore.pending 1) bootstrapMeta
    newStore_committed newStore_active newStore_inRange hmeta 5 tornCommit tornRecovery newStore_cut
    (.single tornCommit_interrupted)

end Pager

end RustSql.V2
