import RustSql.V2.RowReads

/-!
# Reads against the history of a row

An abstract account runs beside the row: the value the last finished commit
gave it, what each running transaction has made of it, and what was committed
when each transaction took its snapshot. The two stay coupled as long as updates
and deletes replace only versions no commit has closed and the purge removes
only deletions no snapshot hides; every read then returns what the account says.
-/

namespace RustSql.V2

open TxnManager

namespace RowRun

variable {P : Type}

/-- `get_row`, once the row's page is found: a read-committed transaction takes
a new snapshot first. -/
def getRow (txnId : TransactionId) (s : RowRun P) : Option (Option Row × RowRun P) := do
  let txn ← s.caller txnId
  if txn.isolationLevel=.readCommitted then
    let (snapshot,s) ← s.manage (TxnManager.refreshSnapshot txnId)
    some (readRow s.stored txnId snapshot,s)
  else some (readRow s.stored txnId txn.snapshot,s)

/-- The deletions the purge would remove belong to transactions that no
snapshot in use lists as running. -/
def PurgesDead (s : RowRun P) : Prop :=
  ∀ v∈versionsOf s.stored, ∀ d ts, v.deletedByTxn=some d → v.deletedCommitTs=some ts →
    ts ≤ s.manager.purgeHorizon → ∀ r S, s.manager.Holds r S → d∉S.activeTxns

end RowRun

/-- A row with the abstract account of it. -/
structure TracedRow (P : Type) where
  run : RowRun P
  /-- The value the last finished commit gave the row. -/
  committed : Option Row
  /-- What running transactions have made of the row. -/
  written : TransactionId → Option (Option Row)
  /-- What was committed when a transaction took its snapshot. -/
  seen : TransactionId → Option Row

namespace TracedRow

variable {P : Type}

/-- A database just opened, without the row. -/
def start (nextTxnId : ℕ) : TracedRow P :=
  ⟨RowRun.start nextTxnId,none,fun _ => none,fun _ => none⟩

/-- The value a transaction reads with the snapshot it holds. -/
def reads (g : TracedRow P) (txnId : TransactionId) : Option Row := do
  let txn ← g.run.caller txnId
  readRow g.run.stored txnId txn.snapshot

/-- A transaction has made something of the row. -/
def wrote (g : TracedRow P) (run : RowRun P) (txnId : TransactionId) (value : Option Row) :
    TracedRow P :=
  {g with run := run, written := Function.update g.written txnId (some value)}

/-- The account after a call that left `run`. -/
def account (g : TracedRow P) (run : RowRun P) : RowCall → TracedRow P
  | .begin' _ =>
    {g with run := run, seen := Function.update g.seen (max g.run.manager.nextTxnId 1) g.committed}
  | .refresh txnId => {g with run := run, seen := Function.update g.seen txnId g.committed}
  | .insert txnId row => g.wrote run txnId (some row)
  | .update txnId row =>
    match g.reads txnId with
    | some old => if old=row then {g with run := run} else g.wrote run txnId (some row)
    | none => {g with run := run}
  | .delete txnId =>
    match g.reads txnId with
    | some _ => g.wrote run txnId none
    | none => {g with run := run}
  | .commit txnId =>
    {g with
      run := run
      committed := (g.written txnId).getD g.committed
      written := Function.update g.written txnId none}
  | .failedCommit _ _ => {g with run := run}
  | .rollback txnId => {g with run := run, written := Function.update g.written txnId none}
  | .purge =>
    {g with run := run, seen := Function.update g.seen (max g.run.manager.nextTxnId 1) g.committed}
  | .forget _ => {g with run := run}

/-- One call. -/
def call (c : RowCall) (g : TracedRow P) : Option (TracedRow P) :=
  (g.run.call c).map fun run => g.account run c

/-- The calls that keep readers' values: updates and deletes replace only
versions no commit has closed, and the purge removes only dead ones. -/
def Sound (g : TracedRow P) : RowCall → Prop
  | .purge => g.run.PurgesDead
  | c => g.run.CallEditsLatest c

/-- A sound call. -/
def SoundCall (g g' : TracedRow P) : Prop := ∃ c, g.Sound c ∧ g.call c=some g'

/-- A sound call edits the latest version. -/
theorem Sound.latest {g : TracedRow P} {c : RowCall} (h : g.Sound c) : g.run.CallEditsLatest c := by
  cases c with
  | purge => exact trivial
  | _ => exact h

/-! ## The coupling -/

/-- What readers get from a list: with the snapshot they hold, what they have
seen; with a snapshot of this moment, what is committed. -/
structure Shows (g : TracedRow P) (readers : TransactionId → Prop) (versions : List RowVersion) :
    Prop where
  held : ∀ r S, readers r → g.run.manager.Holds r S → readList versions r S=g.seen r
  fresh : ∀ r S, readers r → g.run.manager.Current r S → readList versions r S=g.committed

/-- The newest version carries what its writer made of the row. -/
def WrittenBy (txnId : TransactionId) (value : Option Row) (v : RowVersion) : Prop :=
  match value with
  | some row => v.createdByTxn=txnId ∧ v.row=row ∧ v.deletedByTxn=none
  | none => v.deletedByTxn=some txnId

/-- The row, when there is one, is stored as a version list. -/
def Versioned (stored : Option StoredRow) : Prop :=
  ∀ bytes, stored=some bytes → ∃ rows, bytes=.versioned rows

/-- The run and its account agree. -/
structure Coupled (g : TracedRow P) : Prop where
  between : g.run.Between
  shape : Versioned g.run.stored
  shapeBefore : ∀ T before, g.run.lock=some (T,before) → Versioned before
  locked : ∀ T before, g.run.lock=some (T,before) →
    g.run.manager.Active T ∧ (g.written T).isSome
  wrote : ∀ T value, g.written T=some value → ∃ before v rest, g.run.lock=some (T,before) ∧
    versionsOf g.run.stored=v::rest ∧ WrittenBy T value v
  row : g.Shows (fun r => g.written r=none) (versionsOf g.run.stored)
  before : ∀ T before, g.run.lock=some (T,before) → g.Shows (fun _ => True) (versionsOf before)

section Coupling

variable {g g' : TracedRow P} {T : TransactionId}

variable {s run : RowRun P} {before : Option StoredRow} {r : TransactionId} {v : RowVersion}
    {w ts : ℕ}

/-- The invariant of the row's list. -/
theorem list_inv (h : s.Inv) : ListInv s s.owner (versionsOf s.stored) := by
  cases hb : s.stored with
  | none => exact ⟨by simp [versionsOf],by simp [versionsOf],by simp [versionsOf],
      by simp [versionsOf],.nil⟩
  | some bytes => exact h.row hb

/-- The invariant of the list a rollback would restore. -/
theorem before_inv (h : s.Inv)
    (hl : s.lock=some (T,before)) : ListInv s none (versionsOf before) := by
  cases before with
  | none => exact ⟨by simp [versionsOf],by simp [versionsOf],by simp [versionsOf],
      by simp [versionsOf],.nil⟩
  | some bytes => exact h.before hl

/-- Only the lock's holder has written. -/
theorem Coupled.unwritten (h : g.Coupled)
    (hl : ∀ before, g.run.lock≠some (r,before)) : g.written r=none := by
  cases hw : g.written r with
  | none => rfl
  | some value =>
    obtain ⟨before,v,rest,hlock,-⟩ := h.wrote r value hw
    exact absurd hlock (hl before)

/-- While one transaction holds the lock no other has written. -/
theorem Coupled.others (h : g.Coupled)
    (hl : g.run.lock=some (T,before)) (hr : r≠T) : g.written r=none := by
  refine h.unwritten fun before' hl' => hr ?_
  rw [hl] at hl'
  exact (Prod.mk.inj (Option.some.inj hl')).1.symm

/-- A running transaction with a stamp in the row holds the lock. -/
theorem Coupled.stamper (h : g.Coupled) (hv : v∈versionsOf g.run.stored) (hw : v.Stamped w ts)
    (hact : g.run.manager.Active w) :
    ∃ before, g.run.lock=some (w,before) := by
  rcases ((list_inv h.between.inv).stamp v hv w ts hw).owned hact with ho | hp
  · obtain ⟨⟨T,before⟩,hl,rfl⟩ := Option.map_eq_some_iff.mp ho
    exact ⟨before,hl⟩
  · rw [h.between.quiet] at hp
    exact absurd hp (Finset.notMem_empty w)

/-- No running transaction has a stamp in what a rollback would restore. -/
theorem Coupled.before_stamp (h : g.Coupled)
    (hl : g.run.lock=some (T,before)) (hv : v∈versionsOf before) (hw : v.Stamped w ts) : ¬g.run.manager.Active w := by
  intro hact
  rcases ((before_inv h.between.inv hl).stamp v hv w ts hw).owned hact with ho | hp
  · cases ho
  · rw [h.between.quiet] at hp
    exact Finset.notMem_empty w hp

/-- What a list shows stays the same while time moves on, if the transactions
with stamps in it keep running and new snapshots are accounted for. -/
theorem Shows.move {readers : TransactionId → Prop} {versions : List RowVersion}
    {owner : Option TransactionId} (h : g.Shows readers versions)
    (hinv : ListInv g.run owner versions) (hreg : g.run.manager.Registered)
    (ha : Advances g.run.manager g'.run.manager)
    (hact : ∀ v∈versions, ∀ w ts, v.Stamped w ts → g.run.manager.Active w →
      g'.run.manager.Active w)
    (hseen : ∀ r S, g'.run.manager.Holds r S →
      (g.run.manager.Holds r S ∧ g'.seen r=g.seen r) ∨
        (g.run.manager.Current r S ∧ g'.seen r=g.committed))
    (hc : g'.committed=g.committed) : g'.Shows readers versions where
  held r S hr hS := by
    rcases hseen r S hS with ⟨hold,hs⟩ | ⟨hcur,hs⟩
    · rw [hs,h.held r S hr hold]
    · rw [hs,h.fresh r S hr hcur]
  fresh r S hr hS := by
    have hcur := currentSnapshot_current hreg r
    rw [hc,readList_current hinv ha hact hS hcur,h.fresh r _ hr hcur]

/-- Steps of the manager that leave the row alone. -/
theorem Coupled.move (h : g.Coupled) {seen : TransactionId → Option Row}
    (hinv : run.Inv) (ha : Advances g.run.manager run.manager)
    (hstored : run.stored=g.run.stored) (hlock : run.lock=g.run.lock) (hpub : run.published=∅)
    (hholder : ∀ T before, g.run.lock=some (T,before) → run.manager.Active T)
    (hseen : ∀ r S, run.manager.Holds r S →
      (g.run.manager.Holds r S ∧ seen r=g.seen r) ∨
        (g.run.manager.Current r S ∧ seen r=g.committed)) :
    Coupled {g with run := run, seen := seen} where
  between := ⟨hinv,hpub⟩
  shape := by
    change Versioned run.stored
    rw [hstored]
    exact h.shape
  shapeBefore T before hl := h.shapeBefore T before (hlock.symm.trans hl)
  locked T before hl :=
    have hl' := hlock.symm.trans hl
    ⟨hholder T before hl',(h.locked T before hl').2⟩
  wrote T value hw := by
    obtain ⟨before,v,rest,hl,hlist,hby⟩ := h.wrote T value hw
    refine ⟨before,v,rest,hlock.trans hl,?_,hby⟩
    change versionsOf run.stored=v::rest
    rw [hstored,hlist]
  row := by
    change Shows _ (fun r => g.written r=none) (versionsOf run.stored)
    rw [hstored]
    refine h.row.move (list_inv h.between.inv) h.between.inv.registered ha ?_ hseen rfl
    intro v hv w ts hw hact
    obtain ⟨before,hl⟩ := h.stamper hv hw hact
    exact hholder w before hl
  before T before hl := by
    have hl' := hlock.symm.trans hl
    refine (h.before T before hl').move (before_inv h.between.inv hl') h.between.inv.registered
      ha ?_ hseen rfl
    intro v hv w ts hw hact
    exact absurd hact (h.before_stamp hl' hv hw)

/-! ## Calls that leave the row alone -/

/-- A new transaction sees what is committed. -/
theorem Coupled.begin' (h : g.Coupled) {isolationLevel : IsolationLevel}
    (hs : g.run.step (.begin' isolationLevel)=some run) :
    Coupled {g with
      run := run
      seen := Function.update g.seen (max g.run.manager.nextTxnId 1) g.committed} := by
  have hinv := h.between.inv.step (by trivial) hs
  have hreg := h.between.inv.registered
  simp only [RowRun.step,Option.map_eq_some_iff] at hs
  obtain ⟨⟨T,q⟩,hm,rfl⟩ := hs
  obtain ⟨m,hx,rfl⟩ := RowRun.manage_some hm
  obtain rfl : (TxnManager.begin' isolationLevel g.run.manager).2=m := by rw [hx]
  refine h.move hinv (Advances.begin' hreg isolationLevel) rfl rfl h.between.quiet ?_ ?_
  · intro W before hl
    exact (h.locked W before hl).1.begin' hreg isolationLevel
  · intro r S hS
    rcases hS.begin' hreg isolationLevel with ⟨hne,hold⟩ | ⟨rfl,hcur⟩
    · exact .inl ⟨hold,Function.update_of_ne hne _ _⟩
    · exact .inr ⟨hcur,Function.update_self _ _ _⟩

/-- So does one that refreshes its snapshot. -/
theorem Coupled.refresh (h : g.Coupled) (hs : g.run.step (.refresh T)=some run) :
    Coupled {g with run := run, seen := Function.update g.seen T g.committed} := by
  have hinv := h.between.inv.step (by trivial) hs
  have hreg := h.between.inv.registered
  simp only [RowRun.step,Option.bind_eq_bind,Option.bind_eq_some_iff] at hs
  obtain ⟨txn,-,hs⟩ := hs
  split at hs
  · obtain ⟨⟨S,q⟩,hm,rfl⟩ := Option.map_eq_some_iff.mp hs
    obtain ⟨m,hx,rfl⟩ := RowRun.manage_some hm
    refine h.move hinv (Advances.refreshSnapshot hreg hx) rfl rfl h.between.quiet ?_ ?_
    · intro W before hl
      exact (h.locked W before hl).1.refreshSnapshot hx
    · intro r S hS
      rcases hS.refreshSnapshot hx with ⟨hne,hold⟩ | ⟨rfl,rfl⟩
      · exact .inl ⟨hold,Function.update_of_ne hne _ _⟩
      · exact .inr ⟨currentSnapshot_current hreg r,Function.update_self _ _ _⟩
  · cases hs

/-- A reserved timestamp changes nothing. -/
theorem Coupled.reserve (h : g.Coupled)
    (hs : g.run.step (.reserve T)=some run) : Coupled {g with run := run} := by
  have hinv := h.between.inv.step (by trivial) hs
  have hreg := h.between.inv.registered
  simp only [RowRun.step,Option.bind_eq_bind,Option.bind_eq_some_iff] at hs
  obtain ⟨txn,-,⟨commitTs,q⟩,hm,hs⟩ := hs
  obtain ⟨m,hx,rfl⟩ := RowRun.manage_some hm
  obtain rfl := Option.some.inj hs
  refine h.move hinv (Advances.reserveCommitTs hreg hx) rfl rfl h.between.quiet ?_ ?_
  · intro W before hl
    exact (h.locked W before hl).1.reserveCommitTs hx
  · intro r S hS
    exact .inl ⟨hS.reserveCommitTs hx,rfl⟩

/-- Nor does a purge of finished transactions. -/
theorem Coupled.forget (h : g.Coupled) {purgeHorizon : ℕ}
    (hs : g.run.step (.forget purgeHorizon)=some run) : Coupled {g with run := run} := by
  have hinv := h.between.inv.step (by trivial) hs
  have hreg := h.between.inv.registered
  obtain rfl := Option.some.inj hs
  refine h.move hinv (Advances.purgeFinished hreg purgeHorizon) rfl rfl h.between.quiet ?_ ?_
  · intro W before hl
    exact (h.locked W before hl).1.purgeFinished purgeHorizon
  · intro r S hS
    exact .inl ⟨hS.purgeFinished,rfl⟩

/-- A transaction that does not hold the lock ends. -/
theorem Coupled.end' (h : g.Coupled) (hinv : run.Inv)
    (ha : Advances g.run.manager run.manager) (he : Ends g.run.manager run.manager T)
    (hstored : run.stored=g.run.stored) (hlock : run.lock=g.run.lock) (hpub : run.published=∅)
    (hT : ∀ before, g.run.lock≠some (T,before)) : Coupled {g with run := run} := by
  refine h.move hinv ha hstored hlock hpub ?_ ?_
  · intro W before hl
    refine he.active (h.locked W before hl).1 fun hW => hT before ?_
    rw [hl,hW]
  · intro r S hS
    exact .inl ⟨(he.holds hS).2,rfl⟩

/-! ## Writes -/

/-- A write keeps the lock's owner and what its rollback restores, or takes a
free lock. -/
theorem write_lock (hm : s.mayWrite T) (stored : Option StoredRow) :
    ∃ before, (s.write T stored).lock=some (T,before) ∧
      (s.lock=some (T,before) ∨ (s.lock=none ∧ before=s.stored)) := by
  unfold RowRun.write
  cases hl : s.lock with
  | none => exact ⟨s.stored,rfl,.inr ⟨rfl,rfl⟩⟩
  | some lock =>
    have hT := RowRun.owner_of_mayWrite hm lock.1 (by rw [RowRun.owner,hl]; rfl)
    subst hT
    exact ⟨lock.2,rfl,.inl rfl⟩

/-- A write that nobody but its writer can read. -/
theorem Coupled.write (h : g.Coupled) (hact : g.run.manager.Active T) (hm : g.run.mayWrite T)
    {stored : Option StoredRow} {value : Option Row} (hinv : (g.run.write T stored).Inv)
    (hshape : Versioned stored)
    (hhead : ∃ v rest, versionsOf stored=v::rest ∧ WrittenBy T value v)
    (hreads : ∀ r S, r≠T →
      readList (versionsOf stored) r S=readList (versionsOf g.run.stored) r S) :
    (g.wrote (g.run.write T stored) T value).Coupled := by
  obtain ⟨before,hlock,hfrom⟩ := write_lock hm stored
  have hlocked : ∀ {W b}, (g.run.write T stored).lock=some (W,b) → W=T ∧ b=before := by
    intro W b hl
    rw [hlock] at hl
    obtain ⟨hW,hb⟩ := Prod.mk.inj (Option.some.inj hl)
    exact ⟨hW.symm,hb.symm⟩
  have hold : ∀ r, (g.wrote (g.run.write T stored) T value).written r=none →
      r≠T ∧ g.written r=none := by
    intro r hr
    simp only [TracedRow.wrote] at hr
    by_cases hrT : r=T
    · rw [hrT,Function.update_self] at hr
      cases hr
    · rw [Function.update_of_ne hrT] at hr
      exact ⟨hrT,hr⟩
  refine ⟨⟨hinv,h.between.quiet⟩,hshape,?_,?_,?_,?_,?_⟩
  · intro W b hl
    obtain ⟨-,rfl⟩ := hlocked hl
    rcases hfrom with hsame | ⟨-,rfl⟩
    · exact h.shapeBefore T _ hsame
    · exact h.shape
  · intro W b hl
    obtain ⟨rfl,-⟩ := hlocked hl
    refine ⟨hact,?_⟩
    simp only [TracedRow.wrote,Function.update_self]
    rfl
  · intro W w hw
    simp only [TracedRow.wrote] at hw
    by_cases hW : W=T
    · subst hW
      rw [Function.update_self] at hw
      obtain rfl := Option.some.inj hw
      obtain ⟨v,rest,hlist,hby⟩ := hhead
      exact ⟨before,v,rest,hlock,hlist,hby⟩
    · -- another writer would hold the lock
      rw [Function.update_of_ne hW] at hw
      obtain ⟨b,v,rest,hl,-⟩ := h.wrote W w hw
      exact absurd (RowRun.owner_of_mayWrite hm W (by rw [RowRun.owner,hl]; rfl)) hW
  · constructor
    · intro r S hr hS
      obtain ⟨hne,hnone⟩ := hold r hr
      exact (hreads r S hne).trans (h.row.held r S hnone hS)
    · intro r S hr hS
      obtain ⟨hne,hnone⟩ := hold r hr
      exact (hreads r S hne).trans (h.row.fresh r S hnone hS)
  · intro W b hl
    obtain ⟨-,rfl⟩ := hlocked hl
    rcases hfrom with hsame | ⟨hfree,rfl⟩
    · have hb := h.before T _ hsame
      exact ⟨hb.held,hb.fresh⟩
    · -- with a free lock nobody has written
      have hnone : ∀ r, g.written r=none := fun r => h.unwritten fun b' => by rw [hfree]; simp
      exact ⟨fun r S _ hS => h.row.held r S (hnone r) hS,
        fun r S _ hS => h.row.fresh r S (hnone r) hS⟩

/-- An insert is the transaction's own. -/
theorem Coupled.insert (h : g.Coupled) {row : Row}
    (hs : g.run.step (.insert T row)=some run) : (g.wrote run T (some row)).Coupled := by
  have hinv := h.between.inv.step (by trivial) hs
  simp only [RowRun.step,Option.bind_eq_bind,Option.bind_eq_some_iff] at hs
  obtain ⟨txn,hc,hs⟩ := hs
  split at hs
  · next hnone =>
    rcases RowRun.store_some hs with ⟨he,-⟩ | ⟨hm,rfl⟩
    · rw [hnone] at he
      cases he
    · refine h.write (RowRun.caller_some hc).1.active hm hinv ?_ ?_ ?_
      · intro bytes hb
        exact ⟨_,(Option.some.inj hb).symm⟩
      · exact ⟨.fresh row T,[],rfl,rfl,rfl,rfl⟩
      · intro r S hr
        rw [hnone]
        exact readList_cons_hidden (fresh_hidden hr)
  · cases hs

/-- The version an edit replaces comes first and nobody has deleted it. -/
theorem Coupled.target_open (h : g.Coupled) {txn : TxnState P} {bytes : StoredRow}
    (hb : g.run.stored=some bytes) (hm : g.run.mayWrite T)
    (hf : (decodeVersionedRow bytes).versions.find? (fun v => v.visible T txn.snapshot)=some v)
    (hl : v.deletedCommitTs=none) : v.visible T txn.snapshot ∧ v.deletedByTxn=none ∧
      ∃ rest, (decodeVersionedRow bytes).versions=v::rest := by
  have hrow := h.between.inv.row hb
  have ho := RowRun.owner_of_mayWrite hm
  obtain ⟨hv,rest,hlist⟩ := hrow.target_first ho hf hl
  refine ⟨hv,?_,rest,hlist⟩
  cases hd : v.deletedByTxn with
  | none => rfl
  | some d =>
    have hmark := hrow.mark v (by simp [hlist]) d (.inr ⟨hd,hl⟩)
    exact absurd (ho d hmark ▸ hd) (visible_iff.mp hv).2.1

/-- A caller reads by its snapshot. -/
theorem reads_eq {txn : TxnState P} {bytes : StoredRow} (hc : g.run.caller T=some txn)
    (hb : g.run.stored=some bytes) : g.reads T=visibleRow bytes T txn.snapshot := by
  rw [TracedRow.reads,hc,hb]
  rfl

/-- So is an update. -/
theorem Coupled.update (h : g.Coupled) {row : Row}
    (hl : g.run.EditsLatest (.update T row)) (hs : g.run.step (.update T row)=some run) :
    (g.account run (.update T row)).Coupled := by
  have hinv := h.between.inv.step hl hs
  simp only [RowRun.step,Option.bind_eq_bind,Option.bind_eq_some_iff] at hs
  obtain ⟨txn,hc,bytes,hb,hs⟩ := hs
  have hreads := reads_eq hc hb
  have htarget := RowRun.target_eq hc hb
  split at hs
  · next hsame =>
    obtain rfl := Option.some.inj hs
    simp only [account,hreads,hsame,if_true]
    exact h
  · next hdiff =>
    cases hf : (decodeVersionedRow bytes).versions.find? (fun v => v.visible T txn.snapshot) with
    | none =>
      have hnone : visibleRow bytes T txn.snapshot=none := by rw [visibleRow,hf]; rfl
      rw [appendRowVersion_eq_none hf] at hs
      obtain rfl := Option.some.inj hs
      simp only [account,hreads,hnone]
      exact h
    | some v =>
      have hopen := hl v (by rw [htarget,hf])
      have hvis : visibleRow bytes T txn.snapshot=some v.row := by rw [visibleRow,hf]; rfl
      have hrow : v.row≠row := fun he => hdiff (by rw [hvis,he])
      obtain ⟨bytes',happend,hne⟩ := appendRowVersion_changes hf hrow
      rw [happend] at hs
      simp only [account,hreads,hvis,hrow,if_false]
      rcases RowRun.store_some hs with ⟨hsame,-⟩ | ⟨hm,rfl⟩
      · exact absurd (Option.some.inj (hsame.trans hb)) hne
      · obtain ⟨hv,hby,rest,hlist⟩ := h.target_open hb hm hf hopen
        rw [appendRowVersion_first hlist hv] at happend
        obtain rfl := Option.some.inj happend
        have hversions : versionsOf g.run.stored=v::rest := by rw [hb]; exact hlist
        refine h.write (RowRun.caller_some hc).1.active hm hinv ?_ ?_ ?_
        · intro bytes' hbytes
          exact ⟨_,(Option.some.inj hbytes).symm⟩
        · simp only [versionsOf,decodeVersionedRow]
          split
          · next hown => exact ⟨_,_,rfl,hown.1,rfl,hby⟩
          · exact ⟨_,_,rfl,rfl,rfl,rfl⟩
        · intro r S hr
          rw [hversions]
          simp only [versionsOf,decodeVersionedRow]
          split
          · next hown =>
            -- the writer's own version, which nobody else sees
            have hhidden : ∀ u : RowVersion, u.createdByTxn=T → u.createdCommitTs=none →
                ¬u.visible r S := by
              intro u hby' hts hu
              rcases creatorVisible_iff.mp (visible_iff.mp hu).1 with ⟨ts,hts',-⟩ | ⟨-,he⟩
              · rw [hts] at hts'
                cases hts'
              · exact hr (he.symm.trans hby')
            exact (readList_cons_hidden (hhidden {v with row := row} hown.1 hown.2)).trans
              (readList_cons_hidden (hhidden v hown.1 hown.2)).symm
          · rw [readList_cons_hidden (fresh_hidden hr)]
            exact readList_cons_congr rfl (markDeleted_visible hr hby)

/-- So is a deletion. -/
theorem Coupled.delete (h : g.Coupled)
    (hl : g.run.EditsLatest (.delete T)) (hs : g.run.step (.delete T)=some run) :
    (g.account run (.delete T)).Coupled := by
  have hinv := h.between.inv.step hl hs
  simp only [RowRun.step,Option.bind_eq_bind,Option.bind_eq_some_iff] at hs
  obtain ⟨txn,hc,bytes,hb,hs⟩ := hs
  have hreads := reads_eq hc hb
  have htarget := RowRun.target_eq hc hb
  cases hf : (decodeVersionedRow bytes).versions.find? (fun v => v.visible T txn.snapshot) with
  | none =>
    have hnone : visibleRow bytes T txn.snapshot=none := by rw [visibleRow,hf]; rfl
    rw [markRowDeleted_eq_none hf] at hs
    obtain rfl := Option.some.inj hs
    simp only [account,hreads,hnone]
    exact h
  | some v =>
    have hopen := hl v (by rw [htarget,hf])
    have hvis : visibleRow bytes T txn.snapshot=some v.row := by rw [visibleRow,hf]; rfl
    obtain ⟨bytes',hmark,hne⟩ := markRowDeleted_changes hf
    rw [hmark] at hs
    simp only [account,hreads,hvis]
    rcases RowRun.store_some hs with ⟨hsame,-⟩ | ⟨hm,rfl⟩
    · exact absurd (Option.some.inj (hsame.trans hb)) hne
    · obtain ⟨hv,hby,rest,hlist⟩ := h.target_open hb hm hf hopen
      rw [markRowDeleted_first hlist hv] at hmark
      obtain rfl := Option.some.inj hmark
      have hversions : versionsOf g.run.stored=v::rest := by rw [hb]; exact hlist
      refine h.write (RowRun.caller_some hc).1.active hm hinv ?_ ⟨_,_,rfl,rfl⟩ ?_
      · intro bytes' hbytes
        exact ⟨_,(Option.some.inj hbytes).symm⟩
      · intro r S hr
        rw [hversions]
        exact readList_cons_congr rfl (markDeleted_visible hr hby)

/-! ## Commits -/

/-- Each version is stamped on its own. -/
theorem versionsOf_stamped (s : RowRun P) (ts : ℕ) :
    versionsOf (s.stamped T ts)=(versionsOf s.stored).map fun v => v.finalize T ts := by
  rw [RowRun.stamped]
  cases s.stored <;> rfl

/-- A commit of a transaction without marks does not touch the row. -/
theorem stamped_eq_self (hshape : Versioned s.stored)
    (hn : ∀ v∈versionsOf s.stored, ¬v.Marked T) : s.stamped T ts=s.stored := by
  rw [RowRun.stamped]
  cases hb : s.stored with
  | none => rfl
  | some bytes =>
    obtain ⟨rows,rfl⟩ := hshape bytes hb
    rw [hb] at hn
    have hmap : rows.versions.map (fun v => v.finalize T ts)=rows.versions :=
      (List.map_congr_left fun v hv => finalize_eq_self (hn v hv)).trans (List.map_id _)
    rw [Option.map_some,finalizeRowVersions,decodeVersionedRow,hmap]

/-- Marks of a transaction mean that it holds the lock. -/
theorem Coupled.marker (h : g.Coupled) (hv : v∈versionsOf g.run.stored)
    (hm : v.Marked T) : ∃ before, g.run.lock=some (T,before) := by
  obtain ⟨⟨W,before⟩,hl,rfl⟩ := Option.map_eq_some_iff.mp ((list_inv h.between.inv).mark v hv T hm)
  exact ⟨before,hl⟩

/-- What the writer made of the row stays when its versions are stamped. -/
theorem WrittenBy.finalize {value : Option Row}
    (h : WrittenBy T value v) (W : TransactionId) : WrittenBy T value (v.finalize W ts) := by
  cases value <;> exact h

/-- The stamps of a commit under way are seen by nobody else. -/
theorem Coupled.stamp (h : g.Coupled) {txn : TxnState P} {ts : ℕ} {run : RowRun P}
    (hc : g.run.caller T=some txn) (hr : g.run.reserved T=some ts)
    (hs : g.run.store T (g.run.stamped T ts)=some run) :
    Coupled {g with run := run} ∧ ∀ v∈versionsOf run.stored, ¬v.Marked T := by
  obtain ⟨hinv,hclean⟩ := h.between.inv.stamp hc hr hs
  have hact := (RowRun.caller_some hc).1.active
  have hhid := (h.between.inv.reserved hr).2.2 hact
  refine ⟨?_,fun v hv => ?_⟩
  · by_cases hlock : ∃ before, g.run.lock=some (T,before)
    · obtain ⟨before,hl⟩ := hlock
      rcases RowRun.store_some hs with ⟨-,rfl⟩ | ⟨-,rfl⟩
      · exact h
      · have hl' : (g.run.write T (g.run.stamped T ts)).lock=some (T,before) := by
          rw [RowRun.write,hl]
          rfl
        have hlist := versionsOf_stamped (T := T) g.run ts
        have hother : ∀ {r}, g.written r=none → r≠T := by
          rintro r hnone rfl
          have hsome := (h.locked r before hl).2
          rw [hnone] at hsome
          cases hsome
        refine ⟨⟨hinv,h.between.quiet⟩,?_,?_,?_,?_,?_,?_⟩
        · intro bytes hb
          obtain ⟨old,-,rfl⟩ := Option.map_eq_some_iff.mp hb
          exact ⟨_,rfl⟩
        · intro W b hb
          rw [hl',← hl] at hb
          exact h.shapeBefore W b hb
        · intro W b hb
          rw [hl',← hl] at hb
          exact h.locked W b hb
        · intro W value hw
          obtain ⟨b,v,rest,hb,hv,hby⟩ := h.wrote W value hw
          refine ⟨b,v.finalize T ts,rest.map fun v => v.finalize T ts,?_,?_,hby.finalize T⟩
          · rw [← hb,hl]
            exact hl'
          · refine hlist.trans ?_
            rw [hv]
            rfl
        · constructor
          · intro r S hnone hS
            refine Eq.trans ?_ (h.row.held r S hnone hS)
            change readList (versionsOf (g.run.stamped T ts)) r S=_
            rw [hlist]
            exact readList_finalize (hother hnone) (hhid r S hS (hother hnone))
          · intro r S hnone hS
            have hne := hother hnone
            have hhidden : ¬Sees S T ts := fun hsees =>
              hsees.2 ((hS.2 T).mpr ⟨hact,hne.symm⟩)
            refine Eq.trans ?_ (h.row.fresh r S hnone hS)
            change readList (versionsOf (g.run.stamped T ts)) r S=_
            rw [hlist]
            exact readList_finalize hne hhidden
        · intro W b hb
          rw [hl',← hl] at hb
          have hbefore := h.before W b hb
          exact ⟨hbefore.held,hbefore.fresh⟩
    · -- without the lock there are no marks to stamp
      have hsame : g.run.stamped T ts=g.run.stored :=
        stamped_eq_self h.shape fun v hv hm => hlock (h.marker hv hm)
      rw [hsame,RowRun.store,if_pos rfl] at hs
      obtain rfl := Option.some.inj hs
      exact h
  · cases hb : run.stored with
    | none => rw [hb] at hv; cases hv
    | some bytes =>
      rw [hb] at hv
      exact hclean bytes hb v hv

/-- The last part of a commit: the lock is released and the transaction ends. -/
theorem Coupled.finish (h : g.Coupled) (hclean : ∀ v∈versionsOf g.run.stored, ¬v.Marked T)
    (hinv : run.Inv) (ha : Advances g.run.manager run.manager)
    (he : Ends g.run.manager run.manager T) (hstored : run.stored=g.run.stored)
    (hlock : run.lock=g.run.lock.filter fun lock => lock.1≠T) (hpub : run.published=∅) :
    Coupled {g with
      run := run
      committed := (g.written T).getD g.committed
      written := Function.update g.written T none} := by
  by_cases hl : ∃ before, g.run.lock=some (T,before)
  · obtain ⟨before,hl⟩ := hl
    have hfree : run.lock=none := by
      rw [hlock,hl]
      simp
    have hnone : ∀ r, r≠T → g.written r=none := fun r hr => h.others hl hr
    obtain ⟨value,hw⟩ := Option.isSome_iff_exists.mp (h.locked T before hl).2
    obtain ⟨-,v,rest,-,hlist,hby⟩ := h.wrote T value hw
    refine ⟨⟨hinv,hpub⟩,?_,?_,?_,?_,⟨?_,?_⟩,?_⟩
    · change Versioned run.stored
      rw [hstored]
      exact h.shape
    · intro W b hb
      rw [hfree] at hb
      cases hb
    · intro W b hb
      rw [hfree] at hb
      cases hb
    · intro W w hW
      simp only at hW
      by_cases hWT : W=T
      · rw [hWT,Function.update_self] at hW
        cases hW
      · rw [Function.update_of_ne hWT,hnone W hWT] at hW
        cases hW
    · rintro r S - hS
      obtain ⟨hr,hold⟩ := he.holds hS
      change readList (versionsOf run.stored) r S=g.seen r
      rw [hstored]
      exact h.row.held r S (hnone r hr) hold
    · rintro r S - hS
      change readList (versionsOf run.stored) r S=(g.written T).getD g.committed
      rw [hw,Option.getD_some,hstored]
      have hrow := list_inv h.between.inv
      have hsees : ∀ t, v.Stamped T t → Sees S T t := by
        intro t ht
        have hst := hrow.stamp v (by rw [hlist]; exact List.mem_cons_self) T t ht
        refine ⟨?_,fun hmem => he.ended ((hS.2 T).mp hmem).1⟩
        rw [hS.1]
        exact hst.clock.trans ha.clock
      have hmark := hclean v (by rw [hlist]; exact List.mem_cons_self)
      cases value with
      | some row =>
        -- the writer's own version is committed and open
        obtain ⟨hcreated,rfl,hopen⟩ := hby
        rw [hlist]
        refine readList_cons_visible (visible_iff.mpr ⟨?_,?_,?_⟩)
        · cases hts : v.createdCommitTs with
          | none => exact absurd (.inl ⟨hcreated,hts⟩) hmark
          | some t =>
            exact creatorVisible_iff.mpr
              (.inl ⟨t,hts,hcreated ▸ hsees t (.inl ⟨hcreated,hts⟩)⟩)
        · rw [hopen]
          exact (Option.some_ne_none r).symm
        · intro hd
          obtain ⟨d,t,hd,-⟩ := deletedInSnapshot_iff.mp hd
          rw [hopen] at hd
          cases hd
      | none =>
        -- the newest version is deleted for good, so all are
        have hd : v.deletedByTxn=some T := hby
        cases hts : v.deletedCommitTs with
        | none => exact absurd (.inr ⟨hd,hts⟩) hmark
        | some t =>
          obtain ⟨bytes,hb,hversions⟩ : ∃ bytes, run.stored=some bytes ∧
              (decodeVersionedRow bytes).versions=v::rest := by
            rw [hstored]
            cases hb : g.run.stored with
            | none => rw [hb] at hlist; cases hlist
            | some bytes => rw [hb] at hlist; exact ⟨bytes,rfl,hlist⟩
          have hgone := RowRun.ListInv.gone (hinv.row hb)
            ⟨bytes,v,rest,T,t,rfl,hversions,hd,hts,he.ended⟩ bytes rfl
          rw [← hstored,hb]
          refine readList_eq_none fun u hu hvis => ?_
          obtain ⟨d,tb,hdu,htb,hset⟩ := hgone u hu
          have hsee := hset.sees (.refl hinv.registered) hS
          exact (visible_iff.mp hvis).2.2 (deletedInSnapshot_iff.mpr ⟨d,tb,hdu,htb,hsee⟩)
    · intro W b hb
      rw [hfree] at hb
      cases hb
  · have hsame : run.lock=g.run.lock := by
      rw [hlock]
      cases hg : g.run.lock with
      | none => rfl
      | some lock =>
        rw [Option.filter_some,if_pos]
        exact decide_eq_true fun hT => hl ⟨lock.2,by rw [hg,← hT]⟩
    have hnot : ∀ before, g.run.lock≠some (T,before) := fun before hb => hl ⟨before,hb⟩
    have hw := h.unwritten hnot
    rw [hw,Option.getD_none,Function.update_eq_self_iff.mpr hw.symm]
    exact h.end' hinv ha he hstored hsame hpub hnot

/-- A commit makes what was written the committed row. -/
theorem Coupled.commit (h : g.Coupled)
    (hs : g.run.steps [.reserve T,.publish T,.finish T]=some run) :
    Coupled {g with
      run := run
      committed := (g.written T).getD g.committed
      written := Function.update g.written T none} := by
  obtain ⟨q₁,h₁,hs⟩ := RowRun.steps_cons hs
  obtain ⟨q₂,h₂,hs⟩ := RowRun.steps_cons hs
  obtain ⟨q₃,h₃,hnil⟩ := RowRun.steps_cons hs
  obtain rfl := RowRun.steps_nil hnil
  have hreserved := h.reserve h₁
  have hinv₂ := hreserved.between.inv.step (by trivial) h₂
  have hinv₃ := hinv₂.step (by trivial) h₃
  have hpub₂ := RowRun.step_published h₂
  simp only [RowRun.step,Option.bind_eq_bind,Option.bind_eq_some_iff] at h₂
  obtain ⟨txn,hc,ts,hr,q,hq,h₂⟩ := h₂
  obtain ⟨hstamped,hclean⟩ := hreserved.stamp hc hr hq
  obtain rfl := Option.some.inj h₂
  simp only [RowRun.step] at h₃
  split at h₃
  · simp only [Option.bind_eq_bind,Option.bind_eq_some_iff] at h₃
    obtain ⟨ts',-,⟨u,q₅⟩,hm,h₃⟩ := h₃
    obtain ⟨m,hx,rfl⟩ := RowRun.manage_some hm
    obtain rfl := Option.some.inj h₃
    refine hstamped.finish hclean hinv₃ (Advances.finalizeCommit hstamped.between.inv.registered hx)
      (Ends.finalizeCommit hx) rfl rfl ?_
    change (Insert.insert T q.published).erase T=∅
    rw [hstamped.between.quiet]
    simp
  · cases h₃

/-- A rollback forgets it. -/
theorem Coupled.rollback (h : g.Coupled) (hs : g.run.steps [.undo T,.abort T]=some run) :
    Coupled {g with run := run, written := Function.update g.written T none} := by
  obtain ⟨q₁,h₁,hs⟩ := RowRun.steps_cons hs
  obtain ⟨q₂,h₂,hnil⟩ := RowRun.steps_cons hs
  obtain rfl := RowRun.steps_nil hnil
  have hinv₁ := h.between.inv.step (by trivial) h₁
  have hinv₂ := hinv₁.step (by trivial) h₂
  have hreg := h.between.inv.registered
  simp only [RowRun.step,Option.bind_eq_bind,Option.bind_eq_some_iff] at h₁ h₂
  obtain ⟨txn,-,h₁⟩ := h₁
  obtain ⟨txn',-,h₂⟩ := h₂
  split at h₂
  · next hfree =>
    obtain ⟨⟨u,q⟩,hm,rfl⟩ := Option.map_eq_some_iff.mp h₂
    obtain ⟨m,hx,rfl⟩ := RowRun.manage_some hm
    have hquiet := h.between.quiet
    -- unless the transaction holds the lock, only the manager moves
    have hplain : q₁=g.run → (∀ before, g.run.lock≠some (T,before)) → Coupled
        {g with run := {q₁ with manager := m}, written := Function.update g.written T none} := by
      rintro rfl hnot
      rw [Function.update_eq_self_iff.mpr (h.unwritten hnot).symm]
      exact h.end' hinv₂ (Advances.abort hreg hx) (Ends.abort hx) rfl rfl hquiet hnot
    split at h₁
    · next holder before hl =>
      split at h₁
      · next hT =>
        subst hT
        obtain rfl := Option.some.inj h₁
        have he := Ends.abort hx
        have hb := h.before holder before hl
        have hbinv := before_inv h.between.inv hl
        refine ⟨⟨hinv₂,hquiet⟩,h.shapeBefore holder before hl,?_,?_,?_,⟨?_,?_⟩,?_⟩
        · intro W b hb
          cases hb
        · intro W b hb
          cases hb
        · intro W w hW
          simp only at hW
          by_cases hWT : W=holder
          · rw [hWT,Function.update_self] at hW
            cases hW
          · rw [Function.update_of_ne hWT,h.others hl hWT] at hW
            cases hW
        · rintro r S - hS
          exact hb.held r S trivial (he.holds hS).2
        · rintro r S - hS
          have hcur := currentSnapshot_current hreg r
          refine Eq.trans ?_ (hb.fresh r _ trivial hcur)
          refine readList_current (s := g.run) hbinv (Advances.abort hreg hx) ?_ hS hcur
          intro v hv w ts hw hact
          exact absurd hact (h.before_stamp hl hv hw)
        · intro W b hb
          cases hb
      · next hT =>
        refine hplain (Option.some.inj h₁).symm fun b hb => hT ?_
        rw [hl] at hb
        exact (Prod.mk.inj (Option.some.inj hb)).1
    · next hl =>
      exact hplain (Option.some.inj h₁).symm fun b hb => by rw [hl] at hb; cases hb
  · cases h₂

/-! ## The purge -/

/-- Dropping versions that no reader sees, while nobody writes. -/
theorem Coupled.keep (h : g.Coupled) (hfree : g.run.lock=none) {stored : Option StoredRow}
    {keep : RowVersion → Bool} (hshape : Versioned stored)
    (hlist : versionsOf stored=(versionsOf g.run.stored).filter keep)
    (hheld : ∀ v∈versionsOf g.run.stored, ¬keep v → ∀ r S, g.run.manager.Holds r S →
      ¬v.visible r S)
    (hcur : ∀ v∈versionsOf g.run.stored, ¬keep v → ∀ r S, g.run.manager.Current r S →
      ¬v.visible r S) : Coupled {g with run := {g.run with stored := stored}} := by
  have hinv := h.between.inv
  have hnone : ∀ {W b}, g.run.lock=some (W,b) → False := by
    intro W b hb
    rw [hfree] at hb
    cases hb
  refine ⟨⟨⟨hinv.registered,hinv.upTo,hinv.reserved,?_,?_⟩,h.between.quiet⟩,hshape,?_,?_,?_,
    ⟨?_,?_⟩,?_⟩
  · intro bytes hb
    have hpart := (list_inv hinv).sublist (List.filter_sublist (p := keep))
    rw [← hlist] at hpart
    simp only at hb
    subst hb
    exact hpart.congr rfl rfl rfl
  · exact fun hb => (hnone hb).elim
  · exact fun W b hb => (hnone hb).elim
  · exact fun W b hb => (hnone hb).elim
  · intro W w hW
    obtain ⟨b,v,rest,hb,-⟩ := h.wrote W w hW
    exact (hnone hb).elim
  · intro r S hr hS
    change readList (versionsOf stored) r S=g.seen r
    rw [hlist,readList_filter fun v hv hk => hheld v hv hk r S hS]
    exact h.row.held r S hr hS
  · intro r S hr hS
    change readList (versionsOf stored) r S=g.committed
    rw [hlist,readList_filter fun v hv hk => hcur v hv hk r S hS]
    exact h.row.fresh r S hr hS
  · exact fun W b hb => (hnone hb).elim

/-- A purge keeps the versions not deleted before its horizon. -/
theorem versionsOf_retained (purgeHorizon : ℕ) (bytes : StoredRow) :
    versionsOf (RowRun.retained purgeHorizon bytes)=
      (decodeVersionedRow bytes).versions.filter fun v =>
        !v.deletedCommitTs.any (· ≤ purgeHorizon) := by
  simp only [RowRun.retained]
  split
  · next hempty => exact (List.isEmpty_iff.mp hempty).symm
  · rfl

/-- What it keeps is versioned. -/
theorem retained_versioned (purgeHorizon : ℕ) (bytes : StoredRow) :
    Versioned (RowRun.retained purgeHorizon bytes) := by
  intro found hf
  simp only [RowRun.retained] at hf
  split at hf
  · cases hf
  · exact ⟨_,(Option.some.inj hf).symm⟩

/-- With the lock free, a deletion that is stamped is over. -/
theorem Coupled.settled (h : g.Coupled) (hfree : g.run.lock=none)
    (hv : v∈versionsOf g.run.stored) (hw : v.Stamped w ts) :
    Settled g.run.manager w ts := by
  have hst := (list_inv h.between.inv).stamp v hv w ts hw
  refine ⟨hst.clock,hst.known,fun hact => ?_⟩
  obtain ⟨before,hl⟩ := h.stamper hv hw hact
  rw [hfree] at hl
  cases hl

/-- With the lock free, a stamped deletion hides a version from every snapshot
of this moment. -/
theorem Coupled.closed_hidden (h : g.Coupled) (hfree : g.run.lock=none)
    (hv : v∈versionsOf g.run.stored) (hts : v.deletedCommitTs.isSome)
    {S : TxnSnapshot} (hS : g.run.manager.Current r S) : ¬v.visible r S := by
  intro hvis
  obtain ⟨ts,hts'⟩ := Option.isSome_iff_exists.mp hts
  obtain ⟨d,hby⟩ := Option.isSome_iff_exists.mp ((list_inv h.between.inv).deleted v hv hts)
  have hsees := (h.settled hfree hv (.inr ⟨hby,hts'⟩)).sees (.refl h.between.inv.registered) hS
  exact (visible_iff.mp hvis).2.2 (deletedInSnapshot_iff.mpr ⟨d,ts,hby,hts',hsees⟩)

/-- What the purge drops is hidden from every snapshot in use, if the deletions
are dead. -/
theorem Coupled.dropped_hidden (h : g.Coupled) (hd : g.run.PurgesDead)
    (hv : v∈versionsOf g.run.stored)
    (hdrop : v.deletedCommitTs.any (· ≤ g.run.manager.purgeHorizon))
    {S : TxnSnapshot} (hS : g.run.manager.Holds r S) : ¬v.visible r S := by
  intro hvis
  have hsome := Option.isSome_of_any hdrop
  obtain ⟨ts,hts⟩ := Option.isSome_iff_exists.mp hsome
  obtain ⟨d,hby⟩ := Option.isSome_iff_exists.mp ((list_inv h.between.inv).deleted v hv hsome)
  have hle : ts ≤ g.run.manager.purgeHorizon := by
    rw [hts] at hdrop
    exact of_decide_eq_true hdrop
  have hsees : Sees S d ts := ⟨hle.trans hS.purgeHorizon_le,hd v hv d ts hby hts hle r S hS⟩
  exact (visible_iff.mp hvis).2.2 (deletedInSnapshot_iff.mpr ⟨d,ts,hby,hts,hsees⟩)

/-- What it drops nobody sees. -/
theorem Coupled.purge (h : g.Coupled) {run : RowRun P} (hd : g.run.PurgesDead)
    (hs : g.run.call .purge=some run) : (g.account run .purge).Coupled := by
  obtain ⟨q₁,h₁,hs₁⟩ := RowRun.steps_cons hs
  obtain ⟨q₂,h₂,hs₂⟩ := RowRun.steps_cons hs₁
  have hbegun := h.begin' h₁
  have hreg := h.between.inv.registered
  have hunused : g.written (max g.run.manager.nextTxnId 1)=none := by
    refine h.unwritten fun before hl => ?_
    have hlt := (h.locked _ before hl).1.known hreg
    exact absurd hlt (lt_irrefl _)
  have hinv₂ := hbegun.between.inv.step (by trivial) h₂
  simp only [RowRun.step,Option.map_eq_some_iff] at h₁
  obtain ⟨⟨W,q⟩,hm₁,rfl⟩ := h₁
  obtain ⟨m,hx,rfl⟩ := RowRun.manage_some hm₁
  obtain rfl : (TxnManager.begin' .readCommitted g.run.manager).2=m := by rw [hx]
  simp only [RowRun.step,Option.bind_eq_bind,Option.bind_eq_some_iff] at h₂
  obtain ⟨txn,hc,bytes,hb,h₂⟩ := h₂
  split at h₂
  · rcases RowRun.store_some h₂ with ⟨-,he⟩ | ⟨hm,rfl⟩
    · -- nothing to remove: the purge transaction commits without a write
      rw [he] at hs₂
      have hsame : Function.update g.written (max g.run.manager.nextTxnId 1) none=g.written :=
        Function.update_eq_self_iff.mpr hunused.symm
      have hcommit := hbegun.commit hs₂
      simp only [hunused,Option.getD_none,hsame] at hcommit
      exact hcommit
    · -- the lock was free, and nobody can read what the purge removes
      have hfree : g.run.lock=none := by
        cases hl : g.run.lock with
        | none => rfl
        | some lock =>
          have hT := RowRun.owner_of_mayWrite hm lock.1 (by rw [RowRun.owner,hl]; rfl)
          have hsome := (hbegun.locked lock.1 lock.2 hl).2
          simp only [hT,hunused] at hsome
          cases hsome
      have hversions : (decodeVersionedRow bytes).versions=versionsOf g.run.stored := by
        have hb' : g.run.stored=some bytes := hb
        rw [hb']
        rfl
      have hlist := versionsOf_retained g.run.manager.purgeHorizon bytes
      rw [hversions] at hlist
      have hkept := hbegun.keep hfree (retained_versioned g.run.manager.purgeHorizon bytes) hlist
        (fun v hv hk r S hS => by
          have hdrop : v.deletedCommitTs.any (· ≤ g.run.manager.purgeHorizon) := by simpa using hk
          rcases hS.begin' hreg .readCommitted with ⟨-,hold⟩ | ⟨-,hcur⟩
          · exact h.dropped_hidden hd hv hdrop hold
          · exact h.closed_hidden hfree hv (Option.isSome_of_any hdrop) hcur)
        (fun v hv hk r S hS => by
          have hdrop : v.deletedCommitTs.any (· ≤ g.run.manager.purgeHorizon) := by simpa using hk
          exact hbegun.closed_hidden hfree hv (Option.isSome_of_any hdrop) hS)
      -- the commit of the purge transaction only moves the manager
      obtain ⟨q₃,h₃,hs₃⟩ := RowRun.steps_cons hs₂
      obtain ⟨q₄,h₄,hs₄⟩ := RowRun.steps_cons hs₃
      obtain ⟨q₅,h₅,hnil⟩ := RowRun.steps_cons hs₄
      obtain rfl := RowRun.steps_nil hnil
      have hinv₅ := ((hinv₂.step (by trivial) h₃).step (by trivial) h₄).step (by trivial) h₅
      simp only [RowRun.step,Option.bind_eq_bind,Option.bind_eq_some_iff] at h₃
      obtain ⟨txn₃,-,⟨ts₃,q⟩,hm₃,h₃⟩ := h₃
      obtain ⟨m₃,hx₃,rfl⟩ := RowRun.manage_some hm₃
      obtain rfl := Option.some.inj h₃
      have hinv₃ := hkept.between.inv.reserve hx₃
      have hreserved := hkept.move hinv₃ (Advances.reserveCommitTs hkept.between.inv.registered hx₃)
        rfl rfl hkept.between.quiet (fun W before hl => by cases hfree.symm.trans hl)
        fun r S hS => .inl ⟨hS.reserveCommitTs hx₃,rfl⟩
      simp only [RowRun.step,Option.bind_eq_bind,Option.bind_eq_some_iff] at h₄
      obtain ⟨txn₄,-,ts₄,-,q,hq,h₄⟩ := h₄
      rw [RowRun.store,if_pos] at hq
      · obtain rfl := Option.some.inj hq
        obtain rfl := Option.some.inj h₄
        simp only [RowRun.step] at h₅
        split at h₅
        · simp only [Option.bind_eq_bind,Option.bind_eq_some_iff] at h₅
          obtain ⟨ts₅,-,⟨u,q⟩,hm₅,h₅⟩ := h₅
          obtain ⟨m₅,hx₅,rfl⟩ := RowRun.manage_some hm₅
          obtain rfl := Option.some.inj h₅
          refine hreserved.end' hinv₅ (Advances.finalizeCommit hreserved.between.inv.registered hx₅)
            (Ends.finalizeCommit hx₅) rfl ?_ ?_ fun before hl => by cases hfree.symm.trans hl
          · simp only [RowRun.write,hfree,Option.getD_none]
            simp
          · simp only [RowRun.write,h.between.quiet]
            simp
        · cases h₅
      · refine stamped_eq_self (retained_versioned g.run.manager.purgeHorizon bytes)
          fun v hv hmark => ?_
        obtain ⟨before,hl⟩ := hkept.marker hv hmark
        cases hfree.symm.trans hl
  · cases h₂

end Coupling

/-! ## Whole runs -/

/-- Nothing is written at first. -/
theorem Coupled.start (nextTxnId : ℕ) : (TracedRow.start nextTxnId : TracedRow P).Coupled := by
  have hnone : ∀ r S, ¬(TracedRow.start nextTxnId : TracedRow P).run.manager.Holds r S := by
    rintro r S ⟨txn,hget,-⟩
    simp [TracedRow.start,RowRun.start,withNextTxnId] at hget
  refine ⟨.start nextTxnId,?_,?_,?_,?_,⟨?_,?_⟩,?_⟩
  · exact fun bytes hb => by cases hb
  · exact fun W before hl => by cases hl
  · exact fun W before hl => by cases hl
  · exact fun W value hw => by cases hw
  · exact fun r S _ hS => absurd hS (hnone r S)
  · exact fun r S _ _ => rfl
  · exact fun W before hl => by cases hl

/-- Every sound call keeps the run and its account coupled. -/
theorem Coupled.call {g g' : TracedRow P} (h : g.Coupled) {c : RowCall} (hl : g.Sound c)
    (hs : g.call c=some g') : g'.Coupled := by
  obtain ⟨run,hrun,rfl⟩ := Option.map_eq_some_iff.mp hs
  have hone : ∀ {act : RowAct}, g.run.steps [act]=some run → g.run.step act=some run := by
    intro act hsteps
    obtain ⟨q,hq,hnil⟩ := RowRun.steps_cons hsteps
    rw [RowRun.steps_nil hnil]
    exact hq
  cases c with
  | begin' isolationLevel => exact h.begin' (hone hrun)
  | refresh T => exact h.refresh (hone hrun)
  | insert T row => exact h.insert (hone hrun)
  | update T row => exact h.update hl (hone hrun)
  | delete T => exact h.delete hl (hone hrun)
  | commit T => exact h.commit hrun
  | failedCommit T stamped =>
    cases stamped with
    | false => exact h.reserve (hone hrun)
    | true =>
      obtain ⟨q,hq,hrest⟩ := RowRun.steps_cons hrun
      obtain ⟨q',hq',hnil⟩ := RowRun.steps_cons hrest
      obtain rfl := RowRun.steps_nil hnil
      simp only [RowRun.step,Option.bind_eq_bind,Option.bind_eq_some_iff] at hq'
      obtain ⟨txn,hc,ts,hr,hq'⟩ := hq'
      exact ((h.reserve hq).stamp hc hr hq').1
  | rollback T => exact h.rollback hrun
  | purge => exact h.purge hl hrun
  | forget purgeHorizon => exact h.forget (hone hrun)

/-- All this holds in every run. -/
theorem Coupled.run {g g' : TracedRow P} (h : g.Coupled)
    (hrun : Relation.ReflTransGen SoundCall g g') : g'.Coupled := by
  induction hrun with
  | refl => exact h
  | tail _ hcall ih =>
    obtain ⟨c,hl,hs⟩ := hcall
    exact ih.call hl hs

/-! ## Reads -/

/-- An active transaction is a caller while none publishes. -/
theorem caller_of_active {s : RowRun P} {T : TransactionId} (h : s.manager.Active T)
    (hp : s.published=∅) : ∃ txn, s.caller T=some txn := by
  obtain ⟨txn,hget,hact⟩ := h
  refine ⟨txn,Option.filter_eq_some_iff.mpr ⟨hget,?_⟩⟩
  rw [hp]
  simp [hact]

/-- A transaction that has not written the row reads what was committed when it
took its snapshot; a read-committed one, what is committed now. -/
theorem Coupled.getRow {g : TracedRow P} (h : g.Coupled) {R : TransactionId} {value : Option Row}
    {s : RowRun P} (hw : g.written R=none) (hr : g.run.getRow R=some (value,s)) :
    ∃ txn, g.run.caller R=some txn ∧
      value=if txn.isolationLevel=.readCommitted then g.committed else g.seen R := by
  simp only [RowRun.getRow,Option.bind_eq_bind,Option.bind_eq_some_iff] at hr
  obtain ⟨txn,hc,hr⟩ := hr
  refine ⟨txn,hc,?_⟩
  split at hr
  · next hlevel =>
    rw [if_pos hlevel]
    obtain ⟨⟨S,q⟩,hm,hr⟩ := Option.bind_eq_some_iff.mp hr
    obtain ⟨m,hx,rfl⟩ := RowRun.manage_some hm
    obtain ⟨rfl,-⟩ := refreshSnapshot_ok hx
    obtain ⟨rfl,-⟩ := Prod.mk.inj (Option.some.inj hr)
    rw [readRow_eq]
    exact h.row.fresh R _ hw (currentSnapshot_current h.between.inv.registered R)
  · next hlevel =>
    rw [if_neg hlevel]
    obtain ⟨rfl,-⟩ := Prod.mk.inj (Option.some.inj hr)
    rw [readRow_eq]
    exact h.row.held R _ hw (RowRun.caller_some hc).1

/-- Over the steps of a run transactions keep their isolation levels, and none
that has ended runs again. -/
theorem run_level {s s' : RowRun P} (h : s.Inv)
    (hrun : Relation.ReflTransGen RowRun.CurrentStep s s') :
    (max s.manager.nextTxnId 1 ≤ max s'.manager.nextTxnId 1) ∧
      ∀ w < max s.manager.nextTxnId 1, (s'.manager.Active w → s.manager.Active w) ∧
        ∀ txn', s'.manager.txns[w]?=some txn' → ∃ txn, s.manager.txns[w]?=some txn ∧
          txn.isolationLevel=txn'.isolationLevel := by
  induction hrun with
  | refl => exact ⟨le_refl _,fun w _ => ⟨fun ha => ha,fun txn' ht => ⟨txn',ht,rfl⟩⟩⟩
  | tail hrun hstep ih =>
    obtain ⟨act,-,hs⟩ := hstep
    have ha := RowRun.step_advances (h.run hrun).registered hs
    refine ⟨ih.1.trans ha.ids,fun w hw => ⟨fun hact => ?_,fun txn' ht => ?_⟩⟩
    · exact (ih.2 w hw).1 (ha.active (hw.trans_le ih.1) hact)
    · obtain ⟨txn,hmid,hl⟩ := ha.level (hw.trans_le ih.1) ht
      obtain ⟨txn₀,h₀,hl₀⟩ := (ih.2 w hw).2 txn hmid
      exact ⟨txn₀,h₀,hl₀.trans hl⟩

/-- The account goes beside the run. -/
theorem account_run (g : TracedRow P) (run : RowRun P) (c : RowCall) :
    (g.account run c).run=run := by
  cases c with
  | update W row =>
    simp only [account]
    split
    · split <;> rfl
    · rfl
  | delete W =>
    simp only [account]
    split <;> rfl
  | _ => rfl

/-- Sound calls form a run of the row. -/
theorem sound_run {g g' : TracedRow P} (hrun : Relation.ReflTransGen SoundCall g g') :
    Relation.ReflTransGen RowRun.CurrentStep g.run g'.run := by
  induction hrun with
  | refl => exact .refl
  | tail _ hcall ih =>
    obtain ⟨c,hl,hs⟩ := hcall
    obtain ⟨run,hrun,rfl⟩ := Option.map_eq_some_iff.mp hs
    rw [account_run]
    exact ih.trans (RowRun.call_run hl.latest hrun)

/-- The snapshot of a repeatable-read or serializable transaction stays, and so
does what it has seen. -/
theorem Coupled.seen_call {g g' : TracedRow P} (h : g.Coupled) {c : RowCall} (hl : g.Sound c)
    (hs : g.call c=some g') {T : TransactionId} {txn' : TxnState P}
    (hc' : g'.run.caller T=some txn') (hT : T < max g.run.manager.nextTxnId 1)
    (hlevel : txn'.isolationLevel≠.readCommitted) :
    g'.seen T=g.seen T ∧ ∃ txn, g.run.caller T=some txn ∧
      txn.isolationLevel=txn'.isolationLevel := by
  obtain ⟨run,hrun,rfl⟩ := Option.map_eq_some_iff.mp hs
  rw [account_run] at hc'
  obtain ⟨hS',hget',-⟩ := RowRun.caller_some hc'
  have hsteps := RowRun.call_run hl.latest hrun
  obtain ⟨hactive,hlevels⟩ := (run_level h.between.inv hsteps).2 T hT
  obtain ⟨txn,hc⟩ := caller_of_active (hactive hS'.active) h.between.quiet
  obtain ⟨txn₀,hget₀,hsame⟩ := hlevels txn' hget'
  obtain rfl : txn=txn₀ := by
    rw [(RowRun.caller_some hc).2.1] at hget₀
    exact Option.some.inj hget₀
  refine ⟨?_,txn,hc,hsame⟩
  cases c with
  | begin' isolationLevel => exact Function.update_of_ne (Nat.ne_of_lt hT) _ _
  | purge => exact Function.update_of_ne (Nat.ne_of_lt hT) _ _
  | refresh W =>
    by_cases hW : T=W
    · -- only read-committed transactions take a new snapshot
      subst hW
      obtain ⟨q,hq,-⟩ := RowRun.steps_cons hrun
      simp only [RowRun.step,hc,Option.bind_eq_bind,Option.bind_some] at hq
      rw [if_neg (hsame ▸ hlevel)] at hq
      cases hq
    · exact Function.update_of_ne hW _ _
  | update W row =>
    simp only [account]
    split
    · split <;> rfl
    · rfl
  | delete W =>
    simp only [account]
    split <;> rfl
  | _ => rfl

/-- What a transaction sees stays, unless it reads committed. -/
theorem Coupled.seen_run {g g' : TracedRow P} (h : g.Coupled)
    (hrun : Relation.ReflTransGen SoundCall g g') {T : TransactionId} {txn' : TxnState P}
    (hc' : g'.run.caller T=some txn') (hT : T < max g.run.manager.nextTxnId 1)
    (hlevel : txn'.isolationLevel≠.readCommitted) : g'.seen T=g.seen T := by
  induction hrun generalizing txn' with
  | refl => rfl
  | tail hrun hcall ih =>
    obtain ⟨c,hl,hs⟩ := hcall
    have hids := (run_level h.between.inv (sound_run hrun)).1
    obtain ⟨hseen,txn,hc,hsame⟩ :=
      (h.run hrun).seen_call hl hs hc' (hT.trans_le hids) hlevel
    rw [hseen]
    exact ih hc (by rw [hsame]; exact hlevel)

/-- The commit of a transaction without marks leaves the row as it is. -/
theorem commit_stored {s run : RowRun P} {T : TransactionId} (hshape : Versioned s.stored)
    (hn : ∀ v∈versionsOf s.stored, ¬v.Marked T)
    (hs : s.steps [.reserve T,.publish T,.finish T]=some run) : run.stored=s.stored := by
  obtain ⟨q₁,h₁,hs₁⟩ := RowRun.steps_cons hs
  obtain ⟨q₂,h₂,hs₂⟩ := RowRun.steps_cons hs₁
  obtain ⟨q₃,h₃,hnil⟩ := RowRun.steps_cons hs₂
  obtain rfl := RowRun.steps_nil hnil
  simp only [RowRun.step,Option.bind_eq_bind,Option.bind_eq_some_iff] at h₁ h₂
  obtain ⟨txn₁,-,⟨ts₁,q⟩,hm₁,h₁⟩ := h₁
  obtain ⟨m₁,-,rfl⟩ := RowRun.manage_some hm₁
  obtain rfl := Option.some.inj h₁
  obtain ⟨txn₂,-,ts₂,-,q',hq,h₂⟩ := h₂
  rw [RowRun.store,if_pos] at hq
  · obtain rfl := Option.some.inj hq
    obtain rfl := Option.some.inj h₂
    simp only [RowRun.step] at h₃
    split at h₃
    · simp only [Option.bind_eq_bind,Option.bind_eq_some_iff] at h₃
      obtain ⟨ts₃,-,⟨u,q⟩,hm₃,h₃⟩ := h₃
      obtain ⟨m₃,-,rfl⟩ := RowRun.manage_some hm₃
      obtain rfl := Option.some.inj h₃
      rfl
    · cases h₃
  · exact stamped_eq_self hshape hn

/-- What a purge leaves of the row. -/
theorem Coupled.purge_stored {g : TracedRow P} (h : g.Coupled) {run : RowRun P}
    (hs : g.run.call .purge=some run) : versionsOf run.stored=
      (versionsOf g.run.stored).filter fun v =>
        !v.deletedCommitTs.any (· ≤ g.run.manager.purgeHorizon) := by
  obtain ⟨q₁,h₁,hs₁⟩ := RowRun.steps_cons hs
  obtain ⟨q₂,h₂,hs₂⟩ := RowRun.steps_cons hs₁
  simp only [RowRun.step,Option.map_eq_some_iff] at h₁
  obtain ⟨⟨W,q⟩,hm₁,rfl⟩ := h₁
  obtain ⟨m,-,rfl⟩ := RowRun.manage_some hm₁
  simp only [RowRun.step,Option.bind_eq_bind,Option.bind_eq_some_iff] at h₂
  obtain ⟨txn,-,bytes,hb,h₂⟩ := h₂
  split at h₂
  · have hstored : q₂.stored=RowRun.retained g.run.manager.purgeHorizon bytes := by
      rcases RowRun.store_some h₂ with ⟨he,rfl⟩ | ⟨-,rfl⟩
      · exact he.symm
      · rfl
    have hlist := versionsOf_retained g.run.manager.purgeHorizon bytes
    have hversions : (decodeVersionedRow bytes).versions=versionsOf g.run.stored := by
      have hb' : g.run.stored=some bytes := hb
      rw [hb']
      rfl
    rw [hversions,← hstored] at hlist
    refine (congrArg versionsOf (commit_stored ?_ ?_ hs₂)).trans hlist
    · rw [hstored]
      exact retained_versioned _ _
    · -- the purge transaction is new: it has marked nothing
      intro v hv hmark
      rw [hlist] at hv
      obtain ⟨before,hl⟩ := h.marker (List.mem_of_mem_filter hv) hmark
      have hlt := (h.locked _ before hl).1.known h.between.inv.registered
      exact absurd hlt (lt_irrefl _)
  · cases h₂

/-- What a transaction above read-committed has not written it reads alike for
all its life, and the purge removes nothing a snapshot in use sees. -/
def Repeatable (g : TracedRow P) : Prop :=
  (∀ g' T txn value value' s s', Relation.ReflTransGen SoundCall g g' →
    g.run.caller T=some txn → txn.isolationLevel≠.readCommitted →
    g.written T=none → g'.written T=none →
    g.run.getRow T=some (value,s) → g'.run.getRow T=some (value',s') → value'=value) ∧
  ∀ g', g.Sound .purge → g.call .purge=some g' → ∀ v∈versionsOf g.run.stored,
    ∀ r S, g.run.manager.Holds r S → v.visible r S → v∈versionsOf g'.run.stored

/-- In every run of sound calls reads are repeatable. -/
theorem repeatable_of_run {nextTxnId : ℕ} {g : TracedRow P}
    (hrun : Relation.ReflTransGen SoundCall (start nextTxnId) g) : g.Repeatable := by
  have h : g.Coupled := (Coupled.start nextTxnId).run hrun
  constructor
  · intro g' T txn value value' s s' hlater hc hlevel hw hw' hr hr'
    obtain ⟨txn₀,hc₀,hvalue⟩ := h.getRow hw hr
    obtain ⟨txn',hc',hvalue'⟩ := (h.run hlater).getRow hw' hr'
    obtain rfl : txn=txn₀ := Option.some.inj (hc.symm.trans hc₀)
    have hT := (RowRun.caller_some hc).1.active.known h.between.inv.registered
    obtain ⟨found,hfound,hsame⟩ := ((run_level h.between.inv (sound_run hlater)).2 T hT).2 txn'
      (RowRun.caller_some hc').2.1
    obtain rfl : txn=found := by
      rw [(RowRun.caller_some hc).2.1] at hfound
      exact Option.some.inj hfound
    have hlevel' : txn'.isolationLevel≠.readCommitted := by rw [← hsame]; exact hlevel
    rw [hvalue,hvalue',if_neg hlevel,if_neg hlevel',h.seen_run hlater hc' hT hlevel']
  · intro g' hd hs v hv r S hS hvis
    obtain ⟨run,hrun,rfl⟩ := Option.map_eq_some_iff.mp hs
    rw [account_run,h.purge_stored hrun]
    refine List.mem_filter.mpr ⟨hv,?_⟩
    cases hdrop : v.deletedCommitTs.any (· ≤ g.run.manager.purgeHorizon) with
    | false => rfl
    | true => exact absurd hvis (h.dropped_hidden hd hv hdrop hS)

/-- What `getRow` returns to a transaction that has not written the row. -/
def CleanReads (g : TracedRow P) : Prop :=
  ∀ R value s, g.written R=none → g.run.getRow R=some (value,s) →
    ∃ txn, g.run.caller R=some txn ∧
      value=if txn.isolationLevel=.readCommitted then g.committed else g.seen R

/-- In every run of sound calls a transaction reads what was committed when it
took its snapshot: nothing of a writer that has not finished its commit. -/
theorem cleanReads_of_run {nextTxnId : ℕ} {g : TracedRow P}
    (hrun : Relation.ReflTransGen SoundCall (start nextTxnId) g) : g.CleanReads :=
  fun _ _ _ hw hr => ((Coupled.start nextTxnId).run hrun).getRow hw hr

end TracedRow

end RustSql.V2
