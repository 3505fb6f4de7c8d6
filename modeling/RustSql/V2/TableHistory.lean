import RustSql.V2.TableCalls

/-!
# Reads of a row in its table

`get_row` finds no row where there is no table. A careful run keeps the row in its table: a
table that is not there has no row, and a table that a running transaction has created has
no row but that transaction's own. So what is known of reads of the row holds of `get_row`,
and the account of the row's history goes through the calls on the table.
-/

namespace RustSql.V2

open TxnManager

namespace RowRun

variable {P : Type} {s s' : RowRun P} {act : RowAct} {T : TransactionId}

/-- Nobody has stored the row. -/
def Absent (s : RowRun P) : Prop := s.stored=none ∧ s.lock=none

/-- Nobody but one transaction has stored the row. -/
def OnlyOf (s : RowRun P) (T : TransactionId) : Prop := s.Absent ∨ s.lock=some (T,none)

/-- Nothing is stored back where nothing was. -/
theorem store_absent {W : TransactionId} (h : s.Absent) (hs : s.store W none=some s') :
    s'=s := by
  rw [store,if_pos h.1.symm] at hs
  exact (Option.some.inj hs).symm

/-- Nothing is stamped. -/
theorem stamped_absent (h : s.Absent) (W : TransactionId) (ts : ℕ) : s.stamped W ts=none := by
  rw [stamped,h.1]
  rfl

/-- Only an insert stores a row that nobody has stored. -/
theorem step_absent (h : s.Absent) (hs : s.step act=some s')
    (hact : ∀ W row, act≠.insert W row) : s'.Absent := by
  cases step_did hs with
  | managed _ _ => exact h
  | finished _ _ => exact h
  | reserved _ => exact h
  | inserted _ => exact absurd rfl (hact _ _)
  | updated _ hstored _ _ => exact absurd (h.1.symm.trans hstored) nofun
  | deleted _ hstored _ _ => exact absurd (h.1.symm.trans hstored) nofun
  | purged hstored _ => exact absurd (h.1.symm.trans hstored) nofun
  | stamped _ _ hstore =>
    rw [stamped_absent h] at hstore
    rw [store_absent h hstore]
    exact h
  | published _ _ hstore =>
    rw [stamped_absent h] at hstore
    obtain rfl := store_absent h hstore
    exact ⟨h.1,by rw [h.2]; rfl⟩
  | undone hlock => exact absurd (h.2.symm.trans hlock) nofun

/-- A write under the lock of a transaction leaves it the lock. -/
theorem store_lock {W : TransactionId} {stored : Option StoredRow} {lock}
    (h : s.lock=some lock) (hs : s.store W stored=some s') : s'.lock=some lock := by
  rcases store_some hs with ⟨-,rfl⟩ | ⟨-,rfl⟩
  · exact h
  · rw [write,h]
    rfl

/-- The steps of others leave a transaction its row, and its own steps do until it hands its
pages over. -/
theorem step_own (h : s.lock=some (T,none)) (hs : s.step act=some s') (hact : act≠.publish T) :
    s'.OnlyOf T := by
  cases step_did hs with
  | managed _ _ => exact .inr h
  | finished _ _ => exact .inr h
  | reserved _ => exact .inr h
  | inserted hstore => exact .inr (store_lock h hstore)
  | updated _ _ _ hstore => exact .inr (store_lock h hstore)
  | deleted _ _ _ hstore => exact .inr (store_lock h hstore)
  | purged _ hstore => exact .inr (store_lock h hstore)
  | stamped _ _ hstore => exact .inr (store_lock h hstore)
  | @published W _ _ q _ _ hstore =>
    have hne : T≠W := fun hT => hact (by rw [hT])
    refine .inr ?_
    rw [store_lock h hstore]
    exact if_pos (decide_eq_true hne)
  | undone hlock =>
    obtain ⟨rfl,rfl⟩ := Prod.mk.inj (Option.some.inj (h.symm.trans hlock))
    exact .inl ⟨rfl,rfl⟩

/-- A transaction stores the first version of a row that nobody else has stored. -/
theorem insert_own {row : Row} (h : s.OnlyOf T) (hs : s.step (.insert T row)=some s') :
    s'.OnlyOf T := by
  rcases h with habsent | hown
  · simp only [step,Option.bind_eq_bind,Option.bind_eq_some_iff] at hs
    obtain ⟨txn,-,hs⟩ := hs
    rw [if_pos habsent.1] at hs
    rcases store_some hs with ⟨hsame,rfl⟩ | ⟨-,rfl⟩
    · exact .inl habsent
    · refine .inr ?_
      rw [write,habsent.1,habsent.2]
      rfl
  · exact step_own hown hs fun h => by cases h

/-- Others leave it so, and the transaction itself does until it hands its pages over. -/
theorem OnlyOf.step (h : s.OnlyOf T) (hs : s.step act=some s')
    (hinsert : ∀ W row, act≠.insert W row) (hpublish : act≠.publish T) : s'.OnlyOf T :=
  h.elim (fun habsent => .inl (step_absent habsent hs hinsert)) fun hown =>
    step_own hown hs hpublish

/-- The rollback of the only transaction that has stored the row leaves none. -/
theorem undo_own (h : s.OnlyOf T) (hs : s.step (.undo T)=some s') : s'.Absent := by
  rcases h with habsent | hown
  · exact step_absent habsent hs fun _ _ h => by cases h
  · simp only [step,Option.bind_eq_bind,Option.bind_eq_some_iff,hown] at hs
    obtain ⟨txn,-,hs⟩ := hs
    rw [if_pos trivial] at hs
    obtain rfl := Option.some.inj hs
    exact ⟨rfl,rfl⟩

/-- Where nothing is stored nothing is read. -/
theorem getRow_absent {txn : TxnState P} (hc : s.caller T=some txn) (h : s.stored=none) :
    ∃ q, s.getRow T=some (none,q) := by
  have hread : ∀ S, readRow s.stored T S=none := by
    intro S
    rw [h]
    rfl
  simp only [getRow,hc,Option.bind_eq_bind,Option.bind_some]
  split
  · obtain ⟨-,hget,-⟩ := caller_some hc
    rw [manage,refreshSnapshot_eq hget,Option.bind_some,hread]
    exact ⟨_,rfl⟩
  · rw [hread]
    exact ⟨_,rfl⟩

end RowRun

namespace TableRun

variable {P : Type} {s s' : TableRun P} {act : TableAct} {c : TableCall} {T : TransactionId}

/-- The catalog leads to the row's tree, a table that is not there has no row, and one that a
running transaction has created has only that transaction's. -/
structure Placed (s : TableRun P) : Prop where
  inPlace : s.roots.InPlace
  absent : s.roots.tree=none → s.row.Absent
  created : ∀ T, s.roots.grown=some (T,none) → s.roots.exclusive=some T ∧ s.row.OnlyOf T

/-- The table is in place at first. -/
theorem Placed.start (nextTxnId : ℕ) (root : Option PageId) :
    (start nextTxnId root : TableRun P).Placed :=
  ⟨rfl,fun _ => ⟨rfl,rfl⟩,fun _ h => nomatch h⟩

/-- What a step on the row needs of the table to leave it in place. -/
theorem Placed.row_step (h : s.Placed) {rowAct : RowAct} (hadmits : s.admits rowAct)
    {row : RowRun P} (hrow : s.row.step rowAct=some row) :
    (s.roots.tree=none → row.Absent) ∧ ∀ T, s.roots.grown=some (T,none) →
      rowAct≠.publish T → row.OnlyOf T := by
  constructor
  · intro htree
    refine RowRun.step_absent (h.absent htree) hrow ?_
    rintro W found rfl
    -- no table, no insert
    rw [admits,show s.roots.root=none from h.inPlace.trans htree] at hadmits
    cases hadmits
  · intro T hgrown hpublish
    obtain ⟨hexclusive,honly⟩ := h.created T hgrown
    cases rowAct with
    | insert W found =>
      rw [admits,open',hexclusive,Bool.and_eq_true] at hadmits
      obtain rfl : T=W := of_decide_eq_true hadmits.2
      exact RowRun.insert_own honly hrow
    | _ => exact honly.step hrow (fun _ _ h => by cases h) hpublish

/-- Who has created the table and not ended is not the one whose locks are freed. -/
theorem freed_created {roots : TableRoots} {W : TransactionId}
    (hgrown : (roots.freed W).grown=some (T,none)) :
    roots.grown=some (T,none) ∧ T≠W ∧
      (roots.exclusive=some T → (roots.freed W).exclusive=some T) := by
  obtain ⟨hgrown,hne⟩ := Option.filter_eq_some_iff.mp hgrown
  refine ⟨hgrown,of_decide_eq_true hne,fun hexclusive => ?_⟩
  exact Option.filter_eq_some_iff.mpr ⟨hexclusive,hne⟩

/-- Another root for the table: who has created it had done so before, or does it now. -/
theorem grow_created {roots : TableRoots} {W : TransactionId} (root : Option PageId)
    (hgrown : (roots.grow W root).grown=some (T,none)) :
    roots.grown=some (T,none) ∨ (T=W ∧ roots.tree=none) := by
  have hgot : roots.grown.getD (W,roots.tree)=(T,none) := Option.some.inj hgrown
  cases hwas : roots.grown with
  | none =>
    rw [hwas] at hgot
    exact .inr ⟨(Prod.mk.inj hgot).1.symm,(Prod.mk.inj hgot).2⟩
  | some grown =>
    rw [hwas] at hgot
    exact .inl (congrArg some hgot)

/-- A rollback leaves no table that was none before it. -/
theorem before_none {changed : Option (TransactionId × Option PageId)} {W : TransactionId}
    {now : Option PageId} (h : TableRoots.before changed W now=none) :
    changed=some (W,none) ∨ now=none := by
  cases hfilter : changed.filter fun change => change.1=W with
  | none =>
    rw [TableRoots.before,hfilter] at h
    exact .inr h
  | some change =>
    obtain ⟨hchanged,hid⟩ := Option.filter_eq_some_iff.mp hfilter
    rw [TableRoots.before,hfilter] at h
    exact .inl (hchanged.trans (congrArg some (Prod.ext (of_decide_eq_true hid) h)))

/-- A careful step leaves the row in its table. -/
theorem Placed.step (h : s.Placed) (hs : s.step act=some s') (hcare : s.Careful act) :
    s'.Placed := by
  obtain ⟨hin,hfollows⟩ := step_follows h.inPlace hs hcare
  -- a step that changes neither the row nor the tree nor who holds the table
  have hstill : s'.row=s.row → s'.roots.tree=s.roots.tree → s'.roots.grown=s.roots.grown →
      s'.roots.exclusive=s.roots.exclusive → s'.Placed := by
    intro hrow htree hgrown hexclusive
    refine ⟨hin,fun hnone => ?_,fun T hT => ?_⟩
    · rw [hrow]
      exact h.absent (htree ▸ hnone)
    · rw [hrow,hexclusive]
      exact h.created T (hgrown ▸ hT)
  cases act with
  | row rowAct =>
    obtain ⟨hadmits,hrow,hroots⟩ := row_acts hs
    obtain ⟨habsent,hcreated⟩ := h.row_step hadmits hrow
    have htree : s'.roots.tree=s.roots.tree := by
      rw [hroots]
      cases rowAct <;> rfl
    refine ⟨hin,fun hnone => habsent (htree ▸ hnone),fun T hT => ?_⟩
    rw [hroots] at hT ⊢
    cases rowAct with
    | publish W =>
      obtain ⟨hgrown,hne,hexclusive⟩ := freed_created hT
      refine ⟨hexclusive (h.created T hgrown).1,hcreated T hgrown fun he => hne ?_⟩
      injection he with hid
      exact hid.symm
    | _ => exact ⟨(h.created T hT).1,hcreated T hT fun he => by cases he⟩
  | openSession txnId =>
    obtain rfl := Option.some.inj hs
    exact hstill rfl rfl rfl rfl
  | neighbour txnId torn =>
    simp only [TableRun.step,Option.bind_eq_bind,Option.bind_eq_some_iff] at hs
    obtain ⟨txn,-,hs⟩ := hs
    split at hs
    · obtain rfl := Option.some.inj hs
      exact hstill hfollows rfl rfl rfl
    · cases hs
  | grow txnId root =>
    simp only [TableRun.step,Option.bind_eq_bind,Option.bind_eq_some_iff] at hs
    obtain ⟨txn,-,hs⟩ := hs
    split at hs
    · next hcond =>
      obtain rfl := Option.some.inj hs
      have htree : (s.roots.grow txnId (some root)).tree=some root := if_pos h.inPlace
      refine ⟨hin,fun hnone => ?_,fun T hT => ?_⟩
      · cases htree.symm.trans hnone
      · rcases grow_created (some root) hT with hgrown | ⟨-,hnone⟩
        · exact h.created T hgrown
        · rw [h.inPlace.trans hnone] at hcond
          cases hcond.1
    · cases hs
  | addColumn txnId defaultValue normalize =>
    simp only [TableRun.step,Option.bind_eq_bind,Option.bind_eq_some_iff] at hs
    obtain ⟨txn,-,hs⟩ := hs
    split at hs
    · next hopen =>
      obtain ⟨row,-,hs⟩ := Option.bind_eq_some_iff.mp hs
      obtain rfl := Option.some.inj hs
      obtain rfl : row=s.row := hfollows
      refine ⟨hin,h.absent,fun T hT => ?_⟩
      obtain ⟨hexclusive,honly⟩ := h.created T hT
      rw [open',hexclusive] at hopen
      exact ⟨congrArg some (of_decide_eq_true hopen).symm,honly⟩
    · cases hs
  | retable txnId root place =>
    simp only [TableRun.step,Option.bind_eq_bind,Option.bind_eq_some_iff] at hs
    obtain ⟨txn,-,hs⟩ := hs
    obtain ⟨-,-,rfl⟩ := hcare
    split at hs
    · next hcond =>
      obtain rfl := Option.some.inj hs
      refine ⟨hin,fun _ => ⟨rfl,rfl⟩,fun T hT => ⟨?_,.inl ⟨rfl,rfl⟩⟩⟩
      rcases grow_created root hT with hgrown | ⟨rfl,-⟩
      · rw [hgrown] at hcond
        exact congrArg some (of_decide_eq_true hcond.2).symm
      · rfl
    · cases hs
  | reload txnId same place =>
    simp only [TableRun.step,Option.bind_eq_bind,Option.bind_eq_some_iff] at hs
    obtain ⟨txn,-,hs⟩ := hs
    split at hs
    · obtain rfl := Option.some.inj hs
      exact hstill hfollows rfl rfl rfl
    · obtain rfl := Option.some.inj hs
      exact h
  | storeCatalog txnId =>
    simp only [TableRun.step,Option.bind_eq_bind,Option.bind_eq_some_iff] at hs
    obtain ⟨txn,-,hs⟩ := hs
    split at hs
    · obtain rfl := Option.some.inj hs
      exact hstill rfl rfl rfl rfl
    · cases hs
  | undo txnId place =>
    have hundo : s.row.step (.undo txnId)=some s'.row := hfollows.2
    have hroots : s'.roots=s.roots.undone txnId := by
      obtain ⟨row,-,rfl⟩ := Option.map_eq_some_iff.mp hs
      rfl
    rw [show s'=⟨s'.row,s'.roots⟩ from rfl,hroots] at hin ⊢
    refine ⟨hin,fun hnone => ?_,fun T hT => ?_⟩
    · rcases before_none hnone with hgrown | htree
      · exact RowRun.undo_own (h.created txnId hgrown).2 hundo
      · exact RowRun.step_absent (h.absent htree) hundo fun _ _ he => by cases he
    · obtain ⟨hgrown,-,hexclusive⟩ := freed_created hT
      obtain ⟨hheld,honly⟩ := h.created T hgrown
      exact ⟨hexclusive hheld,honly.step hundo (fun _ _ he => by cases he) fun he => by cases he⟩
  | victim txnId place =>
    have habort : s.row.step (.abort txnId)=some s'.row := hfollows.2
    have hroots : s'.roots=s.roots.freed txnId := by
      simp only [TableRun.step,Option.bind_eq_bind,Option.bind_eq_some_iff] at hs
      obtain ⟨txn,-,⟨u,row⟩,-,hs⟩ := hs
      exact congrArg TableRun.roots (Option.some.inj hs).symm
    rw [show s'=⟨s'.row,s'.roots⟩ from rfl,hroots] at hin ⊢
    refine ⟨hin,fun hnone => ?_,fun T hT => ?_⟩
    · exact RowRun.step_absent (h.absent hnone) habort fun _ _ he => by cases he
    · obtain ⟨hgrown,-,hexclusive⟩ := freed_created hT
      obtain ⟨hheld,honly⟩ := h.created T hgrown
      exact ⟨hexclusive hheld,honly.step habort (fun _ _ he => by cases he) fun he => by cases he⟩
  | forgive txnId place =>
    obtain rfl := Option.some.inj hs
    exact hstill hfollows rfl rfl rfl

/-- It stays so along careful steps. -/
theorem Placed.run (h : s.Placed) (hrun : Relation.ReflTransGen CarefulStep s s') :
    s'.Placed := by
  induction hrun with
  | refl => exact h
  | tail _ hstep ih =>
    obtain ⟨act,hcare,hs⟩ := hstep
    exact ih.step hs hcare

/-- Steps that are careful in whatever state form a run. -/
theorem steps_careful {acts : List TableAct}
    (hcare : ∀ act∈acts, ∀ q : TableRun P, q.Careful act) (hs : steps acts s=some s') :
    Relation.ReflTransGen CarefulStep s s' := by
  induction acts generalizing s with
  | nil =>
    obtain rfl := Option.some.inj hs
    exact .refl
  | cons act rest ih =>
    obtain ⟨q,hq,hrest⟩ := steps_cons hs
    have htail := ih (fun a ha => hcare a (List.mem_cons_of_mem _ ha)) hrest
    exact .head ⟨act,hcare act List.mem_cons_self s,hq⟩ htail

/-- The steps of a careful call form a careful run. -/
theorem call_careful (hcare : s.CallCareful c) (hs : s.call c=some s') :
    Relation.ReflTransGen CarefulStep s s' := by
  -- a first careful step and steps that are always careful
  have hfirst : ∀ {act : TableAct} {rest : List TableAct}, steps (act::rest) s=some s' →
      s.Careful act → (∀ a∈rest, ∀ q : TableRun P, q.Careful a) →
      Relation.ReflTransGen CarefulStep s s' := by
    intro act rest hsteps hact hrest
    obtain ⟨q,hq,htail⟩ := steps_cons hsteps
    exact .head ⟨act,hact,hq⟩ (steps_careful hrest htail)
  cases c with
  | row c =>
    cases c with
    | update W row => exact hfirst hs hcare (by simp)
    | delete W => exact hfirst hs hcare (by simp)
    | failedCommit W stamped =>
      cases stamped <;>
        exact steps_careful (by simp [TableCall.acts,RowCall.acts,Careful,RowRun.EditsLatest]) hs
    | _ => exact steps_careful (by simp [TableCall.acts,RowCall.acts,Careful,RowRun.EditsLatest]) hs
  | plan txnId same place =>
    obtain ⟨q,hq,hrest⟩ := steps_cons hs
    obtain ⟨row,-,rfl⟩ := Option.map_eq_some_iff.mp hq
    exact .head ⟨.row (.refresh txnId),trivial,hq⟩
      (.single ⟨.reload txnId same place,hcare,steps_one hrest⟩)
  | rollback txnId place => exact hfirst hs hcare (by simp [Careful,RowRun.EditsLatest])
  | begin' isolationLevel => exact hfirst hs trivial (by simp [Careful])
  | commit txnId => exact hfirst hs trivial (by simp [Careful,RowRun.EditsLatest])
  | failedCommit txnId => exact hfirst hs trivial (by simp [Careful,RowRun.EditsLatest])
  | grow txnId root => exact hfirst hs trivial (by simp)
  | _ => exact hfirst hs hcare (by simp)

/-- And along careful calls. -/
theorem Placed.calls (h : s.Placed) (hrun : Relation.ReflTransGen CarefulCall s s') :
    s'.Placed := by
  induction hrun with
  | refl => exact h
  | tail _ hcall ih =>
    obtain ⟨c,hcare,hs⟩ := hcall
    exact ih.run (call_careful hcare hs)

/-! ## Reads -/

/-- `get_row`: without its table there is no row. `scan_rows` reads each row of the tree in
the same way. -/
def getRow (txnId : TransactionId) (s : TableRun P) : Option (Option Row × RowRun P) := do
  let _ ← s.row.caller txnId
  if s.open' txnId then
    if s.roots.root.isSome then s.row.getRow txnId else some (none,s.row)
  else none

/-- In place, `get_row` returns what a read of the row returns. -/
theorem Placed.getRow_row (h : s.Placed) {value : Option Row} {q : RowRun P}
    (hr : s.getRow T=some (value,q)) : ∃ q', s.row.getRow T=some (value,q') := by
  simp only [getRow,Option.bind_eq_bind,Option.bind_eq_some_iff] at hr
  obtain ⟨txn,hc,hr⟩ := hr
  split at hr
  · split at hr
    · exact ⟨q,hr⟩
    · next hroot =>
      obtain ⟨rfl,-⟩ := Prod.mk.inj (Option.some.inj hr)
      have hnone : s.roots.tree=none := h.inPlace.symm.trans (by simpa using hroot)
      exact RowRun.getRow_absent hc (h.absent hnone).1
  · cases hr

end TableRun

/-- A row in its table with the abstract account of the row. -/
structure TracedTable (P : Type) where
  traced : TracedRow P
  roots : TableRoots

namespace TracedTable

variable {P : Type} {g g' : TracedTable P} {c : TableCall}

/-- The row and its table. -/
def table (g : TracedTable P) : TableRun P := ⟨g.traced.run,g.roots⟩

/-- A database just opened, without the row. -/
def start (nextTxnId : ℕ) (root : Option PageId) : TracedTable P :=
  ⟨.start nextTxnId,(TableRun.start nextTxnId root : TableRun P).roots⟩

/-- The account after a call that left `run`: calls that are none on the row change nothing of
what was written or seen. -/
def account (g : TracedTable P) (run : RowRun P) (c : TableCall) : TracedRow P :=
  match c.rowCall with
  | some c => g.traced.account run c
  | none => {g.traced with run := run}

/-- So it is with the account. -/
theorem start_placed (nextTxnId : ℕ) (root : Option PageId) :
    (start nextTxnId root : TracedTable P).table.Placed :=
  TableRun.Placed.start nextTxnId root

/-- One call. -/
def call (c : TableCall) (g : TracedTable P) : Option (TracedTable P) :=
  (g.table.call c).map fun table => ⟨g.account table.row c,table.roots⟩

/-- The careful calls, with the purge removing only dead versions. -/
def Sound (g : TracedTable P) : TableCall → Prop
  | .row .purge => g.traced.run.PurgesDead
  | c => g.table.CallCareful c

/-- A sound call. -/
def SoundCall (g g' : TracedTable P) : Prop := ∃ c, g.Sound c ∧ g.call c=some g'

/-- A sound call is careful. -/
theorem Sound.careful (h : g.Sound c) : g.table.CallCareful c := by
  unfold Sound at h
  split at h
  · exact trivial
  · exact h

/-- A sound call is a careful one, and a sound call on the row or none. -/
theorem soundCall_traced (h : g.table.Placed) (hsound : g.Sound c) (hs : g.call c=some g') :
    g'.table.Placed ∧ Relation.ReflTransGen TracedRow.SoundCall g.traced g'.traced := by
  obtain ⟨table,htable,rfl⟩ := Option.map_eq_some_iff.mp hs
  obtain ⟨hin,hrow⟩ := TableRun.call_follows h.inPlace hsound.careful htable
  have hsame : (⟨g.account table.row c,table.roots⟩ : TracedTable P).table=table := by
    have hrun : (g.account table.row c).run=table.row := by
      unfold account
      split
      · exact TracedRow.account_run _ _ _
      · rfl
    rw [TracedTable.table,hrun]
  rw [hsame]
  refine ⟨h.calls (.single ⟨c,hsound.careful,htable⟩),?_⟩
  cases hc : c.rowCall with
  | none =>
    rw [hc] at hrow
    have htraced : g.account table.row c=g.traced := by
      rw [account,hc,show table.row=g.traced.run from hrow]
    rw [htraced]
  | some found =>
    rw [hc] at hrow
    have hlatest : g.traced.Sound found := by
      cases found with
      | purge =>
        cases c with
        | row c =>
          obtain rfl := Option.some.inj hc
          exact hsound
        | _ => cases hc
      | _ => exact hrow.1
    refine .single ⟨found,hlatest,?_⟩
    rw [TracedRow.call,show g.traced.run.call found=some table.row from hrow.2,account,hc]
    rfl

/-- A run of sound calls keeps the row in its table and is a run of sound calls on the row. -/
theorem sound_run (h : g.table.Placed) (hrun : Relation.ReflTransGen SoundCall g g') :
    g'.table.Placed ∧ Relation.ReflTransGen TracedRow.SoundCall g.traced g'.traced := by
  induction hrun with
  | refl => exact ⟨h,.refl⟩
  | tail _ hcall ih =>
    obtain ⟨c,hsound,hs⟩ := hcall
    obtain ⟨hplaced,hrow⟩ := soundCall_traced ih.1 hsound hs
    exact ⟨hplaced,ih.2.trans hrow⟩

/-- What a transaction above read-committed has not written it reads alike for all its life,
and the purge removes nothing a snapshot in use sees. -/
def Repeatable (g : TracedTable P) : Prop :=
  (∀ g' T txn value value' s s', Relation.ReflTransGen SoundCall g g' →
    g.traced.run.caller T=some txn → txn.isolationLevel≠.readCommitted →
    g.traced.written T=none → g'.traced.written T=none →
    g.table.getRow T=some (value,s) → g'.table.getRow T=some (value',s') → value'=value) ∧
  ∀ g', g.Sound (.row .purge) → g.call (.row .purge)=some g' →
    ∀ v∈versionsOf g.traced.run.stored, ∀ r S, g.traced.run.manager.Holds r S →
      v.visible r S → v∈versionsOf g'.traced.run.stored

/-- A call purges. -/
def purges : TableCall → Bool
  | .row .purge => true
  | _ => false

/-- A careful call that purges nothing is sound. -/
theorem Sound.of_careful (hpurges : purges c=false) (hcare : g.table.CallCareful c) :
    g.Sound c := by
  unfold Sound
  split
  · cases hpurges
  · exact hcare

/-- A sequence of careful calls without a purge. -/
def carefulCalls : List TableCall → TracedTable P → Option (TracedTable P)
  | [], g => some g
  | c::rest, g =>
    if purges c=false ∧ g.table.CallCareful c then (g.call c).bind (carefulCalls rest) else none

/-- Calls that pass the test are a run of sound calls. -/
theorem carefulCalls_run {calls : List TableCall} (h : carefulCalls calls g=some g') :
    Relation.ReflTransGen SoundCall g g' := by
  induction calls generalizing g with
  | nil =>
    obtain rfl := Option.some.inj h
    exact .refl
  | cons c rest ih =>
    rw [carefulCalls] at h
    split at h
    · next hcare =>
      obtain ⟨q,hq,hrest⟩ := Option.bind_eq_some_iff.mp h
      exact .head ⟨c,.of_careful hcare.1 hcare.2,hq⟩ (ih hrest)
    · cases h

/-- A row is inserted and committed, and transaction 2 takes its snapshot. -/
def firstCalls (reader : IsolationLevel) : List TableCall :=
  [.begin' .repeatableRead,.row (.insert 1 [.integer 1]),.commit 1,.begin' reader]

/-- Transaction 3 splits the table's root for another row and goes back, and 4 splits it,
updates the row and commits. -/
def laterCalls : List TableCall :=
  [.begin' .repeatableRead,.neighbour 3 none,.grow 3 8,.rollback 3 (none,none),
    .begin' .repeatableRead,.grow 4 9,.row (.update 4 [.integer 2]),.commit 4]

/-- A sequence of calls. -/
def calls : List TableCall → TracedTable P → Option (TracedTable P)
  | [], g => some g
  | c::rest, g => (g.call c).bind (calls rest)

/-- A row is inserted; transactions 2 and 3 take their snapshots; 2 deletes the row and
commits, and transaction 4 begins after that. -/
def deletedRow (reader : IsolationLevel) : List TableCall :=
  [.begin' .repeatableRead,.row (.insert 1 [.integer 1]),.commit 1,
    .begin' .repeatableRead,.begin' .repeatableRead,.row (.delete 2),.commit 2,.begin' reader]

/-- What `get_row` returns to a transaction that has not written the row. -/
def CleanReads (g : TracedTable P) : Prop :=
  ∀ R value s, g.traced.written R=none → g.table.getRow R=some (value,s) →
    ∃ txn, g.traced.run.caller R=some txn ∧
      value=if txn.isolationLevel=.readCommitted then g.traced.committed else g.traced.seen R

end TracedTable

end RustSql.V2
