import RustSql.V2.RowRun

/-!
# Version lists and snapshots

The lifetimes of the versions in a list do not overlap: a version is closed by
the transaction that put the next one in front of it, or by one that had
finished before. `ListInv` states this against the snapshots in use, so that it
says directly which versions a snapshot can see, and every step of the engine
keeps it as long as updates and deletes replace only versions whose deletion
no commit has stamped.
-/

namespace RustSql.V2

open TxnManager

/-- The snapshot sees the commits of a transaction up to a timestamp. -/
def Sees (snapshot : TxnSnapshot) (txnId commitTs : ℕ) : Prop :=
  commitTs ≤ snapshot.visibleUpTo ∧ txnId∉snapshot.activeTxns

/-- The commit is over: every snapshot taken from now on sees it. -/
def Settled {P : Type} (m : TxnManager P) (txnId commitTs : ℕ) : Prop :=
  commitTs ≤ m.nextCommitTs ∧ txnId < max m.nextTxnId 1 ∧ ¬m.Active txnId

/-- The version carries a commit stamp of the transaction. -/
def RowVersion.Stamped (v : RowVersion) (txnId commitTs : ℕ) : Prop :=
  (v.createdByTxn=txnId ∧ v.createdCommitTs=some commitTs) ∨
    (v.deletedByTxn=some txnId ∧ v.deletedCommitTs=some commitTs)

/-- The version carries a mark of the transaction that is not stamped yet. -/
def RowVersion.Marked (v : RowVersion) (txnId : ℕ) : Prop :=
  (v.createdByTxn=txnId ∧ v.createdCommitTs=none) ∨
    (v.deletedByTxn=some txnId ∧ v.deletedCommitTs=none)

/-! ## Visibility in terms of stamps -/

variable {v : RowVersion} {r : TransactionId} {S : TxnSnapshot}

theorem creatorVisible_iff :
    v.creatorVisible r S ↔ (∃ ts, v.createdCommitTs=some ts ∧ Sees S v.createdByTxn ts) ∨
      (v.createdCommitTs=none ∧ v.createdByTxn=r) := by
  unfold RowVersion.creatorVisible versionVisibleToSnapshot Sees
  cases v.createdCommitTs with
  | none => simp
  | some ts => simp

theorem deletedInSnapshot_iff :
    v.deletedInSnapshot r S ↔
      ∃ d ts, v.deletedByTxn=some d ∧ v.deletedCommitTs=some ts ∧ Sees S d ts := by
  unfold RowVersion.deletedInSnapshot versionVisibleToSnapshot Sees
  cases v.deletedByTxn with
  | none => simp
  | some d =>
    cases v.deletedCommitTs with
    | none => simp
    | some ts => simp

theorem visible_iff :
    v.visible r S ↔ v.creatorVisible r S ∧ v.deletedByTxn≠some r ∧ ¬v.deletedInSnapshot r S := by
  unfold RowVersion.visible
  simp only [Bool.and_eq_true,decide_eq_true_eq,Bool.not_eq_true',Bool.not_eq_true,and_assoc]

/-- A new snapshot sees what is settled. -/
theorem Settled.sees {P : Type} {m m' : TxnManager P} {w ts : ℕ} (h : Settled m w ts)
    (ha : Advances m m') (hS : m'.Current r S) :
    Sees S w ts := by
  obtain ⟨hts,hw,hact⟩ := h
  refine ⟨?_,fun hmem => ?_⟩
  · rw [hS.1]
    exact hts.trans ha.clock
  · exact hact (ha.active hw ((hS.2 w).mp hmem).1)

theorem Settled.advance {P : Type} {m m' : TxnManager P} {w ts : ℕ} (h : Settled m w ts)
    (ha : Advances m m') : Settled m' w ts := by
  obtain ⟨hts,hw,hact⟩ := h
  exact ⟨hts.trans ha.clock,hw.trans_le ha.ids,fun h => hact (ha.active hw h)⟩

/-! ## The invariant of a version list -/

/-- Version `b` stands behind `a` and is closed for everyone who sees `a`: by
`a`'s own transaction, or by one whose commit is over. -/
def Closes {P : Type} (m : TxnManager P) (a b : RowVersion) : Prop :=
  ∃ d, b.deletedByTxn=some d ∧
    ((d=a.createdByTxn ∧ ∀ ta, a.createdCommitTs=some ta →
        ∃ tb, b.deletedCommitTs=some tb ∧ tb ≤ ta) ∨
      ∃ tb, b.deletedCommitTs=some tb ∧ Settled m d tb ∧
        ∀ r S, m.Holds r S → a.creatorVisible r S → Sees S d tb)

/-- A deletion is the creator's own or came after the creator's commit. -/
def Ordered {P : Type} (m : TxnManager P) (v : RowVersion) : Prop :=
  ∀ d, v.deletedByTxn=some d →
    (v.createdByTxn=d ∧ (v.deletedCommitTs.isSome → v.createdCommitTs.isSome)) ∨
      ∃ ts, v.createdCommitTs=some ts ∧ Settled m v.createdByTxn ts

/-- What is known of a stamp: it is in the past, and while its transaction runs
it hides from everyone else. -/
structure StampInv {P : Type} (s : RowRun P) (owner : Option TransactionId) (w ts : ℕ) :
    Prop where
  clock : ts ≤ s.manager.nextCommitTs
  known : w < max s.manager.nextTxnId 1
  owned : s.manager.Active w → owner=some w ∨ w∈s.published
  latest : s.manager.Active w → ∃ t, s.reserved w=some t ∧ ts ≤ t
  hidden : s.manager.Active w → ∀ r S, s.manager.Holds r S → r≠w → ¬Sees S w ts

/-- The invariant of a version list; `owner` is the transaction that may have
unstamped marks in it. -/
structure ListInv {P : Type} (s : RowRun P) (owner : Option TransactionId)
    (versions : List RowVersion) : Prop where
  stamp : ∀ v∈versions, ∀ w ts, v.Stamped w ts → StampInv s owner w ts
  mark : ∀ v∈versions, ∀ w, v.Marked w → owner=some w
  deleted : ∀ v∈versions, v.deletedCommitTs.isSome → v.deletedByTxn.isSome
  ordered : ∀ v∈versions, Ordered s.manager v
  pairs : versions.Pairwise (Closes s.manager)

section Lists

variable {P : Type} {s s' : RowRun P} {owner : Option TransactionId}
  {versions : List RowVersion}

variable {r : TransactionId} {S : TxnSnapshot} {v : RowVersion} {rest : List RowVersion}
    {T ts ta tb : ℕ}

/-- Two versions of a list are never visible to one snapshot in use. -/
theorem Closes.not_both {m : TxnManager P} {a b : RowVersion} (h : Closes m a b) (hS : m.Holds r S)
    (ha : a.visible r S) :
    ¬b.visible r S := by
  intro hb
  obtain ⟨hca,-,-⟩ := visible_iff.mp ha
  obtain ⟨-,hnd,hnh⟩ := visible_iff.mp hb
  obtain ⟨d,hd,⟨rfl,hown⟩ | ⟨tb,htb,-,hsee⟩⟩ := h
  · rcases creatorVisible_iff.mp hca with ⟨ta,hta,hs⟩ | ⟨hnone,rfl⟩
    · obtain ⟨tb,htb,hle⟩ := hown ta hta
      exact hnh (deletedInSnapshot_iff.mpr ⟨_,tb,hd,htb,hle.trans hs.1,hs.2⟩)
    · exact hnd hd
  · exact hnh (deletedInSnapshot_iff.mpr ⟨d,tb,hd,htb,hsee r S hS hca⟩)

/-- A list of which no two elements pass a test has at most one that does. -/
theorem filter_length_le_one {α : Type} {test : α → Bool} {xs : List α}
    (h : xs.Pairwise fun a b => test a → ¬test b) : (xs.filter test).length ≤ 1 := by
  induction xs with
  | nil => exact Nat.zero_le 1
  | cons x xs ih =>
    obtain ⟨hx,hxs⟩ := List.pairwise_cons.mp h
    rw [List.filter_cons]
    split
    · next ht =>
      have hnone : xs.filter test=[] := List.filter_eq_nil_iff.mpr fun y hy => hx y hy ht
      rw [hnone]
      exact le_refl 1
    · exact ih hxs

/-- At most one version of a list is visible to a snapshot in use. -/
theorem ListInv.one_visible (h : ListInv s owner versions) (hS : s.manager.Holds r S) :
    (versions.filter fun v => v.visible r S).length ≤ 1 :=
  filter_length_le_one (h.pairs.imp fun hc ha => hc.not_both hS ha)

/-- The invariant passes to a part of the list. -/
theorem ListInv.sublist {part : List RowVersion} (h : ListInv s owner versions)
    (hp : part.Sublist versions) : ListInv s owner part where
  stamp v hv := h.stamp v (hp.subset hv)
  mark v hv := h.mark v (hp.subset hv)
  deleted v hv := h.deleted v (hp.subset hv)
  ordered v hv := h.ordered v (hp.subset hv)
  pairs := h.pairs.sublist hp

/-- A free list may be handed to a writer. -/
theorem ListInv.own (h : ListInv s owner versions) {T : TransactionId}
    (ho : ∀ w, owner=some w → w=T) : ListInv s (some T) versions where
  stamp v hv w ts hs :=
    let hw := h.stamp v hv w ts hs
    { hw with owned := fun ha => (hw.owned ha).imp_left fun he => by rw [ho w he] }
  mark v hv w hm := by rw [ho w (h.mark v hv w hm)]
  deleted := h.deleted
  ordered := h.ordered
  pairs := h.pairs

/-- The list stays as it is while time moves on. -/
theorem ListInv.advance (h : ListInv s owner versions) (ha : Advances s.manager s'.manager)
    (hp : ∀ w∈s.published, s'.manager.Active w → w∈s'.published)
    (hr : ∀ w t, s.reserved w=some t → ∃ t', s'.reserved w=some t' ∧ t ≤ t') :
    ListInv s' owner versions where
  stamp v hv w ts hs := by
    have hw := h.stamp v hv w ts hs
    have hact : s'.manager.Active w → s.manager.Active w := ha.active hw.known
    refine ⟨hw.clock.trans ha.clock,hw.known.trans_le ha.ids,?_,?_,?_⟩
    · exact fun h => (hw.owned (hact h)).imp_right fun hm => hp w hm h
    · intro h
      obtain ⟨t,ht,hle⟩ := hw.latest (hact h)
      obtain ⟨t',ht',hle'⟩ := hr w t ht
      exact ⟨t',ht',hle.trans hle'⟩
    · intro h r S hS hne hsees
      rcases ha.holds hS with hold | hcur
      · exact hw.hidden (hact h) r S hold hne hsees
      · exact hsees.2 ((hcur.2 w).mpr ⟨h,hne.symm⟩)
  mark := h.mark
  deleted := h.deleted
  ordered v hv d hd := by
    refine (h.ordered v hv d hd).imp_right ?_
    rintro ⟨ts,hts,hset⟩
    exact ⟨ts,hts,hset.advance ha⟩
  pairs := by
    refine h.pairs.imp ?_
    rintro a b ⟨d,hd,hown | ⟨tb,htb,hset,hsee⟩⟩
    · exact ⟨d,hd,.inl hown⟩
    · refine ⟨d,hd,.inr ⟨tb,htb,hset.advance ha,fun r S hS hvis => ?_⟩⟩
      rcases ha.holds hS with hold | hcur
      · exact hsee r S hold hvis
      · exact hset.sees ha hcur

/-- Only the manager and the commits under way matter. -/
theorem ListInv.congr (h : ListInv s owner versions) (hm : s'.manager=s.manager)
    (hp : s'.published=s.published) (hr : s'.reserved=s.reserved) :
    ListInv s' owner versions := by
  obtain ⟨m,stored,lock,reserved,published⟩ := s
  obtain ⟨m',stored',lock',reserved',published'⟩ := s'
  simp only at hm hp hr
  subst hm hp hr
  exact
    { stamp := fun v hv w ts hs =>
        let hw := h.stamp v hv w ts hs
        ⟨hw.clock,hw.known,hw.owned,hw.latest,hw.hidden⟩
      mark := h.mark
      deleted := h.deleted
      ordered := h.ordered
      pairs := h.pairs }

/-! ## Edits of a list -/

theorem TxnManager.Holds.unique {m : TxnManager P} {S S' : TxnSnapshot}
    (h : m.Holds r S) (h' : m.Holds r S') : S=S' := by
  obtain ⟨txn,hget,-,rfl⟩ := h
  obtain ⟨txn',hget',-,rfl⟩ := h'
  rw [hget] at hget'
  rw [Option.some.inj hget']

/-- A version a running transaction sees was created by it or by a transaction
that is over. -/
theorem ListInv.creator_settled (h : ListInv s owner versions)
    (hv : v∈versions) {T : TransactionId} (hS : s.manager.Holds T S)
    (hc : v.creatorVisible T S) :
    v.createdByTxn=T ∨ ∃ ts, v.createdCommitTs=some ts ∧ Sees S v.createdByTxn ts ∧
      Settled s.manager v.createdByTxn ts := by
  by_cases hT : v.createdByTxn=T
  · exact .inl hT
  · rcases creatorVisible_iff.mp hc with ⟨ts,hts,hsees⟩ | ⟨-,he⟩
    · have hst := h.stamp v hv _ ts (.inl ⟨rfl,hts⟩)
      refine .inr ⟨ts,hts,hsees,hst.clock,hst.known,fun hact => ?_⟩
      exact hst.hidden hact T S hS (Ne.symm hT) hsees
    · exact absurd he hT

/-- The version a writer sees comes first, unless a commit has closed it. -/
theorem ListInv.target_first (h : ListInv s owner versions) {T : TransactionId}
    (ho : ∀ w, owner=some w → w=T)
    (hf : versions.find? (fun v => v.visible T S)=some v) (hl : v.deletedCommitTs=none) :
    v.visible T S ∧ ∃ rest, versions=v::rest := by
  obtain ⟨hv,front,rest,rfl,hfront⟩ := List.find?_eq_some_iff_append.mp hf
  refine ⟨hv,rest,?_⟩
  cases front with
  | nil => rfl
  | cons u front =>
    -- a version in front of `v` would be the writer's own and hide `v` from it
    exfalso
    have hpair : Closes s.manager u v :=
      List.rel_of_pairwise_cons h.pairs (by simp)
    obtain ⟨d,hd,⟨rfl,hown⟩ | ⟨tb,htb,-⟩⟩ := hpair
    · cases hu : u.createdCommitTs with
      | some ts =>
        obtain ⟨tb,htb,-⟩ := hown ts hu
        rw [hl] at htb
        cases htb
      | none =>
        have hmark := h.mark u (by simp) u.createdByTxn (.inl ⟨rfl,hu⟩)
        rw [ho _ hmark] at hd
        exact (visible_iff.mp hv).2.1 hd
    · rw [hl] at htb
      cases htb

/-- Marking the first version deleted keeps the invariant. -/
theorem ListInv.markDeleted {T : TransactionId} (h : ListInv s (some T) (v::rest))
    (hS : s.manager.Holds T S)
    (hc : v.creatorVisible T S) : ListInv s (some T) (v.markDeleted T::rest) where
  stamp u hu w ts hs := by
    rcases List.mem_cons.mp hu with rfl | hu
    · rcases hs with hs | ⟨-,hs⟩
      · exact h.stamp v (by simp) w ts (.inl hs)
      · cases hs
    · exact h.stamp u (by simp [hu]) w ts hs
  mark u hu w hm := by
    rcases List.mem_cons.mp hu with rfl | hu
    · rcases hm with hm | ⟨hm,-⟩
      · exact h.mark v (by simp) w (.inl hm)
      · exact hm
    · exact h.mark u (by simp [hu]) w hm
  deleted u hu hd := by
    rcases List.mem_cons.mp hu with rfl | hu
    · rfl
    · exact h.deleted u (by simp [hu]) hd
  ordered u hu d hd := by
    rcases List.mem_cons.mp hu with rfl | hu
    · obtain rfl : T=d := Option.some.inj hd
      rcases h.creator_settled (List.mem_cons_self) hS hc with he | ⟨ts,hts,-,hset⟩
      · exact .inl ⟨he,fun hd => absurd hd (by simp [RowVersion.markDeleted])⟩
      · exact .inr ⟨ts,hts,hset⟩
    · exact h.ordered u (by simp [hu]) d hd
  pairs := by
    obtain ⟨hfirst,hrest⟩ := List.pairwise_cons.mp h.pairs
    exact List.pairwise_cons.mpr ⟨hfirst,hrest⟩

/-- A new version in front of one its writer has just closed keeps the
invariant. -/
theorem ListInv.push {T : TransactionId} (h : ListInv s (some T) (v::rest))
    (hS : s.manager.Holds T S)
    (hc : v.creatorVisible T S) (hd : v.deletedByTxn=some T) (row : Row) :
    ListInv s (some T) (.fresh row T::v::rest) where
  stamp u hu w ts hs := by
    rcases List.mem_cons.mp hu with rfl | hu
    · rcases hs with ⟨-,hs⟩ | ⟨-,hs⟩ <;> cases hs
    · exact h.stamp u hu w ts hs
  mark u hu w hm := by
    rcases List.mem_cons.mp hu with rfl | hu
    · rcases hm with ⟨hm,-⟩ | ⟨hm,-⟩
      · exact congrArg some hm
      · cases hm
    · exact h.mark u hu w hm
  deleted u hu hd := by
    rcases List.mem_cons.mp hu with rfl | hu
    · cases hd
    · exact h.deleted u hu hd
  ordered u hu d hd := by
    rcases List.mem_cons.mp hu with rfl | hu
    · cases hd
    · exact h.ordered u hu d hd
  pairs := by
    obtain ⟨hfirst,-⟩ := List.pairwise_cons.mp h.pairs
    refine List.pairwise_cons.mpr ⟨fun b hb => ?_,h.pairs⟩
    rcases List.mem_cons.mp hb with rfl | hb
    · exact ⟨T,hd,.inl ⟨rfl,fun ta hta => absurd hta (by simp [RowVersion.fresh])⟩⟩
    · -- `b` is closed by `v`'s creator or before; the writer sees either
      have hfresh : ∀ r S', s.manager.Holds r S' → (RowVersion.fresh row T).creatorVisible r S' →
          r=T ∧ S'=S := by
        intro r S' hS' hvis
        rcases creatorVisible_iff.mp hvis with ⟨ts,hts,-⟩ | ⟨-,he⟩
        · cases hts
        · obtain rfl : T=r := he
          exact ⟨rfl,hS'.unique hS⟩
      obtain ⟨d,hbd,⟨rfl,hown⟩ | ⟨tb,htb,hset,hsee⟩⟩ := hfirst b hb
      · rcases h.creator_settled (List.mem_cons_self) hS hc with he | ⟨ts,hts,hsees,hset⟩
        · exact ⟨T,he ▸ hbd,.inl ⟨rfl,fun ta hta => absurd hta (by simp [RowVersion.fresh])⟩⟩
        · obtain ⟨tb,htb,hle⟩ := hown ts hts
          refine ⟨_,hbd,.inr ⟨tb,htb,⟨hle.trans hset.1,hset.2⟩,fun r S' hS' hvis => ?_⟩⟩
          obtain ⟨-,rfl⟩ := hfresh r S' hS' hvis
          exact ⟨hle.trans hsees.1,hsees.2⟩
      · refine ⟨d,hbd,.inr ⟨tb,htb,hset,fun r S' hS' hvis => ?_⟩⟩
        obtain ⟨rfl,rfl⟩ := hfresh r S' hS' hvis
        exact hsee _ _ hS hc

/-- A new row value in the first version keeps the invariant. -/
theorem ListInv.replaceRow (h : ListInv s owner (v::rest)) (row : Row) :
    ListInv s owner ({v with row := row}::rest) where
  stamp u hu w ts hs := by
    rcases List.mem_cons.mp hu with rfl | hu
    · exact h.stamp v (by simp) w ts hs
    · exact h.stamp u (by simp [hu]) w ts hs
  mark u hu w hm := by
    rcases List.mem_cons.mp hu with rfl | hu
    · exact h.mark v (by simp) w hm
    · exact h.mark u (by simp [hu]) w hm
  deleted u hu hd := by
    rcases List.mem_cons.mp hu with rfl | hu
    · exact h.deleted v (by simp) hd
    · exact h.deleted u (by simp [hu]) hd
  ordered u hu d hd := by
    rcases List.mem_cons.mp hu with rfl | hu
    · exact h.ordered v (by simp) d hd
    · exact h.ordered u (by simp [hu]) d hd
  pairs := by
    obtain ⟨hfirst,hrest⟩ := List.pairwise_cons.mp h.pairs
    exact List.pairwise_cons.mpr ⟨hfirst,hrest⟩

/-- A single new version satisfies the invariant. -/
theorem ListInv.single (s : RowRun P) (row : Row) (T : TransactionId) :
    ListInv s (some T) [.fresh row T] where
  stamp u hu w ts hs := by
    obtain rfl := List.mem_singleton.mp hu
    rcases hs with ⟨-,hs⟩ | ⟨-,hs⟩ <;> cases hs
  mark u hu w hm := by
    obtain rfl := List.mem_singleton.mp hu
    rcases hm with ⟨hm,-⟩ | ⟨hm,-⟩
    · exact congrArg some hm
    · cases hm
  deleted u hu hd := by
    obtain rfl := List.mem_singleton.mp hu
    cases hd
  ordered u hu d hd := by
    obtain rfl := List.mem_singleton.mp hu
    cases hd
  pairs := List.pairwise_singleton _ _

/-! ## The stamps of a commit -/

/-- A creation stamp after a commit is old, or the commit's. -/
theorem finalize_created (h : (v.finalize T ts).createdCommitTs=some ta) :
    v.createdCommitTs=some ta ∨ (v.createdCommitTs=none ∧ v.createdByTxn=T ∧ ts=ta) := by
  simp only [RowVersion.finalize] at h
  split at h
  · next hc => exact .inr ⟨hc.2,hc.1,Option.some.inj h⟩
  · exact .inl h

/-- A deletion stamp after a commit is old, or the commit's. -/
theorem finalize_deleted (h : (v.finalize T ts).deletedCommitTs=some tb) :
    v.deletedCommitTs=some tb ∨
      (v.deletedCommitTs=none ∧ v.deletedByTxn=some T ∧ ts=tb) := by
  simp only [RowVersion.finalize] at h
  split at h
  · next hc => exact .inr ⟨hc.2,hc.1,Option.some.inj h⟩
  · exact .inl h

/-- A stamped deletion keeps its stamp. -/
theorem finalize_deleted_of_some (h : v.deletedCommitTs=some tb) :
    (v.finalize T ts).deletedCommitTs=some tb := by
  simp only [RowVersion.finalize,h]
  rw [if_neg (by simp)]

/-- A stamped creation keeps its stamp. -/
theorem finalize_created_of_some (h : v.createdCommitTs=some ta) :
    (v.finalize T ts).createdCommitTs=some ta := by
  simp only [RowVersion.finalize,h]
  rw [if_neg (by simp)]

/-- A mark that is left after a commit is another transaction's. -/
theorem finalize_marked {T ts w : ℕ} (h : (v.finalize T ts).Marked w) :
    v.Marked w ∧ w≠T := by
  rcases h with ⟨hby,hts⟩ | ⟨hby,hts⟩
  · simp only [RowVersion.finalize] at hby hts
    split at hts
    · cases hts
    · next hc => exact ⟨.inl ⟨hby,hts⟩,fun hw => hc ⟨hby.trans hw,hts⟩⟩
  · simp only [RowVersion.finalize] at hby hts
    split at hts
    · cases hts
    · next hc => exact ⟨.inr ⟨hby,hts⟩,fun hw => hc ⟨hby.trans (congrArg some hw),hts⟩⟩

/-- Without marks of the transaction a commit changes nothing. -/
theorem finalize_eq_self (h : ¬v.Marked T) : v.finalize T ts=v := by
  have hc : ¬(v.createdByTxn=T ∧ v.createdCommitTs=none) := fun hc => h (.inl hc)
  have hd : ¬(v.deletedByTxn=some T ∧ v.deletedCommitTs=none) := fun hd => h (.inr hd)
  unfold RowVersion.finalize
  rw [if_neg hc,if_neg hd]

/-- Stamping the lock holder's marks keeps the invariant. -/
theorem ListInv.finalize (h : ListInv s (some T) versions)
    (hstamp : StampInv s (some T) T ts) (hlast : s.reserved T=some ts)
    (hact : s.manager.Active T) :
    ListInv s (some T) (versions.map fun v => v.finalize T ts) where
  stamp u hu w t hs := by
    obtain ⟨v,hv,rfl⟩ := List.mem_map.mp hu
    rcases hs with ⟨hby,hts⟩ | ⟨hby,hts⟩
    · rcases finalize_created hts with hold | ⟨-,hT,rfl⟩
      · exact h.stamp v hv w t (.inl ⟨hby,hold⟩)
      · obtain rfl : T=w := hT.symm.trans hby
        exact hstamp
    · rcases finalize_deleted hts with hold | ⟨-,hT,rfl⟩
      · exact h.stamp v hv w t (.inr ⟨hby,hold⟩)
      · obtain rfl : T=w := Option.some.inj (hT.symm.trans hby)
        exact hstamp
  mark u hu w hm := by
    obtain ⟨v,hv,rfl⟩ := List.mem_map.mp hu
    exact h.mark v hv w (finalize_marked hm).1
  deleted u hu hd := by
    obtain ⟨v,hv,rfl⟩ := List.mem_map.mp hu
    obtain ⟨tb,htb⟩ := Option.isSome_iff_exists.mp hd
    rcases finalize_deleted htb with hold | ⟨-,hT,-⟩
    · exact h.deleted v hv (by rw [hold]; rfl)
    · exact Option.isSome_iff_exists.mpr ⟨T,hT⟩
  ordered u hu d hd := by
    obtain ⟨v,hv,rfl⟩ := List.mem_map.mp hu
    rcases h.ordered v hv d hd with ⟨he,himp⟩ | ⟨tc,htc,hset⟩
    · refine .inl ⟨he,fun hsome => ?_⟩
      obtain ⟨tb,htb⟩ := Option.isSome_iff_exists.mp hsome
      rcases finalize_deleted htb with hold | ⟨-,hT,-⟩
      · obtain ⟨tc,htc⟩ := Option.isSome_iff_exists.mp (himp (by rw [hold]; rfl))
        exact Option.isSome_iff_exists.mpr ⟨tc,finalize_created_of_some htc⟩
      · -- the creator is the committing transaction, so the creation is stamped too
        have hcT : v.createdByTxn=T := he.trans (Option.some.inj (hd.symm.trans hT))
        cases hc : v.createdCommitTs with
        | some tc => exact Option.isSome_iff_exists.mpr ⟨tc,finalize_created_of_some hc⟩
        | none =>
          simp only [RowVersion.finalize]
          rw [if_pos ⟨hcT,hc⟩]
          rfl
    · exact .inr ⟨tc,finalize_created_of_some htc,hset⟩
  pairs := by
    refine List.pairwise_map.mpr (h.pairs.imp_of_mem ?_)
    rintro a b - hb ⟨d,hd,⟨rfl,hown⟩ | ⟨tb,htb,hset,hsee⟩⟩
    · refine ⟨_,hd,.inl ⟨rfl,fun ta hta => ?_⟩⟩
      rcases finalize_created hta with hold | ⟨-,hT,rfl⟩
      · obtain ⟨tb,htb,hle⟩ := hown ta hold
        exact ⟨tb,finalize_deleted_of_some htb,hle⟩
      · cases hbt : b.deletedCommitTs with
        | none =>
          refine ⟨ts,?_,le_refl ts⟩
          simp only [RowVersion.finalize]
          rw [if_pos ⟨hd.trans (congrArg some hT),hbt⟩]
        | some tb =>
          -- an earlier attempt of the same commit stamped `b`
          have hst := h.stamp b hb T tb (.inr ⟨hd.trans (congrArg some hT),hbt⟩)
          obtain ⟨t,ht,hle⟩ := hst.latest hact
          rw [hlast] at ht
          obtain rfl := Option.some.inj ht
          exact ⟨tb,finalize_deleted_of_some hbt,hle⟩
    · refine ⟨d,hd,.inr ⟨tb,finalize_deleted_of_some htb,hset,fun r S hS hvis => ?_⟩⟩
      rcases creatorVisible_iff.mp hvis with ⟨ta,hta,hsees⟩ | ⟨hnone,hby⟩
      · rcases finalize_created hta with hold | ⟨hnone,hT,rfl⟩
        · exact hsee r S hS (creatorVisible_iff.mpr (.inl ⟨ta,hold,hsees⟩))
        · by_cases hr : r=T
          · exact hsee r S hS (creatorVisible_iff.mpr (.inr ⟨hnone,hT.trans hr.symm⟩))
          · have hsT : Sees S T ts := hT ▸ hsees
            exact absurd hsT (hstamp.hidden hact r S hS hr)
      · have hnone' : a.createdCommitTs=none := by
          cases hc : a.createdCommitTs with
          | none => rfl
          | some tc => rw [finalize_created_of_some hc] at hnone; cases hnone
        exact hsee r S hS (creatorVisible_iff.mpr (.inr ⟨hnone',hby⟩))

end Lists

end RustSql.V2
