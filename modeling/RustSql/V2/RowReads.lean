import RustSql.V2.RowCalls

/-!
# What the readers of a row see

The calls of one storage handle on one row, beside an abstract account of the
row: the value the last finished commit gave it, what each running transaction
has made of it, and what was committed when each transaction took its snapshot.
A transaction that has not written the row reads exactly what was committed
when it took its snapshot.
-/

namespace RustSql.V2

open TxnManager

/-- The versions of a stored row; none when there is no row. -/
def versionsOf (stored : Option StoredRow) : List RowVersion :=
  match stored with
  | some bytes => (decodeVersionedRow bytes).versions
  | none => []

/-- The value a transaction reads from a version list. -/
def readList (versions : List RowVersion) (txnId : TransactionId) (snapshot : TxnSnapshot) :
    Option Row :=
  (versions.find? fun v => v.visible txnId snapshot).map RowVersion.row

/-- `get_row`, once the row's bytes are found: what a transaction reads. -/
def readRow (stored : Option StoredRow) (txnId : TransactionId) (snapshot : TxnSnapshot) :
    Option Row :=
  stored.bind fun bytes => visibleRow bytes txnId snapshot

theorem readRow_eq (stored : Option StoredRow) (r : TransactionId) (S : TxnSnapshot) :
    readRow stored r S=readList (versionsOf stored) r S := by
  cases stored <;> rfl

/-! ## Reading a list -/

section Lists

variable {P : Type} {r T : TransactionId} {S S' : TxnSnapshot} {v : RowVersion}
  {rest versions : List RowVersion}

theorem readList_cons_visible (h : v.visible r S) : readList (v::rest) r S=some v.row := by
  rw [readList,List.find?_cons_of_pos (p := fun v : RowVersion => v.visible r S) h]
  rfl

theorem readList_cons_hidden (h : ¬v.visible r S) :
    readList (v::rest) r S=readList rest r S := by
  rw [readList,List.find?_cons_of_neg (p := fun v : RowVersion => v.visible r S) h]
  rfl

/-- Two versions with one row and one visibility read the same in front. -/
theorem readList_cons_congr {u : RowVersion} (hrow : u.row=v.row)
    (hvis : u.visible r S=v.visible r S) :
    readList (u::rest) r S=readList (v::rest) r S := by
  by_cases h : v.visible r S
  · rw [readList_cons_visible h,readList_cons_visible (hvis.trans h),hrow]
  · rw [readList_cons_hidden h,readList_cons_hidden (by rw [hvis]; exact h)]

/-- A change of the versions that keeps rows and visibility keeps the value. -/
theorem readList_map {f : RowVersion → RowVersion} (hrow : ∀ v, (f v).row=v.row)
    (hvis : ∀ v∈versions, (f v).visible r S=v.visible r S') :
    readList (versions.map f) r S=readList versions r S' := by
  induction versions with
  | nil => rfl
  | cons v rest ih =>
    have htail := ih fun u hu => hvis u (List.mem_cons_of_mem v hu)
    have hhead := hvis v List.mem_cons_self
    rw [List.map_cons]
    by_cases h : v.visible r S'
    · rw [readList_cons_visible h,readList_cons_visible (hhead.trans h),hrow]
    · rw [readList_cons_hidden h,readList_cons_hidden (by rw [hhead]; exact h),htail]

theorem readList_congr (h : ∀ v∈versions, v.visible r S=v.visible r S') :
    readList versions r S=readList versions r S' := by
  have hmap := readList_map (f := id) (fun _ => rfl) h
  rwa [List.map_id] at hmap

/-- Dropping versions the reader does not see changes nothing for it. -/
theorem readList_filter {keep : RowVersion → Bool}
    (h : ∀ v∈versions, ¬keep v → ¬v.visible r S) :
    readList (versions.filter keep) r S=readList versions r S := by
  induction versions with
  | nil => rfl
  | cons v rest ih =>
    have htail := ih fun u hu => h u (List.mem_cons_of_mem v hu)
    rw [List.filter_cons]
    split
    · by_cases hv : v.visible r S
      · rw [readList_cons_visible hv,readList_cons_visible hv]
      · rw [readList_cons_hidden hv,readList_cons_hidden hv,htail]
    · next hk => rw [readList_cons_hidden (h v List.mem_cons_self hk),htail]

theorem readList_eq_none (h : ∀ v∈versions, ¬v.visible r S) : readList versions r S=none := by
  rw [readList,List.find?_eq_none.mpr h]
  rfl

/-- Visibility depends on the snapshot only through the stamps it sees. -/
theorem visible_congr (h : ∀ w ts, v.Stamped w ts → (Sees S w ts ↔ Sees S' w ts)) :
    v.visible r S=v.visible r S' := by
  have hone : ∀ {A B : TxnSnapshot}, (∀ w ts, v.Stamped w ts → (Sees A w ts ↔ Sees B w ts)) →
      v.visible r A → v.visible r B := by
    intro A B hAB hv
    obtain ⟨hc,hby,hd⟩ := visible_iff.mp hv
    refine visible_iff.mpr ⟨?_,hby,fun hdB => ?_⟩
    · rcases creatorVisible_iff.mp hc with ⟨ts,hts,hs⟩ | hown
      · exact creatorVisible_iff.mpr (.inl ⟨ts,hts,(hAB _ _ (.inl ⟨rfl,hts⟩)).mp hs⟩)
      · exact creatorVisible_iff.mpr (.inr hown)
    · obtain ⟨d,ts,hd',hts,hs⟩ := deletedInSnapshot_iff.mp hdB
      exact hd (deletedInSnapshot_iff.mpr ⟨d,ts,hd',hts,(hAB _ _ (.inr ⟨hd',hts⟩)).mpr hs⟩)
  exact Bool.eq_iff_iff.mpr ⟨hone h,hone fun w ts hw => (h w ts hw).symm⟩

/-- Stamps a reader does not see do not change what it sees. -/
theorem finalize_visible {ts : ℕ} (hr : r≠T) (hs : ¬Sees S T ts) :
    (v.finalize T ts).visible r S=v.visible r S := by
  have hcreated : (v.finalize T ts).creatorVisible r S ↔ v.creatorVisible r S := by
    constructor
    · intro h
      rcases creatorVisible_iff.mp h with ⟨ta,hta,hsees⟩ | ⟨hnone,hby⟩
      · rcases finalize_created hta with hold | ⟨-,hT,rfl⟩
        · exact creatorVisible_iff.mpr (.inl ⟨ta,hold,hsees⟩)
        · exact absurd (hT ▸ hsees) hs
      · refine creatorVisible_iff.mpr (.inr ⟨?_,hby⟩)
        cases hc : v.createdCommitTs with
        | none => rfl
        | some tc => rw [finalize_created_of_some hc] at hnone; cases hnone
    · intro h
      rcases creatorVisible_iff.mp h with ⟨ta,hta,hsees⟩ | ⟨hnone,hby⟩
      · exact creatorVisible_iff.mpr (.inl ⟨ta,finalize_created_of_some hta,hsees⟩)
      · refine creatorVisible_iff.mpr (.inr ⟨?_,hby⟩)
        simp only [RowVersion.finalize,hnone]
        rw [if_neg fun hc => hr (hby.symm.trans hc.1)]
  have hdeleted : (v.finalize T ts).deletedInSnapshot r S ↔ v.deletedInSnapshot r S := by
    constructor
    · intro h
      obtain ⟨d,tb,hd,htb,hsees⟩ := deletedInSnapshot_iff.mp h
      rcases finalize_deleted htb with hold | ⟨-,hT,rfl⟩
      · exact deletedInSnapshot_iff.mpr ⟨d,tb,hd,hold,hsees⟩
      · obtain rfl : T=d := Option.some.inj (hT.symm.trans hd)
        exact absurd hsees hs
    · intro h
      obtain ⟨d,tb,hd,htb,hsees⟩ := deletedInSnapshot_iff.mp h
      exact deletedInSnapshot_iff.mpr ⟨d,tb,hd,finalize_deleted_of_some htb,hsees⟩
  refine Bool.eq_iff_iff.mpr ?_
  rw [visible_iff,visible_iff,hcreated,hdeleted]
  rfl

theorem readList_finalize {ts : ℕ} (hr : r≠T) (hs : ¬Sees S T ts) :
    readList (versions.map fun v => v.finalize T ts) r S=readList versions r S :=
  readList_map (fun _ => rfl) fun _ _ => finalize_visible hr hs

/-- A version its writer has just made is its writer's alone. -/
theorem fresh_hidden {row : Row} (hr : r≠T) : ¬(RowVersion.fresh row T).visible r S := by
  intro h
  rcases creatorVisible_iff.mp (visible_iff.mp h).1 with ⟨ts,hts,-⟩ | ⟨-,hby⟩
  · cases hts
  · exact hr hby.symm

/-- A mark on a version nobody has deleted is seen by its writer alone. -/
theorem markDeleted_visible (hr : r≠T) (hd : v.deletedByTxn=none) :
    (v.markDeleted T).visible r S=v.visible r S := by
  refine Bool.eq_iff_iff.mpr ?_
  rw [visible_iff,visible_iff]
  have hnew : ¬(v.markDeleted T).deletedInSnapshot r S := by
    intro h
    obtain ⟨d,ts,-,hts,-⟩ := deletedInSnapshot_iff.mp h
    cases hts
  have hold : ¬v.deletedInSnapshot r S := by
    intro h
    obtain ⟨d,ts,hby,-⟩ := deletedInSnapshot_iff.mp h
    rw [hd] at hby
    cases hby
  constructor
  · rintro ⟨hc,-,-⟩
    exact ⟨hc,by rw [hd]; exact (Option.some_ne_none r).symm,hold⟩
  · rintro ⟨hc,-,-⟩
    exact ⟨hc,fun h => hr (Option.some.inj h).symm,hnew⟩

/-- What a snapshot of this moment reads from a list stays the same while the
transactions with stamps in it keep running. -/
theorem readList_current {s s' : RowRun P} {owner : Option TransactionId}
    (h : ListInv s owner versions) (ha : Advances s.manager s'.manager)
    (hact : ∀ v∈versions, ∀ w ts, v.Stamped w ts → s.manager.Active w → s'.manager.Active w)
    (hS : s'.manager.Current r S) (hS' : s.manager.Current r S') :
    readList versions r S=readList versions r S' := by
  refine readList_congr fun v hv => visible_congr fun w ts hw => ?_
  have hst := h.stamp v hv w ts hw
  have hrun : s'.manager.Active w ↔ s.manager.Active w :=
    ⟨ha.active hst.known,hact v hv w ts hw⟩
  have hclock : ts ≤ s'.manager.nextCommitTs := hst.clock.trans ha.clock
  unfold Sees
  rw [hS.1,hS'.1,hS.2,hS'.2,hrun]
  exact ⟨fun hs => ⟨hst.clock,hs.2⟩,fun hs => ⟨hclock,hs.2⟩⟩

end Lists

end RustSql.V2
