import RustSql.V2.TxTypes

/-!
# The row codec

How a row's version list is read and edited. The JSON text of a stored row is
not modelled: a stored row is the value that text stands for.
-/

namespace RustSql.V2

/-- `encode_row`. -/
def encodeRow (row : Row) : StoredRow := .legacy row

/-- `decode_versioned_row`: a bare row is a version that was always there. -/
def decodeVersionedRow : StoredRow → VersionedRow
  | .legacy row => ⟨[⟨row,0,some 0,none,none⟩]⟩
  | .versioned rows => rows

/-- `decode_row`: the newest version's row, whoever wrote it. -/
def decodeRow (bytes : StoredRow) : Row :=
  match (decodeVersionedRow bytes).versions with
  | version :: _ => version.row
  | [] => []

/-- A version as its creator writes it. -/
def RowVersion.fresh (row : Row) (txnId : ℕ) : RowVersion := ⟨row,txnId,none,none,none⟩

/-- `encode_uncommitted_row_version`. -/
def encodeUncommittedRowVersion (row : Row) (txnId : ℕ) : StoredRow :=
  .versioned ⟨[.fresh row txnId]⟩

/-- `version_visible_to_snapshot`. -/
def versionVisibleToSnapshot (versionTxnId : ℕ) (commitTs : Option ℕ) (currentTxnId : ℕ)
    (snapshot : TxnSnapshot) : Bool :=
  match commitTs with
  | some commitTs => commitTs ≤ snapshot.visibleUpTo ∧ versionTxnId∉snapshot.activeTxns
  | none => versionTxnId=currentTxnId

/-- The transaction sees the version's creation. -/
def RowVersion.creatorVisible (v : RowVersion) (txnId : ℕ) (snapshot : TxnSnapshot) : Bool :=
  versionVisibleToSnapshot v.createdByTxn v.createdCommitTs txnId snapshot

/-- The version's deletion has committed in the snapshot. -/
def RowVersion.deletedInSnapshot (v : RowVersion) (txnId : ℕ) (snapshot : TxnSnapshot) : Bool :=
  match v.deletedByTxn,v.deletedCommitTs with
  | some deletedByTxn,some commitTs =>
    versionVisibleToSnapshot deletedByTxn (some commitTs) txnId snapshot
  | _,_ => false

/-- The test all three readers of a version list make: created in the
snapshot, and not deleted by the reader or in the snapshot. -/
def RowVersion.visible (v : RowVersion) (txnId : ℕ) (snapshot : TxnSnapshot) : Bool :=
  v.creatorVisible txnId snapshot && v.deletedByTxn≠some txnId &&
    !v.deletedInSnapshot txnId snapshot

/-- `visible_row`: the first visible version. -/
def visibleRow (bytes : StoredRow) (txnId : ℕ) (snapshot : TxnSnapshot) : Option Row :=
  ((decodeVersionedRow bytes).versions.find? fun v => v.visible txnId snapshot).map
    RowVersion.row

/-- A deletion by a transaction that has not committed yet. -/
def RowVersion.markDeleted (v : RowVersion) (txnId : ℕ) : RowVersion :=
  {v with deletedByTxn := some txnId, deletedCommitTs := none}

/-- Edit the first element that passes the test; `none` when there is none. -/
def editFirst {α : Type} (test : α → Bool) (edit : α → α) : List α → Option (List α)
  | [] => none
  | x :: rest => if test x then some (edit x :: rest) else (editFirst test edit rest).map (x::·)

/-- `mark_row_deleted`. -/
def markRowDeleted (bytes : StoredRow) (txnId : ℕ) (snapshot : TxnSnapshot) :
    Option StoredRow :=
  (editFirst (fun v => v.visible txnId snapshot) (fun v => v.markDeleted txnId)
    (decodeVersionedRow bytes).versions).map fun versions => .versioned ⟨versions⟩

theorem editFirst_eq_none {α : Type} {test : α → Bool} {edit : α → α} {xs : List α}
    (h : xs.find? test=none) : editFirst test edit xs=none := by
  induction xs with
  | nil => rfl
  | cons x xs ih =>
    rw [List.find?_cons] at h
    split at h
    · cases h
    · next hx =>
      rw [editFirst,if_neg (by rw [hx]; exact Bool.false_ne_true),ih h]
      rfl

/-- The first element that passes is edited, the others stay. -/
theorem editFirst_eq_some {α : Type} {test : α → Bool} {xs : List α} {x : α}
    (edit : α → α) (h : xs.find? test=some x) : ∃ front rest, xs=front++x::rest ∧
      editFirst test edit xs=some (front++edit x::rest) := by
  induction xs with
  | nil => cases h
  | cons y ys ih =>
    rw [List.find?_cons] at h
    split at h
    · next hy =>
      obtain rfl := Option.some.inj h
      exact ⟨[],ys,rfl,by rw [editFirst,if_pos hy]; rfl⟩
    · next hy =>
      obtain ⟨front,rest,rfl,hedit⟩ := ih h
      refine ⟨y::front,rest,rfl,?_⟩
      rw [editFirst,if_neg (by rw [hy]; exact Bool.false_ne_true),hedit]
      rfl

variable {bytes : StoredRow} {txnId : TransactionId} {snapshot : TxnSnapshot} {v : RowVersion}
    {rest : List RowVersion} {row : Row}

/-- With no visible version there is nothing to delete. -/
theorem markRowDeleted_eq_none (h : (decodeVersionedRow bytes).versions.find?
      (fun v => v.visible txnId snapshot)=none) : markRowDeleted bytes txnId snapshot=none := by
  rw [markRowDeleted,editFirst_eq_none h]
  rfl

/-- A delete that finds the first version visible. -/
theorem markRowDeleted_first
    (hl : (decodeVersionedRow bytes).versions=v::rest) (hv : v.visible txnId snapshot) :
    markRowDeleted bytes txnId snapshot=some (.versioned ⟨v.markDeleted txnId::rest⟩) := by
  rw [markRowDeleted,hl,editFirst,if_pos hv]
  rfl

/-- A delete of a visible version changes the row. -/
theorem markRowDeleted_changes (hf : (decodeVersionedRow bytes).versions.find?
      (fun v => v.visible txnId snapshot)=some v) :
    ∃ bytes', markRowDeleted bytes txnId snapshot=some bytes' ∧ bytes'≠bytes := by
  obtain ⟨front,rest,hlist,hedit⟩ := editFirst_eq_some
    (fun v => v.markDeleted txnId) hf
  refine ⟨_,by rw [markRowDeleted,hedit]; rfl,fun hsame => ?_⟩
  have hv := List.find?_some (p := fun v : RowVersion => v.visible txnId snapshot) hf
  rw [← hsame] at hlist
  simp only [decodeVersionedRow,List.append_cancel_left_eq,List.cons.injEq,and_true] at hlist
  have hby : v.deletedByTxn=some txnId := by rw [← hlist]; rfl
  simp [RowVersion.visible,hby] at hv

/-- `append_row_version`: overwrite the visible version in place when the
transaction wrote it itself, otherwise close it and put a new one in front. -/
def appendRowVersion (bytes : StoredRow) (row : Row) (txnId : ℕ) (snapshot : TxnSnapshot) :
    Option StoredRow :=
  let versions := (decodeVersionedRow bytes).versions
  match versions.find? fun v => v.visible txnId snapshot with
  | none => none
  | some v =>
    if v.createdByTxn=txnId ∧ v.createdCommitTs=none then
      (editFirst (fun v => v.visible txnId snapshot) (fun v => {v with row := row})
        versions).map fun versions => .versioned ⟨versions⟩
    else
      (editFirst (fun v => v.visible txnId snapshot) (fun v => v.markDeleted txnId)
        versions).map fun versions => .versioned ⟨.fresh row txnId::versions⟩

/-- With no visible version there is nothing to update. -/
theorem appendRowVersion_eq_none (h : (decodeVersionedRow bytes).versions.find?
      (fun v => v.visible txnId snapshot)=none) :
    appendRowVersion bytes row txnId snapshot=none := by
  rw [appendRowVersion,h]

/-- An update that finds the first version visible. -/
theorem appendRowVersion_first
    (hl : (decodeVersionedRow bytes).versions=v::rest) (hv : v.visible txnId snapshot) :
    appendRowVersion bytes row txnId snapshot=some (.versioned ⟨
      if v.createdByTxn=txnId ∧ v.createdCommitTs=none then {v with row := row}::rest
      else .fresh row txnId::v.markDeleted txnId::rest⟩) := by
  simp only [appendRowVersion,hl,List.find?_cons,hv,editFirst,if_true,Option.map_some]
  split <;> rfl

/-- An update of a visible version to another row changes the row. -/
theorem appendRowVersion_changes (hf : (decodeVersionedRow bytes).versions.find?
      (fun v => v.visible txnId snapshot)=some v) (hrow : v.row≠row) :
    ∃ bytes', appendRowVersion bytes row txnId snapshot=some bytes' ∧ bytes'≠bytes := by
  rw [appendRowVersion,hf]
  dsimp only
  split
  · obtain ⟨front,rest,hlist,hedit⟩ := editFirst_eq_some
      (fun v : RowVersion => {v with row := row}) hf
    refine ⟨_,by rw [hedit]; rfl,fun hsame => hrow ?_⟩
    rw [← hsame] at hlist
    simp only [decodeVersionedRow,List.append_cancel_left_eq,List.cons.injEq,and_true] at hlist
    rw [← hlist]
  · obtain ⟨front,rest,hlist,hedit⟩ := editFirst_eq_some
      (fun v => v.markDeleted txnId) hf
    refine ⟨_,by rw [hedit]; rfl,fun hsame => ?_⟩
    have hlength := congrArg List.length hlist
    rw [← hsame] at hlength
    simp [decodeVersionedRow] at hlength

/-- The stamps a commit puts on one version. -/
def RowVersion.finalize (v : RowVersion) (txnId commitTs : ℕ) : RowVersion :=
  {v with
    createdCommitTs :=
      if v.createdByTxn=txnId ∧ v.createdCommitTs=none then some commitTs
      else v.createdCommitTs
    deletedCommitTs :=
      if v.deletedByTxn=some txnId ∧ v.deletedCommitTs=none then some commitTs
      else v.deletedCommitTs}

/-- `finalize_row_versions`. -/
def finalizeRowVersions (bytes : StoredRow) (txnId commitTs : ℕ) : StoredRow :=
  .versioned ⟨(decodeVersionedRow bytes).versions.map fun v => v.finalize txnId commitTs⟩

end RustSql.V2
