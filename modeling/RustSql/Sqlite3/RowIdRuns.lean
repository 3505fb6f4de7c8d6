import Mathlib.Data.List.MinMax
import RustSql.Sqlite3.RowIds

/-!
# Runs that number rows

What an insert makes of a number that was left open is right as long as the table has room for
it, no trigger takes the number before the row is stored, and no update moves a row past the
table's entry in `sqlite_sequence`.
-/

namespace RustSql.Sqlite3

/-- The number is no row's and fits, or none is left; under `AUTOINCREMENT` it is larger than any
that a row has had. -/
def Numbering.Good (numbering : Numbering) : Prop :=
  match numbering.assigned with
  | some rowId => rowId∉numbering.existing ∧ rowId < 2^63 ∧
      (numbering.autoincrement → ∀ number∈numbering.held, number < rowId)
  | none => ∀ rowId : ℕ, rowId < 2^63 → rowId∈numbering.existing ∨
      (numbering.autoincrement ∧ ∃ number∈numbering.held, rowId ≤ number)

namespace WritableTable

/-- The table's entry in `sqlite_sequence` is not below any number a row has had. -/
def Covered (table : WritableTable) : Prop :=
  table.autoincrement → ∀ number∈table.held, number ≤ table.sequence.getD 0

/-- What holds of a table whose numbers were chosen well so far. -/
structure Numbered (table : WritableTable) : Prop where
  good : ∀ numbering∈table.numberings, numbering.Good
  covered : table.Covered
  held : ∀ rowId∈table.rowIds, rowId∈table.held
  sequence : table.sequence.getD 0=0 ∨ table.sequence.getD 0∈table.held
  ascending : table.rowIds.Pairwise fun left right => left < 2^63 → right < 2^63 → left ≤ right

/-- A number that an insert can take. -/
def Fresh (table : WritableTable) (rowId : ℕ) : Prop :=
  rowId∉table.rowIds ∧ rowId < 2^63 ∧
    (table.autoincrement → ∀ number∈table.held, number < rowId)

/-- No number is left for an insert to take. -/
def Full (table : WritableTable) : Prop :=
  ∀ rowId : ℕ, rowId < 2^63 → rowId∈table.rowIds ∨
    (table.autoincrement ∧ ∃ number∈table.held, rowId ≤ number)

/-- The table has room for another number, which comes after a given one where no column stands
for it. -/
def Room (table : WritableTable) (before : ℕ) : Prop :=
  match integerPrimaryKeyColumnIndex table.schema with
  | some _ => table.autoincrement ∨ table.largestRowId < 2^63-1 ∨
      ∀ rowId : ℕ, rowId < 2^63 → rowId∈table.rowIds
  | none => before < 2^63-1 ∧ (table.autoincrement → table.sequence.getD 0 ≤ before)

end WritableTable

/-! ## The next number -/

section Choice

variable {table : WritableTable}

/-- Below the largest row id there is a next one. -/
theorem saturatingSucc_of_lt {rowId : ℕ} (h : rowId < 2^63-1) :
    saturatingSucc rowId=rowId+1 := by
  unfold saturatingSucc
  omega

/-- A next row id that fits is no saturated one. -/
theorem le_saturatingSucc {rowId : ℕ} (h : saturatingSucc rowId < 2^63) :
    rowId < 2^63-1 := by
  unfold saturatingSucc at h
  omega

/-- No row id is above the largest. -/
theorem WritableTable.le_largestRowId {rowId : ℕ} (h : rowId∈table.rowIds) :
    rowId ≤ table.largestRowId :=
  List.le_max?_getD_of_mem h

/-- The one after the largest is free. -/
theorem WritableTable.largest_fresh : table.largestRowId+1∉table.rowIds := by
  intro h
  have hle := WritableTable.le_largestRowId h
  omega

/-- The number after the last row is free. -/
theorem WritableTable.Numbered.last_fresh (h : table.Numbered)
    (hlast : table.lastRowId < 2^63-1) : table.lastRowId+1∉table.rowIds := by
  intro hmem
  have hne : table.rowIds≠[] := List.ne_nil_of_mem hmem
  have hvalue : table.lastRowId=table.rowIds.getLast hne := by
    rw [WritableTable.lastRowId,List.getLast?_eq_some_getLast hne,Option.getD_some]
  have hsplit := List.dropLast_append_getLast hne
  have hascending := h.ascending
  rw [←hsplit,←hvalue] at hascending hmem
  rcases List.mem_append.mp hmem with hfront | hend
  · have hle := (List.pairwise_append.mp hascending).2.2 _ hfront _ List.mem_cons_self
    omega
  · rw [List.mem_singleton] at hend
    omega

/-- The next number, if it fits, is one to take. -/
theorem WritableTable.Numbered.next_fresh (h : table.Numbered)
    (hfits : table.nextRowIdForInsert < 2^63) : table.Fresh table.nextRowIdForInsert := by
  unfold WritableTable.nextRowIdForInsert at hfits ⊢
  by_cases hauto : table.autoincrement
  · rw [if_pos hauto] at hfits ⊢
    have hlimit := le_saturatingSucc hfits
    rw [saturatingSucc_of_lt hlimit]
    refine ⟨fun hmem => ?_,by omega,fun _ number hnumber => ?_⟩
    · have hle := h.covered hauto _ (h.held _ hmem)
      omega
    · have hle := h.covered hauto number hnumber
      omega
  · rw [if_neg hauto] at hfits ⊢
    have hlimit := le_saturatingSucc hfits
    rw [saturatingSucc_of_lt hlimit]
    exact ⟨WritableTable.largest_fresh,by omega,fun hyes => absurd hyes hauto⟩

/-- With room the next number does not fit only when none is left. -/
theorem WritableTable.Numbered.next_full (h : table.Numbered)
    (hroom : table.autoincrement ∨ table.largestRowId < 2^63-1 ∨
      ∀ rowId : ℕ, rowId < 2^63 → rowId∈table.rowIds)
    (hfits : ¬table.nextRowIdForInsert < 2^63) : table.Full := by
  unfold WritableTable.nextRowIdForInsert at hfits
  intro rowId hrowId
  by_cases hauto : table.autoincrement
  · rw [if_pos hauto] at hfits
    have hlimit : 2^63-1 ≤ table.sequence.getD 0 := by
      by_contra hlow
      exact hfits (by rw [saturatingSucc_of_lt (by omega)]; omega)
    have hheld : table.sequence.getD 0∈table.held := by
      rcases h.sequence with hzero | hheld
      · omega
      · exact hheld
    exact .inr ⟨hauto,_,hheld,by omega⟩
  · rw [if_neg hauto] at hfits
    rcases hroom with hyes | hlow | hall
    · exact absurd hyes hauto
    · exact absurd (by rw [saturatingSucc_of_lt hlow]; omega) hfits
    · exact .inl (hall rowId hrowId)

/-- With room there is a number to take, or none is left. -/
theorem WritableTable.Numbered.chooseRowId_open (h : table.Numbered) {before : ℕ} {row : Row}
    (hopen : table.leavesOpen row=true) (hroom : table.Room before)
    (hbefore : before < 2^63-1 → before+1∉table.rowIds) :
    (∃ chosen, table.chooseRowId before row=.ok chosen ∧ table.Fresh chosen.1) ∨
      ((∃ error, table.chooseRowId before row=.error error) ∧ table.Full) := by
  unfold WritableTable.leavesOpen at hopen
  unfold WritableTable.Room at hroom
  unfold WritableTable.chooseRowId
  cases hindex : integerPrimaryKeyColumnIndex table.schema with
  | none =>
    rw [hindex] at hroom
    obtain ⟨hlimit,hsequence⟩ := hroom
    refine .inl ⟨_,rfl,?_⟩
    simp only [saturatingSucc_of_lt hlimit]
    refine ⟨hbefore hlimit,by omega,fun hauto number hnumber => ?_⟩
    have hle := h.covered hauto number hnumber
    have hseq := hsequence hauto
    omega
  | some index =>
    rw [hindex] at hopen hroom
    have hnull : row[index]?=some .null := by simpa using hopen
    simp only [hnull]
    by_cases hfits : table.nextRowIdForInsert < 2^63
    · rw [if_pos hfits]
      exact .inl ⟨_,rfl,h.next_fresh hfits⟩
    · rw [if_neg hfits]
      exact .inr ⟨⟨_,rfl⟩,h.next_full hroom hfits⟩

end Choice

/-! ## Changes of the rows -/

section Rows

variable {table : WritableTable} {rows : List (ℕ × Row)} {rowId : ℕ}

/-- Sorting keeps the rows. -/
theorem sortByRowId_perm (rows : List (ℕ × Row)) : (WritableTable.sortByRowId rows).Perm rows :=
  List.perm_insertionSort _ rows

/-- Sorted rows ascend. -/
theorem sortByRowId_ascending (rows : List (ℕ × Row)) :
    ((WritableTable.sortByRowId rows).map Prod.fst).Pairwise
      fun left right => left < 2^63 → right < 2^63 → left ≤ right := by
  have htotal : Std.Total fun left right : ℕ × Row => left.1 ≤ right.1 :=
    ⟨fun left right => le_total left.1 right.1⟩
  have htrans : IsTrans (ℕ × Row) fun left right => left.1 ≤ right.1 :=
    ⟨fun _ _ _ hleft hright => hleft.trans hright⟩
  have hsorted : (WritableTable.sortByRowId rows).Pairwise fun left right => left.1 ≤ right.1 :=
    List.pairwise_insertionSort _ rows
  rw [List.pairwise_map]
  exact hsorted.imp fun hle _ _ => hle

/-- A table keeps what holds of it when rows go or change in their places. -/
theorem WritableTable.Numbered.shrink (h : table.Numbered)
    (hrows : (rows.map Prod.fst).Sublist table.rowIds) :
    ({ table with rows := rows } : WritableTable).Numbered where
  good := h.good
  covered := h.covered
  held rowId hrowId := h.held rowId (hrows.subset hrowId)
  sequence := h.sequence
  ascending := h.ascending.sublist hrows

/-- Another entry about a number left open. -/
theorem WritableTable.Numbered.note (h : table.Numbered) {assigned : Option ℕ}
    (hgood : (⟨assigned,table.autoincrement,table.rowIds,table.held⟩ : Numbering).Good) :
    (table.note assigned).Numbered where
  good numbering hnumbering := by
    rcases List.mem_cons.mp hnumbering with rfl | hold
    · exact hgood
    · exact h.good numbering hold
  covered := h.covered
  held := h.held
  sequence := h.sequence
  ascending := h.ascending

/-- A pushed row brings its own row id only. -/
theorem WritableTable.push_rowIds (row : Row) {number : ℕ}
    (h : number∈(table.push rowId row).rowIds) : number=rowId ∨ number∈table.rowIds := by
  obtain ⟨entry,hentry,rfl⟩ := List.mem_map.mp h
  have hmem := (sortByRowId_perm _).mem_iff.mp hentry
  rcases List.mem_append.mp hmem with hold | hnew
  · exact .inr (List.mem_map_of_mem hold)
  · rw [List.mem_singleton.mp hnew]
    exact .inl rfl

/-- It moves the sequence of an `AUTOINCREMENT` table. -/
theorem WritableTable.push_sequence (row : Row) : (table.push rowId row).sequence.getD 0=
    if table.autoincrement then max (table.sequence.getD 0) rowId else table.sequence.getD 0 := by
  unfold WritableTable.push
  by_cases hauto : table.autoincrement
  · simp only [if_pos hauto,Option.getD_some]
  · simp only [if_neg hauto]

/-- A row more, at any number. -/
theorem WritableTable.Numbered.push (h : table.Numbered) (row : Row) :
    (table.push rowId row).Numbered where
  good := h.good
  covered hauto number hnumber := by
    have hyes : table.autoincrement := hauto
    rw [WritableTable.push_sequence,if_pos hyes]
    rcases List.mem_cons.mp hnumber with rfl | hold
    · exact le_max_right _ _
    · exact (h.covered hauto number hold).trans (le_max_left _ _)
  held number hnumber := by
    rcases WritableTable.push_rowIds row hnumber with rfl | hold
    · exact List.mem_cons_self
    · exact List.mem_cons_of_mem rowId (h.held number hold)
  sequence := by
    rw [WritableTable.push_sequence]
    split
    · rcases max_choice (table.sequence.getD 0) rowId with hmax | hmax
      · rw [hmax]
        exact h.sequence.imp_right (List.mem_cons_of_mem rowId)
      · rw [hmax]
        exact .inr List.mem_cons_self
    · exact h.sequence.imp_right (List.mem_cons_of_mem rowId)
  ascending := sortByRowId_ascending _

/-- A row moved to a number that `sqlite_sequence` covers. -/
theorem WritableTable.Numbered.move (h : table.Numbered) {position : ℕ} {row : Row}
    (hcovered : table.autoincrement → rowId ≤ table.sequence.getD 0) :
    (table.move position rowId row).Numbered where
  good := h.good
  covered hauto number hnumber := by
    rcases List.mem_cons.mp hnumber with rfl | hold
    · exact hcovered hauto
    · exact h.covered hauto number hold
  held number hnumber := by
    obtain ⟨entry,hentry,rfl⟩ := List.mem_map.mp hnumber
    have hmem := (sortByRowId_perm _).mem_iff.mp hentry
    rcases List.mem_or_eq_of_mem_set hmem with hold | rfl
    · exact List.mem_cons_of_mem rowId (h.held _ (List.mem_map_of_mem hold))
    · exact List.mem_cons_self
  sequence := h.sequence.imp_right (List.mem_cons_of_mem rowId)
  ascending := sortByRowId_ascending _

/-- Rows at other positions stay in their order. -/
theorem filter_positions_sublist (positions : List ℕ) (rows : List (ℕ × Row)) :
    ((rows.zipIdx.filter fun entry => entry.2∉positions).map Prod.fst).Sublist rows := by
  have hsub := (List.filter_sublist (p := fun entry : (ℕ × Row) × ℕ => entry.2∉positions)
    (l := rows.zipIdx)).map Prod.fst
  rwa [List.zipIdx_map_fst] at hsub

/-- A changed row keeps its row id. -/
theorem modify_rowIds (rows : List (ℕ × Row)) (position : ℕ) (row : Row) :
    (rows.modify position fun entry => (entry.1,row)).map Prod.fst=rows.map Prod.fst := by
  induction rows generalizing position with
  | nil => cases position <;> rfl
  | cons entry rows ih =>
    cases position with
    | zero => rfl
    | succ position => rw [List.modify_succ_cons,List.map_cons,List.map_cons,ih]

end Rows

/-! ## Calls -/

/-- What holds of the numbers stays so. -/
def Carries (before after : WritableTable) : Prop := before.Numbered → after.Numbered

instance instIsPreorderCarries : IsPreorder WritableTable Carries where
  refl _ := id
  trans _ _ _ hfirst hsecond := hsecond ∘ hfirst

/-- Rows may go, and nothing that decides on a number changes. -/
structure Shrinks (before after : WritableTable) : Prop where
  autoincrement : after.autoincrement=before.autoincrement
  held : after.held=before.held
  rowIds : ∀ rowId∈after.rowIds, rowId∈before.rowIds

instance instIsPreorderShrinks : IsPreorder WritableTable Shrinks where
  refl _ := ⟨rfl,rfl,fun _ h => h⟩
  trans _ _ _ hfirst hsecond :=
    ⟨hsecond.autoincrement.trans hfirst.autoincrement,hsecond.held.trans hfirst.held,
      fun rowId h => hfirst.rowIds rowId (hsecond.rowIds rowId h)⟩

/-- A free row id stays free when rows go. -/
theorem WritableTable.Fresh.shrink {before after : WritableTable} {rowId : ℕ}
    (h : before.Fresh rowId) (hshrinks : Shrinks before after) : after.Fresh rowId := by
  obtain ⟨hfree,hfits,hlarger⟩ := h
  refine ⟨fun hmem => hfree (hshrinks.rowIds rowId hmem),hfits,?_⟩
  rw [hshrinks.autoincrement,hshrinks.held]
  exact hlarger

/-- A number that was chosen for a row is still there to take. -/
def NumberedRow.Ready (numbered : NumberedRow) (table : WritableTable) : Prop :=
  numbered.leftOpen → table.Fresh numbered.rowId

section Calls

variable {checks : RowChecks} {s : WritableTable}

/-- The row id taken is free and remembered. -/
theorem takeRowId_guarantee (hs : s.Numbered) {before : WritableTable → ℕ} {row : Row}
    (hroom : s.leavesOpen row=true → s.Room (before s))
    (hbefore : before s < 2^63-1 → before s+1∉s.rowIds) :
    Guarantee Carries s (takeRowId before row) fun numbered t =>
      numbered.Ready t ∧ (numbered.leftOpen → s.leavesOpen row=true) := by
  refine .bind_get ?_
  by_cases hopen : s.leavesOpen row=true
  · rcases hs.chooseRowId_open hopen (hroom hopen) hbefore with ⟨chosen,hchosen,hfresh⟩ | hnone
    · rw [hchosen]
      simp only [if_pos hopen]
      have hnote : Guarantee Carries s (Eff.modify fun table => table.note (some chosen.1))
          fun _ t => t.Fresh chosen.1 :=
        .modify (fun h => h.note hfresh) hfresh
      exact hnote.bind fun _ t _ ht => .ret ⟨fun _ => ht,fun _ => hopen⟩
    · obtain ⟨⟨error,herror⟩,hall⟩ := hnone
      rw [herror]
      simp only [if_pos hopen]
      have hnote : Guarantee Carries s (Eff.modify fun table => table.note none)
          fun _ _ => True :=
        .modify (fun h => h.note hall) trivial
      exact hnote.bind fun _ t _ _ => .fail error
  · cases s.chooseRowId (before s) row with
    | ok chosen =>
      simp only [if_neg hopen]
      exact .ret ⟨fun h => Bool.noConfusion h,fun h => Bool.noConfusion h⟩
    | error error =>
      simp only [if_neg hopen]
      exact .fail error

/-- Checks change nothing. -/
theorem checkRow_guarantee {R : WritableTable → WritableTable → Prop} [IsPreorder WritableTable R]
    {Q : WritableTable → Prop} {row : Row} (h : Q s) :
    Guarantee R s (checkRow checks row) fun _ t => Q t :=
  .bind_get (.lift fun _ _ => h)

/-- A row with its row id is stored. -/
theorem storeRow_guarantee {numbered : NumberedRow} (h : numbered.Ready s) :
    Guarantee Carries s (storeRow numbered) fun _ _ => True := by
  unfold storeRow
  cases hopen : numbered.leftOpen with
  | true =>
    have hfresh := h hopen
    have hnote : Guarantee Carries s (Eff.modify fun table => table.note (some numbered.rowId))
        fun _ _ => True := .modify (fun hs => hs.note hfresh) trivial
    exact hnote.bind fun _ t _ _ => .modify (fun ht => ht.push numbered.row) trivial
  | false =>
    have hpure : Guarantee Carries s (pure () : Eff WritableTable Unit) fun _ _ => True :=
      .ret trivial
    exact hpure.bind fun _ t _ _ => .modify (fun ht => ht.push numbered.row) trivial

/-! ## Triggers -/

/-- A trigger's insert finds room for its row. -/
def TriggerAction.Meets (table : WritableTable) : TriggerAction → Prop
  | .insert row => table.leavesOpen row=true → table.Room table.largestRowId
  | _ => True

/-- Every statement of the triggers finds room where it starts. -/
def ActionsMeet (checks : RowChecks) : List TriggerAction → WritableTable → Prop
  | [], _ => True
  | action :: actions, table => action.Meets table ∧
      ∀ t, action.run checks table=(.ok (),t) → ActionsMeet checks actions t

/-- An update by a trigger keeps the row ids. -/
theorem updateTriggerRow_guarantee {update : ℕ × Row} :
    Guarantee Carries s (updateTriggerRow checks update) fun _ _ => True := by
  refine .bind_get (.bind_lift fun _ _ => .modify (fun h => h.shrink ?_) trivial)
  rw [modify_rowIds]
  exact List.Sublist.refl _

variable {action : TriggerAction} {actions : List TriggerAction} {triggers : Triggers}

/-- What a trigger does keeps the table numbered. -/
theorem action_guarantee (hs : s.Numbered) (h : action.Meets s) :
    Guarantee Carries s (action.run checks) fun _ _ => True := by
  cases action with
  | insert row =>
    refine .bind (takeRowId_guarantee hs h fun _ => WritableTable.largest_fresh)
      fun numbered t _ hready => ?_
    exact .bind (checkRow_guarantee hready.1) fun _ u _ hready => storeRow_guarantee hready
  | delete positions =>
    exact .modify (fun h => h.shrink ((filter_positions_sublist positions s.rows).map _)) trivial
  | update updates => exact .forEach fun update _ t _ => updateTriggerRow_guarantee
  | raise error => exact .fail error

/-- So do all its actions. -/
theorem runActions_guarantee (hs : s.Numbered) (h : ActionsMeet checks actions s) :
    Guarantee Carries s (runActions checks actions) fun _ _ => True := by
  induction actions generalizing s with
  | nil => exact .ret trivial
  | cons action actions ih =>
    refine .bind (action_guarantee hs h.1).returned fun _ t hst ht => ?_
    exact ih (hst hs) (h.2 t ht.1)

/-- The statement inserts a row. -/
def TriggerAction.Inserts : TriggerAction → Prop
  | .insert _ => True
  | _ => False

/-- An action that is no insert brings no row. -/
theorem action_shrinks (h : ¬action.Inserts) :
    Guarantee Shrinks s (action.run checks) fun _ _ => True := by
  cases action with
  | insert row => exact absurd trivial h
  | delete positions =>
    refine .modify ⟨rfl,rfl,fun rowId hrowId => ?_⟩ trivial
    exact ((filter_positions_sublist positions s.rows).map _).subset hrowId
  | update updates =>
    refine .forEach fun update _ t _ => ?_
    refine .bind_get (.bind_lift fun _ _ => .modify ⟨rfl,rfl,fun rowId hrowId => ?_⟩ trivial)
    change rowId∈(t.rows.modify update.1 _).map Prod.fst at hrowId
    rwa [modify_rowIds] at hrowId
  | raise error => exact .fail error

/-- Nor do several. -/
theorem runActions_shrinks (h : ∀ action∈actions, ¬action.Inserts) :
    Guarantee Shrinks s (runActions checks actions) fun _ _ => True := by
  induction actions generalizing s with
  | nil => exact .ret trivial
  | cons action actions ih =>
    refine .bind (action_shrinks (h action List.mem_cons_self)) fun _ t _ _ => ?_
    exact ih fun action haction => h action (List.mem_cons_of_mem _ haction)

/-- The entry in `sqlite_sequence` does not go down. -/
structure Grows (before after : WritableTable) : Prop where
  autoincrement : after.autoincrement=before.autoincrement
  sequence : before.sequence.getD 0 ≤ after.sequence.getD 0

instance instIsPreorderGrows : IsPreorder WritableTable Grows where
  refl _ := ⟨rfl,le_rfl⟩
  trans _ _ _ hfirst hsecond :=
    ⟨hsecond.autoincrement.trans hfirst.autoincrement,hfirst.sequence.trans hsecond.sequence⟩

/-- A pushed row keeps the others. -/
theorem push_grows (table : WritableTable) (rowId : ℕ) (row : Row) :
    Grows table (table.push rowId row) := by
  refine ⟨rfl,?_⟩
  rw [WritableTable.push_sequence]
  split
  · exact le_max_left _ _
  · exact le_rfl

/-- An insert by a trigger takes no row away. -/
theorem insertTriggerRow_grows {row : Row} :
    Guarantee Grows s (insertTriggerRow checks row) fun _ _ => True := by
  have htake : Guarantee Grows s (takeRowId WritableTable.largestRowId row) fun _ _ => True := by
    refine .bind_get ?_
    cases s.chooseRowId s.largestRowId row with
    | ok chosen =>
      dsimp only
      split
      · exact .bind (Q := fun _ _ => True) (.modify ⟨rfl,le_rfl⟩ trivial)
          fun _ t _ _ => .ret trivial
      · exact .ret trivial
    | error error =>
      dsimp only
      split
      · exact .bind (Q := fun _ _ => True) (.modify ⟨rfl,le_rfl⟩ trivial)
          fun _ t _ _ => .fail error
      · exact .fail error
  refine htake.bind fun numbered t _ _ => ?_
  refine .bind (checkRow_guarantee (Q := fun _ => True) trivial) fun _ u _ _ => ?_
  unfold storeRow
  split
  · exact .bind (Q := fun _ _ => True) (.modify ⟨rfl,le_rfl⟩ trivial)
      fun _ v _ _ => .modify (push_grows v _ _) trivial
  · have hpure : Guarantee Grows u (pure () : Eff WritableTable Unit) fun _ _ => True :=
      .ret trivial
    exact hpure.bind fun _ v _ _ => .modify (push_grows v _ _) trivial

/-- No action takes a row id back. -/
theorem runActions_grows :
    Guarantee Grows s (runActions checks actions) fun _ _ => True := by
  induction actions generalizing s with
  | nil => exact .ret trivial
  | cons action actions ih =>
    refine .bind (Q := fun _ _ => True) ?_ fun _ t _ _ => ih
    cases action with
    | insert row => exact insertTriggerRow_grows
    | delete positions => exact .modify ⟨rfl,le_rfl⟩ trivial
    | update updates =>
      exact .forEach fun update _ t _ =>
        .bind_get (.bind_lift fun _ _ => .modify ⟨rfl,le_rfl⟩ trivial)
    | raise error => exact .fail error

/-! ## Statements -/

/-- Every statement of the triggers around a change finds room where it starts. -/
def TriggersMeet {α : Type} (checks : RowChecks) (triggers : Triggers)
    (start : Eff WritableTable α) (finish : α → Eff WritableTable Unit) (table : WritableTable) :
    Prop :=
  ∀ a t, start table=(.ok a,t) → ActionsMeet checks triggers.before t ∧
    ∀ u, runActions checks triggers.before t=(.ok (),u) →
      ∀ v, finish a u=(.ok (),v) → ActionsMeet checks triggers.after v

/-- A change keeps what holds of the numbers when its start establishes something that the
triggers before it keep and its end needs. -/
theorem withTriggers_guarantee {α : Type} {start : Eff WritableTable α}
    {finish : α → Eff WritableTable Unit} {P : α → WritableTable → Prop} (hs : s.Numbered)
    (hmeets : TriggersMeet checks triggers start finish s)
    (hstart : Guarantee Carries s start P)
    (hkeep : ∀ a t, P a t → ∀ u, runActions checks triggers.before t=(.ok (),u) → P a u)
    (hfinish : ∀ a u, P a u → Guarantee Carries u (finish a) fun _ _ => True) :
    Guarantee Carries s (withTriggers checks triggers start finish) fun _ _ => True := by
  refine .bind hstart.returned fun a t hst ht => ?_
  obtain ⟨hbefore,hafter⟩ := hmeets a t ht.1
  refine .bind (runActions_guarantee (hst hs) hbefore).returned fun _ u htu hu => ?_
  refine .bind (hfinish a u (hkeep a t ht.2 u hu.1)).returned fun _ v huv hv => ?_
  have hv' : v.Numbered := huv (htu (hst hs))
  exact .bind (runActions_guarantee hv' (hafter u hu.1 v hv.1)) fun _ w _ _ => .ret trivial

/-- What an insert needs: room for a number that is left open, and no trigger that takes one
before the row is stored. -/
def InsertMeets (checks : RowChecks) (triggers : Triggers) (row : Row) (table : WritableTable) :
    Prop :=
  (table.leavesOpen row=true → table.Room table.lastRowId ∧
    ∀ action∈triggers.before, ¬action.Inserts) ∧
  TriggersMeet checks triggers (startInsert checks row) (finishInsert checks) table

/-- `insert_row` keeps the table numbered. -/
theorem insertRow_guarantee (hs : s.Numbered) {row : Row} (h : InsertMeets checks triggers row s) :
    Guarantee Carries s (insertRow checks triggers row) fun _ _ => True := by
  refine withTriggers_guarantee (P := fun numbered t => numbered.Ready t ∧
    (numbered.leftOpen → s.leavesOpen row=true)) hs h.2 ?_ ?_ ?_
  · refine .bind (takeRowId_guarantee hs (fun hopen => (h.1 hopen).1) hs.last_fresh)
      fun numbered t _ hready => ?_
    exact .bind (checkRow_guarantee hready) fun _ u _ hready => .ret hready
  · intro numbered t hready u hu
    refine ⟨fun hopen => ?_,hready.2⟩
    have hshrinks : Guarantee Shrinks t (runActions checks triggers.before) fun _ _ => True :=
      runActions_shrinks (h.1 (hready.2 hopen)).2
    have hmoved := hshrinks.1
    rw [hu] at hmoved
    exact (hready.1 hopen).shrink hmoved
  · intro numbered u hready
    exact .bind (checkRow_guarantee hready.1) fun _ v _ hready => storeRow_guarantee hready

/-- What an update needs: under `AUTOINCREMENT` the row does not move past the entry in
`sqlite_sequence`. -/
def UpdateMeets (checks : RowChecks) (triggers : Triggers) (rowId : ℕ) (row : Row)
    (table : WritableTable) : Prop :=
  (table.autoincrement → ∀ target, table.updatedRowId rowId row=.ok target →
    target ≤ table.sequence.getD 0) ∧
  TriggersMeet checks triggers (startUpdate checks rowId row) (finishUpdate checks rowId row) table

/-- `update_row` keeps the table numbered. -/
theorem updateRow_guarantee (hs : s.Numbered) {rowId : ℕ} {row : Row}
    (h : UpdateMeets checks triggers rowId row s) :
    Guarantee Carries s (updateRow checks triggers rowId row) fun _ _ => True := by
  refine withTriggers_guarantee (P := fun target t => t.autoincrement →
    target ≤ t.sequence.getD 0) hs h.2 ?_ ?_ ?_
  · refine .bind_get (.bind_lift fun _ _ => .bind_lift fun _ _ => .lift fun target htarget => ?_)
    exact fun hauto => h.1 hauto target htarget
  · intro target t hcovered u hu hauto
    have hgrows := (@runActions_grows checks t triggers.before).1
    rw [hu] at hgrows
    rw [hgrows.autoincrement] at hauto
    exact (hcovered hauto).trans hgrows.sequence
  · intro target u hcovered
    exact .bind_get (.bind_lift fun _ _ => .bind_lift fun position _ =>
      .modify (fun hu => hu.move hcovered) trivial)

/-- `delete_row` keeps the table numbered. -/
theorem deleteRow_guarantee (hs : s.Numbered) {rowId : ℕ}
    (h : TriggersMeet checks triggers (findRow rowId) (finishDelete rowId) s) :
    Guarantee Carries s (deleteRow checks triggers rowId) fun _ _ => True := by
  refine withTriggers_guarantee (P := fun _ _ => True) hs h ?_ (fun _ _ _ _ _ => trivial) ?_
  · exact .bind_get (.lift fun _ _ => trivial)
  · intro position u _
    refine .bind (Q := fun _ _ => True) (.bind_get (.lift fun _ _ => trivial))
      fun place t _ _ => ?_
    exact .modify (fun ht => ht.shrink ((List.eraseIdx_sublist t.rows place).map _)) trivial

end Calls

/-! ## Runs -/

/-- What happens to a table: statements with their triggers, statements of other tables'
triggers, `ALTER TABLE`, and the file that is written and opened again. -/
inductive Call where
  | insert (triggers : Triggers) (row : Row)
  | update (triggers : Triggers) (rowId : ℕ) (row : Row)
  | delete (triggers : Triggers) (rowId : ℕ)
  | fire (actions : List TriggerAction)
  | alter (schema : Sql.Schema) (autoincrement : Bool) (values : Row → Row)
  | reopen (values : Row → Row)

/-- One call. -/
def Call.run (checks : RowChecks) : Call → Eff WritableTable Unit
  | .insert triggers row => do
    let _ ← insertRow checks triggers row
  | .update triggers rowId row => do
    let _ ← updateRow checks triggers rowId row
  | .delete triggers rowId => do
    let _ ← deleteRow checks triggers rowId
  | .fire actions => runActions checks actions
  | .alter schema autoincrement values => Eff.modify fun table => { table with
      schema := schema
      autoincrement := autoincrement
      rows := table.rows.map fun row => (row.1,values row.2) }
  | .reopen values => Eff.modify fun table => { table with
      rows := WritableTable.sortByRowId (table.rows.map fun row => (row.1,values row.2)) }

/-- The calls one after the other; one that fails leaves behind what it has changed. -/
def runCalls (checks : RowChecks) (calls : List Call) (table : WritableTable) : WritableTable :=
  calls.foldl (fun table call => (call.run checks table).2) table

/-- What a call needs of the table it starts with. -/
def Call.Meets (checks : RowChecks) (table : WritableTable) : Call → Prop
  | .insert triggers row => InsertMeets checks triggers row table
  | .update triggers rowId row => UpdateMeets checks triggers rowId row table
  | .delete triggers rowId =>
    TriggersMeet checks triggers (findRow rowId) (finishDelete rowId) table
  | .fire actions => ActionsMeet checks actions table
  | .alter _ autoincrement _ => autoincrement → ∀ number∈table.held,
      number ≤ table.sequence.getD 0
  | .reopen _ => True

/-- Every call of a run finds what it needs. -/
def CallsMeet (checks : RowChecks) : List Call → WritableTable → Prop
  | [], _ => True
  | call :: calls, table => call.Meets checks table ∧
      CallsMeet checks calls (call.run checks table).2

/-- Every call keeps the table numbered. -/
theorem call_numbered {checks : RowChecks} {table : WritableTable} {call : Call}
    (h : table.Numbered) (hmeets : call.Meets checks table) :
    (call.run checks table).2.Numbered := by
  have hids : ∀ values : Row → Row,
      (table.rows.map fun row => (row.1,values row.2)).map Prod.fst=table.rowIds := by
    intro values
    rw [List.map_map]
    rfl
  have hforget : ∀ {α : Type} {x : Eff WritableTable α},
      Guarantee Carries table x (fun _ _ => True) →
      Guarantee Carries table (do let _ ← x) fun _ _ => True :=
    fun hx => hx.bind fun _ t _ _ => .ret trivial
  cases call with
  | insert triggers row =>
    exact (hforget (@insertRow_guarantee checks table triggers h row hmeets)).1 h
  | update triggers rowId row =>
    exact (hforget (@updateRow_guarantee checks table triggers h rowId row hmeets)).1 h
  | delete triggers rowId =>
    exact (hforget (@deleteRow_guarantee checks table triggers h rowId hmeets)).1 h
  | fire actions => exact (runActions_guarantee h hmeets).1 h
  | alter schema autoincrement values =>
    have hascending := h.ascending
    rw [←hids values] at hascending
    exact ⟨h.good,hmeets,fun rowId hrowId => h.held rowId (hids values▸hrowId),h.sequence,
      hascending⟩
  | reopen values =>
    refine ⟨h.good,h.covered,fun rowId hrowId => ?_,h.sequence,sortByRowId_ascending _⟩
    have hperm := (sortByRowId_perm (table.rows.map fun row => (row.1,values row.2))).map Prod.fst
    rw [hids] at hperm
    exact h.held rowId (hperm.mem_iff.mp hrowId)

/-- So does a run. -/
theorem runCalls_numbered {checks : RowChecks} {calls : List Call} {table : WritableTable}
    (h : table.Numbered) (hcalls : CallsMeet checks calls table) :
    (runCalls checks calls table).Numbered := by
  induction calls generalizing table with
  | nil => exact h
  | cons call calls ih => exact ih (call_numbered h hcalls.1) hcalls.2

/-! ## Tables of a file -/

/-- `load_writable_database`, one table: nothing has happened to it yet. The number that
`sqlite_sequence` names counts as one a row has had. -/
def openTable (schema : Sql.Schema) (autoincrement : Bool) (rows : List (ℕ × Row))
    (sequence : Option ℕ) : WritableTable :=
  ⟨schema,autoincrement,rows,sequence,rows.map Prod.fst++sequence.toList,[]⟩

/-- `create_schema`. -/
def createTable (schema : Sql.Schema) (autoincrement : Bool) : WritableTable :=
  openTable schema autoincrement [] (if autoincrement then some 0 else none)

/-- A row number as the file has it. -/
def signedRowId (rowId : ℕ) : ℤ := if rowId < 2^63 then rowId else (rowId : ℤ)-2^64

/-- The rows are listed in the order of their numbers, as this program writes them or as the
file has them. -/
def Listed (rows : List (ℕ × Row)) : Prop :=
  (rows.map Prod.fst).Pairwise (· ≤ ·) ∨
    (rows.map fun row => signedRowId row.1).Pairwise (· ≤ ·)

/-- Listed rows ascend. -/
theorem Listed.ascending {rows : List (ℕ × Row)} (h : Listed rows) :
    (rows.map Prod.fst).Pairwise fun left right => left < 2^63 → right < 2^63 → left ≤ right := by
  rcases h with hunsigned | hsigned
  · exact hunsigned.imp fun hle _ _ => hle
  · rw [List.pairwise_map] at hsigned ⊢
    refine hsigned.imp fun hle hleft hright => ?_
    rw [signedRowId,if_pos hleft,signedRowId,if_pos hright] at hle
    exact_mod_cast hle

/-- A table that was opened, with a `sqlite_sequence` that covers its rows. -/
theorem openTable_numbered {schema : Sql.Schema} {autoincrement : Bool} {rows : List (ℕ × Row)}
    {sequence : Option ℕ} (hlisted : Listed rows)
    (hcovered : autoincrement → ∀ row∈rows, row.1 ≤ sequence.getD 0) :
    (openTable schema autoincrement rows sequence).Numbered where
  good _ hnumbering := absurd hnumbering List.not_mem_nil
  covered hauto number hnumber := by
    rcases List.mem_append.mp hnumber with hlisted | hsequence
    · obtain ⟨row,hrow,rfl⟩ := List.mem_map.mp hlisted
      exact hcovered hauto row hrow
    · rw [Option.mem_toList] at hsequence
      change number ≤ sequence.getD 0
      rw [hsequence,Option.getD_some]
  held rowId hrowId := List.mem_append_left _ hrowId
  sequence := by
    cases sequence with
    | none => exact .inl rfl
    | some number => exact .inr (List.mem_append_right _ List.mem_cons_self)
  ascending := hlisted.ascending

/-- In every run whose calls find what they need, every insert that leaves the number open takes
one that no row has and that fits, or fails when none is left; under `AUTOINCREMENT` the number
is larger than any that a row has had, and `sqlite_sequence` is not below any of them. -/
theorem automatic_row_ids (checks : RowChecks) {schema : Sql.Schema} {autoincrement : Bool}
    {rows : List (ℕ × Row)} {sequence : Option ℕ} {calls : List Call} (hlisted : Listed rows)
    (hcovered : autoincrement → ∀ row∈rows, row.1 ≤ sequence.getD 0)
    (hcalls : CallsMeet checks calls (openTable schema autoincrement rows sequence)) :
    (∀ numbering∈(runCalls checks calls
        (openTable schema autoincrement rows sequence)).numberings, numbering.Good) ∧
      (runCalls checks calls (openTable schema autoincrement rows sequence)).Covered := by
  have h := runCalls_numbered (openTable_numbered hlisted hcovered) hcalls
  exact ⟨h.good,h.covered⟩

/-! ## Two runs -/

/-- Nothing is checked but the types of the values and the primary key. -/
def plainChecks : RowChecks := ⟨Sql.noExpressions,false,false,fun _ _ _ => .ok ()⟩

/-- `CREATE TABLE t(a INTEGER PRIMARY KEY AUTOINCREMENT)`. -/
def counted : Sql.Schema := Sql.plainTable "t" [Sql.keyColumn "a"] []

def noTriggers : Triggers := ⟨[],[]⟩

/-- Without triggers nothing is asked of them. -/
theorem noTriggers_meet {α : Type} (checks : RowChecks) (start : Eff WritableTable α)
    (finish : α → Eff WritableTable Unit) (table : WritableTable) :
    TriggersMeet checks noTriggers start finish table :=
  fun _ _ _ => ⟨trivial,fun _ _ _ _ => trivial⟩

/-- A row comes, goes, and another comes. -/
def comeAndGo : List Call :=
  [.insert noTriggers [.null],.delete noTriggers 1,.insert noTriggers [.null]]

/-- An `AUTOINCREMENT` table whose only row is deleted before the next insert. -/
theorem automatic_row_ids_comeAndGo :
    (∀ numbering∈(runCalls plainChecks comeAndGo
        (openTable counted true [] (some 0))).numberings, numbering.Good) ∧
      (runCalls plainChecks comeAndGo (openTable counted true [] (some 0))).Covered := by
  refine automatic_row_ids plainChecks (.inl .nil) (fun _ _ h => absurd h List.not_mem_nil) ?_
  exact ⟨⟨fun _ => ⟨.inl rfl,fun _ h => absurd h List.not_mem_nil⟩,noTriggers_meet _ _ _ _⟩,
    noTriggers_meet _ _ _ _,
    ⟨fun _ => ⟨.inl rfl,fun _ h => absurd h List.not_mem_nil⟩,noTriggers_meet _ _ _ _⟩,trivial⟩

/-- `INSERT`, `UPDATE t SET a = 2`, `INSERT`. -/
def moveAndInsert : List Call :=
  [.insert noTriggers [.null],.update noTriggers 1 [.integer 2],.insert noTriggers [.null]]

/-- The number after the entry in `sqlite_sequence` is the one the row was moved to, and the
insert fails. -/
theorem moved_number_taken :
    (∃ numbering∈(runCalls plainChecks moveAndInsert (createTable counted true)).numberings,
      ¬numbering.Good) ∧
    ((Call.insert noTriggers [.null]).run plainChecks
      (runCalls plainChecks (moveAndInsert.take 2) (createTable counted true))).1=
        .err (.storage "duplicate primary key value for column 'a': ") := by
  have hnumberings : (runCalls plainChecks moveAndInsert (createTable counted true)).numberings=
      [⟨some 2,true,[2],[2,1,0]⟩,⟨some 1,true,[],[0]⟩,⟨some 1,true,[],[0]⟩] := by decide +kernel
  refine ⟨⟨⟨some 2,true,[2],[2,1,0]⟩,?_,fun h => ?_⟩,by decide +kernel⟩
  · rw [hnumberings]
    exact List.mem_cons_self
  · exact h.1 List.mem_cons_self

end RustSql.Sqlite3
