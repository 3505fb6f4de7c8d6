import Mathlib.Data.List.Perm.Subperm
import Mathlib.Data.List.ReduceOption
import RustSql.Base.Fallible
import RustSql.Sql.Statements

/-!
# The rows an update is about

The first half of `execute_update`: the rows that the filter keeps with their new values, all
computed from the stored rows, in the order and up to the limit of the statement. What the
expressions of the statement come to is a function of the storage and the row.
-/

namespace RustSql.Sql

open RustSql.Engine RustSql.V2

/-- What an expression comes to for a stored row. -/
abbrev RowQuery (σ α : Type) := TransactionId → σ → RowId → Row → Except DbError α

/-- An `UPDATE`: its filter, its assignments and what selects among the rows. -/
structure UpdateStatement (σ : Type) where
  filter : RowQuery σ Bool
  assignments : List (String × RowQuery σ Value)
  /-- There are terms after `ORDER BY`. -/
  ordered : Bool
  sortKey : RowQuery σ (List (Option Value))
  /-- `compare_order_keys` does not put the left key behind the right one. -/
  precedes : List (Option Value) → List (Option Value) → Bool
  limit : Option ℕ
  offset : Option ℕ

/-- `apply_limit_offset_for_update`. -/
def applyLimitOffset {α : Type} (limit offset : Option ℕ) (rows : List α) : List α :=
  if rows.length ≤ offset.getD 0 then []
  else
    match limit with
    | some limit => (rows.drop (offset.getD 0)).take limit
    | none => rows.drop (offset.getD 0)

namespace UpdateStatement

variable {σ : Type} (expressions : Expressions) (schema : Schema) (tid : TransactionId)
  (storage : σ)

/-- One assignment; every value is computed from the stored row. -/
def assign (rowId : RowId) (stored : Row) (updated : Row)
    (assignment : String × RowQuery σ Value) : Except DbError Row :=
  match schema.columns.findIdx? fun entry => entry.name==assignment.1 with
  | none => .error (.plan s!"unknown column {assignment.1} on table {schema.name}")
  | some position =>
    if (schema.columns[position]?.bind ColumnDef.generatedExpr).isSome then
      .error (.storage s!"cannot UPDATE generated column {assignment.1}")
    else do
      let value ← assignment.2 tid storage rowId stored
      .ok (updated.set position value)

/-- The new row of a stored one. -/
def updatedRow (statement : UpdateStatement σ) (rowId : RowId) (stored : Row) :
    Except DbError Row := do
  let updated ← statement.assignments.foldlM (assign schema tid storage rowId stored) stored
  let updated ← schema.populateGeneratedColumns expressions updated
  schema.normalizeStrictRow expressions updated

/-- The update of a stored row, none when the filter drops it. -/
def candidate (statement : UpdateStatement σ) (entry : RowId × Row) :
    Except DbError (Option PendingUpdate) := do
  if ← statement.filter tid storage entry.1 entry.2 then
    let updated ← statement.updatedRow expressions schema tid storage entry.1 entry.2
    .ok (some ⟨entry.1,entry.2,updated⟩)
  else .ok none

/-- Order the updates and apply the limit. -/
def select (statement : UpdateStatement σ) (candidates : List PendingUpdate) :
    Except DbError (List PendingUpdate) :=
  if statement.ordered || statement.limit.isSome || statement.offset.isSome then do
    let keyed ← candidates.mapM fun (update : PendingUpdate) => do
      let key ← statement.sortKey tid storage update.rowId update.stored
      .ok (key,update)
    let sorted :=
      if statement.ordered then keyed.mergeSort fun left right => statement.precedes left.1 right.1
      else keyed
    .ok (applyLimitOffset statement.limit statement.offset (sorted.map Prod.snd))
  else .ok candidates

/-- The updates of a statement. -/
def candidates (statement : UpdateStatement σ) (rows : List (RowId × Row)) :
    Except DbError (List PendingUpdate) := do
  let found ← rows.mapM (statement.candidate expressions schema tid storage)
  statement.select tid storage found.reduceOption

end UpdateStatement

/-! ## Updates of stored rows -/

/-- The row an update is about. -/
def PendingUpdate.entry (update : PendingUpdate) : RowId × Row := (update.rowId,update.stored)

section Candidates

variable {σ : Type} {expressions : Expressions} {schema : Schema} {tid : TransactionId}
  {storage : σ} {statement : UpdateStatement σ} {rows : List (RowId × Row)}
  {pending found : List PendingUpdate}

theorem applyLimitOffset_sublist {α : Type} (limit offset : Option ℕ) (rows : List α) :
    (applyLimitOffset limit offset rows).Sublist rows := by
  unfold applyLimitOffset
  split
  · exact List.nil_sublist rows
  · cases limit with
    | none => exact List.drop_sublist _ rows
    | some limit => exact (List.take_sublist limit _).trans (List.drop_sublist _ rows)

theorem candidate_entry {entry : RowId × Row} {update : PendingUpdate}
    (h : statement.candidate expressions schema tid storage entry=.ok (some update)) :
    update.entry=entry := by
  unfold UpdateStatement.candidate at h
  obtain ⟨keep,-,h⟩ := except_bind_ok h
  cases keep with
  | false => cases h
  | true =>
    obtain ⟨updated,-,h⟩ := except_bind_ok h
    obtain rfl := Option.some.inj (Except.ok.inj h)
    rfl

/-- The filter keeps some of the stored rows, in their order. -/
theorem filtered_sublist {found : List (Option PendingUpdate)}
    (h : rows.mapM (statement.candidate expressions schema tid storage)=.ok found) :
    (found.reduceOption.map PendingUpdate.entry).Sublist rows := by
  rw [mapM_eq_ok] at h
  induction h with
  | nil => exact List.nil_sublist []
  | @cons entry kept rows found hentry _ ih =>
    cases kept with
    | none =>
      rw [List.reduceOption_cons_of_none]
      exact ih.cons entry
    | some update =>
      rw [List.reduceOption_cons_of_some,List.map_cons,candidate_entry hentry]
      exact ih.cons_cons entry

/-- What is selected was there, up to the order. -/
theorem select_subperm (h : statement.select tid storage found=.ok pending) :
    pending.Subperm found := by
  unfold UpdateStatement.select at h
  split at h
  · obtain ⟨keyed,hkeyed,h⟩ := except_bind_ok h
    obtain rfl := Except.ok.inj h
    have hsame : keyed.map Prod.snd=found.map id := by
      refine mapM_map hkeyed fun update pair hpair => ?_
      obtain ⟨key,-,hpair⟩ := except_bind_ok hpair
      rw [←Except.ok.inj hpair]
      rfl
    rw [List.map_id] at hsame
    refine (applyLimitOffset_sublist _ _ _).subperm.trans (List.Perm.subperm ?_)
    rw [←hsame]
    refine List.Perm.map Prod.snd ?_
    split
    · exact List.mergeSort_perm keyed _
    · exact List.Perm.refl keyed
  · rw [Except.ok.inj h]

/-- The updates of a statement are about stored rows, each about another one. -/
theorem candidates_subperm (h : statement.candidates expressions schema tid storage rows=.ok pending) :
    (pending.map PendingUpdate.entry).Subperm rows := by
  obtain ⟨found,hfound,h⟩ := except_bind_ok h
  obtain ⟨kept,hkept,hsublist⟩ := select_subperm h
  have hentries : (pending.map PendingUpdate.entry).Subperm
      (found.reduceOption.map PendingUpdate.entry) :=
    ⟨kept.map PendingUpdate.entry,hkept.map _,hsublist.map _⟩
  exact hentries.trans (filtered_sublist hfound).subperm

end Candidates

end RustSql.Sql
