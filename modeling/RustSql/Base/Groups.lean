import RustSql.Base.Panics
import Mathlib.Data.List.Induction
import Std.Data.ExtTreeMap

/-!
# Rows in groups

A loop over rows that keeps a value for each key in a map. What the map has for a key in the end
is what the rows of the key alone make of it.
-/

namespace RustSql

open Outcome

section Groups

variable {α κ ν : Type} {cmp : κ → κ → Ordering} [Std.TransCmp cmp]
  (key : α → Except DbError κ) (fresh : α → ν) (update : α → ν → Outcome ν)

/-- One row of the loop: it updates the value of its key, which is fresh at the first row. -/
def groupStep (groups : Std.ExtTreeMap κ ν cmp) (row : α) : Outcome (Std.ExtTreeMap κ ν cmp) := do
  let k ← Outcome.ofExcept (key row)
  let value ← update row ((groups[k]?).getD (fresh row))
  .ok (groups.insert k value)

variable {key fresh update} {groups groups' : Std.ExtTreeMap κ ν cmp}

theorem groupStep_ok {row : α} (h : groupStep key fresh update groups row=.ok groups') :
    ∃ k value, key row=.ok k ∧ update row ((groups[k]?).getD (fresh row))=.ok value ∧
      groups'=groups.insert k value := by
  obtain ⟨k,hkey,h⟩ := bind_ok_inv h
  obtain ⟨value,hvalue,h⟩ := bind_ok_inv h
  cases hrow : key row with
  | error e =>
    rw [hrow] at hkey
    cases hkey
  | ok k' =>
    rw [hrow] at hkey
    cases hkey
    cases h
    exact ⟨k,value,rfl,hvalue,rfl⟩

variable [DecidableEq κ]

/-- The rows of a key. -/
def rowsOf (key : α → Except DbError κ) (k : κ) (rows : List α) : List α :=
  rows.filter fun row => (key row).toOption=some k

/-- What the rows of one key make, if it has any. -/
def groupOf (fresh : α → ν) (update : α → ν → Outcome ν) : List α → Outcome (Option ν)
  | [] => .ok none
  | first :: rest => do
    let value ← (first :: rest).foldlM (fun value row => update row value) (fresh first)
    .ok (some value)

instance instLawfulMonad : LawfulMonad Outcome :=
  LawfulMonad.mk' Outcome (fun x => by cases x <;> rfl) (fun _ _ => rfl)
    (fun x _ _ => by cases x <;> rfl)

variable {rows : List α}

theorem rowsOf_append (k : κ) (rows : List α) (row : α) :
    rowsOf key k (rows++[row])=
      if (key row).toOption=some k then rowsOf key k rows++[row] else rowsOf key k rows := by
  rw [rowsOf,List.filter_append]
  split
  · next hkey => rw [List.filter_cons_of_pos (by simpa using hkey),List.filter_nil,rowsOf]
  · next hkey =>
    rw [List.filter_cons_of_neg (by simpa using hkey),List.filter_nil,List.append_nil,rowsOf]

theorem groupOf_append (rows : List α) (row : α) :
    groupOf fresh update (rows++[row])=groupOf fresh update rows >>= fun value =>
      update row (value.getD (fresh row)) >>= fun value => .ok (some value) := by
  cases rows with
  | nil =>
    rw [List.nil_append,groupOf,groupOf,bind_ok,List.foldlM_cons]
    simp
  | cons first rest =>
    simp only [List.cons_append,groupOf]
    rw [←List.cons_append,List.foldlM_append]
    simp [bind_ok]

theorem groupOf_some {rows : List α} {value : Option ν} (h : groupOf fresh update rows=.ok value)
    (hne : rows≠[]) : ∃ v, value=some v := by
  cases rows with
  | nil => exact absurd rfl hne
  | cons first rest =>
    obtain ⟨v,-,h⟩ := bind_ok_inv h
    exact ⟨v,(ok.inj h).symm⟩

variable [Std.LawfulEqCmp cmp]

/-- When the loop has gone through, the rows of each key, alone, make what the map has for it. -/
theorem foldlM_groupStep_ok (h : rows.foldlM (groupStep key fresh update) ∅=.ok groups) :
    (∀ row∈rows, ∃ k, key row=.ok k) ∧
      ∀ k, groupOf fresh update (rowsOf key k rows)=.ok groups[k]? := by
  induction rows using List.reverseRecOn generalizing groups with
  | nil =>
    cases h
    refine ⟨fun _ hrow => absurd hrow List.not_mem_nil,fun k => ?_⟩
    rw [Std.ExtTreeMap.getElem?_empty]
    rfl
  | append_singleton rows row ih =>
    rw [List.foldlM_append] at h
    obtain ⟨before,hbefore,h⟩ := bind_ok_inv h
    rw [List.foldlM_cons] at h
    obtain ⟨after,hafter,h⟩ := bind_ok_inv h
    cases h
    obtain ⟨k,value,hkey,hvalue,rfl⟩ := groupStep_ok hafter
    obtain ⟨hkeys,hgroups⟩ := ih hbefore
    refine ⟨fun other hother => ?_,fun k' => ?_⟩
    · rcases List.mem_append.mp hother with hother | hother
      · exact hkeys other hother
      · exact ⟨k,(List.mem_singleton.mp hother)▸hkey⟩
    · rw [rowsOf_append,Std.ExtTreeMap.getElem?_insert,hkey]
      simp only [Except.toOption,Option.some.injEq,Std.LawfulEqCmp.compare_eq_iff_eq]
      by_cases hsame : k=k'
      · subst hsame
        rw [if_pos rfl,if_pos rfl,groupOf_append,hgroups,bind_ok,hvalue,bind_ok]
      · rw [if_neg hsame,if_neg hsame,hgroups]

/-- The loop goes through when each row has a key and the rows of each key, alone, do. -/
theorem foldlM_groupStep_total (hkeys : ∀ row∈rows, ∃ k, key row=.ok k)
    (hgroups : ∀ k, (groupOf fresh update (rowsOf key k rows)).Total) :
    (rows.foldlM (groupStep key fresh update) (∅ : Std.ExtTreeMap κ ν cmp)).Total := by
  induction rows using List.reverseRecOn with
  | nil => exact total_ok ∅
  | append_singleton rows row ih =>
    have hsplit : ∀ k, groupOf fresh update (rowsOf key k (rows++[row]))=
        if (key row).toOption=some k then groupOf fresh update (rowsOf key k rows) >>= fun value =>
          update row (value.getD (fresh row)) >>= fun value => .ok (some value)
        else groupOf fresh update (rowsOf key k rows) := fun k => by
      rw [rowsOf_append,apply_ite (groupOf fresh update),groupOf_append]
    obtain ⟨groups,hmade⟩ := ih (fun other hother => hkeys other
      (List.mem_append_left [row] hother)) fun k => by
        obtain ⟨value,hvalue⟩ := hgroups k
        rw [hsplit] at hvalue
        split at hvalue
        · obtain ⟨value,hvalue,-⟩ := bind_ok_inv hvalue
          exact ⟨value,hvalue⟩
        · exact ⟨value,hvalue⟩
    obtain ⟨k,hkey⟩ := hkeys row (List.mem_append_right rows List.mem_cons_self)
    have hsame : (key row).toOption=some k := by
      rw [hkey]
      rfl
    obtain ⟨value,hvalue⟩ := hgroups k
    rw [hsplit,if_pos hsame,(foldlM_groupStep_ok hmade).2 k,bind_ok] at hvalue
    obtain ⟨value,hvalue,-⟩ := bind_ok_inv hvalue
    have hstep : groupStep key fresh update groups row=.ok (groups.insert k value) := by
      rw [groupStep,hkey,Outcome.ofExcept,bind_ok,hvalue,bind_ok]
    rw [List.foldlM_append,hmade,bind_ok,List.foldlM_cons,hstep,bind_ok]
    exact total_ok _

end Groups

end RustSql
