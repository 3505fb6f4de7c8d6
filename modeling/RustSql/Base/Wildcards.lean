import Mathlib.Data.List.Infix
import Mathlib.Logic.Basic

/-!
# Wildcards

Lists of wildcards and the words they accept: a wildcard stands for any word or for one letter
of a kind. Words are taken apart from either end, as recursive matchers and tables of prefixes
do.
-/

namespace RustSql

/-- Any word, or one letter that is accepted. -/
inductive Wildcard (α : Type) where
  | any
  | one (accepts : α → Prop)

namespace Wildcard

variable {α : Type}

/-- A word that wildcards accept, one after the other. -/
inductive Accepts : List (Wildcard α) → List α → Prop where
  | nil : Accepts [] []
  | any {wildcards : List (Wildcard α)} {word : List α} (skipped : List α)
      (h : Accepts wildcards word) : Accepts (.any :: wildcards) (skipped++word)
  | one {wildcards : List (Wildcard α)} {word : List α} {accepts : α → Prop} {letter : α}
      (hletter : accepts letter) (h : Accepts wildcards word) :
      Accepts (.one accepts :: wildcards) (letter :: word)

variable {word : List α} {wildcards : List (Wildcard α)} {accepts : α → Prop} {letter : α}

/-- No wildcards accept the empty word. -/
@[simp] theorem accepts_nil : Accepts [] word ↔ word=[] := by
  constructor
  · intro h
    cases h
    rfl
  · rintro rfl
    exact .nil

/-! ## From the front -/

/-- `any` skips a part of the word. -/
theorem accepts_any :
    Accepts (.any :: wildcards) word ↔ ∃ skipped rest, word=skipped++rest ∧
      Accepts wildcards rest := by
  constructor
  · intro h
    cases h with
    | any skipped h => exact ⟨skipped,_,rfl,h⟩
  · rintro ⟨skipped,rest,rfl,h⟩
    exact .any skipped h

/-- Any word is nothing, or a letter and any word. -/
theorem accepts_any_step :
    Accepts (.any :: wildcards) word ↔ Accepts wildcards word ∨
      ∃ letter rest, word=letter :: rest ∧ Accepts (.any :: wildcards) rest := by
  rw [accepts_any]
  constructor
  · rintro ⟨skipped,rest,rfl,h⟩
    cases skipped with
    | nil => exact Or.inl h
    | cons letter skipped => exact Or.inr ⟨letter,_,rfl,.any skipped h⟩
  · rintro (h | ⟨letter,rest,rfl,h⟩)
    · exact ⟨[],word,rfl,h⟩
    · obtain ⟨skipped,last,rfl,hlast⟩ := accepts_any.mp h
      exact ⟨letter :: skipped,last,rfl,hlast⟩

/-- `one` accepts no empty word. -/
@[simp] theorem not_accepts_one_nil :
    ¬Accepts (.one accepts :: wildcards) [] := by
  intro h
  cases h

/-- `one` accepts one letter. -/
@[simp] theorem accepts_one : Accepts (.one accepts :: wildcards) (letter :: word) ↔
      accepts letter ∧ Accepts wildcards word := by
  constructor
  · intro h
    cases h with
    | one hletter h => exact ⟨hletter,h⟩
  · rintro ⟨hletter,h⟩
    exact .one hletter h

/-! ## From the end -/

/-- Wildcards in a row accept words in a row. -/
theorem accepts_append {first second : List (Wildcard α)} :
    Accepts (first++second) word ↔
      ∃ front rest, word=front++rest ∧ Accepts first front ∧ Accepts second rest := by
  induction first generalizing word with
  | nil =>
    constructor
    · intro h
      exact ⟨[],word,rfl,.nil,h⟩
    · rintro ⟨front,rest,rfl,hfront,h⟩
      rw [accepts_nil.mp hfront]
      exact h
  | cons wildcard first ih =>
    rw [List.cons_append]
    constructor
    · intro h
      cases h with
      | any skipped h =>
        obtain ⟨front,rest,rfl,hfront,hrest⟩ := ih.mp h
        exact ⟨skipped++front,rest,(List.append_assoc _ _ _).symm,.any skipped hfront,hrest⟩
      | one hletter h =>
        obtain ⟨front,rest,rfl,hfront,hrest⟩ := ih.mp h
        exact ⟨_ :: front,rest,rfl,.one hletter hfront,hrest⟩
    · rintro ⟨front,rest,rfl,hfront,hrest⟩
      cases hfront with
      | any skipped hfront =>
        rw [List.append_assoc]
        exact .any skipped (ih.mpr ⟨_,rest,rfl,hfront,hrest⟩)
      | one hletter hfront => exact .one hletter (ih.mpr ⟨_,rest,rfl,hfront,hrest⟩)

/-- `any` accepts every word. -/
@[simp] theorem accepts_any_only (word : List α) : Accepts [.any] word :=
  accepts_any.mpr ⟨word,[],(List.append_nil word).symm,.nil⟩

/-- The empty word ends in any word when the wildcards before accept it. -/
theorem accepts_concat_any_nil :
    Accepts (wildcards++[.any]) [] ↔ Accepts wildcards [] := by
  rw [accepts_append]
  constructor
  · rintro ⟨front,rest,hnil,h,_⟩
    rw [(List.append_eq_nil_iff.mp hnil.symm).1] at h
    exact h
  · intro h
    exact ⟨[],[],rfl,h,accepts_any_only []⟩

/-- `any` at the end takes the last letter or nothing. -/
theorem accepts_concat_any :
    Accepts (wildcards++[.any]) (word++[letter]) ↔
      Accepts wildcards (word++[letter]) ∨ Accepts (wildcards++[.any]) word := by
  rw [accepts_append,accepts_append]
  constructor
  · rintro ⟨front,rest,hword,h,_⟩
    rcases List.eq_nil_or_concat rest with rfl | ⟨rest,last,rfl⟩
    · rw [List.append_nil] at hword
      exact Or.inl (hword ▸ h)
    · rw [List.concat_eq_append,←List.append_assoc] at hword
      obtain ⟨rfl,_⟩ := List.append_inj' hword rfl
      exact Or.inr ⟨front,rest,rfl,h,accepts_any_only rest⟩
  · rintro (h | ⟨front,rest,rfl,h,_⟩)
    · exact ⟨word++[letter],[],(List.append_nil _).symm,h,accepts_any_only []⟩
    · exact ⟨front,rest++[letter],List.append_assoc _ _ _,h,accepts_any_only _⟩

/-- `one` at the end accepts no empty word. -/
theorem not_accepts_concat_one_nil :
    ¬Accepts (wildcards++[.one accepts]) [] := by
  rw [accepts_append]
  rintro ⟨front,rest,hnil,_,h⟩
  rw [(List.append_eq_nil_iff.mp hnil.symm).2] at h
  exact not_accepts_one_nil h

/-- `one` at the end takes the last letter. -/
theorem accepts_concat_one : Accepts (wildcards++[.one accepts]) (word++[letter]) ↔
      Accepts wildcards word ∧ accepts letter := by
  rw [accepts_append]
  constructor
  · rintro ⟨front,rest,hword,h,hrest⟩
    cases hrest with
    | one hletter hnil =>
      obtain rfl := accepts_nil.mp hnil
      obtain ⟨rfl,hsame⟩ := List.append_inj' hword rfl
      obtain rfl := List.head_eq_of_cons_eq hsame
      exact ⟨h,hletter⟩
  · rintro ⟨h,hletter⟩
    exact ⟨word,[letter],rfl,h,.one hletter .nil⟩

end Wildcard

end RustSql
