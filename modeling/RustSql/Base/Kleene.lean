import Mathlib.Data.List.Basic
import Mathlib.Logic.Relation

/-!
# Three truth values

Kleene's logic: a truth value is true, false or unknown, and a connective has a value as
soon as what is known decides it.
-/

namespace RustSql

/-- True, false, or unknown. -/
abbrev Truth := Option Bool

namespace Truth

/-- Negation leaves the unknown unknown. -/
def not : Truth → Truth
  | some value => some (!value)
  | none => none

/-- Conjunction: one false side decides it. -/
def and : Truth → Truth → Truth
  | some false, _ => some false
  | some true, right => right
  | none, some false => some false
  | none, _ => none

/-- Disjunction: one true side decides it. -/
def or : Truth → Truth → Truth
  | some true, _ => some true
  | some false, right => right
  | none, some true => some true
  | none, _ => none

/-- Negated or as it is. -/
def withNegation (negated : Bool) (truth : Truth) : Truth := if negated then truth.not else truth

/-- Some of several. -/
def any (truths : List Truth) : Truth := truths.foldr or (some false)

/-- All of several. -/
def all (truths : List Truth) : Truth := truths.foldr and (some true)

/-- What a test makes of a truth value: the unknown counts as false. -/
def holds (truth : Truth) : Bool := truth==some true

@[simp] theorem not_some (value : Bool) : not (some value)=some (!value) := rfl

@[simp] theorem not_none : not none=none := rfl

@[simp] theorem and_false_left (truth : Truth) : and (some false) truth=some false := rfl

@[simp] theorem and_true_left (truth : Truth) : and (some true) truth=truth := rfl

@[simp] theorem or_true_left (truth : Truth) : or (some true) truth=some true := rfl

@[simp] theorem or_false_left (truth : Truth) : or (some false) truth=truth := rfl

@[simp] theorem holds_some (value : Bool) : holds (some value)=value := by
  cases value <;> rfl

@[simp] theorem holds_none : holds none=false := rfl

/-- A test of a negation and the negation of a test differ on the unknown only. -/
theorem holds_not (truth : Truth) : truth.not.holds=!truth.holds ↔ truth≠none := by
  cases truth with
  | none => simp
  | some value => simp

theorem withNegation_some (negated value : Bool) :
    withNegation negated (some value)=some (value ^^ negated) := by
  cases negated <;> simp [withNegation]

@[simp] theorem withNegation_none (negated : Bool) : withNegation negated none=none := by
  cases negated <;> rfl

@[simp] theorem any_nil : any []=some false := rfl

@[simp] theorem any_cons (truth : Truth) (truths : List Truth) :
    any (truth :: truths)=or truth (any truths) := rfl

@[simp] theorem all_nil : all []=some true := rfl

@[simp] theorem all_cons (truth : Truth) (truths : List Truth) :
    all (truth :: truths)=and truth (all truths) := rfl

end Truth

/-! ## The parts of a tree -/

section Parts

variable {α : Type} {child : α → α → Prop} {P Q : α → Prop}

/-- A tree, its children, theirs, and so on. -/
def Part (child : α → α → Prop) : α → α → Prop := Relation.ReflTransGen fun x y => child y x

theorem Part.self (x : α) : Part child x x := .refl

theorem Part.of_child {x y z : α} (hxy : child y x) (hyz : Part child y z) : Part child x z :=
  .head hxy hyz

/-- Two properties that say the same of each tree, given the first of everything below it,
say the same of all the parts of a tree. -/
theorem parts_iff (hwf : WellFounded child)
    (h : ∀ x, (∀ y, child y x → ∀ z, Part child y z → P z) → (P x ↔ Q x)) (x : α) :
    (∀ y, Part child x y → P y) ↔ (∀ y, Part child x y → Q y) := by
  constructor
  · intro hP y hy
    have hbelow : ∀ z, child z y → ∀ w, Part child z w → P w :=
      fun z hz w hw => hP w ((hy.tail hz).trans hw)
    exact (h y hbelow).mp (hP y hy)
  · intro hQ
    induction x using hwf.induction with
    | h x ih =>
      have hbelow : ∀ y, child y x → ∀ z, Part child y z → P z :=
        fun y hy => ih y hy fun z hz => hQ z (Part.of_child hy hz)
      intro y hy
      rcases Relation.ReflTransGen.cases_head hy with rfl | ⟨z,hz,hzy⟩
      · exact (h x hbelow).mpr (hQ x (Part.self x))
      · exact hbelow z hz y hzy

end Parts

end RustSql
