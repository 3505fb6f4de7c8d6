import Mathlib.Data.List.Basic
import Mathlib.Logic.Relation

/-!
# Matchers

A matcher reads a word against a pattern: it leaves out a part of the pattern, takes a letter,
or ends. Two matchers accept the same words where they have the same moves at every place that
a run of one of them comes to.
-/

namespace RustSql

/-- The moves of a matcher at a pattern. -/
structure Matcher (P α : Type) where
  /-- A part of the pattern is left out. -/
  skips : P → P → Prop
  /-- A letter is taken. -/
  eats : P → α → P → Prop
  /-- The rest of the word is accepted at once. -/
  ends : P → List α → Prop

namespace Matcher

variable {P α : Type}

/-- The words that a matcher accepts. -/
inductive Accepts (m : Matcher P α) : P → List α → Prop where
  | done {pattern : P} {word : List α} (h : m.ends pattern word) : Accepts m pattern word
  | skip {pattern rest : P} {word : List α} (hskip : m.skips pattern rest)
      (h : Accepts m rest word) : Accepts m pattern word
  | eat {pattern rest : P} {letter : α} {word : List α} (heat : m.eats pattern letter rest)
      (h : Accepts m rest word) : Accepts m pattern (letter :: word)

/-- One move, from a place in a pattern and in a word to another. -/
inductive Moves (m : Matcher P α) : P × List α → P × List α → Prop where
  | skip {pattern rest : P} {word : List α} (h : m.skips pattern rest) :
      Moves m (pattern,word) (rest,word)
  | eat {pattern rest : P} {letter : α} {word : List α} (h : m.eats pattern letter rest) :
      Moves m (pattern,letter :: word) (rest,word)

/-- The places that runs come to. -/
def Reaches (m : Matcher P α) : P × List α → P × List α → Prop := Relation.ReflTransGen m.Moves

variable {m other : Matcher P α} {pattern : P} {word : List α}

/-- Two matchers have the same moves at a place. -/
structure Same (m other : Matcher P α) (pattern : P) (word : List α) : Prop where
  skips : ∀ rest, m.skips pattern rest ↔ other.skips pattern rest
  eats : ∀ letter tail, word=letter :: tail →
    ∀ rest, m.eats pattern letter rest ↔ other.eats pattern letter rest
  ends : m.ends pattern word ↔ other.ends pattern word

/-- Matchers with the same moves wherever one of them comes to accept the same word. -/
theorem accepts_iff (h : ∀ place, m.Reaches (pattern,word) place →
    m.Same other place.1 place.2) : m.Accepts pattern word ↔ other.Accepts pattern word := by
  constructor
  · intro haccepts
    induction haccepts with
    | @done pattern word hends => exact .done ((h (pattern,word) .refl).ends.mp hends)
    | @skip pattern rest word hskip _ ih =>
      have hmove : m.Moves (pattern,word) (rest,word) := .skip hskip
      exact .skip (((h (pattern,word) .refl).skips rest).mp hskip)
        (ih fun place hplace => h place (.head hmove hplace))
    | @eat pattern rest letter word heat _ ih =>
      have hmove : m.Moves (pattern,letter :: word) (rest,word) := .eat heat
      exact .eat (((h (pattern,letter :: word) .refl).eats letter word rfl rest).mp heat)
        (ih fun place hplace => h place (.head hmove hplace))
  · intro haccepts
    induction haccepts with
    | @done pattern word hends => exact .done ((h (pattern,word) .refl).ends.mpr hends)
    | @skip pattern rest word hskip _ ih =>
      have hown := ((h (pattern,word) .refl).skips rest).mpr hskip
      have hmove : m.Moves (pattern,word) (rest,word) := .skip hown
      exact .skip hown (ih fun place hplace => h place (.head hmove hplace))
    | @eat pattern rest letter word heat _ ih =>
      have hown := ((h (pattern,letter :: word) .refl).eats letter word rfl rest).mpr heat
      have hmove : m.Moves (pattern,letter :: word) (rest,word) := .eat hown
      exact .eat hown (ih fun place hplace => h place (.head hmove hplace))

/-! ## A letter that ends the word -/

variable [DecidableEq α] {stop : α}

/-- The matcher that takes a letter for the end of the word. -/
def stoppingAt (m : Matcher P α) (stop : α) : Matcher P α where
  skips := m.skips
  eats pattern letter rest := letter≠stop ∧ m.eats pattern letter rest
  ends pattern word := m.ends pattern (word.takeWhile fun letter => letter != stop)

/-- It accepts what is accepted of the part before that letter. -/
theorem stoppingAt_accepts :
    (m.stoppingAt stop).Accepts pattern word ↔
      m.Accepts pattern (word.takeWhile fun letter => letter != stop) := by
  have hnext : ∀ {letter : α} {tail : List α}, letter≠stop →
      (letter :: tail).takeWhile (fun letter => letter != stop)=
        letter :: tail.takeWhile fun letter => letter != stop :=
    fun hletter => by simp [hletter]
  constructor
  · intro haccepts
    induction haccepts with
    | done hends => exact .done hends
    | skip hskip _ ih => exact .skip hskip ih
    | eat heat _ ih =>
      rw [hnext heat.1]
      exact .eat heat.2 ih
  · intro haccepts
    generalize hcut : word.takeWhile (fun letter => letter != stop)=cut at haccepts
    induction haccepts generalizing word with
    | done hends =>
      refine .done ?_
      rw [←hcut] at hends
      exact hends
    | skip hskip _ ih => exact .skip hskip (ih hcut)
    | eat heat _ ih =>
      cases word with
      | nil => cases hcut
      | cons first tail =>
        by_cases hstop : first=stop
        · rw [List.takeWhile_cons_of_neg (by simp [hstop])] at hcut
          cases hcut
        · rw [hnext hstop] at hcut
          obtain ⟨rfl,htail⟩ := List.cons.inj hcut
          exact .eat ⟨hstop,heat⟩ (ih htail)

end Matcher

end RustSql
