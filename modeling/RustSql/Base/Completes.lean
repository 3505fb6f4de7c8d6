import Mathlib.Logic.Relation
import RustSql.Base.Effect

/-!
# Calls that end well unless one of theirs fails

A sequence is built from calls of some kind, reads and choices. It `Completes` when it
returns a value after calls that all returned, or ends exactly as the first of its calls
that did not. So a sequence that completes has no way of its own to fail or to hang.
-/

namespace RustSql.Eff

variable {σ α β Call : Type} {C : Call → Eff σ Unit} {s t u : σ}

/-- States reached by calls that returned. -/
def Made (C : Call → Eff σ Unit) : σ → σ → Prop :=
  Relation.ReflTransGen fun s t => ∃ call, C call s=(.ok (),t)

/-- The end of a sequence in which a call did not return a value. -/
inductive Refused (C : Call → Eff σ Unit) (s : σ) : Outcome α × σ → Prop
  | err {t u : σ} {e : DbError} {call : Call} (hmade : Made C s t) (h : C call t=(.err e,u)) :
    Refused C s (.err e,u)
  | stuck {t u : σ} {call : Call} (hmade : Made C s t) (h : C call t=(.stuck,u)) :
    Refused C s (.stuck,u)

/-- The sequence returns a value with a property, or one of its calls fails. -/
def Completes (C : Call → Eff σ Unit) (s : σ) (x : Eff σ α) (Q : α → σ → Prop) : Prop :=
  (∃ a t, x s=(.ok a,t) ∧ Made C s t ∧ Q a t) ∨ Refused C s (x s)

/-- A refusal after something was made. -/
theorem Refused.after {end' : Outcome α × σ} (hmade : Made C s t) (h : Refused C t end') :
    Refused C s end' := by
  cases h with
  | err hmade' h => exact Refused.err (hmade.trans hmade') h
  | stuck hmade' h => exact Refused.stuck (hmade.trans hmade') h

/-- What follows a failed call is not reached. -/
theorem Refused.bind {x : Eff σ β} {f : β → Eff σ α} (h : Refused C s (x s)) :
    Refused C s ((x >>= f) s) := by
  rcases hrun : x s with ⟨outcome,t⟩
  rw [hrun] at h
  cases h with
  | err hmade h =>
    rw [bind_of_err hrun]
    exact Refused.err hmade h
  | stuck hmade h =>
    rw [bind_of_stuck hrun]
    exact Refused.stuck hmade h

/-- A result is no refusal. -/
theorem Refused.not_ok {a : α} (h : Refused C s (.ok a,t)) : False := by
  cases h

namespace Completes

variable {Q R : α → σ → Prop}

/-- A sequence that returned a value has the property. -/
theorem of_ok {x : Eff σ α} {a : α} (h : Completes C s x Q) (hrun : x s=(.ok a,t)) : Q a t := by
  rcases h with ⟨b,u,hok,-,hQ⟩ | hrefused
  · obtain ⟨hvalue,hstate⟩ := Prod.mk.inj (hrun.symm.trans hok)
    obtain rfl := Outcome.ok.inj hvalue
    exact hstate ▸ hQ
  · rw [hrun] at hrefused
    exact hrefused.not_ok.elim

/-- What is known when a sequence returns, with the run it returned from. -/
theorem with_run {x : Eff σ α} (h : Completes C s x Q) :
    Completes C s x fun a t => x s=(.ok a,t) ∧ Q a t := by
  rcases h with ⟨a,t,hok,hmade,hQ⟩ | hrefused
  · exact Or.inl ⟨a,t,hok,hmade,hok,hQ⟩
  · exact Or.inr hrefused

/-- A weaker postcondition. -/
theorem mono {x : Eff σ α} (h : Completes C s x Q) (hQR : ∀ a t, Q a t → R a t) :
    Completes C s x R := by
  rcases h with ⟨a,t,hok,hmade,hQ⟩ | hrefused
  · exact Or.inl ⟨a,t,hok,hmade,hQR a t hQ⟩
  · exact Or.inr hrefused

/-- One program after another. -/
theorem bind {x : Eff σ β} {f : β → Eff σ α} {P : β → σ → Prop} (hx : Completes C s x P)
    (hf : ∀ b t, P b t → Completes C t (f b) Q) : Completes C s (x >>= f) Q := by
  rcases hx with ⟨b,t,hok,hmade,hP⟩ | hrefused
  · have hrun : (x >>= f) s=f b t := bind_of_ok hok
    rcases hf b t hP with ⟨a,u,hok',hmade',hQ⟩ | hrefused
    · exact Or.inl ⟨a,u,hrun.trans hok',hmade.trans hmade',hQ⟩
    · exact Or.inr (hrun ▸ hrefused.after hmade)
  · exact Or.inr hrefused.bind

/-- A call, by what is known when it returns. -/
theorem call {made : Call} {P : Unit → σ → Prop} (h : ∀ t, C made s=(.ok (),t) → P () t) :
    Completes C s (C made) P := by
  rcases hrun : C made s with ⟨outcome,t⟩
  cases outcome with
  | ok a => exact Or.inl ⟨a,t,hrun,Relation.ReflTransGen.single ⟨made,hrun⟩,h t hrun⟩
  | err e =>
    refine Or.inr ?_
    rw [hrun]
    exact Refused.err Relation.ReflTransGen.refl hrun
  | stuck =>
    refine Or.inr ?_
    rw [hrun]
    exact Refused.stuck Relation.ReflTransGen.refl hrun

/-- A call whose value is used. -/
theorem call_value {made : Call} {x : Eff σ α} (hcall : C made=(do let _ ← x; pure ()))
    (h : ∀ a t, x s=(.ok a,t) → Q a t) : Completes C s x Q := by
  rcases hrun : x s with ⟨outcome,t⟩
  cases outcome with
  | ok a =>
    have hmade : C made s=(.ok (),t) := by
      rw [hcall,bind_of_ok hrun]
      rfl
    exact Or.inl ⟨a,t,hrun,Relation.ReflTransGen.single ⟨made,hmade⟩,h a t hrun⟩
  | err e =>
    have hmade : C made s=(.err e,t) := by rw [hcall,bind_of_err hrun]
    refine Or.inr ?_
    rw [hrun]
    exact Refused.err Relation.ReflTransGen.refl hmade
  | stuck =>
    have hmade : C made s=(.stuck,t) := by rw [hcall,bind_of_stuck hrun]
    refine Or.inr ?_
    rw [hrun]
    exact Refused.stuck Relation.ReflTransGen.refl hmade

/-- Sequencing after a step that makes no call. -/
theorem bind_value {x : Eff σ β} {f : β → Eff σ α} {b : β} (hx : x s=(.ok b,s))
    (hf : Completes C s (f b) Q) : Completes C s (x >>= f) Q := by
  have hrun : (x >>= f) s=f b s := bind_of_ok hx
  unfold Completes
  rw [hrun]
  exact hf

/-- A result that meets it. -/
theorem ret {a : α} (h : Q a s) : Completes C s (pure a) Q :=
  Or.inl ⟨a,s,rfl,Relation.ReflTransGen.refl,h⟩

end Completes

/-! ## The kinds of errors -/

section Errors

variable {τ : Type} {E : DbError → Prop}

/-- The errors of a computation are of a kind. -/
def Raises (E : DbError → Prop) (x : Eff σ α) : Prop := ∀ s e t, x s=(.err e,t) → E e

namespace Raises

theorem bind {x : Eff σ β} {f : β → Eff σ α} (hx : Raises E x) (hf : ∀ b, Raises E (f b)) :
    Raises E (x >>= f) := by
  intro s e t herror
  rcases hrun : x s with ⟨_ | _ | _,t'⟩
  · rw [bind_of_ok hrun] at herror
    exact hf _ _ _ _ herror
  · rw [bind_of_err hrun] at herror
    cases (Prod.mk.inj herror).1
    exact hx _ _ _ hrun
  · rw [bind_of_stuck hrun] at herror
    cases (Prod.mk.inj herror).1

theorem ret (a : α) : Raises E (pure a : Eff σ α) := fun _ _ _ h => nomatch (Prod.mk.inj h).1

/-- An error of the kind. -/
theorem fail {e : DbError} (h : E e) : Raises E (Eff.fail e : Eff σ α) := fun _ _ _ herror => by
  cases (Prod.mk.inj herror).1
  exact h

/-- A panic raises no error. -/
theorem hang : Raises E (Eff.hang : Eff σ α) := fun _ _ _ h => nomatch (Prod.mk.inj h).1

/-- Nor does reading the state. -/
theorem get : Raises E (Eff.get : Eff σ σ) := fun _ _ _ h => nomatch (Prod.mk.inj h).1

/-- Nor does changing it. -/
theorem modify (f : σ → σ) : Raises E (Eff.modify f) := fun _ _ _ h => nomatch (Prod.mk.inj h).1

/-- A read raises its own errors. -/
theorem reads {f : σ → Except DbError α} (h : ∀ s e, f s=.error e → E e) :
    Raises E (Eff.reads f) := by
  intro s e t herror
  unfold Eff.reads at herror
  cases hread : f s with
  | ok a =>
    rw [hread] at herror
    cases (Prod.mk.inj herror).1
  | error e' =>
    rw [hread] at herror
    cases (Prod.mk.inj herror).1
    exact h s _ hread

/-- A part raises its own errors. -/
theorem zoom {part : σ → τ} {put : σ → τ → σ} {x : Eff τ α} (h : Raises E x) :
    Raises E (Eff.zoom part put x) := fun s e _ herror =>
  h (part s) e (x (part s)).2 (Prod.ext (Prod.mk.inj herror).1 rfl)

/-- What is caught may be raised again. -/
theorem attempt {x : Eff σ α} {f : Except DbError α → Eff σ β} (hx : Raises E x)
    (hok : ∀ a, Raises E (f (.ok a))) (herror : ∀ e, E e → Raises E (f (.error e))) :
    Raises E (Eff.attempt x f) := by
  intro s e t hrun
  unfold Eff.attempt at hrun
  rcases hx' : x s with ⟨_ | _ | _,t'⟩ <;> rw [hx'] at hrun
  · exact hok _ _ _ _ hrun
  · exact herror _ (hx _ _ _ hx') _ _ _ hrun
  · cases (Prod.mk.inj hrun).1

end Raises

end Errors

end RustSql.Eff
