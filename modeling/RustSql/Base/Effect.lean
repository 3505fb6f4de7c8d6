import Mathlib.Logic.Relation
import RustSql.Common.Error

/-!
# Stateful calls that may fail

A call of the engine reads and changes a state and ends in one of three ways:
it returns a value, it returns an error, or it never returns. The state it
leaves behind is kept in every case, so what a failed call has already changed
stays visible. The rules below reason about such calls: a `Guarantee` says along
which relation a call moves the state, and what the values it returns satisfy.
-/

namespace RustSql

/-- How a call ends. -/
inductive Outcome (α : Type) where
  /-- The call returned `Ok`. -/
  | ok (value : α)
  /-- The call returned `Err`. -/
  | err (error : DbError)
  /-- The call does not return: it waits for a lock that nobody is left to
  release, follows a cycle for ever, or panics. -/
  | stuck
  deriving DecidableEq, Repr

/-- An error is no result. -/
theorem Outcome.err_ne_ok {α : Type} {e : DbError} {a : α} : (.err e : Outcome α)≠.ok a := by
  simp

/-- A panic is no result. -/
theorem Outcome.stuck_ne_ok {α : Type} {a : α} : (.stuck : Outcome α)≠.ok a := by
  simp

/-- A call on a state of type `σ`. -/
def Eff (σ α : Type) : Type := σ → Outcome α × σ

namespace Eff

variable {σ τ α β : Type}

/-- Return a value and leave the state alone. -/
def ret (a : α) : Eff σ α := fun s => (.ok a, s)

/-- Return an error and leave the state alone. -/
def fail (e : DbError) : Eff σ α := fun s => (.err e, s)

/-- Never return. -/
def hang : Eff σ α := fun s => (.stuck, s)

/-- Run one call and pass its value on; an error ends the sequence. -/
def andThen (x : Eff σ α) (f : α → Eff σ β) : Eff σ β := fun s =>
  match x s with
  | (.ok a, s') => f a s'
  | (.err e, s') => (.err e, s')
  | (.stuck, s') => (.stuck, s')

instance : Monad (Eff σ) where
  pure := ret
  bind := andThen

/-- The current state. -/
def get : Eff σ σ := fun s => (.ok s, s)

/-- Change the state. -/
def modify (f : σ → σ) : Eff σ Unit := fun s => (.ok (), f s)

/-- Read a value off the state, or fail. -/
def reads (f : σ → Except DbError α) : Eff σ α := fun s =>
  match f s with
  | .ok a => (.ok a, s)
  | .error e => (.err e, s)

/-- A pure computation that may fail. -/
def lift (x : Except DbError α) : Eff σ α := reads fun _ => x

/-- Run a call on a component of the state. -/
def zoom (part : σ → τ) (put : σ → τ → σ) (x : Eff τ α) : Eff σ α := fun s =>
  ((x (part s)).1, put s (x (part s)).2)

/-- Run a call, ignoring its error (`let _ = ...`). -/
def ignore (x : Eff σ α) : Eff σ Unit := fun s =>
  match x s with
  | (.stuck, s') => (.stuck, s')
  | (_, s') => (.ok (), s')

/-- Run a call and hand its result or its error to the continuation. -/
def attempt (x : Eff σ α) (f : Except DbError α → Eff σ β) : Eff σ β := fun s =>
  match x s with
  | (.ok a, s') => f (.ok a) s'
  | (.err e, s') => f (.error e) s'
  | (.stuck, s') => (.stuck, s')

/-- Run a call for every element of a list, in order. -/
def forEach (xs : List α) (f : α → Eff σ Unit) : Eff σ Unit :=
  match xs with
  | [] => ret ()
  | x :: rest => andThen (f x) fun _ => forEach rest f

/-- Run a call for every element of a list, collecting the values. -/
def mapEach (xs : List α) (f : α → Eff σ β) : Eff σ (List β) :=
  match xs with
  | [] => ret []
  | x :: rest => andThen (f x) fun y => andThen (mapEach rest f) fun ys => ret (y :: ys)

/-- A result leaves the state. -/
@[simp] theorem pure_eq (a : α) (s : σ) : (pure a : Eff σ α) s = (.ok a, s) := rfl

/-- So does an error. -/
@[simp] theorem fail_eq (e : DbError) (s : σ) : (fail e : Eff σ α) s = (.err e, s) := rfl

/-- The state is read. -/
@[simp] theorem get_eq (s : σ) : (get : Eff σ σ) s = (.ok s, s) := rfl

/-- The state is changed. -/
@[simp] theorem modify_eq (f : σ → σ) (s : σ) : modify f s = (.ok (), f s) := rfl

/-- The second program runs when the first returns. -/
theorem bind_eq (x : Eff σ α) (f : α → Eff σ β) (s : σ) :
    (x >>= f) s = match x s with
      | (.ok a, s') => f a s'
      | (.err e, s') => (.err e, s')
      | (.stuck, s') => (.stuck, s') := rfl

/-- The rest of a sequence runs on what the first call returned. -/
theorem bind_assoc {γ : Type} (x : Eff σ α) (f : α → Eff σ β) (g : β → Eff σ γ) (s : σ) :
    ((x >>= f) >>= g) s = (x >>= fun a => f a >>= g) s := by
  rw [bind_eq, bind_eq, bind_eq]
  rcases x s with ⟨outcome, s'⟩
  cases outcome with
  | ok a => rfl
  | err e => rfl
  | stuck => rfl

/-- Programs in a row need no brackets. -/
theorem bind_assoc_eq {γ : Type} (x : Eff σ α) (f : α → Eff σ β) (g : β → Eff σ γ) :
    ((x >>= f) >>= g) = x >>= fun a => f a >>= g :=
  funext (bind_assoc x f g)

/-- After a result the second program runs. -/
theorem bind_of_ok {x : Eff σ α} {f : α → Eff σ β} {s s' : σ} {a : α}
    (h : x s = (.ok a, s')) : (x >>= f) s = f a s' := by
  rw [bind_eq, h]

/-- After an error it does not. -/
theorem bind_of_err {x : Eff σ α} {f : α → Eff σ β} {s s' : σ} {e : DbError}
    (h : x s = (.err e, s')) : (x >>= f) s = (.err e, s') := by
  rw [bind_eq, h]

/-- Nor after a panic. -/
theorem bind_of_stuck {x : Eff σ α} {f : α → Eff σ β} {s s' : σ}
    (h : x s = (.stuck, s')) : (x >>= f) s = (.stuck, s') := by
  rw [bind_eq, h]

/-- A sequence that returned ran its first call to a value. -/
theorem bind_ok_inv {x : Eff σ α} {f : α → Eff σ β} {s t : σ} {b : β}
    (h : (x >>= f) s = (.ok b, t)) : ∃ a s', x s = (.ok a, s') ∧ f a s' = (.ok b, t) := by
  rw [bind_eq] at h
  split at h
  · exact ⟨_, _, by assumption, h⟩
  · cases h
  · cases h

end Eff

/-! ## Guarantees -/

section Rules

variable {σ τ α β : Type}

/-- From `s` the call moves along `R` however it ends, and the values it
returns satisfy `Q`. -/
def Guarantee (R : σ → σ → Prop) (s : σ) (x : Eff σ α) (Q : α → σ → Prop) : Prop :=
  R s (x s).2 ∧ ∀ a, (x s).1=.ok a → Q a (x s).2

namespace Guarantee

variable {R : σ → σ → Prop} {s : σ} {Q Q' : α → σ → Prop}

/-- A weaker postcondition. -/
theorem mono {x : Eff σ α} (h : Guarantee R s x Q) (hQ : ∀ a t, R s t → Q a t → Q' a t) :
    Guarantee R s x Q' :=
  ⟨h.1,fun a ha => hQ a _ h.1 (h.2 a ha)⟩

/-- A guarantee about what is returned may be forgotten. -/
theorem forget {x : Eff σ α} (h : Guarantee R s x Q) : Guarantee R s x fun _ _ => True :=
  h.mono fun _ _ _ _ => trivial

/-- What is returned was returned by the call. -/
theorem returned {x : Eff σ α} (h : Guarantee R s x Q) :
    Guarantee R s x fun a t => x s=(.ok a,t) ∧ Q a t :=
  ⟨h.1,fun a ha => ⟨Prod.ext ha rfl,h.2 a ha⟩⟩

/-- A weaker relation. -/
theorem weaken {R' : σ → σ → Prop} {x : Eff σ α} (h : Guarantee R s x Q)
    (hR : ∀ t, R s t → R' s t) : Guarantee R' s x Q :=
  ⟨hR _ h.1,h.2⟩

/-- A change that keeps the relation. -/
theorem modify {f : σ → σ} {Q : Unit → σ → Prop} (hR : R s (f s)) (hQ : Q () (f s)) :
    Guarantee R s (Eff.modify f) Q :=
  ⟨hR,fun _ _ => hQ⟩

/-- A call on a component moves the whole. -/
theorem zoom {part : σ → τ} {put : σ → τ → σ} {R' : τ → τ → Prop} {Q' : α → τ → Prop}
    {x : Eff τ α} (h : Guarantee R' (part s) x Q') (hR : ∀ t, R' (part s) t → R s (put s t))
    (hQ : ∀ a t, R' (part s) t → Q' a t → Q a (put s t)) :
    Guarantee R s (Eff.zoom part put x) Q :=
  ⟨hR _ h.1,fun a ha => hQ a _ h.1 (h.2 a ha)⟩

/-- Sequencing after reading the state. -/
theorem bind_get {f : σ → Eff σ β} {Q : β → σ → Prop} (h : Guarantee R s (f s) Q) :
    Guarantee R s (Eff.get >>= f) Q :=
  h

section Preorder

variable [IsPreorder σ R]

/-- A result that meets the postcondition. -/
theorem ret {a : α} (h : Q a s) : Guarantee R s (pure a) Q := by
  refine ⟨refl_of R s,fun b hb => ?_⟩
  obtain rfl := Outcome.ok.inj hb
  exact h

/-- An error guarantees nothing. -/
theorem fail (e : DbError) : Guarantee R s (Eff.fail e) Q :=
  ⟨refl_of R s,fun _ h => nomatch h⟩

/-- Nor does a panic. -/
theorem hang : Guarantee R s Eff.hang Q :=
  ⟨refl_of R s,fun _ h => nomatch h⟩

/-- A read that meets it. -/
theorem reads {f : σ → Except DbError α} (h : ∀ a, f s=.ok a → Q a s) :
    Guarantee R s (Eff.reads f) Q := by
  unfold Guarantee Eff.reads
  cases hf : f s with
  | ok a =>
    refine ⟨refl_of R s,fun b hb => ?_⟩
    obtain rfl := Outcome.ok.inj hb
    exact h a hf
  | error e => exact ⟨refl_of R s,fun _ h => nomatch h⟩

/-- A pure result that meets it. -/
theorem lift {x : Except DbError α} (h : ∀ a, x=.ok a → Q a s) :
    Guarantee R s (Eff.lift x) Q :=
  reads h

/-- Sequencing: the rest starts where the first call returned. -/
theorem bind {x : Eff σ α} {f : α → Eff σ β} {Q' : β → σ → Prop} (hx : Guarantee R s x Q)
    (hf : ∀ a t, R s t → Q a t → Guarantee R t (f a) Q') : Guarantee R s (x >>= f) Q' := by
  obtain ⟨hmoves,hvalue⟩ := hx
  unfold Guarantee
  rw [Eff.bind_eq]
  rcases hr : x s with ⟨o,t⟩
  rw [hr] at hmoves hvalue
  cases o with
  | ok a =>
    have hrest := hf a t hmoves (hvalue a rfl)
    exact ⟨trans_of R hmoves hrest.1,hrest.2⟩
  | err e => exact ⟨hmoves,fun _ h => nomatch h⟩
  | stuck => exact ⟨hmoves,fun _ h => nomatch h⟩

/-- Sequencing after reading a value off the state. -/
theorem bind_reads {g : σ → Except DbError α} {f : α → Eff σ β} {Q : β → σ → Prop}
    (h : ∀ a, g s=.ok a → Guarantee R s (f a) Q) : Guarantee R s (Eff.reads g >>= f) Q := by
  unfold Guarantee
  rw [Eff.bind_eq,Eff.reads]
  cases hg : g s with
  | ok a => exact h a hg
  | error e => exact ⟨refl_of R s,fun _ h => nomatch h⟩

/-- Sequencing after a pure computation. -/
theorem bind_lift {x : Except DbError α} {f : α → Eff σ β} {Q : β → σ → Prop}
    (h : ∀ a, x=.ok a → Guarantee R s (f a) Q) : Guarantee R s (Eff.lift x >>= f) Q :=
  bind_reads h

/-- A loop: every round may start anywhere the rounds before have led. -/
theorem forEach {xs : List α} {f : α → Eff σ Unit}
    (h : ∀ x∈xs, ∀ t, R s t → Guarantee R t (f x) fun _ _ => True) :
    Guarantee R s (Eff.forEach xs f) fun _ _ => True := by
  induction xs generalizing s with
  | nil => exact ret trivial
  | cons x xs ih =>
    refine bind (h x List.mem_cons_self s (refl_of R s)) fun _ t hst _ => ?_
    exact ih fun y hy u htu => h y (List.mem_cons_of_mem x hy) u (trans_of R hst htu)

/-- A loop over rounds that each bring about something that lasts brings about all of it, as long
as what a round needs lasts too. -/
theorem forEach_all {xs : List α} {f : α → Eff σ Unit} {P : σ → Prop} {Q : α → σ → Prop}
    (hneed : ∀ {t u}, R t u → P t → P u) (hlast : ∀ {x t u}, R t u → Q x t → Q x u)
    (h : ∀ x∈xs, ∀ t, P t → Guarantee R t (f x) fun _ u => Q x u) (hs : P s) :
    Guarantee R s (Eff.forEach xs f) fun _ t => ∀ x∈xs, Q x t := by
  induction xs generalizing s with
  | nil => exact ret fun x hx => absurd hx List.not_mem_nil
  | cons x xs ih =>
    refine bind (h x List.mem_cons_self s hs) fun _ t hst hx => ?_
    have hrest := ih (fun y hy => h y (List.mem_cons_of_mem x hy)) (hneed hst hs)
    refine hrest.mono fun _ u htu hall y hy => ?_
    rcases List.mem_cons.mp hy with rfl | hy
    · exact hlast htu hx
    · exact hall y hy

end Preorder

end Guarantee

end Rules

end RustSql
