import RustSql.Base.Effect

/-!
# Calls that recurse as deep as their input says

A recursive call is run with a bound on its depth; one that goes deeper is stuck.
What the call really does is its result at every bound above its depth.
-/

namespace RustSql

variable {α β : Type}

namespace Outcome

/-- Run one call and pass its value on. -/
def andThen (x : Outcome α) (f : α → Outcome β) : Outcome β :=
  match x with
  | .ok a => f a
  | .err e => .err e
  | .stuck => .stuck

instance instMonad : Monad Outcome where
  pure := .ok
  bind := andThen

/-- A pure computation that may fail. -/
def ofExcept : Except DbError α → Outcome α
  | .ok a => .ok a
  | .error e => .err e

/-- After a result the next step runs. -/
theorem bind_ok {a : α} {f : α → Outcome β} : ((.ok a : Outcome α) >>= f)=f a := rfl

/-- A sequence that returned ran its first call to a value. -/
theorem bind_ok_inv {x : Outcome α} {f : α → Outcome β} {b : β} (h : (x >>= f)=.ok b) :
    ∃ a, x=.ok a ∧ f a=.ok b := by
  cases x with
  | ok a => exact ⟨a,rfl,h⟩
  | err e => cases h
  | stuck => cases h

end Outcome

/-- What a call with a bound on its depth does once the bound is large enough. -/
def EndsIn (call : ℕ → Outcome α) (result : Outcome α) : Prop :=
  ∃ depth, ∀ fuel, depth ≤ fuel → call fuel=result

/-- A call ends in one way. -/
theorem EndsIn.unique {call : ℕ → Outcome α} {result result' : Outcome α} (h : EndsIn call result)
    (h' : EndsIn call result') : result=result' := by
  obtain ⟨depth,hdepth⟩ := h
  obtain ⟨depth',hdepth'⟩ := h'
  rw [←hdepth (max depth depth') (Nat.le_max_left _ _),hdepth' _ (Nat.le_max_right _ _)]

end RustSql

/-!
## Calls that panic

A pure call that panics does not return. The rules below say where a sequence of calls, or
a list of steps, gets stuck, and what keeps it from that.
-/

namespace RustSql.Outcome

variable {α β : Type}

/-- The call comes back, with a value or with an error. -/
def Returns (x : Outcome α) : Prop := x≠.stuck

/-- The call returns a value. -/
def Total (x : Outcome α) : Prop := ∃ a, x=.ok a

/-- Leave out the value of a call. -/
def discard (x : Outcome α) : Outcome Unit := x >>= fun _ => .ok ()

/-- Go on when a condition holds, panic when it does not. -/
def check (condition : Prop) [Decidable condition] : Outcome Unit :=
  if condition then .ok () else .stuck

/-- A result is no panic. -/
theorem returns_ok (a : α) : (.ok a : Outcome α).Returns := stuck_ne_ok.symm

/-- Nor is an error. -/
theorem returns_err (e : DbError) : (.err e : Outcome α).Returns := by
  intro h
  cases h

/-- Nor is what cannot panic. -/
theorem returns_ofExcept (x : Except DbError α) : (ofExcept x).Returns := by
  cases x with
  | ok a => exact returns_ok a
  | error e => exact returns_err e

variable {x : Outcome α} {f : α → Outcome β}

/-- What always has a result does not panic. -/
theorem Total.returns (h : x.Total) : x.Returns := by
  obtain ⟨a,ha⟩ := h
  rw [ha]
  exact returns_ok a

/-- A result is one. -/
theorem total_ok (a : α) : (.ok a : Outcome α).Total := ⟨a,rfl⟩

/-- A sequence of calls that return values returns one. -/
theorem Total.bind (h : x.Total) (hf : ∀ a, x=.ok a → (f a).Total) : (x >>= f).Total := by
  obtain ⟨a,ha⟩ := h
  obtain ⟨b,hb⟩ := hf a ha
  refine ⟨b,?_⟩
  rw [ha,bind_ok,hb]

/-- A panic stays one when the result is dropped. -/
theorem discard_eq_stuck : x.discard=.stuck ↔ x=.stuck := by
  cases x with
  | ok a => simp [discard,bind_ok]
  | err e =>
    constructor
    · intro h
      cases h
    · intro h
      cases h
  | stuck => exact ⟨fun _ => rfl,fun _ => rfl⟩

/-- So does an error. -/
theorem discard_eq_err {e : DbError} : x.discard=.err e ↔ x=.err e := by
  cases x with
  | ok a => simp [discard,bind_ok]
  | err e' =>
    constructor
    · intro h
      cases h
      rfl
    · intro h
      cases h
      rfl
  | stuck =>
    constructor
    · intro h
      cases h
    · intro h
      cases h

/-- A value is left out before or after it is changed. -/
theorem discard_bind (x : Outcome α) (f : α → β) :
    (x >>= fun a => .ok (f a)).discard=x.discard := by
  cases x with
  | ok a => rfl
  | err e => rfl
  | stuck => rfl

/-- The values of two calls are left out before or after they are put together. -/
theorem discard_bind_bind {γ : Type} (x : Outcome α) (y : Outcome β) (f : α → β → γ) :
    (x >>= fun a => y >>= fun b => .ok (f a b)).discard=(x.discard >>= fun _ => y.discard) := by
  cases x with
  | ok a => exact discard_bind y (f a)
  | err e => rfl
  | stuck => rfl

/-- A check that holds passes. -/
theorem check_ok {condition : Prop} [Decidable condition] (h : condition) :
    check condition=.ok () := if_pos h

/-- A sequence gets stuck in its first call or after it. -/
theorem bind_eq_stuck :
    (x >>= f)=.stuck ↔ x=.stuck ∨ ∃ a, x=.ok a ∧ f a=.stuck := by
  cases x with
  | ok a =>
    rw [bind_ok]
    constructor
    · intro h
      exact Or.inr ⟨a,rfl,h⟩
    · rintro (h | ⟨b,hb,h⟩)
      · cases h
      · cases hb
        exact h
  | err e =>
    constructor
    · intro h
      cases h
    · rintro (h | ⟨b,hb,-⟩)
      · cases h
      · cases hb
  | stuck => exact ⟨fun _ => Or.inl rfl,fun _ => rfl⟩

/-- A sequence comes back when its first call does and what follows does. -/
theorem Returns.bind (h : x.Returns) (hf : ∀ a, x=.ok a → (f a).Returns) : (x >>= f).Returns := by
  intro hstuck
  rcases bind_eq_stuck.mp hstuck with hx | ⟨a,ha,hstuck⟩
  · exact h hx
  · exact hf a ha hstuck

/-- A call comes back, and a value that it returns has a property. -/
def Gives (x : Outcome α) (post : α → Prop) : Prop := x.Returns ∧ ∀ a, x=.ok a → post a

/-- A result that meets the postcondition. -/
theorem gives_ok {a : α} {post : α → Prop} (h : post a) : (.ok a : Outcome α).Gives post := by
  refine ⟨returns_ok a,fun b hb => ?_⟩
  cases hb
  exact h

/-- An error may be given. -/
theorem gives_err (e : DbError) (post : α → Prop) : (.err e : Outcome α).Gives post := by
  refine ⟨returns_err e,fun b hb => ?_⟩
  cases hb

/-- One step after another. -/
theorem Gives.bind {first : α → Prop} {post : β → Prop}
    (h : x.Gives first) (hf : ∀ a, first a → (f a).Gives post) : (x >>= f).Gives post := by
  refine ⟨h.1.bind fun a ha => (hf a (h.2 a ha)).1,fun b hb => ?_⟩
  obtain ⟨a,ha,hb⟩ := bind_ok_inv hb
  exact (hf a (h.2 a ha)).2 b hb

/-- A weaker postcondition. -/
theorem Gives.mono {post weaker : α → Prop} (h : x.Gives post)
    (hpost : ∀ a, post a → weaker a) : x.Gives weaker :=
  ⟨h.1,fun a ha => hpost a (h.2 a ha)⟩

/-- Either branch. -/
theorem Gives.ite {condition : Prop} [Decidable condition] {x y : Outcome α} {post : α → Prop}
    (h : condition → x.Gives post) (h' : ¬condition → y.Gives post) :
    (if condition then x else y).Gives post := by
  split
  · next hcondition => exact h hcondition
  · next hcondition => exact h' hcondition

/-- A list of steps gets stuck in one of them, none of those before it having failed. -/
theorem forM_eq_stuck {f : α → Outcome Unit} {xs : List α} :
    xs.forM f=.stuck ↔ ∃ before x after, xs=before++x :: after ∧
      (∀ y∈before, ∀ e, f y≠.err e) ∧ f x=.stuck := by
  induction xs with
  | nil =>
    constructor
    · intro h
      cases h
    · rintro ⟨before,x,after,heq,-⟩
      simp at heq
  | cons z xs ih =>
    change (f z >>= fun _ => xs.forM f)=.stuck ↔ _
    constructor
    · intro h
      rcases bind_eq_stuck.mp h with hz | ⟨a,hz,hxs⟩
      · exact ⟨[],z,xs,rfl,by simp,hz⟩
      · obtain ⟨before,x,after,heq,hbefore,hx⟩ := ih.mp hxs
        refine ⟨z :: before,x,after,by rw [heq,List.cons_append],?_,hx⟩
        exact List.forall_mem_cons.mpr ⟨fun e => by rw [hz]; simp,hbefore⟩
    · rintro ⟨before,x,after,heq,hbefore,hx⟩
      cases before with
      | nil =>
        obtain ⟨hz,-⟩ := List.cons.inj heq
        rw [hz,hx]
        rfl
      | cons y before =>
        obtain ⟨hz,hxs⟩ := List.cons.inj heq
        obtain ⟨hy,hbefore⟩ := List.forall_mem_cons.mp hbefore
        have htail : xs.forM f=.stuck := ih.mpr ⟨before,x,after,hxs,hbefore,hx⟩
        cases hfz : f z with
        | ok a =>
          rw [bind_ok]
          exact htail
        | err e => exact absurd (hz▸hfz) (hy e)
        | stuck => rfl

/-- A list of one. -/
theorem forM_singleton (f : α → Outcome Unit) (x : α) : [x].forM f=f x := by
  change (f x >>= fun _ => .ok ())=f x
  cases f x with
  | ok a => rfl
  | err e => rfl
  | stuck => rfl

/-- The steps of two lists, one list after the other. -/
theorem forM_append {f : α → Outcome Unit} (xs ys : List α) :
    (xs++ys).forM f=(xs.forM f >>= fun _ => ys.forM f) := by
  induction xs with
  | nil => rfl
  | cons x xs ih =>
    change (f x >>= fun _ => (xs++ys).forM f)=((f x >>= fun _ => xs.forM f) >>= fun _ => ys.forM f)
    rw [ih]
    cases f x with
    | ok a => rfl
    | err e => rfl
    | stuck => rfl

end RustSql.Outcome
