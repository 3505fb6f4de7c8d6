import Mathlib.Data.List.Forall2
import RustSql.Common.Error

/-!
# Lists of fallible steps

What a list of steps that all succeeded says about the single steps.
-/

namespace RustSql

variable {α β γ : Type} {f : α → Except DbError β}

variable {R : α → β → Prop} {xs : List α} {ys : List β} {x : α} {check : α → Except DbError Unit}

/-- Every element of one of two related lists has its partner in the other. -/
theorem forall₂_mem_left (h : List.Forall₂ R xs ys) (hx : x∈xs) : ∃ y∈ys, R x y := by
  induction h with
  | nil => simp only [List.not_mem_nil] at hx
  | @cons z y xs ys hzy _ ih =>
    cases List.mem_cons.mp hx with
    | inl hxz => exact ⟨y,List.mem_cons_self,hxz▸hzy⟩
    | inr hx =>
      obtain ⟨y',hy',hxy⟩ := ih hx
      exact ⟨y',List.mem_cons_of_mem y hy',hxy⟩

/-- Partners stand at the same index. -/
theorem forall₂_getElem? (h : List.Forall₂ R xs ys) {i : ℕ} (hx : xs[i]?=some x) :
    ∃ y, ys[i]?=some y ∧ R x y := by
  induction h generalizing i with
  | nil => cases hx
  | @cons z y xs ys hzy _ ih =>
    cases i with
    | zero => exact ⟨y,rfl,Option.some.inj hx▸hzy⟩
    | succ i => exact ih hx

/-- A list of steps succeeds with the values of the single steps, in order. -/
theorem mapM_eq_ok :
    xs.mapM f=.ok ys ↔ List.Forall₂ (fun x y => f x=.ok y) xs ys := by
  induction xs generalizing ys with
  | nil =>
    rw [List.mapM_nil,List.forall₂_nil_left_iff]
    exact ⟨fun h => (Except.ok.inj h).symm,fun h => by rw [h]; rfl⟩
  | cons x xs ih =>
    rw [List.mapM_cons,List.forall₂_cons_left_iff]
    constructor
    · intro h
      obtain ⟨y,hy,h⟩ := except_bind_ok h
      obtain ⟨rest,hrest,h⟩ := except_bind_ok h
      cases h
      exact ⟨y,rest,hy,ih.mp hrest,rfl⟩
    · intro h
      obtain ⟨y,rest,hy,hrest,hys⟩ := h
      rw [hy,hys]
      change (xs.mapM f >>= fun ys => Except.ok (y :: ys))=_
      rw [ih.mpr hrest]
      rfl

theorem mapM_length (h : xs.mapM f=.ok ys) : ys.length=xs.length :=
  (mapM_eq_ok.mp h).length_eq.symm

/-- When every step succeeds, so does the list of them. -/
theorem mapM_of_forall (h : ∀ x∈xs, ∃ y, f x=.ok y) : ∃ ys, xs.mapM f=.ok ys := by
  induction xs with
  | nil => exact ⟨[],rfl⟩
  | cons x xs ih =>
    obtain ⟨y,hy⟩ := h x List.mem_cons_self
    obtain ⟨ys,hys⟩ := ih fun z hz => h z (List.mem_cons_of_mem x hz)
    exact ⟨y :: ys,mapM_eq_ok.mpr (.cons hy (mapM_eq_ok.mp hys))⟩

/-- Every step of a list that succeeded succeeded. -/
theorem mapM_mem (h : xs.mapM f=.ok ys) (hx : x∈xs) :
    ∃ y, f x=.ok y := by
  obtain ⟨y,-,hy⟩ := forall₂_mem_left (mapM_eq_ok.mp h) hx
  exact ⟨y,hy⟩

/-- Every value of a list of steps is the value of one of them. -/
theorem mapM_source (h : xs.mapM f=.ok ys) {y : β} (hy : y∈ys) :
    ∃ x∈xs, f x=.ok y :=
  forall₂_mem_left (mapM_eq_ok.mp h).flip hy

theorem mapM_congr {f g : α → Except DbError β}
    (h : xs.mapM f=.ok ys) (hfg : ∀ x∈xs, ∀ y, f x=.ok y → g x=.ok y) : xs.mapM g=.ok ys := by
  rw [mapM_eq_ok] at h ⊢
  induction h with
  | nil => exact .nil
  | @cons x y xs ys hxy _ ih =>
    exact .cons (hfg x List.mem_cons_self y hxy)
      (ih fun z hz => hfg z (List.mem_cons_of_mem x hz))

/-- Two lists of steps, one after the other. -/
theorem mapM_append {xs xs' : List α} {ys ys' : List β} (h : xs.mapM f=.ok ys)
    (h' : xs'.mapM f=.ok ys') : (xs++xs').mapM f=.ok (ys++ys') :=
  mapM_eq_ok.mpr (List.rel_append (mapM_eq_ok.mp h) (mapM_eq_ok.mp h'))

/-- A step after each step of a list. -/
theorem mapM_bind {g : β → Except DbError γ} {zs : List γ}
    (h : xs.mapM f=.ok ys) (h' : ys.mapM g=.ok zs) : xs.mapM (fun x => f x >>= g)=.ok zs := by
  rw [mapM_eq_ok] at h h' ⊢
  induction h generalizing zs with
  | nil =>
    rw [List.forall₂_nil_left_iff.mp h']
    exact .nil
  | @cons x y xs ys hxy _ ih =>
    obtain ⟨z,rest,hz,hrest,hzs⟩ := List.forall₂_cons_left_iff.mp h'
    rw [hzs]
    have hxz : (f x >>= g)=.ok z := by
      rw [hxy]
      exact hz
    exact .cons hxz (ih hrest)

/-- What every step keeps of its element, the list of values has in order. -/
theorem mapM_map {δ : Type} {kept : β → δ} {source : α → δ}
    (h : xs.mapM f=.ok ys) (hkept : ∀ x y, f x=.ok y → kept y=source x) :
    ys.map kept=xs.map source := by
  rw [mapM_eq_ok] at h
  induction h with
  | nil => rfl
  | @cons x y xs ys hxy _ ih => rw [List.map_cons,List.map_cons,hkept x y hxy,ih]

/-- A list of checks that passed passed each of them. -/
theorem forM_ok (h : xs.forM check=.ok ()) :
    ∀ x∈xs, check x=.ok () := by
  induction xs with
  | nil => simp only [List.not_mem_nil,false_imp_iff,implies_true]
  | cons x xs ih =>
    change (check x >>= fun _ => xs.forM check)=.ok () at h
    obtain ⟨_,hx,h⟩ := except_bind_ok h
    intro y hy
    cases List.mem_cons.mp hy with
    | inl hyx => exact hyx▸hx
    | inr hy => exact ih h y hy

/-- A list of checks that all pass passes. -/
theorem forM_of_forall (h : ∀ x∈xs, check x=.ok ()) : xs.forM check=.ok () := by
  induction xs with
  | nil => rfl
  | cons x xs ih =>
    change (check x >>= fun _ => xs.forM check)=.ok ()
    rw [h x List.mem_cons_self]
    exact ih fun y hy => h y (List.mem_cons_of_mem x hy)

end RustSql
