import Mathlib.Data.Prod.Lex
import Mathlib.Data.Set.Basic
import Mathlib.Tactic
import RustSql.Common.Value

/-!
# Rankings

A comparison ranks the entries of a set when it compares their places in a linear order.
Rankings are turned around, put one behind another and read through functions. A ranking is
a total preorder, and sorting by it does not depend on the order of entries it tells apart.
-/

namespace RustSql

section Rankings

variable {α β : Type}

/-- A comparison of the entries of a set compares their places in a linear order. -/
def Ranks (entries : Set α) (cmp : α → α → Ordering) : Prop :=
  ∃ (P : Type) (_ : LinearOrder P) (place : α → P),
    OrderedBy (fun x y : entries => cmp x y) fun x : entries => place x

variable {entries : Set α} {cmp cmp' : α → α → Ordering}

theorem Ranks.congr (h : Ranks entries cmp)
    (hsame : ∀ x∈entries, ∀ y∈entries, cmp' x y=cmp x y) : Ranks entries cmp' := by
  obtain ⟨P,order,place,hplace⟩ := h
  refine ⟨P,order,place,fun x y => ?_,fun x y => ?_⟩
  · rw [hsame x x.2 y y.2]
    exact hplace.lt x y
  · rw [hsame x x.2 y y.2]
    exact hplace.eq x y

/-- Nothing is told apart. -/
theorem Ranks.const : Ranks entries fun _ _ => .eq :=
  ⟨Unit,inferInstance,fun _ => (),fun _ _ => by simp,fun _ _ => by simp⟩

/-- The entries are compared by a part of them. -/
theorem Ranks.comap {source : Set β} (h : Ranks entries cmp) {part : β → α}
    (hpart : ∀ x∈source, part x∈entries) :
    Ranks source fun x y => cmp (part x) (part y) := by
  obtain ⟨P,order,place,hplace⟩ := h
  refine ⟨P,order,fun x => place (part x),fun x y => ?_,fun x y => ?_⟩
  · exact hplace.lt ⟨part x,hpart x x.2⟩ ⟨part y,hpart y y.2⟩
  · exact hplace.eq ⟨part x,hpart x x.2⟩ ⟨part y,hpart y y.2⟩

theorem OrderedBy.gt {P : Type} [LinearOrder P] {place : α → P} (h : OrderedBy cmp place)
    (x y : α) : cmp x y=.gt ↔ place y < place x := by
  have hle := h.ne_gt x y
  rw [←not_le,←hle,not_not]

/-- The other way round. -/
theorem Ranks.swap (h : Ranks entries cmp) : Ranks entries fun x y => (cmp x y).swap := by
  obtain ⟨P,order,place,hplace⟩ := h
  refine ⟨Pᵒᵈ,inferInstance,fun x => OrderDual.toDual (place x),fun x y => ?_,fun x y => ?_⟩
  · have hgt : cmp x y=.gt ↔ place y < place x := hplace.gt x y
    change (cmp x y).swap=.lt ↔ place y < place x
    rw [←hgt]
    cases cmp x y <;> decide
  · have heq : cmp x y=.eq ↔ place x=place y := hplace.eq x y
    change (cmp x y).swap=.eq ↔ place x=place y
    rw [←heq]
    cases cmp x y <;> decide

/-- One ranking decides where another does not. -/
theorem Ranks.then (h : Ranks entries cmp) (h' : Ranks entries cmp') :
    Ranks entries fun x y => (cmp x y).then (cmp' x y) := by
  obtain ⟨P,order,place,hplace⟩ := h
  obtain ⟨Q,order',place',hplace'⟩ := h'
  refine ⟨P ×ₗ Q,inferInstance,fun x => toLex (place x,place' x),fun x y => ?_,fun x y => ?_⟩
  · have hlt : cmp x y=.lt ↔ place x < place y := hplace.lt x y
    have heq : cmp x y=.eq ↔ place x=place y := hplace.eq x y
    have hlt' : cmp' x y=.lt ↔ place' x < place' y := hplace'.lt x y
    change (cmp x y).then (cmp' x y)=.lt ↔ _
    rw [Prod.Lex.toLex_lt_toLex,←hlt,←heq,←hlt']
    cases cmp x y <;> simp [Ordering.then]
  · have heq : cmp x y=.eq ↔ place x=place y := hplace.eq x y
    have heq' : cmp' x y=.eq ↔ place' x=place' y := hplace'.eq x y
    change (cmp x y).then (cmp' x y)=.eq ↔ toLex (place x,place' x)=toLex (place y,place' y)
    rw [toLex_inj,Prod.mk.injEq,←heq,←heq']
    cases cmp x y <;> simp [Ordering.then]

/-- A ranking is a total preorder. -/
theorem OrderedBy.transCmp {P : Type} [LinearOrder P] {place : α → P}
    (h : OrderedBy cmp place) : Std.TransCmp cmp where
  eq_swap {x y} := by
    rcases lt_trichotomy (place x) (place y) with hxy | hxy | hxy
    · rw [(h.lt x y).mpr hxy,(h.gt y x).mpr hxy]
      rfl
    · rw [(h.eq x y).mpr hxy,(h.eq y x).mpr hxy.symm]
      rfl
    · rw [(h.gt x y).mpr hxy,(h.lt y x).mpr hxy]
      rfl
  isLE_trans {x y z} hxy hyz := by
    have hle : ∀ a b, (cmp a b).isLE=true ↔ place a ≤ place b := by
      intro a b
      rw [←h.ne_gt a b]
      cases cmp a b <;> decide
    exact (hle x z).mpr (((hle x y).mp hxy).trans ((hle y z).mp hyz))

theorem Ranks.transCmp (h : Ranks entries cmp) :
    Std.TransCmp fun x y : entries => cmp x y := by
  obtain ⟨P,order,place,hplace⟩ := h
  exact hplace.transCmp

/-! ## Sorting -/

/-- Sorting by a comparison, which leaves equal entries in their order. -/
def sortBy (cmp : α → α → Ordering) (xs : List α) : List α :=
  xs.mergeSort fun x y => cmp x y≠.gt

/-- Sorting is the same in a set of entries. -/
theorem sortBy_map_val (cmp : α → α → Ordering) (xs : List entries) :
    (sortBy (fun x y : entries => cmp x y) xs).map Subtype.val=sortBy cmp (xs.map Subtype.val) :=
  List.map_mergeSort fun _ _ _ _ => rfl

section Sorted

variable (h : Std.TransCmp fun x y : entries => cmp x y)

include h

/-- A total preorder puts every list in order. -/
theorem sortBy_sorted {xs : List α} (hxs : ∀ x∈xs, x∈entries) :
    (sortBy cmp xs).Pairwise fun x y => cmp x y≠.gt := by
  have hsorted : (sortBy (fun x y : entries => cmp x y) (xs.attachWith _ hxs)).Pairwise
      fun x y : entries => decide (cmp x y≠.gt)=true := by
    refine List.pairwise_mergeSort (fun x y z hxy hyz => ?_) (fun x y => ?_) _
    · have htrans := @Std.TransCmp.isLE_trans entries _ h x y z
      simp only [Ordering.isLE_iff_ne_gt] at htrans
      exact decide_eq_true (htrans (of_decide_eq_true hxy) (of_decide_eq_true hyz))
    · have hswap : cmp x y=(cmp y x).swap := @Std.OrientedCmp.eq_swap entries _ h.toOrientedCmp x y
      rw [hswap]
      cases cmp y x <;> decide
  have hval : ((sortBy (fun x y : entries => cmp x y) (xs.attachWith _ hxs)).map
      Subtype.val).Pairwise fun x y => cmp x y≠.gt :=
    List.pairwise_map.mpr (hsorted.imp fun hxy => of_decide_eq_true hxy)
  rwa [sortBy_map_val,List.attachWith_map_subtype_val] at hval

/-- The order of entries that are told apart does not matter. -/
theorem sortBy_eq_of_perm {xs ys : List α} (hxs : ∀ x∈xs, x∈entries) (hperm : xs.Perm ys)
    (hdistinct : xs.Pairwise fun x y => cmp x y≠.eq) : sortBy cmp xs=sortBy cmp ys := by
  have hys : ∀ y∈ys, y∈entries := fun y hy => hxs y (hperm.mem_iff.mpr hy)
  have hsorted : (sortBy cmp xs).Perm (sortBy cmp ys) :=
    ((List.mergeSort_perm xs _).trans hperm).trans (List.mergeSort_perm ys _).symm
  refine hsorted.eq_of_pairwise (fun x y hx hy hxy hyx => ?_) (sortBy_sorted h hxs)
    (sortBy_sorted h hys)
  have hx' : x∈xs := List.mem_mergeSort.mp hx
  have hy' : y∈xs := hperm.mem_iff.mpr (List.mem_mergeSort.mp hy)
  by_contra hne
  have hswap : ∀ a∈xs, ∀ b∈xs, cmp a b=(cmp b a).swap := fun a ha b hb =>
    @Std.OrientedCmp.eq_swap entries _ h.toOrientedCmp ⟨a,hxs a ha⟩ ⟨b,hxs b hb⟩
  have heq : cmp x y=.eq := by
    rw [hswap x hx' y hy'] at hxy ⊢
    cases hcmp : cmp y x with
    | lt =>
      rw [hcmp] at hxy
      exact (hxy rfl).elim
    | eq => rfl
    | gt => exact (hyx hcmp).elim
  have hforward : xs.Pairwise fun a b => a≠b → cmp a b≠.eq :=
    hdistinct.imp fun {a b} hab (_ : a≠b) => hab
  have hbackward : xs.Pairwise fun a b => b≠a → cmp b a≠.eq := by
    refine hdistinct.imp_of_mem fun {a b} ha hb hab (_ : b≠a) hba => hab ?_
    rw [hswap a ha b hb,hba]
    rfl
  have hpair : ∀ ⦃a⦄, a∈xs → ∀ ⦃b⦄, b∈xs → a≠b → cmp a b≠.eq :=
    List.Pairwise.forall_of_forall_of_flip (fun a _ hne => (hne rfl).elim) hforward hbackward
  exact hpair hx' hy' hne heq

end Sorted

end Rankings

end RustSql
