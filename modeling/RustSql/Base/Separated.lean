import Mathlib.Data.List.Basic

/-!
# Texts that can be taken apart

A text in front of a rest can be taken off again when it cannot run on into the rest. Texts
joined by a separator are told apart when each of them can be taken off in front of the
separator.
-/

namespace RustSql.Separated

variable {α β : Type}

/-- A run of symbols stops at the first symbol of another kind. -/
theorem run_cancel {p : β → Prop} {xs ys s t : List β} (hxs : ∀ x∈xs, p x) (hys : ∀ y∈ys, p y)
    (hs : ∀ x∈s.head?, ¬p x) (ht : ∀ x∈t.head?, ¬p x) (h : xs++s=ys++t) : xs=ys ∧ s=t := by
  induction xs generalizing ys with
  | nil =>
    cases ys with
    | nil => exact ⟨rfl,h⟩
    | cons y ys =>
      have hhead : s.head?=some y := by
        rw [List.nil_append] at h
        rw [h]
        rfl
      exact absurd (hys y List.mem_cons_self) (hs y hhead)
  | cons x xs ih =>
    cases ys with
    | nil =>
      have hhead : t.head?=some x := by
        rw [List.nil_append] at h
        rw [← h]
        rfl
      exact absurd (hxs x List.mem_cons_self) (ht x hhead)
    | cons y ys =>
      have hcons := List.cons.inj h
      have hrest := ih (fun x hx => hxs x (List.mem_cons_of_mem _ hx))
        (fun y hy => hys y (List.mem_cons_of_mem _ hy)) hcons.2
      exact ⟨by rw [hcons.1,hrest.1],hrest.2⟩

/-- Joined pieces: the first one, and each other one behind a separator. -/
theorem intercalate_cons_flatMap (separator xs : List β) (rest : List (List β)) :
    separator.intercalate (xs :: rest)=xs++rest.flatMap fun ys => separator++ys := by
  induction rest generalizing xs with
  | nil => rw [List.intercalate_singleton,List.flatMap_nil,List.append_nil]
  | cons ys rest ih =>
    rw [List.intercalate_cons_cons,ih,List.flatMap_cons,List.append_assoc,List.append_assoc]

variable (text : α → List β) (Ends Closes : List β → Prop) (Clear : α → Prop)

/-- The text of `a` can be taken off in front of every rest that ends it. -/
def CancelsAt (a : α) : Prop :=
  ∀ b s t, Clear b → Ends s → Ends t → text a++s=text b++t → a=b ∧ s=t

variable {separator s t : List β} {as bs : List α}

/-- Joined texts are told apart, each by its end: the separator or what closes them all. -/
theorem joined_cancel (hseparator : ∀ rest, Ends (separator++rest))
    (hcloses : ∀ rest, Closes rest → Ends rest)
    (hother : ∀ rest, ¬Closes (separator++rest)) (hs : Closes s) (ht : Closes t)
    (has : ∀ a∈as, CancelsAt text Ends Clear a) (hbs : ∀ b∈bs, Clear b)
    (hnas : as≠[]) (hnbs : bs≠[])
    (h : separator.intercalate (as.map text)++s=separator.intercalate (bs.map text)++t) :
    as=bs ∧ s=t := by
  induction as generalizing bs with
  | nil => exact absurd rfl hnas
  | cons a as ih =>
    cases bs with
    | nil => exact absurd rfl hnbs
    | cons b bs =>
      have ha := has a List.mem_cons_self
      have hb := hbs b List.mem_cons_self
      cases as with
      | nil =>
        cases bs with
        | nil =>
          simp only [List.map_cons,List.map_nil,List.intercalate_singleton] at h
          have hfound := ha b s t hb (hcloses s hs) (hcloses t ht) h
          exact ⟨by rw [hfound.1],hfound.2⟩
        | cons b' bs =>
          simp only [List.map_cons,List.map_nil,List.intercalate_singleton,
            List.intercalate_cons_cons,List.append_assoc] at h
          have hfound := ha b s _ hb (hcloses s hs) (hseparator _) h
          rw [hfound.2] at hs
          exact absurd hs (hother _)
      | cons a' as =>
        cases bs with
        | nil =>
          simp only [List.map_cons,List.map_nil,List.intercalate_singleton,
            List.intercalate_cons_cons,List.append_assoc] at h
          have hfound := ha b _ t hb (hseparator _) (hcloses t ht) h
          rw [← hfound.2] at ht
          exact absurd ht (hother _)
        | cons b' bs =>
          simp only [List.map_cons,List.intercalate_cons_cons,List.append_assoc] at h
          have hfound := ha b _ _ hb (hseparator _) (hseparator _) h
          have hrest := ih (fun a ha => has a (List.mem_cons_of_mem _ ha))
            (fun b hb => hbs b (List.mem_cons_of_mem _ hb)) (List.cons_ne_nil _ _)
            (List.cons_ne_nil _ _) (by
              simp only [List.map_cons]
              exact List.append_cancel_left hfound.2)
          exact ⟨by rw [hfound.1,hrest.1],hrest.2⟩

end RustSql.Separated
