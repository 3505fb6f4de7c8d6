import RustSql.Base.Effect

/-!
# Undo logs

A log of records, the oldest first, each of which takes a content back to what it was
before the change it was written for. Undoing a log, the newest record first, takes the
content back to where the log began; so a log may be cut anywhere and undone from there.
-/

namespace RustSql

variable {R C σ : Type}

/-- Undoing the records of a log leads from the content `new` back to `old`; `Back` says
what undoing one record does. -/
def Undoes (Back : R → C → C → Prop) : List R → C → C → Prop
  | [], new, old => new=old
  | record::later, new, old => ∃ between, Undoes Back later new between ∧ Back record between old

variable {Back : R → C → C → Prop}

theorem Undoes.single {record : R} {new old : C} (h : Back record new old) :
    Undoes Back [record] new old :=
  ⟨new,rfl,h⟩

/-- A log in two parts is undone in two parts. -/
theorem undoes_append {log later : List R} {new old : C} :
    Undoes Back (log++later) new old ↔
      ∃ between, Undoes Back later new between ∧ Undoes Back log between old := by
  induction log generalizing old with
  | nil =>
    constructor
    · intro h
      exact ⟨old,h,rfl⟩
    · rintro ⟨between,h,rfl⟩
      exact h
  | cons record log ih =>
    constructor
    · rintro ⟨after,hafter,hback⟩
      have hparts := ih.mp hafter
      obtain ⟨between,hlater,hlog⟩ := hparts
      exact ⟨between,hlater,after,hlog,hback⟩
    · rintro ⟨between,hlater,after,hlog,hback⟩
      exact ⟨after,ih.mpr ⟨between,hlater,hlog⟩,hback⟩

/-- The log grows: what it led back to, it still leads back to. -/
theorem Undoes.trans {log later : List R} {new between old : C}
    (hlater : Undoes Back later new between) (h : Undoes Back log between old) :
    Undoes Back (log++later) new old :=
  undoes_append.mpr ⟨between,hlater,h⟩

/-- The content a log leads back to, when `undo` undoes one record. -/
def undoAll (undo : R → C → C) : List R → C → C
  | [], content => content
  | record::later, content => undo record (undoAll undo later content)

/-- Every record of a log is undone in a content in which that is allowed. -/
def Allowed (undo : R → C → C) (allowed : R → C → Prop) : List R → C → Prop
  | [], _ => True
  | record::later, content =>
    Allowed undo allowed later content ∧ allowed record (undoAll undo later content)

instance decidableAllowed (undo : R → C → C) (allowed : R → C → Prop)
    [∀ record content, Decidable (allowed record content)] :
    (log : List R) → (content : C) → Decidable (Allowed undo allowed log content)
  | [], _ => .isTrue trivial
  | record::later, content =>
    have := decidableAllowed undo allowed later content
    inferInstanceAs (Decidable (Allowed undo allowed later content ∧
      allowed record (undoAll undo later content)))

/-- A call for every element of two lists, one after the other. -/
theorem Eff.forEach_append {α : Type} (xs ys : List α) (f : α → Eff σ Unit) (s : σ) :
    Eff.forEach (xs++ys) f s=(Eff.forEach xs f >>= fun _ => Eff.forEach ys f) s := by
  induction xs generalizing s with
  | nil => rfl
  | cons x xs ih =>
    change (f x >>= fun _ => Eff.forEach (xs++ys) f) s=
      ((f x >>= fun _ => Eff.forEach xs f) >>= fun _ => Eff.forEach ys f) s
    rw [Eff.bind_assoc,Eff.bind_eq,Eff.bind_eq]
    rcases f x s with ⟨outcome,t⟩
    cases outcome with
    | ok value => exact ih t
    | err e => rfl
    | stuck => rfl

/-- The run of an undo log: when each call undoes its record wherever that is allowed, the
calls for the whole log succeed and end in the content it leads back to. -/
theorem Undoes.run (apply : R → Eff σ Unit) (content : σ → C) (Inv : σ → Prop)
    {undo : R → C → C} {allowed : R → C → Prop}
    (hundo : ∀ record new old, Back record new old → allowed record new → undo record new=old)
    (happly : ∀ record s old, Inv s → Back record (content s) old → allowed record (content s) →
      ∃ t, apply record s=(.ok (),t) ∧ Inv t ∧ content t=old)
    {log : List R} {s : σ} {old : C} (h : Undoes Back log (content s) old)
    (hallowed : Allowed undo allowed log (content s)) (hs : Inv s) :
    undoAll undo log (content s)=old ∧
      ∃ t, Eff.forEach log.reverse apply s=(.ok (),t) ∧ Inv t ∧ content t=old := by
  induction log generalizing old with
  | nil => exact ⟨h,s,rfl,hs,h⟩
  | cons record later ih =>
    obtain ⟨between,hlater,hback⟩ := h
    obtain ⟨hallowedLater,hrecord⟩ := hallowed
    obtain ⟨hall,t,ht,hInv,hcontent⟩ := ih hlater hallowedLater
    rw [hall] at hrecord
    refine ⟨?_,?_⟩
    · change undo record (undoAll undo later (content s))=old
      rw [hall]
      exact hundo record between old hback hrecord
    · have hrun := happly record t old hInv (hcontent.symm ▸ hback) (hcontent.symm ▸ hrecord)
      obtain ⟨u,hu,hInv',hcontent'⟩ := hrun
      refine ⟨u,?_,hInv',hcontent'⟩
      rw [List.reverse_cons,Eff.forEach_append,Eff.bind_of_ok ht]
      change (apply record >>= fun _ => pure ()) t=_
      rw [Eff.bind_of_ok hu]
      rfl

end RustSql
