import RustSql.Base.JsonFields

/-!
# Places in JSON values

A place is a way down from the root, by the names of members and the numbers of items. Putting
a value at a place shows there and nowhere else.
-/

namespace RustSql.JsonValue

variable {N : Type}

/-! ## One step down -/

/-- A member of an object or an item of an array. -/
inductive JsonPlace where
  | key (name : String)
  | index (position : ℕ)
  deriving DecidableEq

/-- The value one step down. -/
def child : JsonValue N → JsonPlace → Option (JsonValue N)
  | .object fields, .key name => fields.lookup name
  | .array items, .index position => items[position]?
  | _, _ => none

/-- There is a value at the place, or one can be added there. -/
def hasRoom : JsonValue N → JsonPlace → Bool
  | .object _, .key _ => true
  | .array items, .index position => position ≤ items.length
  | _, _ => false

/-- A value is put one step down, in the place of another or as a new one. -/
def putChild : JsonValue N → JsonPlace → JsonValue N → JsonValue N
  | .object fields, .key name, value => .object (insertField name value fields)
  | .array items, .index position, value =>
    .array (if position < items.length then items.set position value else items++[value])
  | whole, _, _ => whole

/-- The kinds of values: arrays, objects, and each other value for itself. -/
def sameKind : JsonValue N → JsonValue N → Prop
  | .array _, other => ∃ items, other=.array items
  | .object _, other => ∃ fields, other=.object fields
  | value, other => other=value

section Steps

variable {whole value : JsonValue N} {place other : JsonPlace}

/-- A value is of its own kind. -/
theorem sameKind_refl (value : JsonValue N) : sameKind value value := by
  cases value with
  | array items => exact ⟨items,rfl⟩
  | object fields => exact ⟨fields,rfl⟩
  | _ => rfl

/-- A place with a child has room. -/
theorem hasRoom_of_child (h : child whole place=some value) : hasRoom whole place=true := by
  cases whole with
  | array items =>
    cases place with
    | key name => cases h
    | index position =>
      obtain ⟨hlt,-⟩ := List.getElem?_eq_some_iff.mp h
      exact decide_eq_true hlt.le
  | object fields =>
    cases place with
    | key name => rfl
    | index position => cases h
  | _ => cases h

/-- What is put is the child. -/
theorem child_putChild_self (h : hasRoom whole place=true) (value : JsonValue N) :
    child (putChild whole place value) place=some value := by
  cases whole with
  | array items =>
    cases place with
    | key name => cases h
    | index position =>
      have hle : position ≤ items.length := of_decide_eq_true h
      change (if position < items.length then items.set position value else items++[value])[position]?=_
      by_cases hlt : position < items.length
      · rw [if_pos hlt,List.getElem?_set_self hlt]
      · have hend : position=items.length := by omega
        rw [if_neg hlt,hend,List.getElem?_concat_length]
  | object fields =>
    cases place with
    | key name => exact lookup_insertField_self name value fields
    | index position => cases h
  | _ => cases h

/-- The other children stay. -/
theorem child_putChild_other (hother : other≠place) (h : hasRoom whole place=true)
    (value : JsonValue N) : child (putChild whole place value) other=child whole other := by
  cases whole with
  | array items =>
    cases place with
    | key name => cases h
    | index position =>
      cases other with
      | key name => rfl
      | index spot =>
        have hle : position ≤ items.length := of_decide_eq_true h
        have hne : spot≠position := fun heq => hother (congrArg JsonPlace.index heq)
        change (if position < items.length then items.set position value
          else items++[value])[spot]?=items[spot]?
        by_cases hlt : position < items.length
        · rw [if_pos hlt,List.getElem?_set_ne hne.symm]
        · rw [if_neg hlt]
          by_cases hpos : spot < items.length
          · rw [List.getElem?_append_left hpos]
          · rw [List.getElem?_eq_none (by rw [List.length_append,List.length_singleton]; omega),
              List.getElem?_eq_none (by omega)]
  | object fields =>
    cases place with
    | key name =>
      cases other with
      | key key =>
        exact lookup_insertField_other (fun heq => hother (congrArg JsonPlace.key heq)) value fields
      | index position => rfl
    | index position => cases h
  | _ => cases h

/-- The child put back changes nothing. -/
theorem putChild_same (hwhole : whole.Sorted) (h : child whole place=some value) :
    putChild whole place value=whole := by
  cases hwhole with
  | array hitems =>
    cases place with
    | key name => cases h
    | index position =>
      obtain ⟨hlt,hvalue⟩ := List.getElem?_eq_some_iff.mp h
      rw [putChild,if_pos hlt,←hvalue,List.set_getElem_self]
  | object hfields hvalues =>
    cases place with
    | key name =>
      rw [putChild]
      refine congrArg object (FieldsSorted.ext (hfields.insertField name value) hfields ?_)
      intro key
      by_cases hkey : key=name
      · rw [hkey,lookup_insertField_self]
        exact h.symm
      · exact lookup_insertField_other hkey value _
    | index position => cases h
  | _ => cases h

/-- Children of sorted values are sorted. -/
theorem Sorted.child (hwhole : whole.Sorted) (h : child whole place=some value) :
    value.Sorted := by
  cases hwhole with
  | array hitems =>
    cases place with
    | key name => cases h
    | index position => exact hitems value (List.mem_of_getElem? h)
  | object hfields hvalues =>
    cases place with
    | key name => exact hvalues _ (mem_of_lookup h)
    | index position => cases h
  | _ => cases h

/-- The kind stays. -/
theorem sameKind_putChild (whole : JsonValue N) (place : JsonPlace) (value : JsonValue N) :
    sameKind whole (putChild whole place value) := by
  cases whole with
  | array items => cases place <;> exact ⟨_,rfl⟩
  | object fields => cases place <;> exact ⟨_,rfl⟩
  | _ => cases place <;> rfl

end Steps

/-! ## Several steps down -/

/-- The value at a place. -/
def valueAt : JsonValue N → List JsonPlace → Option (JsonValue N)
  | value, [] => some value
  | value, place :: places => (child value place).bind fun next => next.valueAt places

/-- Everything in a value is still there: only members and items are new. -/
def Grows (before after : JsonValue N) : Prop :=
  ∀ places value, before.valueAt places=some value →
    ∃ value', after.valueAt places=some value' ∧ sameKind value value'

section Places

variable {whole value next : JsonValue N} {place : JsonPlace} {places : List JsonPlace}

/-- Below the place is what was put. -/
theorem valueAt_putChild_self (h : hasRoom whole place=true) (value : JsonValue N)
    (places : List JsonPlace) :
    (putChild whole place value).valueAt (place :: places)=value.valueAt places := by
  rw [valueAt,child_putChild_self h,Option.bind_some]

/-- Elsewhere all is as before. -/
theorem valueAt_putChild_other {other : JsonPlace} (hother : other≠place)
    (h : hasRoom whole place=true) (value : JsonValue N) (places : List JsonPlace) :
    (putChild whole place value).valueAt (other :: places)=whole.valueAt (other :: places) := by
  rw [valueAt,valueAt,child_putChild_other hother h]

/-- A longer way is gone in two parts. -/
theorem valueAt_append (value : JsonValue N) (front rest : List JsonPlace) :
    value.valueAt (front++rest)=(value.valueAt front).bind fun next => next.valueAt rest := by
  induction front generalizing value with
  | nil => rfl
  | cons place front ih =>
    rw [List.cons_append,valueAt,valueAt]
    cases child value place with
    | none => rfl
    | some next => exact ih next

/-- A value grows with what is one step down, and with what is added there. -/
theorem Grows.putChild (hroom : hasRoom whole place=true)
    (h : ∀ next, child whole place=some next → Grows next value) :
    Grows whole (putChild whole place value) := by
  intro places found hfound
  cases places with
  | nil =>
    obtain rfl := Option.some.inj hfound
    exact ⟨_,rfl,sameKind_putChild _ _ _⟩
  | cons other places =>
    by_cases hother : other=place
    · subst hother
      rw [valueAt_putChild_self hroom]
      rw [valueAt,Option.bind_eq_some_iff] at hfound
      obtain ⟨next,hnext,hfound⟩ := hfound
      exact h next hnext places found hfound
    · rw [valueAt_putChild_other hother hroom]
      exact ⟨found,hfound,sameKind_refl found⟩

/-- What does not grow one step down does not grow as a whole. -/
theorem Grows.of_putChild (hnext : child whole place=some next)
    (h : Grows whole (JsonValue.putChild whole place value)) : Grows next value := by
  intro places found hfound
  have hwhole : whole.valueAt (place :: places)=some found := by
    rw [valueAt,hnext]
    exact hfound
  have hafter := h (place :: places) found hwhole
  rwa [valueAt_putChild_self (hasRoom_of_child hnext)] at hafter

end Places

end RustSql.JsonValue
