import RustSql.Sql.Jsonb

/-!
# The elements that bytes spell

JSONB bytes as a tree of elements. Both readers of `jsonb.rs` go through such a tree: one makes
a value of it and one a text, and they see the same tree.
-/

namespace RustSql.Jsonb

/-! ## Trees -/

/-- An element: one that holds others, or a type with its payload. -/
inductive Element where
  | leaf (elementType : UInt8) (payload : Bytes)
  | array (items : List Element)
  | object (fields : List (Element × Element))

mutual

/-- The element at an offset, and where it ends. -/
def elementAt : ℕ → Bytes → ℕ → Option (Element × ℕ)
  | 0, _, _ => none
  | fuel+1, bytes, offset => do
    let (elementType,payloadStart,payloadEnd) ← (readHeader bytes offset).toOption
    let payload := slice bytes payloadStart (payloadEnd-payloadStart)
    let element ← byElementType elementType ((elementsFrom fuel payload 0).map Element.array)
      ((fieldsFrom fuel payload 0).map Element.object) (some (.leaf elementType payload))
    some (element,payloadEnd)

/-- The elements from an offset on. -/
def elementsFrom : ℕ → Bytes → ℕ → Option (List Element)
  | 0, _, _ => none
  | fuel+1, payload, offset =>
    if offset < payload.length then do
      let (element,consumed) ← elementAt fuel payload offset
      let elements ← elementsFrom fuel payload consumed
      some (element :: elements)
    else some []

/-- The pairs of elements from an offset on. -/
def fieldsFrom : ℕ → Bytes → ℕ → Option (List (Element × Element))
  | 0, _, _ => none
  | fuel+1, payload, offset =>
    if offset < payload.length then do
      let (key,consumedKey) ← elementAt fuel payload offset
      if consumedKey ≥ payload.length then none
      else do
        let (value,consumedValue) ← elementAt fuel payload consumedKey
        let fields ← fieldsFrom fuel payload consumedValue
        some ((key,value) :: fields)
    else some []

end

/-- The element that bytes spell. -/
def elementOf (bytes : Bytes) : Option Element := do
  let (element,consumed) ← elementAt (enough bytes) bytes 0
  if consumed≠bytes.length then none else some element

section Depth

mutual

/-- How many arrays and objects stand around the innermost leaf. -/
def Element.depth : Element → ℕ
  | .leaf _ _ => 0
  | .array items => Element.depths items+1
  | .object fields => Element.fieldDepths fields+1

def Element.depths : List Element → ℕ
  | [] => 0
  | element :: elements => max (Element.depth element) (Element.depths elements)

/-- Keys hold no elements, where they are strings. -/
def Element.fieldDepths : List (Element × Element) → ℕ
  | [] => 0
  | (_,element) :: fields => max (Element.depth element) (Element.fieldDepths fields)

end

end Depth

section Meaning

variable {N : Type} (serde : SerdeJson N)

mutual

/-- The value of an element. -/
def Element.value : Element → Option (JsonValue N)
  | .leaf elementType payload => (decodeLeaf serde elementType payload).toOption
  | .array items => (Element.values items).map JsonValue.array
  | .object fields => (Element.fieldValues fields).map fun fields => .object (fromFields fields)

/-- The values of elements. -/
def Element.values : List Element → Option (List (JsonValue N))
  | [] => some []
  | element :: elements => do
    let value ← Element.value element
    let values ← Element.values elements
    some (value :: values)

/-- The names and values of pairs of elements. -/
def Element.fieldValues : List (Element × Element) → Option (List (String × JsonValue N))
  | [] => some []
  | (key,element) :: fields =>
    match Element.value key with
    | some (.string name) => do
      let value ← Element.value element
      let values ← Element.fieldValues fields
      some ((name,value) :: values)
    | _ => none

end

mutual

/-- The text of an element. -/
def Element.text : Element → Option (List Char)
  | .leaf elementType payload => (renderLeaf serde elementType payload).toOption
  | .array items => (Element.texts items).map fun texts => '[' :: commaJoin texts++[']']
  | .object fields => (Element.fieldTexts fields).map fun texts => '{' :: commaJoin texts++['}']

/-- The texts of elements. -/
def Element.texts : List Element → Option (List (List Char))
  | [] => some []
  | element :: elements => do
    let text ← Element.text element
    let texts ← Element.texts elements
    some (text :: texts)

/-- The texts of pairs of elements. -/
def Element.fieldTexts : List (Element × Element) → Option (List (List Char))
  | [] => some []
  | (key,element) :: fields => do
    let name ← Element.text key
    let text ← Element.text element
    let texts ← Element.fieldTexts fields
    some ((name++ ':' :: text) :: texts)

end

/-! ## Both readers go through the tree -/

theorem toOption_bind {α β : Type} (x : Except DbError α) (f : α → Except DbError β) :
    (x >>= f).toOption=x.toOption.bind fun a => (f a).toOption := by
  cases x <;> rfl

theorem toOption_map {α β : Type} (f : α → β) (x : Except DbError α) :
    (x.map f).toOption=x.toOption.map f := by
  cases x <;> rfl

theorem toOption_eq_some {α : Type} {x : Except DbError α} {a : α} :
    x.toOption=some a ↔ x=.ok a := by
  cases x with
  | error error => exact iff_of_false (fun h => by cases h) (fun h => by cases h)
  | ok b => exact ⟨fun h => congrArg Except.ok (Option.some.inj h),fun h => by rw [h]; rfl⟩

/-- A reader of one element reads what the element means, when it does so for the elements
inside. -/
theorem byElementType_bind {α β : Type} {elementType : UInt8} {payloadEnd : ℕ}
    {array object leaf : Except DbError α} {elements fields found : Option β}
    {meaning : β → Option α} (harray : array.toOption=elements.bind meaning)
    (hobject : object.toOption=fields.bind meaning) (hleaf : leaf.toOption=found.bind meaning) :
    (byElementType elementType array object leaf >>= fun value =>
      Except.ok (value,payloadEnd)).toOption=
    ((byElementType elementType elements fields found).bind fun element =>
      some (element,payloadEnd)).bind fun found =>
        (meaning found.1).map fun value => (value,found.2) := by
  have hread : (byElementType elementType array object leaf).toOption=
      (byElementType elementType elements fields found).bind meaning := by
    unfold byElementType
    split
    · exact harray
    · split
      · exact hobject
      · exact hleaf
  rw [toOption_bind,hread]
  cases byElementType elementType elements fields found with
  | none => rfl
  | some element =>
    simp only [Option.bind_some]
    cases meaning element <;> rfl

/-- A field is put into the object read so far. -/
def putField (object : List (String × JsonValue N)) (field : String × JsonValue N) :
    List (String × JsonValue N) :=
  insertField field.1 field.2 object

/-- A pair whose first element is no string has no name. -/
theorem fieldValues_unnamed {key element : Element} {fields : List (Element × Element)}
    (h : ∀ name, key.value serde≠some (.string name)) :
    Element.fieldValues serde ((key,element) :: fields)=none := by
  rw [Element.fieldValues]
  split
  · next name hname => exact absurd hname (h name)
  · rfl

theorem fieldValues_named {key element : Element} {fields : List (Element × Element)}
    {name : String} (h : key.value serde=some (.string name)) :
    Element.fieldValues serde ((key,element) :: fields)=
      (element.value serde).bind fun value =>
        (Element.fieldValues serde fields).map fun values => (name,value) :: values := by
  rw [Element.fieldValues,h]
  cases element.value serde with
  | none => rfl
  | some value =>
    cases Element.fieldValues serde fields <;> rfl

/-- `decode_at` reads the value of the element at the offset. -/
theorem decodeAt_elementAt (fuel : ℕ) :
    (∀ bytes offset, (decodeAt serde fuel bytes offset).toOption=
      (elementAt fuel bytes offset).bind fun found =>
        (found.1.value serde).map fun value => (value,found.2)) ∧
    (∀ payload offset, (decodeArray serde fuel payload offset).toOption=
      (elementsFrom fuel payload offset).bind (Element.values serde)) ∧
    ∀ payload offset object, (decodeObject serde fuel payload offset object).toOption=
      ((fieldsFrom fuel payload offset).bind (Element.fieldValues serde)).map fun fields =>
        fields.foldl putField object := by
  induction fuel with
  | zero => exact ⟨fun _ _ => rfl,fun _ _ => rfl,fun _ _ _ => rfl⟩
  | succ fuel ih =>
    obtain ⟨hat,harray,hobject⟩ := ih
    refine ⟨fun bytes offset => ?_,fun payload offset => ?_,fun payload offset object => ?_⟩
    · rw [decodeAt,elementAt]
      cases readHeader bytes offset with
      | error error => rfl
      | ok header =>
        obtain ⟨elementType,payloadStart,payloadEnd⟩ := header
        refine byElementType_bind ?_ ?_ rfl
        · rw [toOption_map,harray]
          cases elementsFrom fuel (slice bytes payloadStart (payloadEnd-payloadStart)) 0 with
          | none => rfl
          | some elements => rfl
        · rw [toOption_map,hobject]
          cases fieldsFrom fuel (slice bytes payloadStart (payloadEnd-payloadStart)) 0 with
          | none => rfl
          | some fields =>
            simp only [Option.bind_some,Option.map_some,Element.value]
            cases Element.fieldValues serde fields <;> rfl
    · rw [decodeArray,elementsFrom]
      by_cases hlt : offset < payload.length
      · rw [if_pos hlt,if_pos hlt,toOption_bind,hat]
        cases elementAt fuel payload offset with
        | none => rfl
        | some found =>
          simp only [Option.bind_some,Option.bind_eq_bind]
          cases hvalue : found.1.value serde with
          | none =>
            cases elementsFrom fuel payload found.2 with
            | none => rfl
            | some elements => simp [Element.values,hvalue]
          | some value =>
            simp only [Option.map_some,Option.bind_some,toOption_bind,harray]
            cases elementsFrom fuel payload found.2 with
            | none => rfl
            | some elements => simp [Element.values,hvalue,Except.toOption]
      · rw [if_neg hlt,if_neg hlt]
        rfl
    · rw [decodeObject,fieldsFrom]
      by_cases hlt : offset < payload.length
      · rw [if_pos hlt,if_pos hlt,toOption_bind,hat]
        cases elementAt fuel payload offset with
        | none => rfl
        | some key =>
          -- what the loop does behind a key
          have hunnamed : (∀ name, key.1.value serde≠some (.string name)) →
              ((if key.2 ≥ payload.length then none else
                (elementAt fuel payload key.2).bind fun value =>
                  (fieldsFrom fuel payload value.2).bind fun fields =>
                    some ((key.1,value.1) :: fields)).bind
                (Element.fieldValues serde)).map (fun fields => fields.foldl putField object)=
              none := by
            intro hname
            split
            · rfl
            · cases elementAt fuel payload key.2 with
              | none => rfl
              | some value =>
                simp only [Option.bind_some]
                cases fieldsFrom fuel payload value.2 with
                | none => rfl
                | some fields => simp [fieldValues_unnamed serde hname]
          simp only [Option.bind_some,Option.bind_eq_bind]
          cases hkey : key.1.value serde with
          | none => exact (hunnamed fun name hname => by rw [hkey] at hname; cases hname).symm
          | some found =>
            cases found with
            | string name =>
              simp only [Option.map_some,Option.bind_some]
              by_cases hend : key.2 ≥ payload.length
              · rw [if_pos hend,if_pos hend]
                rfl
              · rw [if_neg hend,if_neg hend,toOption_bind,hat]
                cases elementAt fuel payload key.2 with
                | none => rfl
                | some value =>
                  simp only [Option.bind_some]
                  cases hvalue : value.1.value serde with
                  | none =>
                    cases fieldsFrom fuel payload value.2 with
                    | none => rfl
                    | some fields => simp [fieldValues_named serde hkey,hvalue]
                  | some read =>
                    simp only [Option.map_some,Option.bind_some,hobject]
                    cases fieldsFrom fuel payload value.2 with
                    | none => rfl
                    | some fields =>
                      simp only [Option.bind_some,fieldValues_named serde hkey,hvalue]
                      cases Element.fieldValues serde fields <;> rfl
            | _ => exact (hunnamed fun name hname => by rw [hkey] at hname; cases hname).symm
      · rw [if_neg hlt,if_neg hlt]
        rfl

/-- `render_at` gives the text of the element at the offset. -/
theorem renderAt_elementAt (fuel : ℕ) :
    (∀ bytes offset, (renderAt serde fuel bytes offset).toOption=
      (elementAt fuel bytes offset).bind fun found =>
        (found.1.text serde).map fun text => (text,found.2)) ∧
    (∀ payload offset, (renderArray serde fuel payload offset).toOption=
      (elementsFrom fuel payload offset).bind (Element.texts serde)) ∧
    ∀ payload offset, (renderObject serde fuel payload offset).toOption=
      (fieldsFrom fuel payload offset).bind (Element.fieldTexts serde) := by
  induction fuel with
  | zero => exact ⟨fun _ _ => rfl,fun _ _ => rfl,fun _ _ => rfl⟩
  | succ fuel ih =>
    obtain ⟨hat,harray,hobject⟩ := ih
    refine ⟨fun bytes offset => ?_,fun payload offset => ?_,fun payload offset => ?_⟩
    · rw [renderAt,elementAt]
      cases readHeader bytes offset with
      | error error => rfl
      | ok header =>
        obtain ⟨elementType,payloadStart,payloadEnd⟩ := header
        refine byElementType_bind ?_ ?_ rfl
        · rw [toOption_map,harray]
          cases elementsFrom fuel (slice bytes payloadStart (payloadEnd-payloadStart)) 0 with
          | none => rfl
          | some elements => rfl
        · rw [toOption_map,hobject]
          cases fieldsFrom fuel (slice bytes payloadStart (payloadEnd-payloadStart)) 0 with
          | none => rfl
          | some fields => rfl
    · rw [renderArray,elementsFrom]
      by_cases hlt : offset < payload.length
      · rw [if_pos hlt,if_pos hlt,toOption_bind,hat]
        cases elementAt fuel payload offset with
        | none => rfl
        | some found =>
          simp only [Option.bind_some,Option.bind_eq_bind]
          cases htext : found.1.text serde with
          | none =>
            cases elementsFrom fuel payload found.2 with
            | none => rfl
            | some elements => simp [Element.texts,htext]
          | some text =>
            simp only [Option.map_some,Option.bind_some,toOption_bind,harray]
            cases elementsFrom fuel payload found.2 with
            | none => rfl
            | some elements => simp [Element.texts,htext,Except.toOption]
      · rw [if_neg hlt,if_neg hlt]
        rfl
    · rw [renderObject,fieldsFrom]
      by_cases hlt : offset < payload.length
      · rw [if_pos hlt,if_pos hlt,toOption_bind,hat]
        cases elementAt fuel payload offset with
        | none => rfl
        | some key =>
          simp only [Option.bind_some,Option.bind_eq_bind]
          by_cases hend : key.2 ≥ payload.length
          · rw [if_pos hend]
            cases key.1.text serde with
            | none => rfl
            | some name =>
              simp only [Option.map_some,Option.bind_some,if_pos hend]
              rfl
          · rw [if_neg hend]
            cases hkey : key.1.text serde with
            | none =>
              cases elementAt fuel payload key.2 with
              | none => rfl
              | some value =>
                simp only [Option.bind_some]
                cases fieldsFrom fuel payload value.2 with
                | none => rfl
                | some fields => simp [Element.fieldTexts,hkey]
            | some name =>
              simp only [Option.map_some,Option.bind_some,if_neg hend]
              rw [toOption_bind,hat]
              cases elementAt fuel payload key.2 with
              | none => rfl
              | some value =>
                simp only [Option.bind_some]
                cases htext : value.1.text serde with
                | none =>
                  cases fieldsFrom fuel payload value.2 with
                  | none => rfl
                  | some fields => simp [Element.fieldTexts,hkey,htext]
                | some text =>
                  simp only [Option.map_some,Option.bind_some,toOption_bind,hobject]
                  cases fieldsFrom fuel payload value.2 with
                  | none => rfl
                  | some fields => simp [Element.fieldTexts,hkey,htext,Except.toOption]
      · rw [if_neg hlt,if_neg hlt]
        rfl

/-- What is read of some bytes is what their element means. -/
theorem decode_iff {bytes : Bytes} {value : JsonValue N} : decode serde bytes=.ok value ↔
    ∃ element, elementOf bytes=some element ∧ element.value serde=some value := by
  rw [←toOption_eq_some,decode,toOption_bind,(decodeAt_elementAt serde (enough bytes)).1,
    elementOf]
  cases elementAt (enough bytes) bytes 0 with
  | none => exact iff_of_false (fun h => by cases h) fun ⟨_,h,_⟩ => by cases h
  | some found =>
    obtain ⟨element,consumed⟩ := found
    simp only [Option.bind_some,Option.bind_eq_bind]
    by_cases hend : consumed=bytes.length
    · simp [hend,Option.bind_eq_some_iff,Except.toOption]
    · simp [hend,Option.bind_eq_some_iff,Except.toOption]

theorem toJsonText_iff {bytes : Bytes} {text : List Char} : toJsonText serde bytes=.ok text ↔
    ∃ element, elementOf bytes=some element ∧ element.text serde=some text := by
  rw [←toOption_eq_some,toJsonText,toOption_bind,(renderAt_elementAt serde (enough bytes)).1,
    elementOf]
  cases elementAt (enough bytes) bytes 0 with
  | none => exact iff_of_false (fun h => by cases h) fun ⟨_,h,_⟩ => by cases h
  | some found =>
    obtain ⟨element,consumed⟩ := found
    simp only [Option.bind_some,Option.bind_eq_bind]
    by_cases hend : consumed=bytes.length
    · simp [hend,Option.bind_eq_some_iff,Except.toOption]
    · simp [hend,Option.bind_eq_some_iff,Except.toOption]

end Meaning

/-! ## Enough steps -/

end RustSql.Jsonb
