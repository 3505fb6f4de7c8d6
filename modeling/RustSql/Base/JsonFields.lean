import RustSql.Base.JsonTexts

/-!
# The fields of objects

An object keeps its fields sorted by their names. Looking a field up, putting one in and taking
one out follow the laws of a map, and two objects with the same fields are the same.
-/

namespace RustSql

section Fields

variable {V : Type} {fields other : List (String × V)} {name : String} {value : V}

/-- The names of the fields ascend. -/
def FieldsSorted (fields : List (String × V)) : Prop :=
  fields.Pairwise fun first second => first.1 < second.1

/-- A field is taken out of an object. -/
def removeField (name : String) (fields : List (String × V)) : List (String × V) :=
  fields.filter fun field => field.1≠name

/-! ## Lookups -/

/-- A smaller name is not there. -/
theorem lookup_eq_none_of_lt (h : ∀ field∈fields, name < field.1) : fields.lookup name=none := by
  rw [List.lookup_eq_none_iff]
  intro field hfield
  exact bne_iff_ne.mpr (h field hfield).ne

/-- An inserted field is found. -/
theorem lookup_insertField_self (name : String) (value : V) (fields : List (String × V)) :
    (insertField name value fields).lookup name=some value := by
  induction fields with
  | nil => rw [insertField,List.lookup_cons_self]
  | cons field fields ih =>
    rw [insertField]
    split
    · rw [List.lookup_cons_self]
    · split
      · rw [List.lookup_cons_self]
      · next hne =>
        rw [List.lookup_cons,beq_eq_false_iff_ne.mpr hne]
        exact ih

/-- The other fields are found as before. -/
theorem lookup_insertField_other {key : String} (h : key≠name) (value : V)
    (fields : List (String × V)) :
    (insertField name value fields).lookup key=fields.lookup key := by
  have hkey : (key==name)=false := beq_eq_false_iff_ne.mpr h
  induction fields with
  | nil => rw [insertField,List.lookup_cons,hkey]
  | cons field fields ih =>
    rw [insertField]
    split
    · rw [List.lookup_cons,hkey]
    · split
      · next heq =>
        rw [List.lookup_cons,hkey,List.lookup_cons,←heq,hkey]
      · rw [List.lookup_cons,List.lookup_cons,ih]

/-- A removed field is not found. -/
theorem lookup_removeField_self (name : String) (fields : List (String × V)) :
    (removeField name fields).lookup name=none := by
  rw [List.lookup_eq_none_iff]
  intro field hfield
  have hname := of_decide_eq_true (List.mem_filter.mp hfield).2
  exact bne_iff_ne.mpr (Ne.symm hname)

/-- The other fields are found as before. -/
theorem lookup_removeField_other {key : String} (h : key≠name) (fields : List (String × V)) :
    (removeField name fields).lookup key=fields.lookup key := by
  induction fields with
  | nil => rfl
  | cons field fields ih =>
    unfold removeField at ih ⊢
    by_cases hname : field.1=name
    · have hkey : (key==field.1)=false := by
        rw [hname]
        exact beq_eq_false_iff_ne.mpr h
      rw [List.filter_cons_of_neg (by simp [hname]),List.lookup_cons,hkey]
      exact ih
    · rw [List.filter_cons_of_pos (by simp [hname]),List.lookup_cons,List.lookup_cons,ih]

/-- What is found is there. -/
theorem mem_of_lookup (h : fields.lookup name=some value) : (name,value)∈fields := by
  induction fields with
  | nil => cases h
  | cons field fields ih =>
    rw [List.lookup_cons] at h
    by_cases hname : name=field.1
    · rw [beq_iff_eq.mpr hname] at h
      obtain rfl := Option.some.inj h
      rw [hname]
      exact List.mem_cons_self
    · rw [beq_eq_false_iff_ne.mpr hname] at h
      exact List.mem_cons_of_mem field (ih h)

/-- What is there is found. -/
theorem FieldsSorted.lookup_of_mem (h : FieldsSorted fields) (hmem : (name,value)∈fields) :
    fields.lookup name=some value := by
  induction fields with
  | nil => cases hmem
  | cons field fields ih =>
    obtain ⟨hfirst,hrest⟩ := List.pairwise_cons.mp h
    rw [List.lookup_cons]
    rcases List.mem_cons.mp hmem with rfl | hmem
    · rw [beq_self_eq_true]
    · have hlt := hfirst _ hmem
      rw [beq_eq_false_iff_ne.mpr hlt.ne']
      exact ih hrest hmem

/-! ## Order -/

/-- The new field or an old one. -/
theorem mem_insertField {field : String × V} (h : field∈insertField name value fields) :
    field=(name,value) ∨ field∈fields := by
  induction fields with
  | nil => exact .inl (List.mem_singleton.mp h)
  | cons first fields ih =>
    rw [insertField] at h
    split at h
    · exact List.mem_cons.mp h
    · split at h
      · exact (List.mem_cons.mp h).imp_right (List.mem_cons_of_mem first)
      · rcases List.mem_cons.mp h with rfl | hmem
        · exact .inr List.mem_cons_self
        · exact (ih hmem).imp_right (List.mem_cons_of_mem first)

/-- Fields stay sorted. -/
theorem FieldsSorted.insertField (h : FieldsSorted fields) (name : String) (value : V) :
    FieldsSorted (insertField name value fields) := by
  induction fields with
  | nil => exact List.pairwise_singleton _ _
  | cons first fields ih =>
    obtain ⟨hfirst,hrest⟩ := List.pairwise_cons.mp h
    rw [RustSql.insertField]
    split
    · next hlt =>
      refine List.pairwise_cons.mpr ⟨fun field hfield => ?_,h⟩
      rcases List.mem_cons.mp hfield with rfl | hmem
      · exact hlt
      · exact hlt.trans (hfirst field hmem)
    · next hnotlt =>
      split
      · next heq =>
        refine List.pairwise_cons.mpr ⟨fun field hfield => ?_,hrest⟩
        rw [heq]
        exact hfirst field hfield
      · next hne =>
        refine List.pairwise_cons.mpr ⟨fun field hfield => ?_,ih hrest⟩
        rcases mem_insertField hfield with rfl | hmem
        · exact (lt_or_gt_of_ne hne).resolve_left hnotlt
        · exact hfirst field hmem

/-- Fields stay sorted. -/
theorem FieldsSorted.removeField (h : FieldsSorted fields) (name : String) :
    FieldsSorted (removeField name fields) :=
  h.sublist List.filter_sublist

/-- A name before the first is not there. -/
theorem FieldsSorted.lookup_head {first : String × V}
    (h : FieldsSorted (first :: fields)) (hname : name < first.1) :
    (first :: fields).lookup name=none := by
  refine lookup_eq_none_of_lt fun field hfield => ?_
  rcases List.mem_cons.mp hfield with rfl | hmem
  · exact hname
  · exact hname.trans ((List.pairwise_cons.mp h).1 field hmem)

/-- The first name does not come again. -/
theorem FieldsSorted.lookup_rest {first : String × V} (h : FieldsSorted (first :: fields)) :
    fields.lookup first.1=none :=
  lookup_eq_none_of_lt (List.pairwise_cons.mp h).1

/-- Objects with the same fields are the same. -/
theorem FieldsSorted.ext (h : FieldsSorted fields) (h' : FieldsSorted other)
    (hlookup : ∀ name, fields.lookup name=other.lookup name) : fields=other := by
  induction fields generalizing other with
  | nil =>
    cases other with
    | nil => rfl
    | cons second other =>
      have hfound := hlookup second.1
      rw [List.lookup_cons,beq_self_eq_true] at hfound
      cases hfound
  | cons first fields ih =>
    cases other with
    | nil =>
      have hfound := hlookup first.1
      rw [List.lookup_cons,beq_self_eq_true] at hfound
      cases hfound
    | cons second other =>
      have hfirst : some first.2=(second :: other).lookup first.1 := by
        rw [←hlookup,List.lookup_cons,beq_self_eq_true]
      have hsecond : (first :: fields).lookup second.1=some second.2 := by
        rw [hlookup,List.lookup_cons,beq_self_eq_true]
      rcases lt_trichotomy first.1 second.1 with hlt | heq | hlt
      · rw [h'.lookup_head hlt] at hfirst
        cases hfirst
      · rw [List.lookup_cons,heq,beq_self_eq_true] at hfirst
        have hsame : first=second := Prod.ext heq (Option.some.inj hfirst)
        subst hsame
        congr 1
        refine ih (List.pairwise_cons.mp h).2 (List.pairwise_cons.mp h').2 fun name => ?_
        by_cases hname : name=first.1
        · rw [hname,h.lookup_rest,h'.lookup_rest]
        · have hrest := hlookup name
          rwa [List.lookup_cons,List.lookup_cons,beq_eq_false_iff_ne.mpr hname] at hrest
      · rw [h.lookup_head hlt] at hsecond
        cases hsecond

end Fields

/-! ## Values -/

namespace JsonValue

variable {N : Type}

/-- Every object in a value is sorted. -/
inductive Sorted : JsonValue N → Prop
  | null : Sorted .null
  | bool (value : Bool) : Sorted (.bool value)
  | number (value : N) : Sorted (.number value)
  | string (value : String) : Sorted (.string value)
  | array {items : List (JsonValue N)} : (∀ item∈items, item.Sorted) → Sorted (.array items)
  | object {fields : List (String × JsonValue N)} : FieldsSorted fields →
      (∀ field∈fields, field.2.Sorted) → Sorted (.object fields)

/-- The fields of an object; other values have none. -/
def fields : JsonValue N → List (String × JsonValue N)
  | .object fields => fields
  | _ => []

/-- `is_null`. -/
def isNull : JsonValue N → Bool
  | .null => true
  | _ => false

/-- What holds of a value when it holds of all values in it holds of every value. -/
theorem ofParts {P : JsonValue N → Prop} (null : P .null) (bool : ∀ value, P (.bool value))
    (number : ∀ value, P (.number value)) (string : ∀ value, P (.string value))
    (array : ∀ items, (∀ item∈items, P item) → P (.array items))
    (object : ∀ fields : List (String × JsonValue N), (∀ field∈fields, P field.2) →
      P (.object fields)) :
    ∀ value, P value
  | .null => null
  | .bool value => bool value
  | .number value => number value
  | .string value => string value
  | .array items => array items fun item _ =>
      ofParts null bool number string array object item
  | .object fields => object fields fun field _ =>
      ofParts null bool number string array object field.2
termination_by value => sizeOf value
decreasing_by
  · have hsize := List.sizeOf_lt_of_mem ‹item∈items›
    rw [JsonValue.array.sizeOf_spec]
    omega
  · have hsize := List.sizeOf_lt_of_mem ‹field∈fields›
    have hvalue : sizeOf field=1+sizeOf field.1+sizeOf field.2 := rfl
    rw [JsonValue.object.sizeOf_spec]
    omega

/-- The fields of a sorted value are sorted. -/
theorem Sorted.fields {value : JsonValue N} (h : value.Sorted) : FieldsSorted value.fields := by
  cases h with
  | object hfields _ => exact hfields
  | _ => exact List.Pairwise.nil

/-- Its members are sorted. -/
theorem Sorted.of_mem {value : JsonValue N} (h : value.Sorted) {field : String × JsonValue N}
    (hmem : field∈value.fields) : field.2.Sorted := by
  cases h with
  | object _ hvalues => exact hvalues field hmem
  | _ => cases hmem

/-- So is what is found. -/
theorem Sorted.of_lookup {value member : JsonValue N} (h : value.Sorted) {name : String}
    (hlookup : value.fields.lookup name=some member) : member.Sorted :=
  h.of_mem (mem_of_lookup hlookup)

end JsonValue

end RustSql
