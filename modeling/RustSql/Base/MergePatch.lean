import RustSql.Base.JsonFields

/-!
# Merge patches

`MergePatch(Target, Patch)` of RFC 7396: a patch that is an object is merged into the target,
where a null takes a member out; any other patch replaces the target. A member that a target
does not have is merged into nothing.
-/

namespace RustSql.JsonValue

variable {N : Type}

/-! ## Members -/

section Members

variable {merge : Option (JsonValue N) → JsonValue N → JsonValue N}
  {object patch : List (String × JsonValue N)} {name : String}

/-- The members of a patch are merged into an object one after the other. -/
def mergeWith (merge : Option (JsonValue N) → JsonValue N → JsonValue N)
    (object : List (String × JsonValue N)) :
    List (String × JsonValue N) → List (String × JsonValue N)
  | [] => object
  | (name,value) :: patch =>
    mergeWith merge (if value.isNull then removeField name object
      else insertField name (merge (object.lookup name) value) object) patch

theorem mergeWith_sorted (hobject : FieldsSorted object) :
    FieldsSorted (mergeWith merge object patch) := by
  induction patch generalizing object with
  | nil => exact hobject
  | cons member patch ih =>
    refine ih ?_
    split
    · exact hobject.removeField member.1
    · exact hobject.insertField member.1 _

/-- Every member is merged into the one of its name. -/
theorem mergeWith_lookup (hpatch : FieldsSorted patch) :
    (mergeWith merge object patch).lookup name=
      match patch.lookup name with
      | none => object.lookup name
      | some value => if value.isNull then none else some (merge (object.lookup name) value) := by
  induction patch generalizing object with
  | nil => rfl
  | cons member patch ih =>
    rw [mergeWith,ih (List.pairwise_cons.mp hpatch).2,List.lookup_cons]
    by_cases hname : name=member.1
    · rw [hname,hpatch.lookup_rest,beq_self_eq_true]
      simp only
      split
      · exact lookup_removeField_self _ _
      · exact lookup_insertField_self _ _ _
    · rw [beq_eq_false_iff_ne.mpr hname]
      have hsame : (if member.2.isNull then removeField member.1 object
          else insertField member.1 (merge (object.lookup member.1) member.2) object).lookup
            name=object.lookup name := by
        split
        · exact lookup_removeField_other hname object
        · exact lookup_insertField_other hname _ object
      rw [hsame]

/-- Two ways to merge agree on objects when they agree on the members. -/
theorem mergeWith_congr_iff {merge' : Option (JsonValue N) → JsonValue N → JsonValue N}
    (hobject : FieldsSorted object) (hpatch : FieldsSorted patch) :
    mergeWith merge object patch=mergeWith merge' object patch ↔
      ∀ member∈patch, member.2.isNull=false →
        merge (object.lookup member.1) member.2=merge' (object.lookup member.1) member.2 := by
  constructor
  · intro h member hmember hvalue
    have hlookup := congrArg (List.lookup member.1) h
    rw [mergeWith_lookup hpatch,mergeWith_lookup hpatch,hpatch.lookup_of_mem hmember] at hlookup
    simp only [hvalue,Bool.false_eq_true,if_false] at hlookup
    exact Option.some.inj hlookup
  · intro h
    refine FieldsSorted.ext (mergeWith_sorted hobject) (mergeWith_sorted hobject) fun name => ?_
    rw [mergeWith_lookup hpatch,mergeWith_lookup hpatch]
    cases hlookup : patch.lookup name with
    | none => rfl
    | some value =>
      cases hvalue : value.isNull with
      | true => simp only [hvalue,if_true]
      | false =>
        simp only [hvalue,Bool.false_eq_true,if_false]
        rw [h _ (mem_of_lookup hlookup) hvalue]

end Members

/-! ## The definition -/

/-- The fields of a target that may be missing. -/
def targetFields (target : Option (JsonValue N)) : List (String × JsonValue N) :=
  (target.map fields).getD []

mutual

/-- `MergePatch(Target, Patch)`. -/
def mergePatch (target : Option (JsonValue N)) : JsonValue N → JsonValue N
  | .object patch => .object (mergeMembers (targetFields target) patch)
  | .null => .null
  | .bool value => .bool value
  | .number value => .number value
  | .string value => .string value
  | .array items => .array items

/-- The members of a patch one after the other. -/
def mergeMembers (object : List (String × JsonValue N)) :
    List (String × JsonValue N) → List (String × JsonValue N)
  | [] => object
  | (name,value) :: patch =>
    mergeMembers (if value.isNull then removeField name object
      else insertField name (mergePatch (object.lookup name) value) object) patch

end

theorem mergeMembers_eq (object patch : List (String × JsonValue N)) :
    mergeMembers object patch=mergeWith mergePatch object patch := by
  induction patch generalizing object with
  | nil =>
    rw [mergeMembers]
    rfl
  | cons member patch ih => rw [mergeMembers,mergeWith,ih]

theorem mergePatch_object (target : Option (JsonValue N)) (patch : List (String × JsonValue N)) :
    mergePatch target (.object patch)=.object (mergeWith mergePatch (targetFields target) patch) := by
  rw [mergePatch,mergeMembers_eq]

/-! ## Laws -/

theorem targetFields_sorted {target : Option (JsonValue N)}
    (h : ∀ value∈target, value.Sorted) : FieldsSorted (targetFields target) := by
  cases target with
  | none => exact List.Pairwise.nil
  | some value => exact (h value rfl).fields

theorem lookup_sorted {target : Option (JsonValue N)} (h : ∀ value∈target, value.Sorted)
    (name : String) : ∀ value∈(targetFields target).lookup name, value.Sorted := by
  intro value hvalue
  cases target with
  | none => cases hvalue
  | some whole => exact (h whole rfl).of_lookup hvalue

theorem mergePatch_sorted {patch : JsonValue N} (hpatch : patch.Sorted)
    {target : Option (JsonValue N)} (htarget : ∀ value∈target, value.Sorted) :
    (mergePatch target patch).Sorted := by
  induction patch using ofParts generalizing target with
  | object patch ih =>
    cases hpatch with
    | object hfields hvalues =>
      have hmerged := @mergeWith_sorted N mergePatch _ patch (targetFields_sorted htarget)
      rw [mergePatch_object]
      refine .object hmerged fun field hfield => ?_
      have hfound := hmerged.lookup_of_mem hfield
      rw [mergeWith_lookup hfields] at hfound
      cases hlookup : patch.lookup field.1 with
      | none =>
        rw [hlookup] at hfound
        exact lookup_sorted htarget field.1 field.2 hfound
      | some value =>
        have hmem := mem_of_lookup hlookup
        rw [hlookup] at hfound
        simp only at hfound
        split at hfound
        · cases hfound
        · rw [←Option.some.inj hfound]
          exact ih _ hmem (hvalues _ hmem) (lookup_sorted htarget field.1)
  | _ => exact hpatch

/-- A patch that was applied changes nothing when it is applied again. -/
theorem mergePatch_idempotent {patch : JsonValue N} (hpatch : patch.Sorted)
    {target : Option (JsonValue N)} (htarget : ∀ value∈target, value.Sorted) :
    mergePatch (some (mergePatch target patch)) patch=mergePatch target patch := by
  induction patch using ofParts generalizing target with
  | object patch ih =>
    cases hpatch with
    | object hfields hvalues =>
      have hmerged := @mergeWith_sorted N mergePatch _ patch (targetFields_sorted htarget)
      rw [mergePatch_object,mergePatch_object]
      refine congrArg object (FieldsSorted.ext (mergeWith_sorted hmerged) hmerged fun name => ?_)
      change (mergeWith mergePatch (mergeWith mergePatch (targetFields target) patch) patch).lookup
        name=_
      rw [mergeWith_lookup hfields]
      cases hlookup : patch.lookup name with
      | none => rfl
      | some value =>
        rw [mergeWith_lookup hfields,hlookup]
        simp only
        split
        · rfl
        · have hmem := mem_of_lookup hlookup
          rw [ih _ hmem (hvalues _ hmem) (lookup_sorted htarget name)]
  | _ => rw [mergePatch,mergePatch]

/-- The value that a path of names leads to. -/
def memberAt : JsonValue N → List String → Option (JsonValue N)
  | value, [] => some value
  | value, name :: path => (value.fields.lookup name).bind fun member => member.memberAt path

/-- What is null in a patch is not there afterwards. -/
theorem mergePatch_memberAt {patch : JsonValue N} (hpatch : patch.Sorted)
    (target : Option (JsonValue N)) {path : List String} (hpath : path≠[])
    (hnull : patch.memberAt path=some .null) : (mergePatch target patch).memberAt path=none := by
  induction path generalizing patch target with
  | nil => exact absurd rfl hpath
  | cons name path ih =>
    rw [memberAt,Option.bind_eq_some_iff] at hnull
    obtain ⟨value,hlookup,hnull⟩ := hnull
    cases patch with
    | object patch =>
      change patch.lookup name=some value at hlookup
      rw [mergePatch_object,memberAt]
      change ((mergeWith mergePatch (targetFields target) patch).lookup name).bind _=none
      have hfields : FieldsSorted patch := hpatch.fields
      rw [mergeWith_lookup hfields,hlookup]
      simp only
      split
      · rfl
      · next hvalue =>
        refine ih (hpatch.of_lookup hlookup) _ (fun hend => hvalue ?_) hnull
        rw [hend] at hnull
        obtain rfl := Option.some.inj hnull
        rfl
    | _ => cases hlookup

end RustSql.JsonValue
