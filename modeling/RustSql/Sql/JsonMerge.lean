import RustSql.Base.MergePatch

/-!
# `JSON_PATCH`

A member of the patch that the target does not have is put into it as it stands, so the nulls
below it stay. Nothing else tells `json_merge_patch` from the merge patches of RFC 7396.
-/

namespace RustSql.Sql

open JsonValue

variable {N : Type}

mutual

/-- `json_merge_patch`, with the value it leaves behind. -/
def jsonMergePatch (target : JsonValue N) : JsonValue N → JsonValue N
  | .object patch => .object (mergePatchMembers target.fields patch)
  | .null => .null
  | .bool value => .bool value
  | .number value => .number value
  | .string value => .string value
  | .array items => .array items

/-- The loop of `json_merge_patch`. -/
def mergePatchMembers (object : List (String × JsonValue N)) :
    List (String × JsonValue N) → List (String × JsonValue N)
  | [] => object
  | (key,value) :: patch =>
    mergePatchMembers (if value.isNull then removeField key object
      else match object.lookup key with
        | some target => insertField key (jsonMergePatch target value) object
        | none => insertField key value object) patch

end

/-- What `json_merge_patch` makes of a member that is not null. -/
def patchedMember (target : Option (JsonValue N)) (value : JsonValue N) : JsonValue N :=
  match target with
  | some target => jsonMergePatch target value
  | none => value

theorem mergePatchMembers_eq (object patch : List (String × JsonValue N)) :
    mergePatchMembers object patch=mergeWith patchedMember object patch := by
  induction patch generalizing object with
  | nil =>
    rw [mergePatchMembers]
    rfl
  | cons member patch ih =>
    rw [mergePatchMembers,mergeWith,ih]
    cases object.lookup member.1 <;> rfl

theorem jsonMergePatch_object (target : JsonValue N) (patch : List (String × JsonValue N)) :
    jsonMergePatch target (.object patch)=.object (mergeWith patchedMember target.fields patch) := by
  rw [jsonMergePatch,mergePatchMembers_eq]

/-! ## Nulls below new members -/

mutual

/-- No object in a value has a null for a member; what is in arrays does not count. -/
def nullFree : JsonValue N → Bool
  | .object fields => membersNullFree fields
  | _ => true

def membersNullFree : List (String × JsonValue N) → Bool
  | [] => true
  | (_,value) :: fields => !value.isNull && nullFree value && membersNullFree fields

end

mutual

/-- Below the members that the target does not have the patch has no nulls. -/
def plainPatch (target : JsonValue N) : JsonValue N → Bool
  | .object patch => membersPlain target.fields patch
  | _ => true

def membersPlain (object : List (String × JsonValue N)) : List (String × JsonValue N) → Bool
  | [] => true
  | (key,value) :: patch =>
    (match object.lookup key with
      | some target => plainPatch target value
      | none => nullFree value) && membersPlain object patch

end

theorem nullFree_object (fields : List (String × JsonValue N)) :
    nullFree (.object fields)=true ↔
      ∀ member∈fields, member.2.isNull=false ∧ nullFree member.2=true := by
  rw [nullFree]
  induction fields with
  | nil => simp [membersNullFree]
  | cons member fields ih =>
    rw [membersNullFree,Bool.and_eq_true,ih,List.forall_mem_cons,Bool.and_eq_true,
      Bool.not_eq_true']

/-- What a member of the patch needs. -/
def plainMember (target : Option (JsonValue N)) (value : JsonValue N) : Bool :=
  match target with
  | some target => plainPatch target value
  | none => nullFree value

theorem plainPatch_object (target : JsonValue N) (patch : List (String × JsonValue N)) :
    plainPatch target (.object patch)=true ↔
      ∀ member∈patch, plainMember (target.fields.lookup member.1) member.2=true := by
  rw [plainPatch]
  induction patch with
  | nil => simp [membersPlain]
  | cons member patch ih =>
    rw [membersPlain,Bool.and_eq_true,ih,List.forall_mem_cons]
    rfl

theorem plainMember_null (target : Option (JsonValue N)) : plainMember target .null=true := by
  cases target with
  | none => rfl
  | some target => rfl

theorem eq_null_of_isNull {value : JsonValue N} (h : value.isNull=true) : value=.null := by
  cases value with
  | null => rfl
  | _ => cases h

/-! ## Where both agree -/

theorem mergePatch_none_iff {value : JsonValue N} (h : value.Sorted) :
    mergePatch none value=value ↔ nullFree value=true := by
  induction value using ofParts with
  | object fields ih =>
    cases h with
    | object hfields hvalues =>
      rw [mergePatch_object,nullFree_object,object.injEq]
      constructor
      · intro hsame member hmember
        have hlookup := congrArg (List.lookup member.1) hsame
        rw [mergeWith_lookup hfields,hfields.lookup_of_mem hmember] at hlookup
        cases hvalue : member.2.isNull with
        | true =>
          simp only [hvalue,if_true] at hlookup
          cases hlookup
        | false =>
          simp only [hvalue,Bool.false_eq_true,if_false] at hlookup
          have hmember' := Option.some.inj hlookup
          exact ⟨rfl,(ih member hmember (hvalues member hmember)).mp hmember'⟩
      · intro hfree
        refine FieldsSorted.ext (mergeWith_sorted .nil) hfields fun name => ?_
        rw [mergeWith_lookup hfields]
        cases hlookup : fields.lookup name with
        | none => rfl
        | some value =>
          have hmem := mem_of_lookup hlookup
          obtain ⟨hnull,hbelow⟩ := hfree _ hmem
          have hvalue := (ih _ hmem (hvalues _ hmem)).mpr hbelow
          simp only [hnull,Bool.false_eq_true,if_false]
          exact congrArg some hvalue
  | _ => exact ⟨fun _ => rfl,fun _ => rfl⟩

theorem jsonMergePatch_iff {target patch : JsonValue N} (htarget : target.Sorted)
    (hpatch : patch.Sorted) :
    jsonMergePatch target patch=mergePatch (some target) patch ↔ plainPatch target patch=true := by
  induction patch using ofParts generalizing target with
  | object patch ih =>
    cases hpatch with
    | object hfields hvalues =>
      rw [jsonMergePatch_object,mergePatch_object,plainPatch_object,object.injEq]
      refine (mergeWith_congr_iff htarget.fields hfields).trans
        (forall_congr' fun member => forall_congr' fun hmember => ?_)
      have hmember' : patchedMember (target.fields.lookup member.1) member.2=
          mergePatch (target.fields.lookup member.1) member.2 ↔
            plainMember (target.fields.lookup member.1) member.2=true := by
        cases hlookup : target.fields.lookup member.1 with
        | none => exact eq_comm.trans (mergePatch_none_iff (hvalues member hmember))
        | some below => exact ih member hmember (htarget.of_lookup hlookup) (hvalues member hmember)
      cases hnull : member.2.isNull with
      | true =>
        rw [eq_null_of_isNull hnull,plainMember_null]
        exact ⟨fun _ => rfl,fun _ h => Bool.noConfusion h⟩
      | false => exact ⟨fun h => hmember'.mp (h rfl),fun h _ => hmember'.mpr h⟩
  | _ => exact ⟨fun _ => rfl,fun _ => rfl⟩

/-- What a patch was merged into has every member that the patch has. -/
theorem plainPatch_merged {patch : JsonValue N} (hpatch : patch.Sorted)
    {target : Option (JsonValue N)} (htarget : ∀ value∈target, value.Sorted) :
    plainPatch (mergePatch target patch) patch=true := by
  induction patch using ofParts generalizing target with
  | object patch ih =>
    cases hpatch with
    | object hfields hvalues =>
      rw [mergePatch_object,plainPatch_object]
      intro member hmember
      change plainMember ((mergeWith mergePatch (targetFields target) patch).lookup member.1)
        member.2=true
      rw [mergeWith_lookup hfields,hfields.lookup_of_mem hmember]
      cases hnull : member.2.isNull with
      | true =>
        rw [eq_null_of_isNull hnull]
        exact plainMember_null _
      | false =>
        simp only [hnull,Bool.false_eq_true,if_false]
        exact ih member hmember (hvalues member hmember) (lookup_sorted htarget member.1)
  | _ => rfl

/-- `json_merge_patch` against RFC 7396, for one target and one patch. -/
structure MergesAsDefined (target patch : JsonValue N) : Prop where
  merged : jsonMergePatch target patch=mergePatch (some target) patch
  noNulls : ∀ path≠[], patch.memberAt path=some .null →
    (jsonMergePatch target patch).memberAt path=none
  twice : jsonMergePatch (jsonMergePatch target patch) patch=jsonMergePatch target patch
  replaces : (∀ members, patch≠.object members) → jsonMergePatch target patch=patch

/-- `json_merge_patch` leaves what RFC 7396 says exactly when the patch has no nulls below the
members that the target does not have. -/
theorem json_merge_patch_iff {target patch : JsonValue N} (htarget : target.Sorted)
    (hpatch : patch.Sorted) : MergesAsDefined target patch ↔ plainPatch target patch=true := by
  refine ⟨fun h => (jsonMergePatch_iff htarget hpatch).mp h.merged,fun h => ?_⟩
  have hmerged := (jsonMergePatch_iff htarget hpatch).mpr h
  have hsorted : ∀ value∈some target, value.Sorted := fun value hvalue =>
    Option.some.inj hvalue▸htarget
  refine ⟨hmerged,fun path hpath hnull => ?_,?_,fun hother => ?_⟩
  · rw [hmerged]
    exact mergePatch_memberAt hpatch _ hpath hnull
  · rw [hmerged,(jsonMergePatch_iff (mergePatch_sorted hpatch hsorted) hpatch).mpr
      (plainPatch_merged hpatch hsorted)]
    exact mergePatch_idempotent hpatch hsorted
  · cases patch with
    | object members => exact absurd rfl (hother members)
    | _ => rfl

/-- `{"b":{"c":null}}` is merged into `{"b":{"c":1}}` as the definition says. -/
theorem json_merge_patch_iff_nested :
    MergesAsDefined (.object [("b",.object [("c",.number 1)])] : JsonValue ℕ)
      (.object [("b",.object [("c",.null)])]) :=
  (json_merge_patch_iff
    (.object (List.pairwise_singleton _ _) fun field hfield => by
      rw [List.mem_singleton.mp hfield]
      exact .object (List.pairwise_singleton _ _) fun field hfield => by
        rw [List.mem_singleton.mp hfield]
        exact .number 1)
    (.object (List.pairwise_singleton _ _) fun field hfield => by
      rw [List.mem_singleton.mp hfield]
      exact .object (List.pairwise_singleton _ _) fun field hfield => by
        rw [List.mem_singleton.mp hfield]
        exact .null)).mpr rfl

/-- Into `{"a":1}` the null of `{"b":{"c":null}}` is put, and the next time it is taken out. -/
theorem new_null_kept :
    ¬MergesAsDefined (.object [("a",.number 1)] : JsonValue ℕ)
      (.object [("b",.object [("c",.null)])]) := by
  intro h
  have hnull := h.noNulls ["b","c"] (List.cons_ne_nil _ _) rfl
  cases hnull

end RustSql.Sql
