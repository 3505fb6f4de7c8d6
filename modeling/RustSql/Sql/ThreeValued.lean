import RustSql.Sql.Comparisons

/-!
# What comparisons say

The meaning of each comparison in three-valued logic, and that the executor's loops over
lists and row values compute it. `BETWEEN` is the exception.
-/

namespace RustSql.Sql

variable (operators : Operators)

/-- A comparison: unknown with a null on either side. -/
def compareTruth (left : Value) (op : CompareOp) (right : Value) (collation : Option String) :
    Truth :=
  if left=.null ∨ right=.null then none
  else some (operatorTest op (compareWithCollation operators left right collation))

/-- Equality of two values. -/
def equalTruth (left right : Value) : Truth := compareTruth operators left .eq right none

/-- `IN`: equal to one of the values. -/
def inTruth (left : Value) (values : List Value) : Truth :=
  Truth.any (values.map (equalTruth operators left))

/-- Row values are equal when they are equal place by place. -/
def placesEqual (places : List (Value × Value)) : Truth :=
  Truth.all (places.map fun place => equalTruth operators place.1 place.2)

/-- The order of row values: by the first places, and by the others where these are equal. -/
def placesOrdered (op : CompareOp) : List (Value × Value) → Truth
  | [] => some (op==.gte || op==.lte)
  | (left,right) :: rest =>
    let strict : CompareOp := if op=.gt ∨ op=.gte then .gt else .lt
    (compareTruth operators left strict right none).or
      ((equalTruth operators left right).and (placesOrdered op rest))

/-- A comparison of row values of one length. -/
def tupleTruth (left : List Value) (op : CompareOp) (right : List Value) : Truth :=
  match op with
  | .eq => placesEqual operators (left.zip right)
  | .ne => (placesEqual operators (left.zip right)).not
  | .gt | .gte | .lt | .lte => placesOrdered operators op (left.zip right)

/-- A row value `IN` others; one of another length is none of them. -/
def tupleInTruth (left : List Value) (candidates : List (List Value)) : Truth :=
  Truth.any ((candidates.filter fun candidate => candidate.length==left.length).map
    fun candidate => placesEqual operators (left.zip candidate))

/-- `BETWEEN`: not below the one and not above the other. -/
def betweenTruth (value low high : Value) : Truth :=
  (compareTruth operators value .gte low none).and (compareTruth operators value .lte high none)

/-! ## The executor's comparisons -/

variable {operators}

/-- Without `NULL` a comparison is decided. -/
theorem compareTruth_of_ne {left right : Value} {op : CompareOp} {collation : Option String}
    (hleft : left≠.null) (hright : right≠.null) :
    compareTruth operators left op right collation=
      some (operatorTest op (compareWithCollation operators left right collation)) :=
  if_neg (not_or.mpr ⟨hleft,hright⟩)

/-- A comparison in a filter is the test of its truth value. -/
theorem compareWithOperator_eq (left : Value) (op : CompareOp) (right : Value)
    (collation : Option String) :
    compareWithOperator operators left op right collation=
      (compareTruth operators left op right collation).holds := by
  unfold compareWithOperator compareTruth
  split
  · rfl
  · exact (Truth.holds_some _).symm

/-- A comparison in an expression is its truth value. -/
theorem compareResultValue_eq (left : Value) (op : CompareOp) (right : Value)
    (collation : Option String) :
    compareResultValue operators left op right collation=
      truthValue (compareTruth operators left op right collation) := by
  unfold compareResultValue compareTruth
  split
  · rfl
  · rename_i hnull
    rw [compareWithOperator,if_neg hnull]
    rfl

/-- Without a collation values are compared. -/
theorem compareWithCollation_none (left right : Value) :
    compareWithCollation operators left right none=compareValues operators left right := by
  unfold compareWithCollation
  split <;> rfl

/-- Equality of values that are not null. -/
theorem equalTruth_of_ne {left right : Value} (hleft : left≠.null) (hright : right≠.null) :
    equalTruth operators left right=
      some (decide (compareValues operators left right=some .eq)) := by
  unfold equalTruth
  rw [compareTruth_of_ne hleft hright,compareWithCollation_none,operatorTest]
  rcases compareValues operators left right with _ | _ | _ | _ <;> rfl

/-- Nothing is known to equal `NULL`. -/
theorem equalTruth_null {left right : Value} (h : left=.null ∨ right=.null) :
    equalTruth operators left right=none :=
  if_pos h

/-! ## Membership -/

/-- The loop over the values: what was seen is unknown once a null was. -/
theorem inMembershipFrom_eq {left : Value} (hleft : left≠.null) (sawNull : Bool)
    (values : List Value) :
    inMembershipFrom operators left sawNull values=
      Truth.or (if sawNull then none else some false) (inTruth operators left values) := by
  induction values generalizing sawNull with
  | nil => cases sawNull <;> rfl
  | cons value values ih =>
    rw [inMembershipFrom,inTruth,List.map_cons,Truth.any_cons]
    by_cases hvalue : value=.null
    · rw [if_pos hvalue,ih,equalTruth_null (Or.inr hvalue)]
      change _=Truth.or _ (Truth.or none (inTruth operators left values))
      generalize inTruth operators left values=rest
      cases sawNull <;> rcases rest with _ | _ | _ <;> rfl
    · rw [if_neg hvalue,equalTruth_of_ne hleft hvalue]
      by_cases hequal : compareValues operators left value=some .eq
      · rw [if_pos hequal,decide_eq_true hequal]
        cases sawNull <;> rfl
      · rw [if_neg hequal,ih,decide_eq_false hequal]
        rfl

/-- Membership is Kleene's. -/
theorem inMembership_eq (left : Value) (values : List Value) :
    inMembership operators left values=inTruth operators left values := by
  unfold inMembership
  split
  · rename_i hempty
    rw [hempty]
    rfl
  · rename_i hvalues
    split
    · rename_i hnull
      cases values with
      | nil => exact absurd rfl hvalues
      | cons value values =>
        have hall : ∀ rest : List Value, Truth.any (rest.map (equalTruth operators left))=none ∨
            Truth.any (rest.map (equalTruth operators left))=some false := by
          intro rest
          induction rest with
          | nil => exact Or.inr rfl
          | cons value rest ih =>
            rw [List.map_cons,Truth.any_cons,equalTruth_null (Or.inl hnull)]
            rcases ih with ih | ih <;> rw [ih] <;> exact Or.inl rfl
        rw [inTruth,List.map_cons,Truth.any_cons,equalTruth_null (Or.inl hnull)]
        rcases hall values with h | h <;> rw [h] <;> rfl
    · rename_i hnull
      rw [inMembershipFrom_eq hnull]
      exact Truth.or_false_left _

/-- `IN` in a filter. -/
theorem evaluateInValues_eq (left : Value) (values : List Value) (negated : Bool) :
    evaluateInValues operators left values negated=
      ((inTruth operators left values).withNegation negated).holds := by
  unfold evaluateInValues
  rw [inMembership_eq]
  cases inTruth operators left values with
  | none => rw [Truth.withNegation_none]; rfl
  | some value => rw [Truth.withNegation_some]; exact (Truth.holds_some _).symm

/-- `IN` in an expression. -/
theorem inResultValue_eq (left : Value) (values : List Value) (negated : Bool) :
    inResultValue operators left values negated=
      truthValue ((inTruth operators left values).withNegation negated) := by
  unfold inResultValue
  rw [inMembership_eq]
  cases inTruth operators left values with
  | none => rw [Truth.withNegation_none]; rfl
  | some value => rw [Truth.withNegation_some]; rfl

/-! ## Row values -/

/-- Equality of tuples, place by place. -/
theorem tupleEqualityFrom_eq (op : CompareOp) (sawNull : Bool) (places : List (Value × Value))
    (hop : op=.eq ∨ op=.ne) :
    tupleEqualityFrom operators op sawNull places=truthValue (Truth.withNegation (op==.ne)
      (Truth.and (if sawNull then none else some true) (placesEqual operators places))) := by
  induction places generalizing sawNull with
  | nil => rcases hop with rfl | rfl <;> cases sawNull <;> rfl
  | cons place places ih =>
    obtain ⟨left,right⟩ := place
    rw [tupleEqualityFrom,placesEqual,List.map_cons,Truth.all_cons]
    dsimp only
    by_cases hnull : left=.null ∨ right=.null
    · rw [if_pos hnull,ih,equalTruth_null hnull]
      change _=truthValue (Truth.withNegation _ (Truth.and _ (Truth.and none
        (placesEqual operators places))))
      generalize placesEqual operators places=rest
      rcases hop with rfl | rfl <;> cases sawNull <;> rcases rest with _ | _ | _ <;> rfl
    · rw [if_neg hnull,equalTruth_of_ne (fun h => hnull (Or.inl h)) (fun h => hnull (Or.inr h))]
      by_cases hequal : compareValues operators left right=some .eq
      · rw [if_pos hequal,ih,decide_eq_true hequal]
        rfl
      · rw [if_neg hequal,decide_eq_false hequal]
        rcases hop with rfl | rfl <;> cases sawNull <;> rfl

/-- Their order, place by place. -/
theorem tupleOrderFrom_eq {op : CompareOp} (places : List (Value × Value))
    (heq : op≠.eq) (hne : op≠.ne) :
    tupleOrderFrom operators op places=truthValue (placesOrdered operators op places) := by
  induction places with
  | nil => rfl
  | cons place places ih =>
    obtain ⟨left,right⟩ := place
    rw [tupleOrderFrom,placesOrdered]
    by_cases hnull : left=.null ∨ right=.null
    · rw [if_pos hnull,equalTruth_null hnull,compareTruth,if_pos hnull]
      generalize placesOrdered operators op places=rest
      rcases rest with _ | _ | _ <;> rfl
    · rw [if_neg hnull,equalTruth_of_ne (fun h => hnull (Or.inl h)) (fun h => hnull (Or.inr h)),
        compareTruth_of_ne (fun h => hnull (Or.inl h)) (fun h => hnull (Or.inr h)),
        compareWithCollation_none]
      by_cases hequal : compareValues operators left right=some .eq
      · rw [if_pos hequal,ih,decide_eq_true hequal,hequal]
        cases op <;> rfl
      · rw [if_neg hequal,decide_eq_false hequal]
        -- where the places differ, the strict comparison decides
        generalize compareValues operators left right=ordering at hequal
        cases op with
        | eq => exact absurd rfl heq
        | ne => exact absurd rfl hne
        | _ => rcases ordering with _ | _ | _ | _ <;> first | rfl | exact absurd rfl hequal

/-- A comparison of row values in an expression. -/
theorem tupleCompareResultValue_eq (left : List Value) (op : CompareOp) (right : List Value) :
    tupleCompareResultValue operators left op right=
      if left.length≠right.length then
        .error (.plan "row-value comparisons require the same arity")
      else .ok (truthValue (tupleTruth operators left op right)) := by
  unfold tupleCompareResultValue tupleTruth
  split
  · rfl
  · cases op with
    | eq =>
      rw [tupleEqualityFrom_eq .eq false _ (Or.inl rfl)]
      rfl
    | ne =>
      rw [tupleEqualityFrom_eq .ne false _ (Or.inr rfl)]
      rfl
    | gt => exact congrArg Except.ok (tupleOrderFrom_eq _ nofun nofun)
    | gte => exact congrArg Except.ok (tupleOrderFrom_eq _ nofun nofun)
    | lt => exact congrArg Except.ok (tupleOrderFrom_eq _ nofun nofun)
    | lte => exact congrArg Except.ok (tupleOrderFrom_eq _ nofun nofun)

/-- The places of a candidate: it can match unless two of them differ. -/
theorem candidateMatch_eq (places : List (Value × Value)) (hasNull : Bool) :
    (match candidateMatch operators places hasNull with
      | (true,false) => some true
      | (true,true) => none
      | (false,_) => some false)=
      Truth.and (if hasNull then none else some true) (placesEqual operators places) := by
  induction places generalizing hasNull with
  | nil => cases hasNull <;> rfl
  | cons place places ih =>
    obtain ⟨left,right⟩ := place
    rw [candidateMatch,placesEqual,List.map_cons,Truth.all_cons]
    dsimp only
    by_cases hnull : left=.null ∨ right=.null
    · rw [if_pos hnull,ih,equalTruth_null hnull]
      change _=Truth.and _ (Truth.and none (placesEqual operators places))
      generalize placesEqual operators places=rest
      cases hasNull <;> rcases rest with _ | _ | _ <;> rfl
    · rw [if_neg hnull,equalTruth_of_ne (fun h => hnull (Or.inl h)) (fun h => hnull (Or.inr h))]
      by_cases hequal : compareValues operators left right=some .eq
      · rw [if_pos hequal,ih,decide_eq_true hequal]
        rfl
      · rw [if_neg hequal,decide_eq_false hequal]
        cases hasNull <;> rfl

/-- `IN`, candidate by candidate. -/
theorem tupleInMembershipFrom_eq (left : List Value) (sawNull : Bool)
    (candidates : List (List Value)) :
    tupleInMembershipFrom operators left sawNull candidates=
      Truth.or (if sawNull then none else some false) (tupleInTruth operators left candidates) := by
  induction candidates generalizing sawNull with
  | nil => cases sawNull <;> rfl
  | cons candidate candidates ih =>
    rw [tupleInMembershipFrom,tupleInTruth]
    by_cases hlength : candidate.length=left.length
    · rw [if_neg (not_not_intro hlength),List.filter_cons_of_pos (by simpa using hlength),
        List.map_cons,Truth.any_cons]
      have hplaces : _=Truth.and (if false then none else some true)
          (placesEqual operators (left.zip candidate)) :=
        candidateMatch_eq (left.zip candidate) false
      rw [if_neg Bool.false_ne_true,Truth.and_true_left] at hplaces
      rw [← hplaces]
      change _=Truth.or _ (Truth.or _ (tupleInTruth operators left candidates))
      rcases candidateMatch operators (left.zip candidate) false with ⟨canMatch,hasNull⟩
      dsimp only
      rw [ih]
      generalize tupleInTruth operators left candidates=rest
      cases canMatch <;> cases hasNull <;> cases sawNull <;> rcases rest with _ | _ | _ <;> rfl
    · rw [if_pos hlength,List.filter_cons_of_neg (by simpa using hlength),ih]
      rfl

/-- A row value `IN` others, in an expression. -/
theorem tupleInResultValue_eq (left : List Value) (candidates : List (List Value))
    (negated : Bool) :
    tupleInResultValue operators left candidates negated=
      truthValue ((tupleInTruth operators left candidates).withNegation negated) := by
  have hmembership : tupleInMembership operators left candidates=
      tupleInTruth operators left candidates := by
    unfold tupleInMembership
    split
    · rename_i hempty
      rw [hempty]
      rfl
    · rw [tupleInMembershipFrom_eq]
      exact Truth.or_false_left _
  unfold tupleInResultValue
  rw [hmembership]
  cases tupleInTruth operators left candidates with
  | none => rw [Truth.withNegation_none]; rfl
  | some value => rw [Truth.withNegation_some]; rfl

/-- The value of a truth holds when it does. -/
@[simp] theorem valueHolds_truthValue (truth : Truth) :
    valueHolds (truthValue truth)=truth.holds := by
  rcases truth with _ | _ | _ <;> rfl

/-! ## `BETWEEN` -/

/-- Values that are not `NULL` compare. -/
theorem compareValues_isSome {left right : Value} (hleft : left≠.null) (hright : right≠.null) :
    ∃ ordering, compareValues operators left right=some ordering := by
  cases left <;> cases right <;> first | exact ⟨_,rfl⟩ | exact absurd rfl hleft | exact absurd rfl hright

/-- `NULL` on the left does not. -/
theorem compareValues_null_left {right : Value} (hright : right≠.null) :
    compareValues operators .null right=none := by
  cases right <;> first | rfl | exact absurd rfl hright

/-- Nor does it on the right. -/
theorem compareValues_null_right {left : Value} (hleft : left≠.null) :
    compareValues operators left .null=none := by
  cases left <;> first | rfl | exact absurd rfl hleft

/-- No null misleads a `BETWEEN`: not all three are null, and no bound is where the other
one decides. -/
def BetweenExact (operators : Operators) (value low high : Value) : Prop :=
  ¬(value=.null ∧ low=.null ∧ high=.null) ∧
    (betweenTruth operators value low high=some false → low≠.null ∧ high≠.null)

/-- No null misleads the test of a `BETWEEN`. -/
def BetweenTested (operators : Operators) (value low high : Value) (negated : Bool) : Prop :=
  (value=.null ∧ low=.null ∧ high=.null → negated=true) ∧
    (betweenTruth operators value low high=some false → low=.null ∨ high=.null → negated=false)

/-- `NULL` between `NULL` and `NULL` is true. -/
theorem betweenValue_three_nulls (negated : Bool) :
    betweenValue operators .null .null .null negated=.boolean (!negated) := by
  cases negated <;> rfl

/-- By the three-valued logic that is unknown. -/
theorem betweenTruth_null_left (low high : Value) :
    betweenTruth operators .null low high=none := by
  unfold betweenTruth compareTruth
  rw [if_pos (Or.inl rfl),if_pos (Or.inl rfl)]
  rfl

/-- The value of a `BETWEEN` with no misleading null. -/
theorem betweenValue_of_exact {value low high : Value} (negated : Bool)
    (h : BetweenExact operators value low high) :
    betweenValue operators value low high negated=
      truthValue ((betweenTruth operators value low high).withNegation negated) := by
  obtain ⟨hnulls,hdecided⟩ := h
  by_cases hvalue : value=.null
  · subst hvalue
    rw [betweenTruth_null_left,Truth.withNegation_none]
    by_cases hlow : low=.null
    · have hhigh : high≠.null := fun hhigh => hnulls ⟨rfl,hlow,hhigh⟩
      unfold betweenValue
      rw [compareValues_null_left hhigh]
      cases compareValues operators .null low <;> rfl
    · unfold betweenValue
      rw [compareValues_null_left hlow]
      rfl
  · by_cases hnull : low=.null ∨ high=.null
    · have hunknown : betweenTruth operators value low high=none := by
        have hfalse : betweenTruth operators value low high≠some false :=
          fun hfalse => hnull.elim (hdecided hfalse).1 (hdecided hfalse).2
        unfold betweenTruth at hfalse ⊢
        rcases hnull with hnull | hnull
        · have hlower : compareTruth operators value .gte low none=none := if_pos (Or.inr hnull)
          rw [hlower] at hfalse ⊢
          generalize compareTruth operators value .lte high none=upper at hfalse ⊢
          rcases upper with _ | _ | _
          · rfl
          · exact absurd rfl hfalse
          · rfl
        · have hupper : compareTruth operators value .lte high none=none := if_pos (Or.inr hnull)
          rw [hupper] at hfalse ⊢
          generalize compareTruth operators value .gte low none=lower at hfalse ⊢
          rcases lower with _ | _ | _
          · rfl
          · exact absurd rfl hfalse
          · rfl
      rw [hunknown,Truth.withNegation_none]
      unfold betweenValue
      rcases hnull with rfl | rfl
      · rw [compareValues_null_right hvalue]
        rfl
      · rw [compareValues_null_right hvalue]
        cases compareValues operators value low <;> rfl
    · have hlow : low≠.null := fun h => hnull (Or.inl h)
      have hhigh : high≠.null := fun h => hnull (Or.inr h)
      obtain ⟨lower,hlower⟩ : ∃ ordering, compareValues operators value low=some ordering :=
        compareValues_isSome hvalue hlow
      obtain ⟨upper,hupper⟩ : ∃ ordering, compareValues operators value high=some ordering :=
        compareValues_isSome hvalue hhigh
      unfold betweenValue betweenTruth
      rw [compareTruth_of_ne hvalue hlow,compareTruth_of_ne hvalue hhigh,
        compareWithCollation_none,compareWithCollation_none,hlower,hupper]
      dsimp only
      generalize operatorTest .gte (some lower)=lower
      generalize operatorTest .lte (some upper)=upper
      cases lower <;> cases upper <;> cases negated <;> rfl

/-- A `NULL` bound gives `NULL`. -/
theorem betweenValue_null_bound {value low high : Value} (negated : Bool)
    (hvalue : value≠.null) (hnull : low=.null ∨ high=.null) :
    betweenValue operators value low high negated=.null := by
  unfold betweenValue
  rcases hnull with rfl | rfl
  · rw [compareValues_null_right hvalue]
  · rw [compareValues_null_right hvalue]
    cases compareValues operators value low <;> rfl

/-- The value of a `BETWEEN` is its truth value exactly where no null misleads it. -/
theorem betweenValue_eq_iff (value low high : Value) (negated : Bool) :
    betweenValue operators value low high negated=
        truthValue ((betweenTruth operators value low high).withNegation negated) ↔
      BetweenExact operators value low high := by
  refine ⟨fun h => ⟨?_,fun hfalse => ?_⟩,betweenValue_of_exact negated⟩
  · rintro ⟨rfl,rfl,rfl⟩
    rw [betweenTruth_null_left,Truth.withNegation_none,betweenValue_three_nulls] at h
    cases h
  · refine not_or.mp fun hnull => ?_
    have hvalue : value≠.null := by
      rintro rfl
      rw [betweenTruth_null_left] at hfalse
      cases hfalse
    rw [hfalse,Truth.withNegation_some,betweenValue_null_bound negated hvalue hnull] at h
    cases h
/-- The test of a `BETWEEN` is the test of its truth value exactly where no null misleads
it. -/
theorem valueHolds_betweenValue_iff (value low high : Value) (negated : Bool) :
    valueHolds (betweenValue operators value low high negated)=
        ((betweenTruth operators value low high).withNegation negated).holds ↔
      BetweenTested operators value low high negated := by
  unfold BetweenTested
  by_cases hnulls : value=.null ∧ low=.null ∧ high=.null
  · obtain ⟨rfl,rfl,rfl⟩ := hnulls
    rw [betweenTruth_null_left,Truth.withNegation_none,betweenValue_three_nulls]
    cases negated <;> simp [valueHolds]
  · by_cases hdecided : betweenTruth operators value low high=some false →
        low≠.null ∧ high≠.null
    · rw [betweenValue_of_exact negated ⟨hnulls,hdecided⟩,valueHolds_truthValue]
      refine iff_of_true rfl ⟨fun h => absurd h hnulls,fun hfalse hnull => ?_⟩
      exact absurd hnull (not_or.mpr (hdecided hfalse))
    · obtain ⟨hfalse,hnull⟩ := Classical.not_imp.mp hdecided
      have hnull : low=.null ∨ high=.null := by
        by_contra h
        exact hnull (not_or.mp h)
      have hvalue : value≠.null := by
        rintro rfl
        rw [betweenTruth_null_left] at hfalse
        cases hfalse
      rw [betweenValue_null_bound negated hvalue hnull,hfalse,Truth.withNegation_some]
      cases negated <;> simp [valueHolds,hnull,hnulls]

end RustSql.Sql
