import RustSql.Common.IntegerReals
import RustSql.Sql.Projection
import RustSql.Sql.WhereTruth

/-!
# Which values count as equal

Duplicates are found by a key that goes through floats, groups by the order of values, `IS` and
`=` by the comparison of values. The three agree on two values unless these are different
numbers with the same float, or the negative zero beside another zero.
-/

namespace RustSql.Sql

/-! ## Digits -/

/-- Digits in base 16 are told apart. -/
theorem hexDigit_inj : ∀ m < 16, ∀ n < 16,
    (Nat.digitChar m).toUpper=(Nat.digitChar n).toUpper → m=n := by
  decide

/-- As many digits as asked for. -/
theorem hexDigitsOfWidth_length (width value : ℕ) :
    (hexDigitsOfWidth width value).length=width := by
  induction width generalizing value with
  | zero => rfl
  | succ width ih => rw [hexDigitsOfWidth,List.length_append,ih,List.length_singleton]

/-- Numbers that fit the width are told apart by their digits. -/
theorem hexDigitsOfWidth_inj {width m n : ℕ} (hm : m < 16^width) (hn : n < 16^width)
    (h : hexDigitsOfWidth width m=hexDigitsOfWidth width n) : m=n := by
  induction width generalizing m n with
  | zero => omega
  | succ width ih =>
    rw [pow_succ] at hm hn
    rw [hexDigitsOfWidth,hexDigitsOfWidth] at h
    have hsplit := List.append_inj' h rfl
    have hlast := hexDigit_inj (m%16) (Nat.mod_lt m (by omega)) (n%16) (Nat.mod_lt n (by omega))
      (List.singleton_inj.mp hsplit.2)
    have hfirst : m/16=n/16 :=
      ih (Nat.div_lt_of_lt_mul (by omega)) (Nat.div_lt_of_lt_mul (by omega)) hsplit.1
    omega

/-- The text of an integer without a sign is its digits. -/
theorem integer_text {value : Int64} (h : 0 ≤ value.toInt) :
    (toString value.toInt).toList=Nat.toDigits 10 value.toInt.toNat := by
  rw [Int.toString_eq_repr,Int.repr_eq_if,if_pos h,Nat.toList_repr]

/-- A number is written in digits. -/
theorem digits_isDigit {n : ℕ} : ∀ char∈Nat.toDigits 10 n, char.isDigit :=
  fun _ => Nat.isDigit_of_mem_toDigits (by omega) (by omega)

variable {x y bits : UInt64} {value a b : Value}

/-- Different floats have different digits. -/
theorem realHex_inj : realHex x=realHex y ↔ x=y := by
  constructor
  · intro h
    have hx := x.toNat_lt
    have hy := y.toNat_lt
    exact UInt64.toNat.inj (hexDigitsOfWidth_inj (by omega) (by omega)
      (String.ofList_injective h))
  · rintro rfl
    rfl

/-- Different bytes have different digits. -/
theorem bytesHex_inj {xs ys : Bytes} : bytesHex xs=bytesHex ys ↔ xs=ys := by
  constructor
  · intro h
    have hdigits := String.ofList_injective h
    clear h
    induction xs generalizing ys with
    | nil =>
      cases ys with
      | nil => rfl
      | cons y ys =>
        have hlength := congrArg List.length hdigits
        simp only [List.flatMap_nil,List.flatMap_cons,List.length_append,List.length_nil,
          hexDigitsOfWidth_length] at hlength
        omega
    | cons x xs ih =>
      cases ys with
      | nil =>
        have hlength := congrArg List.length hdigits
        simp only [List.flatMap_nil,List.flatMap_cons,List.length_append,List.length_nil,
          hexDigitsOfWidth_length] at hlength
        omega
      | cons y ys =>
        rw [List.flatMap_cons,List.flatMap_cons] at hdigits
        have hsplit := List.append_inj hdigits
          (by rw [hexDigitsOfWidth_length,hexDigitsOfWidth_length])
        have hx := x.toNat_lt
        have hy := y.toNat_lt
        have hfirst : x=y :=
          UInt8.toNat.inj (hexDigitsOfWidth_inj (by omega) (by omega) hsplit.1)
        rw [hfirst,ih hsplit.2]
  · rintro rfl
    rfl

/-! ## Numbers and their floats -/

/-- A connection that casts integers to the nearest float. -/
def Operators.casting (operators : Operators) : Operators :=
  {operators with toReal := i64ToReal}

/-- The float of a number. -/
def asReal : Value → Option UInt64
  | .boolean value => some (boolReal value)
  | .integer value => some (i64ToReal value)
  | .real bits => some bits
  | _ => none

/-- `-0.0`. -/
def negativeZero : UInt64 := 0x8000000000000000

/-- The float of a key: both zeros have one. -/
def keyReal (bits : UInt64) : UInt64 := if bits*2=0 then 0 else bits

/-- Both zeros. -/
theorem mul_two_eq_zero : bits*2=0 ↔ bits=0 ∨ bits=negativeZero := by
  constructor
  · intro h
    have hbits := bits.toNat_lt
    have hdouble : bits.toNat*2%2^64=0 := by
      have hnat := congrArg UInt64.toNat h
      rwa [UInt64.toNat_mul] at hnat
    have hcases : bits.toNat=0 ∨ bits.toNat=2^63 := by omega
    exact hcases.imp (fun hzero => UInt64.toNat.inj hzero) fun hzero => UInt64.toNat.inj hzero
  · rintro (rfl | rfl) <;> rfl

/-- Floats with one key are the same, or the two zeros. -/
theorem keyReal_eq (h : keyReal x=keyReal y) :
    x=y ∨ (x=negativeZero ∧ y=0) ∨ x=0 ∧ y=negativeZero := by
  unfold keyReal at h
  by_cases hx : x*2=0
  · rw [if_pos hx] at h
    have hy : y*2=0 := by
      by_cases hy : y*2=0
      · exact hy
      · rw [if_neg hy] at h
        rw [←h]
        rfl
    rcases mul_two_eq_zero.mp hx with rfl | rfl <;> rcases mul_two_eq_zero.mp hy with rfl | rfl
    · exact Or.inl rfl
    · exact Or.inr (Or.inr ⟨rfl,rfl⟩)
    · exact Or.inr (Or.inl ⟨rfl,rfl⟩)
    · exact Or.inl rfl
  · rw [if_neg hx] at h
    by_cases hy : y*2=0
    · rw [if_pos hy] at h
      rw [h] at hx
      exact (hx rfl).elim
    · rw [if_neg hy] at h
      exact Or.inl h

/-- No integer has the negative zero as its float. -/
theorem i64ToReal_ne_negativeZero (value : Int64) : i64ToReal value≠negativeZero := by
  intro h
  have hbits := i64ToReal_toNat value
  have hliteral : negativeZero.toNat=2^63 := rfl
  have hlt := natToReal_lt (natAbs_le value)
  rw [h,hliteral] at hbits
  split at hbits
  · have hzero := natToReal_eq_zero.mp (show natToReal value.toInt.natAbs=0 by omega)
    omega
  · omega

/-- Only a real is the negative zero. -/
theorem eq_real_of_negativeZero (h : asReal value=some negativeZero) :
    value=.real negativeZero := by
  cases value with
  | boolean value => cases value <;> exact absurd (Option.some.inj h) (by decide)
  | integer value => exact absurd (Option.some.inj h) (i64ToReal_ne_negativeZero value)
  | real bits => rw [Option.some.inj h]
  | _ => cases h

variable (operators : Operators)

/-- The key of a number. -/
theorem valueDedupKey_number (h : asReal value=some bits) :
    valueDedupKey operators.casting value=(1,realHex (keyReal bits)) := by
  have hkey : ∀ other, other≠negativeZero → keyReal other=other := by
    intro other hother
    unfold keyReal
    split
    · next hzero => exact ((mul_two_eq_zero.mp hzero).resolve_right hother).symm
    · rfl
  cases value with
  | boolean value =>
    obtain rfl := Option.some.inj h
    rw [hkey _ (by cases value <;> decide)]
    rfl
  | integer value =>
    obtain rfl := Option.some.inj h
    rw [hkey _ (i64ToReal_ne_negativeZero value)]
    rfl
  | real other =>
    obtain rfl := Option.some.inj h
    rfl
  | _ => cases h

/-- The key of what is no number. -/
theorem valueDedupKey_other (h : asReal value=none) :
    (valueDedupKey operators value).1≠1 := by
  cases value with
  | null => exact (by decide : (0 : ℕ)≠1)
  | blob bytes => exact (by decide : (4 : ℕ)≠1)
  | text value => exact (by decide : (5 : ℕ)≠1)
  | _ => cases h

/-- Values that are no numbers have one key only when they are the same. -/
theorem valueDedupKey_other_inj (ha : asReal a=none) (hb : asReal b=none) :
    valueDedupKey operators a=valueDedupKey operators b ↔ a=b := by
  cases a <;> cases b <;> simp_all [asReal,valueDedupKey,bytesHex_inj]

/-- Two values have one key when they are the same, or numbers whose floats are one but for
the sign of a zero. -/
theorem valueDedupKey_eq_iff :
    valueDedupKey operators.casting a=valueDedupKey operators.casting b ↔
      a=b ∨ ∃ x y, asReal a=some x ∧ asReal b=some y ∧ keyReal x=keyReal y := by
  constructor
  · intro h
    cases hx : asReal a with
    | none =>
      have hy : asReal b=none := by
        cases hy : asReal b with
        | none => rfl
        | some y =>
          rw [valueDedupKey_number operators hy] at h
          have hfirst := (Prod.ext_iff.mp h).1
          exact absurd hfirst (valueDedupKey_other _ hx)
      exact Or.inl ((valueDedupKey_other_inj _ hx hy).mp h)
    | some x =>
      rw [valueDedupKey_number operators hx] at h
      cases hy : asReal b with
      | none =>
        have hfirst := (Prod.ext_iff.mp h).1
        exact absurd hfirst.symm (valueDedupKey_other _ hy)
      | some y =>
        rw [valueDedupKey_number operators hy] at h
        obtain ⟨-,hdigits⟩ := Prod.mk.inj h
        exact Or.inr ⟨x,y,rfl,rfl,realHex_inj.mp hdigits⟩
  · rintro (rfl | ⟨x,y,hx,hy,hkey⟩)
    · rfl
    · rw [valueDedupKey_number operators hx,valueDedupKey_number operators hy,hkey]

/-! ## Equality -/

/-- What `=` and `IS` take for the same. -/
def SameValue (a b : Value) : Prop :=
  (a=.null ∧ b=.null) ∨ compareValues operators a b=some .eq

/-- The total order tells all floats apart. -/
theorem totalCmp_eq_iff : totalCmp x y=.eq ↔ x=y := by
  rw [totalCmp,compare_eq_iff_eq,realOrderKey_inj]

/-- A value is the same as itself. -/
theorem sameValue_refl (a : Value) : SameValue operators a a := by
  cases a with
  | null => exact Or.inl ⟨rfl,rfl⟩
  | real bits => exact Or.inr (congrArg some (totalCmp_eq_iff.mpr rfl))
  | blob bytes => exact Or.inr (congrArg some ((bytes_orderedBy.eq bytes bytes).mpr rfl))
  | _ => exact Or.inr (congrArg some (compare_eq_iff_eq.mpr rfl))

/-- A boolean and an integer that compare as equal have one float. -/
theorem boolReal_of_toInt {flag : Bool} {value : Int64} (h : (flag.toNat : ℤ)=value.toInt) :
    i64ToReal value=boolReal flag := by
  cases flag with
  | false => exact i64ToReal_eq_zero.mpr h.symm
  | true => exact i64ToReal_eq_one.mpr h.symm

/-- Values that compare as equal are the same, or numbers with one float. -/
theorem SameValue.cases {a b : Value} (h : SameValue operators.casting a b) :
    a=b ∨ ∃ x, asReal a=some x ∧ asReal b=some x := by
  rcases h with ⟨rfl,rfl⟩ | h
  · exact Or.inl rfl
  cases a with
  | null =>
    cases b with
    | null => exact Or.inl rfl
    | _ => cases h
  | boolean a =>
    cases b with
    | boolean b =>
      have hsame := compare_eq_iff_eq.mp (Option.some.inj h)
      exact Or.inl (congrArg Value.boolean ((bool_place a b).2.mp hsame))
    | integer b =>
      have hsame := compare_eq_iff_eq.mp (Option.some.inj h)
      exact Or.inr ⟨_,rfl,congrArg some (boolReal_of_toInt hsame)⟩
    | real b => exact Or.inr ⟨_,rfl,congrArg some (totalCmp_eq_iff.mp (Option.some.inj h)).symm⟩
    | _ => cases h
  | integer a =>
    cases b with
    | boolean b =>
      have hsame := compare_eq_iff_eq.mp (Option.some.inj h)
      exact Or.inr ⟨_,congrArg some (boolReal_of_toInt hsame.symm),rfl⟩
    | integer b =>
      have hsame := compare_eq_iff_eq.mp (Option.some.inj h)
      exact Or.inl (congrArg Value.integer (Int64.toInt.inj hsame))
    | real b => exact Or.inr ⟨_,rfl,congrArg some (totalCmp_eq_iff.mp (Option.some.inj h)).symm⟩
    | _ => cases h
  | real a =>
    cases b with
    | boolean b => exact Or.inr ⟨_,congrArg some (totalCmp_eq_iff.mp (Option.some.inj h)),rfl⟩
    | integer b => exact Or.inr ⟨_,congrArg some (totalCmp_eq_iff.mp (Option.some.inj h)),rfl⟩
    | real b => exact Or.inl (congrArg Value.real (totalCmp_eq_iff.mp (Option.some.inj h)))
    | _ => cases h
  | blob a =>
    cases b with
    | blob b =>
      have hsame := (bytes_orderedBy.eq a b).mp (Option.some.inj h)
      refine Or.inl (congrArg Value.blob ?_)
      exact List.map_injective_iff.mpr (fun _ _ hxy => UInt8.toNat.inj hxy) hsame
    | _ => cases h
  | text a =>
    cases b with
    | text b => exact Or.inl (congrArg Value.text (compare_eq_iff_eq.mp (Option.some.inj h)))
    | _ => cases h

/-- Values of one group are the same value. -/
theorem cmp_eq_iff : Value.cmp a b=.eq ↔ a=b := by
  have hbytes : ∀ xs ys : Bytes, xs.map UInt8.toNat=ys.map UInt8.toNat ↔ xs=ys := fun xs ys =>
    (List.map_injective_iff.mpr fun _ _ hxy => UInt8.toNat.inj hxy).eq_iff
  cases a <;> cases b <;>
    simp [Value.cmp,Value.rank,realOrderKey_inj,bytes_orderedBy.eq,hbytes,Int64.toInt_inj]

/-! ## One notion -/

/-- Duplicates, groups, `IS` and `=` take two values for the same alike. -/
structure OneEquality (a b : Value) : Prop where
  duplicates : valueDedupKey operators a=valueDedupKey operators b ↔ SameValue operators a b
  groups : Value.cmp a b=.eq ↔ SameValue operators a b
  is : isWithNegation operators a b false=true ↔ SameValue operators a b
  equals : compareWithOperator operators a .eq b none=true ↔
    a≠.null ∧ b≠.null ∧ SameValue operators a b

/-- One of two zeros is the negative zero and the other is not. -/
def ZerosApart (a b : Value) : Prop :=
  (a=.real negativeZero ∧ asReal b=some 0) ∨ (b=.real negativeZero ∧ asReal a=some 0)

/-- `IS` asks for the same value. -/
theorem isWithNegation_iff :
    isWithNegation operators a b false=true ↔ SameValue operators a b := by
  unfold isWithNegation SameValue
  cases a <;> cases b <;> simp [compareValues]

/-- `=` asks for the same value that is no `NULL`. -/
theorem compareWithOperator_eq_iff :
    compareWithOperator operators a .eq b none=true ↔
      a≠.null ∧ b≠.null ∧ SameValue operators a b := by
  unfold compareWithOperator SameValue
  cases a <;> cases b <;> simp [compareWithCollation,operatorTest]

/-- Two values are taken for the same everywhere or nowhere exactly when they are not two
different numbers with one float, nor the negative zero and another zero. -/
theorem one_equality_iff (a b : Value) :
    OneEquality operators.casting a b ↔
      (∀ bits, asReal a=some bits → asReal b=some bits → a=b) ∧ ¬ZerosApart a b := by
  constructor
  · intro h
    have hsame : SameValue operators.casting a b → a=b :=
      fun hsame => cmp_eq_iff.mp (h.groups.mpr hsame)
    constructor
    · intro bits ha hb
      refine hsame (h.duplicates.mp ?_)
      rw [valueDedupKey_number operators ha,valueDedupKey_number operators hb]
    · rintro (⟨rfl,hb⟩ | ⟨rfl,ha⟩)
      · have hkey := (@valueDedupKey_eq_iff (.real negativeZero) b operators).mpr
          (Or.inr ⟨negativeZero,0,rfl,hb,by decide⟩)
        obtain rfl := hsame (h.duplicates.mp hkey)
        exact absurd (Option.some.inj hb) (by decide)
      · have hkey := (@valueDedupKey_eq_iff a (.real negativeZero) operators).mpr
          (Or.inr ⟨0,negativeZero,ha,rfl,by decide⟩)
        obtain rfl := hsame (h.duplicates.mp hkey)
        exact absurd (Option.some.inj ha) (by decide)
  · rintro ⟨hfloat,hzeros⟩
    have hsame : SameValue operators.casting a b ↔ a=b := by
      constructor
      · intro hsame
        rcases hsame.cases with rfl | ⟨bits,ha,hb⟩
        · rfl
        · exact hfloat bits ha hb
      · rintro rfl
        exact sameValue_refl _ _
    refine ⟨?_,?_,isWithNegation_iff _,compareWithOperator_eq_iff _⟩
    · rw [hsame,valueDedupKey_eq_iff]
      refine or_iff_left_of_imp ?_
      rintro ⟨x,y,hx,hy,hkey⟩
      rcases keyReal_eq hkey with rfl | ⟨rfl,rfl⟩ | ⟨rfl,rfl⟩
      · exact hfloat x hx hy
      · exact (hzeros (Or.inl ⟨eq_real_of_negativeZero hx,hy⟩)).elim
      · exact (hzeros (Or.inr ⟨eq_real_of_negativeZero hy,hx⟩)).elim
    · rw [hsame,cmp_eq_iff]

/-- Two neighbours beyond `2^53` are one value to `DISTINCT` and two to `=` and `GROUP BY`. -/
theorem neighbours_merged :
    valueDedupKey plainOperators.casting (.integer 9007199254740992)=
        valueDedupKey plainOperators.casting (.integer 9007199254740993) ∧
      compareValues plainOperators.casting (.integer 9007199254740992)
        (.integer 9007199254740993)=some .lt ∧
      ¬OneEquality plainOperators.casting (.integer 9007199254740992)
        (.integer 9007199254740993) := by
  have hreal : i64ToReal 9007199254740992=i64ToReal 9007199254740993 := by decide +kernel
  have hkey : valueDedupKey plainOperators.casting (.integer 9007199254740992)=
      valueDedupKey plainOperators.casting (.integer 9007199254740993) := by
    rw [valueDedupKey,valueDedupKey]
    exact congrArg (fun bits => (1,realHex bits)) hreal
  have hless : compareValues plainOperators.casting (.integer 9007199254740992)
      (.integer 9007199254740993)=some .lt := by decide
  refine ⟨hkey,hless,fun h => ?_⟩
  rcases h.duplicates.mp hkey with ⟨hnull,-⟩ | hequal
  · cases hnull
  · rw [hless] at hequal
    cases hequal

end RustSql.Sql
