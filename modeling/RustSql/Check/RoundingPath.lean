import Mathlib.Data.Rat.Floor
import Mathlib.Tactic
import RustSql.Check.Returns

/-!
# The exact path of rounding

The integer `sqlite_round_f64` rounds to without going through floats, against the rounding of
the float's exact value times a power of ten, half up. A shift to the left can lose high bits.
-/

namespace RustSql.Check

open Outcome

/-! ## The integer -/

/-- The digits `sqlite_round_f64` rounds to. -/
def clampedPrecision (precision : Int32) : ℕ := (max 0 (min precision.toInt 30)).toNat

/-- The integer `sqlite_round_f64` rounds an absolute value to, none where it falls back to
floats. -/
def exactInteger (value : UInt64) (precision : ℕ) : Option ℕ := do
  let numerator ← checkedU128 (mantissa value*10^precision)
  if 0 ≤ binaryShift value then checkedShl numerator (binaryShift value).toNat
  else
    let denominatorShift := (-binaryShift value).toNat
    if 127 ≤ denominatorShift then some 0
    else do
      let doubled ← checkedU128 (numerator*2)
      let roundingNumerator ← checkedU128 (doubled+2^denominatorShift)
      some (roundingNumerator/2^(denominatorShift+1))

/-- The integer `sqlite_round_f64` rounds to. -/
def roundedInteger (value : UInt64) (precision : Int32) : Option ℕ :=
  if !isFinite value then none
  else if 18 < clampedPrecision precision then none
  else if realEq (realAbs value) 0 then some 0
  else exactInteger (realAbs value) (clampedPrecision precision)

/-- `1.0` with the sign of a float. -/
def signReal (value : UInt64) : UInt64 := if isSignNegative value then realMinusOne else realOne

/-- What `sqlite_round_f64` makes of the integer. -/
def finishRounding (machine : Machine) (sign : UInt64) (precision rounded : ℕ) : UInt64 :=
  machine.div (machine.mul sign (machine.u128ToReal rounded)) (machine.u128ToReal (10^precision))

/-- The integer is the one the code's result is made of; for zero it writes the zero itself. -/
def MadeOf (machine : Machine) (value : UInt64) (precision : Int32) (rounded : ℕ) : Prop :=
  sqliteRoundF64 machine value precision=
      .ok (finishRounding machine (signReal value) (clampedPrecision precision) rounded) ∨
    rounded=0 ∧ sqliteRoundF64 machine value precision=.ok (machine.mul (signReal value) 0)

section Path

variable (machine : Machine)

theorem powU128_ten {precision : ℕ} (h : precision ≤ 18) : powU128 10 precision=.ok (10^precision) := by
  have hpow : 10^precision < 2^128 := by
    calc 10^precision ≤ 10^18 := Nat.pow_le_pow_right (by omega) h
      _ < 2^128 := by norm_num
  rw [powU128,check_ok hpow]
  rfl

/-- The exact path of an absolute value makes its result of the integer. -/
theorem roundExactly_some {sign value : UInt64} {precision rounded : ℕ} (h : precision ≤ 18)
    (hrounded : exactInteger value precision=some rounded) :
    roundExactly machine sign value precision=
        .ok (finishRounding machine sign precision rounded) ∨
      rounded=0 ∧ roundExactly machine sign value precision=.ok (machine.mul sign 0) := by
  obtain ⟨numerator,hnumerator,hrest⟩ := Option.bind_eq_some_iff.mp hrounded
  unfold roundExactly
  rw [powU128_ten h,bind_ok]
  dsimp only
  rw [hnumerator]
  dsimp only
  by_cases hshift : 0 ≤ binaryShift value
  · rw [if_pos hshift] at hrest ⊢
    rw [hrest]
    exact Or.inl rfl
  · rw [if_neg hshift] at hrest ⊢
    by_cases hsmall : 127 ≤ (-binaryShift value).toNat
    · rw [if_pos hsmall] at hrest ⊢
      cases hrest
      exact Or.inr ⟨rfl,rfl⟩
    · rw [if_neg hsmall] at hrest ⊢
      obtain ⟨doubled,hdoubled,hlast⟩ := Option.bind_eq_some_iff.mp hrest
      obtain ⟨roundingNumerator,hsum,hquotient⟩ := Option.bind_eq_some_iff.mp hlast
      have hone := shlU128_pow 0 (-binaryShift value).toNat (by omega)
      have htwo := shlU128_pow (-binaryShift value).toNat 1 (by omega)
      rw [Nat.pow_zero,Nat.zero_add] at hone
      have hchecked : ((checkedU128 (numerator*2)).bind fun doubled =>
          checkedU128 (doubled+2^(-binaryShift value).toNat))=some roundingNumerator := by
        rw [hdoubled]
        exact hsum
      have hdivisor : 2^((-binaryShift value).toNat+1)≠0 := (Nat.pow_pos (by omega)).ne'
      rw [hone,bind_ok,hchecked]
      dsimp only
      rw [htwo,bind_ok,divU128,check_ok hdivisor]
      cases hquotient
      exact Or.inl rfl

/-- The integer of a float is the one the code's result is made of. -/
theorem madeOf_roundedInteger {value : UInt64} {precision : Int32} {rounded : ℕ}
    (h : roundedInteger value precision=some rounded) :
    MadeOf machine value precision rounded := by
  unfold roundedInteger at h
  have hfinite : isFinite value=true := by
    by_contra hnot
    rw [Bool.not_eq_true] at hnot
    rw [hnot] at h
    cases h
  rw [hfinite] at h
  change (if 18 < clampedPrecision precision then none
    else if realEq (realAbs value) 0 then some 0
    else exactInteger (realAbs value) (clampedPrecision precision))=some rounded at h
  by_cases hprecision : 18 < clampedPrecision precision
  · rw [if_pos hprecision] at h
    cases h
  · rw [if_neg hprecision] at h
    have hrun : sqliteRoundF64 machine value precision=
        if realEq (realAbs value) 0 then .ok (machine.mul (signReal value) 0)
        else roundExactly machine (signReal value) (realAbs value) (clampedPrecision precision) := by
      unfold sqliteRoundF64
      rw [hfinite]
      exact if_neg hprecision
    unfold MadeOf
    rw [hrun]
    by_cases hzero : realEq (realAbs value) 0=true
    · rw [if_pos hzero] at h ⊢
      cases h
      exact Or.inr ⟨rfl,rfl⟩
    · rw [if_neg hzero] at h ⊢
      exact roundExactly_some machine (by omega) h

end Path

/-! ## Exact values -/

/-- The value of a float without its sign. -/
def exactValue (value : UInt64) : ℚ := mantissa value*2^binaryShift value

theorem mantissa_lt (value : UInt64) : mantissa value < 2^53 := by
  have hfraction : fractionBits value < 2^52 := by
    unfold fractionBits
    omega
  unfold mantissa
  split <;> omega

theorem numerator_lt (value : UInt64) {precision : ℕ} (h : precision ≤ 18) :
    mantissa value*10^precision < 2^113 := by
  have hpow : 10^precision ≤ 10^18 := Nat.pow_le_pow_right (by omega) h
  have hmantissa := mantissa_lt value
  calc mantissa value*10^precision ≤ 2^53*10^18 := Nat.mul_le_mul (by omega) hpow
    _ < 2^113 := by norm_num

theorem checkedU128_ok {value : ℕ} (h : value < 2^128) : checkedU128 value=some value := if_pos h

/-- Half up, with a power of two below. -/
theorem floor_half (numerator shift : ℕ) :
    ⌊(numerator : ℚ)/2^shift+1/2⌋=(((numerator*2+2^shift)/2^(shift+1) : ℕ) : ℤ) := by
  have hfraction : (numerator : ℚ)/2^shift+1/2=
      ((numerator*2+2^shift : ℕ) : ℚ)/((2^(shift+1) : ℕ) : ℚ) := by
    push_cast
    field_simp
    ring
  rw [hfraction,Rat.floor_natCast_div_natCast]
  exact (Int.natCast_div _ _).symm

/-- The integer of the path where no bits are lost. -/
theorem exactInteger_eq {value : UInt64} {precision : ℕ} (h : precision ≤ 18) :
    exactInteger value precision=
      if 0 ≤ binaryShift value then
        checkedShl (mantissa value*10^precision) (binaryShift value).toNat
      else if 127 ≤ (-binaryShift value).toNat then some 0
      else some ((mantissa value*10^precision*2+2^(-binaryShift value).toNat)/
        2^((-binaryShift value).toNat+1)) := by
  have hnumerator := numerator_lt value h
  have hfits : checkedU128 (mantissa value*10^precision)=some (mantissa value*10^precision) :=
    checkedU128_ok (by omega)
  unfold exactInteger
  rw [hfits]
  by_cases hshift : 0 ≤ binaryShift value
  · simp only [Option.bind_eq_bind,Option.bind_some,if_pos hshift]
  · by_cases hsmall : 127 ≤ (-binaryShift value).toNat
    · simp only [Option.bind_eq_bind,Option.bind_some,if_neg hshift,if_pos hsmall]
    · have hpow : 2^(-binaryShift value).toNat ≤ 2^126 :=
        Nat.pow_le_pow_right (by omega) (by omega)
      have hdoubled : checkedU128 (mantissa value*10^precision*2)=
          some (mantissa value*10^precision*2) := checkedU128_ok (by omega)
      have hsum : checkedU128 (mantissa value*10^precision*2+2^(-binaryShift value).toNat)=
          some (mantissa value*10^precision*2+2^(-binaryShift value).toNat) :=
        checkedU128_ok (by omega)
      simp only [Option.bind_eq_bind,Option.bind_some,if_neg hshift,if_neg hsmall,hdoubled,hsum]

/-- Shifted to the left the value is an integer. -/
theorem floor_exactValue_left {value : UInt64} (h : 0 ≤ binaryShift value) (precision : ℕ) :
    ⌊exactValue value*10^precision+1/2⌋=
      ((mantissa value*10^precision*2^(binaryShift value).toNat : ℕ) : ℤ) := by
  have hpow : (2 : ℚ)^binaryShift value=2^(binaryShift value).toNat := by
    rw [←zpow_natCast,Int.toNat_of_nonneg h]
  have hvalue : exactValue value*10^precision=
      ((mantissa value*10^precision*2^(binaryShift value).toNat : ℕ) : ℚ) := by
    rw [exactValue,hpow]
    push_cast
    ring
  rw [hvalue,Int.floor_eq_iff]
  constructor
  · push_cast
    linarith
  · push_cast
    linarith

theorem floor_exactValue_right {value : UInt64} (h : ¬0 ≤ binaryShift value) (precision : ℕ) :
    ⌊exactValue value*10^precision+1/2⌋=
      (((mantissa value*10^precision*2+2^(-binaryShift value).toNat)/
        2^((-binaryShift value).toNat+1) : ℕ) : ℤ) := by
  have hshift : binaryShift value=-((-binaryShift value).toNat : ℤ) := by omega
  have hpow : (2 : ℚ)^binaryShift value=(2^(-binaryShift value).toNat)⁻¹ := by
    conv_lhs => rw [hshift]
    rw [zpow_neg,zpow_natCast]
  have hvalue : exactValue value*10^precision+1/2=
      ((mantissa value*10^precision : ℕ) : ℚ)/2^(-binaryShift value).toNat+1/2 := by
    rw [exactValue,hpow]
    push_cast
    ring
  rw [hvalue,floor_half]

/-- Far to the right nothing is left. -/
theorem right_zero {value : UInt64} {precision : ℕ} (h : precision ≤ 18)
    (hshift : 127 ≤ (-binaryShift value).toNat) :
    (mantissa value*10^precision*2+2^(-binaryShift value).toNat)/
      2^((-binaryShift value).toNat+1)=0 := by
  have hnumerator := numerator_lt value h
  have hpow : 2^127 ≤ 2^(-binaryShift value).toNat := Nat.pow_le_pow_right (by omega) hshift
  refine Nat.div_eq_of_lt ?_
  rw [pow_succ]
  omega

/-! ## Lost bits -/

/-- The integer path is exact: what it rounds to is the value times the power of ten, half up. -/
def RoundsExactly (value : UInt64) (precision : Int32) : Prop :=
  ∀ rounded, roundedInteger value precision=some rounded →
    (rounded : ℤ)=⌊exactValue (realAbs value)*10^clampedPrecision precision+1/2⌋

/-- The shift to the left is tried, and the product does not fit 128 bits. -/
def LosesBits (value : UInt64) (precision : Int32) : Prop :=
  isFinite value=true ∧ clampedPrecision precision ≤ 18 ∧ 0 ≤ binaryShift (realAbs value) ∧
    binaryShift (realAbs value) < 128 ∧
    2^128 ≤ mantissa (realAbs value)*10^clampedPrecision precision*
      2^(binaryShift (realAbs value)).toNat

/-- Zero has no mantissa. -/
theorem mantissa_zero {value : UInt64} (h : realEq (realAbs value) 0=true) :
    mantissa (realAbs value)=0 := by
  rw [realEq,Bool.and_eq_true,beq_iff_eq] at h
  have hplace : realPlace (realAbs value)=0 := h.2
  have hbits := realAbs_toNat value
  have hzero : (realAbs value).toNat=0 := by
    rw [realPlace,realAbs_toNat,isSignNegative] at hplace
    split_ifs at hplace <;> omega
  have hvalue : realAbs value=0 := UInt64.toNat.inj hzero
  rw [hvalue]
  rfl

/-- The exact path of a float that is not zero. -/
theorem exactPath_iff {value : UInt64} {precision : Int32} (hfinite : isFinite value=true)
    (hprecision : clampedPrecision precision ≤ 18) :
    (∀ rounded,
      (if 0 ≤ binaryShift (realAbs value) then
        checkedShl (mantissa (realAbs value)*10^clampedPrecision precision)
          (binaryShift (realAbs value)).toNat
      else if 127 ≤ (-binaryShift (realAbs value)).toNat then some 0
      else some ((mantissa (realAbs value)*10^clampedPrecision precision*2+
        2^(-binaryShift (realAbs value)).toNat)/2^((-binaryShift (realAbs value)).toNat+1)))=
          some rounded →
      (rounded : ℤ)=⌊exactValue (realAbs value)*10^clampedPrecision precision+1/2⌋) ↔
    ¬LosesBits value precision := by
  by_cases hshift : 0 ≤ binaryShift (realAbs value)
  · rw [if_pos hshift,floor_exactValue_left hshift,checkedShl]
    by_cases hwide : (binaryShift (realAbs value)).toNat < 128
    · rw [if_pos hwide]
      constructor
      · rintro hexact ⟨-,-,-,-,hlarge⟩
        have heq := Int.ofNat.inj (hexact _ rfl)
        have hlt := Nat.mod_lt (mantissa (realAbs value)*10^clampedPrecision precision*
          2^(binaryShift (realAbs value)).toNat) (show 0 < 2^128 by norm_num)
        omega
      · intro hkeeps rounded hrounded
        cases hrounded
        have hsmall : mantissa (realAbs value)*10^clampedPrecision precision*
            2^(binaryShift (realAbs value)).toNat < 2^128 := by
          by_contra hlarge
          exact hkeeps ⟨hfinite,hprecision,hshift,by omega,by omega⟩
        rw [Nat.mod_eq_of_lt hsmall]
    · rw [if_neg hwide]
      refine iff_of_true (fun rounded hrounded => by cases hrounded) fun hloses => ?_
      obtain ⟨-,-,-,hlt,-⟩ := hloses
      omega
  · rw [if_neg hshift,floor_exactValue_right hshift]
    refine iff_of_true (fun rounded hrounded => ?_) fun hloses => hshift hloses.2.2.1
    by_cases hfar : 127 ≤ (-binaryShift (realAbs value)).toNat
    · rw [if_pos hfar] at hrounded
      cases hrounded
      rw [right_zero hprecision hfar]
    · rw [if_neg hfar] at hrounded
      cases hrounded
      rfl

/-- The integer path is exact unless its shift to the left loses high bits. -/
theorem rounds_exactly_iff (machine : Machine) (value : UInt64) (precision : Int32) :
    (∀ rounded, roundedInteger value precision=some rounded →
        MadeOf machine value precision rounded) ∧
      (RoundsExactly value precision ↔ ¬LosesBits value precision) := by
  refine ⟨fun rounded => madeOf_roundedInteger machine,?_⟩
  by_cases hpath : isFinite value=true ∧ clampedPrecision precision ≤ 18
  · obtain ⟨hfinite,hprecision⟩ := hpath
    by_cases hzero : realEq (realAbs value) 0=true
    · have hmantissa := mantissa_zero hzero
      refine iff_of_true (fun rounded hrounded => ?_) fun hloses => ?_
      · rw [roundedInteger,hfinite,if_neg (by simp),if_neg (by omega),if_pos hzero] at hrounded
        cases hrounded
        rw [exactValue,hmantissa]
        norm_num
      · obtain ⟨-,-,-,-,hlarge⟩ := hloses
        rw [hmantissa] at hlarge
        norm_num at hlarge
    · have hrun : roundedInteger value precision=
          exactInteger (realAbs value) (clampedPrecision precision) := by
        rw [roundedInteger,hfinite,if_neg (by simp),if_neg (by omega),if_neg hzero]
      rw [RoundsExactly,hrun,exactInteger_eq hprecision]
      exact exactPath_iff hfinite hprecision
  · refine iff_of_true (fun rounded hrounded => ?_) fun hloses =>
      hpath ⟨hloses.1,hloses.2.1⟩
    rw [roundedInteger] at hrounded
    by_cases hfinite : isFinite value=true
    · have hprecision : 18 < clampedPrecision precision := by
        by_contra hle
        exact hpath ⟨hfinite,by omega⟩
      rw [hfinite,if_neg (by simp),if_pos hprecision] at hrounded
      cases hrounded
    · rw [Bool.not_eq_true] at hfinite
      rw [hfinite,if_pos (by simp)] at hrounded
      cases hrounded

/-- 2^70 with eighteen digits, a product of more than 128 bits. -/
theorem high_bits_lost : ¬RoundsExactly 0x4450000000000000 18 := by
  intro h
  have hrounded : roundedInteger 0x4450000000000000 18=
      some (1180591620717411303424*10^18%2^128) := by
    decide +kernel
  have hshift : 0 ≤ binaryShift (realAbs 0x4450000000000000) := by decide +kernel
  have hexact := h _ hrounded
  rw [floor_exactValue_left hshift] at hexact
  have hne : (1180591620717411303424*10^18%2^128 : ℕ)≠
      mantissa (realAbs 0x4450000000000000)*10^clampedPrecision 18*
        2^(binaryShift (realAbs 0x4450000000000000)).toNat := by
    decide +kernel
  exact hne (Int.ofNat.inj hexact)

end RustSql.Check
