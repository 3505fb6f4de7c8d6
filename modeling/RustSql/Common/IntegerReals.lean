import Mathlib.Data.Nat.Log
import Mathlib.Tactic
import RustSql.Common.Value

/-!
# Integers as floats

The cast of a 64-bit integer to a 64-bit float: to the nearest float, and to the even one of
two that are as near. It keeps the order of the integers and is exact up to `2^53`.
-/

namespace RustSql

/-- A number without its last bits, to the nearest, and to the even one of two. -/
def roundHalfEven (value bits : ℕ) : ℕ :=
  let quotient := value/2^bits
  let rest := value%2^bits
  if 2^bits < 2*rest ∨ 2*rest=2^bits ∧ quotient%2=1 then quotient+1 else quotient

/-- The bits of the nearest float of a natural number. The mantissa has 53 digits, of which
the first is added to the exponent. -/
def natToReal (value : ℕ) : ℕ :=
  if value=0 then 0
  else
    let exponent := Nat.log2 value
    (exponent+1022)*2^52+roundHalfEven (value*2^(52-exponent)) (exponent-52)

/-- `as f64` of an `i64`. -/
def i64ToReal (value : Int64) : UInt64 :=
  UInt64.ofNat (natToReal value.toInt.natAbs+if value.toInt < 0 then 2^63 else 0)

/-! ## Rounding -/

/-- Larger numbers are not rounded lower. -/
theorem roundHalfEven_mono {m n : ℕ} (bits : ℕ) (h : m ≤ n) :
    roundHalfEven m bits ≤ roundHalfEven n bits := by
  have hquotient : m/2^bits ≤ n/2^bits := Nat.div_le_div_right h
  have hm := Nat.div_add_mod m (2^bits)
  have hn := Nat.div_add_mod n (2^bits)
  unfold roundHalfEven
  dsimp only
  rcases hquotient.lt_or_eq with hlt | heq
  · split <;> split <;> omega
  · have hrest : m%2^bits ≤ n%2^bits := by
      rw [heq] at hm
      omega
    rw [heq]
    split
    · next hup =>
      rw [if_pos]
      rcases hup with hup | ⟨hhalf,hodd⟩
      · exact Or.inl (by omega)
      · rcases hrest.lt_or_eq with hless | hsame
        · exact Or.inl (by omega)
        · exact Or.inr ⟨by omega,hodd⟩
    · split <;> omega

/-- Rounding leaves multiples of the unit as they are. -/
theorem roundHalfEven_mul (value bits : ℕ) : roundHalfEven (value*2^bits) bits=value := by
  have hpos : 0 < 2^bits := Nat.two_pow_pos bits
  unfold roundHalfEven
  rw [Nat.mul_mod_left,Nat.mul_div_cancel _ hpos,if_neg (by omega)]

/-- Rounding stays within the bounds. -/
theorem roundHalfEven_bounds {value bits low high : ℕ} (hlow : low*2^bits ≤ value)
    (hhigh : value ≤ high*2^bits) :
    low ≤ roundHalfEven value bits ∧ roundHalfEven value bits ≤ high := by
  have hl := roundHalfEven_mono bits hlow
  have hh := roundHalfEven_mono bits hhigh
  rw [roundHalfEven_mul] at hl hh
  exact ⟨hl,hh⟩

/-! ## The order of the floats of natural numbers -/

/-- The highest bit of a number. -/
theorem log2_bounds {value : ℕ} (h : value≠0) :
    2^Nat.log2 value ≤ value ∧ value < 2^(Nat.log2 value+1) := by
  rw [Nat.log2_eq_log_two]
  exact ⟨Nat.pow_log_le_self 2 h,Nat.lt_pow_succ_log_self (by omega) value⟩

/-- A number that is not zero has an exponent and a mantissa. -/
theorem natToReal_of_ne_zero {value : ℕ} (h : value≠0) :
    natToReal value=(Nat.log2 value+1022)*2^52+
      roundHalfEven (value*2^(52-Nat.log2 value)) (Nat.log2 value-52) := if_neg h

/-- The rounded mantissa has 53 digits, or is the next power of two. -/
theorem mantissa_bounds {value : ℕ} (h : value≠0) :
    2^52 ≤ roundHalfEven (value*2^(52-Nat.log2 value)) (Nat.log2 value-52) ∧
      roundHalfEven (value*2^(52-Nat.log2 value)) (Nat.log2 value-52) ≤ 2^53 := by
  obtain ⟨hlow,hhigh⟩ := log2_bounds h
  have hsum : 52+(Nat.log2 value-52)=Nat.log2 value+(52-Nat.log2 value) := by omega
  refine roundHalfEven_bounds ?_ ?_
  · rw [←pow_add,hsum,pow_add]
    exact Nat.mul_le_mul_right _ hlow
  · have hnext : 53+(Nat.log2 value-52)=Nat.log2 value+1+(52-Nat.log2 value) := by omega
    rw [←pow_add,hnext,pow_add]
    exact Nat.mul_le_mul_right _ hhigh.le

/-- Larger numbers have no smaller floats. -/
theorem natToReal_mono {m n : ℕ} (h : m ≤ n) : natToReal m ≤ natToReal n := by
  by_cases hm : m=0
  · rw [hm,natToReal,if_pos rfl]
    exact Nat.zero_le _
  have hn : n≠0 := by omega
  rw [natToReal_of_ne_zero hm,natToReal_of_ne_zero hn]
  have hlog : Nat.log2 m ≤ Nat.log2 n := by
    rw [Nat.log2_eq_log_two,Nat.log2_eq_log_two]
    exact Nat.log_mono_right h
  rcases hlog.lt_or_eq with hlt | heq
  · have hmantissa := (mantissa_bounds hm).2
    have hmantissa' := (mantissa_bounds hn).1
    omega
  · rw [heq]
    exact Nat.add_le_add_left (roundHalfEven_mono _ (Nat.mul_le_mul_right _ h)) _

/-- Only zero is zero. -/
theorem natToReal_eq_zero {value : ℕ} : natToReal value=0 ↔ value=0 := by
  constructor
  · intro h
    by_contra hvalue
    rw [natToReal_of_ne_zero hvalue] at h
    omega
  · rintro rfl
    rfl

/-- The float of one is the float of no other number. -/
theorem natToReal_eq_one {value : ℕ} : natToReal value=0x3FF0000000000000 ↔ value=1 := by
  constructor
  · intro h
    have hvalue : value≠0 := fun hvalue => by
      rw [natToReal_eq_zero.mpr hvalue] at h
      omega
    by_contra hne
    have hmono : natToReal 2 ≤ natToReal value := natToReal_mono (by omega)
    have htwo : natToReal 2=0x4000000000000000 := by decide +kernel
    omega
  · rintro rfl
    decide +kernel

/-- The sign bit stays free. -/
theorem natToReal_lt {value : ℕ} (h : value ≤ 2^63) : natToReal value < 2^63 := by
  have hmono : natToReal value ≤ natToReal (2^63) := natToReal_mono h
  have htop : natToReal (2^63)=0x43E0000000000000 := by decide +kernel
  omega

/-! ## The order of the floats of integers -/

/-- A 64-bit integer is 2^63 at most. -/
theorem natAbs_le (value : Int64) : value.toInt.natAbs ≤ 2^63 := by
  have hlow := Int64.le_toInt value
  have hhigh := Int64.toInt_lt value
  omega

/-- The float of an integer is that of its size, with its sign. -/
theorem i64ToReal_toNat (value : Int64) :
    (i64ToReal value).toNat=
      natToReal value.toInt.natAbs+if value.toInt < 0 then 2^63 else 0 := by
  have hlt := natToReal_lt (natAbs_le value)
  refine UInt64.toNat_ofNat_of_lt' ?_
  change _ < 2^64
  split <;> omega

/-- The place of an integer's float. -/
theorem realOrderKey_i64ToReal (value : Int64) :
    (realOrderKey (i64ToReal value) : ℤ)=
      if value.toInt < 0 then 2^63-1-(natToReal value.toInt.natAbs : ℤ)
      else 2^63+(natToReal value.toInt.natAbs : ℤ) := by
  have hlt := natToReal_lt (natAbs_le value)
  have hbits := i64ToReal_toNat value
  unfold realOrderKey
  by_cases hneg : value.toInt < 0
  · rw [if_pos hneg] at hbits
    rw [if_neg (by omega),if_pos hneg]
    omega
  · rw [if_neg hneg] at hbits
    rw [if_pos (by omega),if_neg hneg]
    omega

/-- The cast keeps the order. -/
theorem realOrderKey_i64ToReal_mono {a b : Int64} (h : a.toInt ≤ b.toInt) :
    realOrderKey (i64ToReal a) ≤ realOrderKey (i64ToReal b) := by
  have ha := realOrderKey_i64ToReal a
  have hb := realOrderKey_i64ToReal b
  by_cases hbneg : b.toInt < 0
  · have haneg : a.toInt < 0 := by omega
    have hmono : natToReal b.toInt.natAbs ≤ natToReal a.toInt.natAbs :=
      natToReal_mono (by omega)
    rw [if_pos haneg] at ha
    rw [if_pos hbneg] at hb
    omega
  · rw [if_neg hbneg] at hb
    by_cases haneg : a.toInt < 0
    · rw [if_pos haneg] at ha
      omega
    · have hmono : natToReal a.toInt.natAbs ≤ natToReal b.toInt.natAbs :=
        natToReal_mono (by omega)
      rw [if_neg haneg] at ha
      omega

/-- The place of a float determines it. -/
theorem realOrderKey_inj {x y : UInt64} : realOrderKey x=realOrderKey y ↔ x=y := by
  constructor
  · intro h
    have hx := x.toNat_lt
    have hy := y.toNat_lt
    refine UInt64.toNat.inj ?_
    unfold realOrderKey at h
    split at h <;> split at h <;> omega
  · rintro rfl
    rfl

/-- Only zero is zero. -/
theorem i64ToReal_eq_zero {value : Int64} : i64ToReal value=0 ↔ value.toInt=0 := by
  have hbits := i64ToReal_toNat value
  constructor
  · intro h
    rw [h] at hbits
    have hzero : natToReal value.toInt.natAbs=0 := by
      have hliteral : (0 : UInt64).toNat=0 := rfl
      omega
    have habs := natToReal_eq_zero.mp hzero
    omega
  · intro h
    refine UInt64.toNat.inj (hbits.trans ?_)
    rw [h]
    rfl

/-- Only one is one. -/
theorem i64ToReal_eq_one {value : Int64} :
    i64ToReal value=0x3FF0000000000000 ↔ value.toInt=1 := by
  have hbits := i64ToReal_toNat value
  constructor
  · intro h
    rw [h] at hbits
    have hliteral : (0x3FF0000000000000 : UInt64).toNat=0x3FF0000000000000 := rfl
    have hone : natToReal value.toInt.natAbs=0x3FF0000000000000 ∧ ¬value.toInt < 0 := by
      split at hbits <;> omega
    have habs := natToReal_eq_one.mp hone.1
    omega
  · intro h
    refine UInt64.toNat.inj (hbits.trans ?_)
    rw [h]
    decide +kernel

end RustSql
