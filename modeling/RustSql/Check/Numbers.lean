import RustSql.Base.Panics
import RustSql.Check.Syntax

/-!
# Machine numbers

The integers and floats of the condition evaluator. Arithmetic of a machine integer panics
when the result does not fit; a float stands as its bits, and what rounds is taken from the
machine.
-/

namespace RustSql.Check

/-! ## Integers -/

/-- The sum of two `i64`; a panic when it does not fit. -/
def addI64 (left right : Int64) : Outcome Int64 := do
  Outcome.check (-2^63 ≤ left.toInt+right.toInt ∧ left.toInt+right.toInt < 2^63)
  .ok (left+right)

/-- The difference of two `i64`; a panic when it does not fit. -/
def subI64 (left right : Int64) : Outcome Int64 := do
  Outcome.check (-2^63 ≤ left.toInt-right.toInt ∧ left.toInt-right.toInt < 2^63)
  .ok (left-right)

/-- `/` on `i64`; a panic for zero and where the smallest integer meets minus one. -/
def divI64 (left right : Int64) : Outcome Int64 := do
  Outcome.check (right≠0 ∧ ¬(left=Int64.minValue ∧ right=-1))
  .ok (left/right)

/-- `%` on `i64`; a panic for zero and where the smallest integer meets minus one. -/
def remI64 (left right : Int64) : Outcome Int64 := do
  Outcome.check (right≠0 ∧ ¬(left=Int64.minValue ∧ right=-1))
  .ok (left%right)

/-- `i64::checked_add`. -/
def checkedAdd (left right : Int64) : Option Int64 :=
  if -2^63 ≤ left.toInt+right.toInt ∧ left.toInt+right.toInt < 2^63 then some (left+right)
  else none

/-- `i64::checked_mul`. -/
def checkedMul (left right : Int64) : Option Int64 :=
  if -2^63 ≤ left.toInt*right.toInt ∧ left.toInt*right.toInt < 2^63 then some (left*right)
  else none

/-- `i64::checked_abs`. -/
def checkedAbs (value : Int64) : Option Int64 :=
  if value=Int64.minValue then none else some (Int64.ofInt |value.toInt|)

/-- `i64::signum`. -/
def signum (value : Int64) : Int64 := if 0 < value then 1 else if value < 0 then -1 else 0

/-- A length or a count `as i64`. -/
def countAsI64 (count : ℕ) : Int64 := Int64.ofNat count

/-- A `u128` power; a panic when it does not fit. -/
def powU128 (base exponent : ℕ) : Outcome ℕ := do
  Outcome.check (base^exponent < 2^128)
  .ok (base^exponent)

/-- `<<` on `u128`; a panic when the shift is as wide as the number. -/
def shlU128 (value shift : ℕ) : Outcome ℕ := do
  Outcome.check (shift < 128)
  .ok (value*2^shift%2^128)

/-- `/` on `u128`; a panic for zero. -/
def divU128 (left right : ℕ) : Outcome ℕ := do
  Outcome.check (right≠0)
  .ok (left/right)

/-- The result of a checked operation on `u128`. -/
def checkedU128 (value : ℕ) : Option ℕ := if value < 2^128 then some value else none

/-- `u128::checked_shl`. -/
def checkedShl (value shift : ℕ) : Option ℕ :=
  if shift < 128 then some (value*2^shift%2^128) else none

/-- `i64::from_str`: a sign and digits. -/
def parseI64 (text : List Char) : Option Int64 :=
  let negative := text.head?=some '-'
  let digits := if negative ∨ text.head?=some '+' then text.drop 1 else text
  if digits=[] ∨ digits.any (fun digit => !digit.isDigit) then none
  else
    let magnitude : ℤ := (Nat.ofDigitChars 10 digits 0 : ℕ)
    let value := if negative then -magnitude else magnitude
    if -2^63 ≤ value ∧ value < 2^63 then some (Int64.ofInt value) else none

/-! ## Floats -/

/-- What the evaluator takes from the machine's floats, from the reading of bytes as text and
from the JSON library. -/
structure Machine where
  /-- `as f64` of an `i64` and of a `u128`. -/
  toReal : Int64 → UInt64
  u128ToReal : ℕ → UInt64
  add : UInt64 → UInt64 → UInt64
  mul : UInt64 → UInt64 → UInt64
  div : UInt64 → UInt64 → UInt64
  ceil : UInt64 → UInt64
  floor : UInt64 → UInt64
  trunc : UInt64 → UInt64
  round : UInt64 → UInt64
  /-- `10_f64.powi`. -/
  tenPowi : ℤ → UInt64
  unaryMath : UnaryMathFunc → UInt64 → UInt64
  powf : UInt64 → UInt64 → UInt64
  atan2 : UInt64 → UInt64 → UInt64
  /-- `f64::log`, to a base. -/
  log : UInt64 → UInt64 → UInt64
  /-- `Display for f64`. -/
  realToString : UInt64 → String
  /-- `f64::from_str`. -/
  parseReal : String → Option UInt64
  /-- `String::from_utf8_lossy`. -/
  fromUtf8Lossy : Bytes → String
  /-- `serde_json::from_str` reads a value. -/
  readsJson : String → Bool

/-- `1.0` and `-1.0`. -/
def realOne : UInt64 := 0x3FF0000000000000
def realMinusOne : UInt64 := 0xBFF0000000000000

/-- The two infinities. -/
def realInfinity : UInt64 := 0x7FF0000000000000
def realNegInfinity : UInt64 := 0xFFF0000000000000

/-- The sign bit. -/
def isSignNegative (bits : UInt64) : Bool := 2^63 ≤ bits.toNat

/-- `f64::abs`. -/
def realAbs (bits : UInt64) : UInt64 := bits &&& 0x7FFFFFFFFFFFFFFF

theorem realAbs_toNat (bits : UInt64) : (realAbs bits).toNat=bits.toNat%2^63 := by
  rw [realAbs,UInt64.toNat_and]
  exact Nat.and_two_pow_sub_one_eq_mod bits.toNat 63

/-- `f64::neg`. -/
def realNeg (bits : UInt64) : UInt64 := bits ^^^ 0x8000000000000000

/-- `f64::is_nan`. -/
def isNan (bits : UInt64) : Bool := 0x7FF0000000000000 < (realAbs bits).toNat

/-- `f64::is_finite`. -/
def isFinite (bits : UInt64) : Bool := (realAbs bits).toNat < 0x7FF0000000000000

/-- The place of a float that is no NaN in the order of numbers. -/
def realPlace (bits : UInt64) : ℤ :=
  if isSignNegative bits then -(realAbs bits).toNat else (realAbs bits).toNat

/-- `<` on floats. -/
def realLt (left right : UInt64) : Bool :=
  !isNan left && !isNan right && realPlace left < realPlace right

/-- `<=` on floats. -/
def realLe (left right : UInt64) : Bool :=
  !isNan left && !isNan right && realPlace left ≤ realPlace right

/-- `==` on floats. -/
def realEq (left right : UInt64) : Bool :=
  !isNan left && !isNan right && realPlace left==realPlace right

/-- The bits of the exponent. -/
def exponentBits (bits : UInt64) : ℕ := bits.toNat/2^52%2^11

/-- The bits of the fraction. -/
def fractionBits (bits : UInt64) : ℕ := bits.toNat%2^52

/-- `as i64`: towards zero, to the nearest `i64` from outside, zero for a NaN. -/
def realToI64 (bits : UInt64) : Int64 :=
  if isNan bits then 0
  else
    let mantissa := 2^52+fractionBits bits
    let exponent := exponentBits bits
    let magnitude : ℕ :=
      if 1075 ≤ exponent then mantissa*2^(exponent-1075) else mantissa/2^(1075-exponent)
    let value : ℤ := if isSignNegative bits then -magnitude else magnitude
    Int64.ofInt (max (-2^63) (min (2^63-1) value))

/-- `fract() == 0.0`, for a finite float. -/
def isWhole (bits : UInt64) : Bool :=
  realEq bits 0 || 1075 ≤ exponentBits bits ||
    (2^52+fractionBits bits)%2^(1075-exponentBits bits)==0

/-- `f64::total_cmp`. -/
def totalCmp (left right : UInt64) : Ordering := compare (realOrderKey left) (realOrderKey right)

end RustSql.Check
