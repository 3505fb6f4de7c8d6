import RustSql.Check.Json5
import RustSql.Check.Patterns

/-!
# The functions of the condition evaluator

What is computed from a column's value before it is compared.
-/

namespace RustSql.Check

open Sql

section Functions

variable (machine : Machine)

/-- `sqlite_check_length`. -/
def sqliteCheckLength : Value → Option Int64
  | .null => none
  | .blob value => some (countAsI64 value.length)
  | .text value => some (countAsI64 (sqliteTextPrefixBeforeNul value).length)
  | value => some (countAsI64 (sqliteTextLikeValue machine value).length)

/-- `sqlite_check_octet_length`. -/
def sqliteCheckOctetLength : Value → Option Int64
  | .null => none
  | .blob value => some (countAsI64 value.length)
  | .text value => some (countAsI64 value.utf8ByteSize)
  | .integer value => some (countAsI64 (toString value.toInt).utf8ByteSize)
  | .real value => some (countAsI64 (sqliteRealToText machine value).utf8ByteSize)
  | .boolean _ => some 1

/-- `sqlite_check_unicode`. -/
def sqliteCheckUnicode (value : Value) : Option Int64 :=
  if value=.null then none
  else
    ((sqliteTextPrefixBeforeNul (sqliteTextLikeValue machine value)).head?).map fun char =>
      Int64.ofNat char.toNat

/-- `sqlite_sign_real`. -/
def sqliteSignReal (value : UInt64) : Int64 :=
  if realLt 0 value then 1 else if realLt value 0 then -1 else 0

/-- `sqlite_check_sign`. -/
def sqliteCheckSign : Value → Option Int64
  | .null => none
  | .boolean value => some (if value then 1 else 0)
  | .integer value => some (signum value)
  | .real value => some (sqliteSignReal value)
  | .text value =>
    match parseI64 (trim value) with
    | some value => some (signum value)
    | none => (machine.parseReal (String.ofList (trim value))).map sqliteSignReal
  | .blob _ => none

/-- `sqlite_check_hex`. -/
def sqliteCheckHex : Value → String
  | .null => ""
  | .blob value => sqliteHexBytes value
  | .text value => sqliteHexBytes (asBytes value)
  | .integer value => sqliteHexBytes (asBytes (toString value.toInt))
  | .real value => sqliteHexBytes (asBytes (sqliteRealToText machine value))
  | .boolean value => if value then "31" else "30"

/-- `sqlite_check_quote`. -/
def sqliteCheckQuote : Value → String
  | .null => "NULL"
  | .boolean value => if value then "1" else "0"
  | .integer value => toString value.toInt
  | .real value => sqliteRealToTextForQuote machine value
  | .blob value => "X'"++sqliteHexBytes value++"'"
  | .text value => "'"++(String.ofList (sqliteTextPrefixBeforeNul value)).replace "'" "''"++"'"

/-- `check_values_are_not_distinct`. -/
def checkValuesAreNotDistinct (left right : Value) : Bool :=
  (left=.null && right=.null) ||
    (left≠.null && right≠.null && left.cmp right==.eq)

/-- `sqlite_check_nullif`. -/
def sqliteCheckNullif (left right : Value) : Bool :=
  left=.null || checkValuesAreNotDistinct left right

/-- `sqlite_check_replace`. -/
def sqliteCheckReplace (value : Value) (pattern replacement : String) : Option String :=
  if value=.null then none
  else
    let text := String.ofList (sqliteTextPrefixBeforeNul (sqliteTextLikeValue machine value))
    if pattern="" then some text else some (text.replace pattern replacement)

/-! ## Rounding -/

/-- The way out of `sqlite_round_f64` through floats, for an absolute value. -/
def roundThroughReals (sign value : UInt64) (precision : ℕ) : UInt64 :=
  let factor := machine.tenPowi precision
  machine.mul sign (machine.div (machine.round (machine.mul value factor)) factor)

/-- The mantissa of a float that is finite. -/
def mantissa (value : UInt64) : ℕ :=
  if exponentBits value=0 then fractionBits value else 2^52+fractionBits value

/-- The power of two the mantissa is multiplied with. -/
def binaryShift (value : UInt64) : ℤ :=
  if exponentBits value=0 then -1074 else exponentBits value-1023-52

/-- `sqlite_round_f64` below a precision of nineteen, for an absolute value that is not zero. -/
def roundExactly (sign value : UInt64) (precision : ℕ) : Outcome UInt64 := do
  let fallback := roundThroughReals machine sign value precision
  let pow10 ← powU128 10 precision
  let finish := fun rounded =>
    machine.div (machine.mul sign (machine.u128ToReal rounded)) (machine.u128ToReal pow10)
  match checkedU128 (mantissa value*pow10) with
  | none => .ok fallback
  | some numerator =>
    if 0 ≤ binaryShift value then
      match checkedShl numerator (binaryShift value).toNat with
      | none => .ok fallback
      | some scaled => .ok (finish scaled)
    else
      let denominatorShift := (-binaryShift value).toNat
      if 127 ≤ denominatorShift then .ok (machine.mul sign 0)
      else do
        let denominator ← shlU128 1 denominatorShift
        match (checkedU128 (numerator*2)).bind fun doubled => checkedU128 (doubled+denominator) with
        | none => .ok fallback
        | some roundingNumerator => do
          let divisor ← shlU128 denominator 1
          let rounded ← divU128 roundingNumerator divisor
          .ok (finish rounded)

/-- `sqlite_round_f64`. -/
def sqliteRoundF64 (value : UInt64) (precision : Int32) : Outcome UInt64 :=
  let precision := (max 0 (min precision.toInt 30)).toNat
  if !isFinite value then .ok value
  else if 18 < precision then
    let factor := machine.tenPowi precision
    .ok (machine.div (machine.round (machine.mul value factor)) factor)
  else
    let sign := if isSignNegative value then realMinusOne else realOne
    let value := realAbs value
    if realEq value 0 then .ok (machine.mul sign 0) else roundExactly machine sign value precision

/-- `sqlite_check_round`. -/
def sqliteCheckRound (value : Value) (precision : Option Int32) : Outcome (Option UInt64) := do
  if value=.null then .ok none
  else
    let real ← sqliteCheckNumericReal machine value
    let rounded ← sqliteRoundF64 machine real (precision.getD 0)
    .ok (some rounded)

/-- The rounding of a float. -/
def RoundingFunc.apply : RoundingFunc → UInt64 → UInt64
  | .ceil, value | .ceiling, value => machine.ceil value
  | .floor, value => machine.floor value
  | .trunc, value => machine.trunc value

/-- `sqlite_check_rounding`. -/
def sqliteCheckRounding (value : Value) (func : RoundingFunc) : Option Value :=
  match value with
  | .null | .blob _ => none
  | .boolean value => some (.integer (if value then 1 else 0))
  | .integer value => some (.integer value)
  | .real value => some (.real (func.apply machine value))
  | .text text =>
    if trim text=[] then none
    else (machine.parseReal (String.ofList (trim text))).map fun parsed =>
      .real (func.apply machine parsed)

/-! ## Casts and choices -/

/-- `sqlite_check_cast`. -/
def sqliteCheckCast (value : Value) (targetType : ColumnType) : Outcome Value :=
  match targetType, value with
  | .any, value => .ok value
  | _, .null => .ok .null
  | .text, value => .ok (.text (sqliteTextLikeValue machine value))
  | .blob, .blob value => .ok (.blob value)
  | .blob, value => .ok (.blob (asBytes (sqliteTextLikeValue machine value)))
  | .integer, .integer value => .ok (.integer value)
  | .integer, .boolean value => .ok (.integer (if value then 1 else 0))
  | .integer, .real value => .ok (.integer (realToI64 value))
  | .integer, .text value => do
    let found ← sqliteTextIntegerPrefix machine value
    .ok (.integer found)
  | .integer, .blob value => do
    let found ← sqliteTextIntegerPrefix machine (machine.fromUtf8Lossy value)
    .ok (.integer found)
  | .numeric, .integer value => .ok (.integer value)
  | .numeric, .boolean value => .ok (.integer (if value then 1 else 0))
  | .numeric, .real value => .ok (.real value)
  | .numeric, .text value => sqliteTextNumericValue machine value
  | .numeric, .blob value => sqliteTextNumericValue machine (machine.fromUtf8Lossy value)
  | .real, .integer value => .ok (.real (machine.toReal value))
  | .real, .boolean value => .ok (.real (if value then realOne else 0))
  | .real, .real value => .ok (.real value)
  | .real, .text value => do
    let found ← sqliteTextRealPrefix machine value
    .ok (.real found)
  | .real, .blob value => do
    let found ← sqliteTextRealPrefix machine (machine.fromUtf8Lossy value)
    .ok (.real found)
  | .boolean, .boolean value => .ok (.boolean value)
  | .boolean, .integer value => .ok (.boolean (value≠0))
  | .boolean, .real value => .ok (.boolean (!realEq value 0))
  | .boolean, .text value => .ok (.boolean (value≠"" && value≠"0"))
  | .boolean, .blob value => .ok (.boolean (value≠[] && value≠[48]))

/-- `sqlite_check_min_max`. -/
def sqliteCheckMinMax (left right : Value) (min : Bool) : Option Value :=
  if left=.null ∨ right=.null then none
  else
    let ordering := left.cmp right
    if (min && ordering==.gt) || (!min && ordering==.lt) then some right else some left

/-- `sqlite_check_concat`. -/
def sqliteCheckConcat (value : Value) (suffix : List Value) : String :=
  String.join (((value :: suffix).filter (· ≠ .null)).map (sqliteTextLikeValue machine))

/-- `sqlite_check_concat_ws`. -/
def sqliteCheckConcatWs (value : Value) (separator : String) (suffix : List Value) : String :=
  String.intercalate separator
    (((value :: suffix).filter (· ≠ .null)).map (sqliteTextLikeValue machine))

/-! ## Arithmetic -/

/-- `sqlite_check_abs`. -/
def sqliteCheckAbs : Value → Outcome (Option Value)
  | .null => .ok none
  | .integer value =>
    match checkedAbs value with
    | some value => .ok (some (.integer value))
    | none => .ok (some (.real (realAbs (machine.toReal value))))
  | .real value => .ok (some (.real (realAbs value)))
  | .boolean value => .ok (some (.integer (if value then 1 else 0)))
  | .text value => do
    let numeric ← sqliteTextNumericPrefix machine value
    .ok (some (.real (realAbs numeric)))
  | .blob value => do
    let numeric ← sqliteTextNumericPrefix machine (machine.fromUtf8Lossy value)
    .ok (some (.real (realAbs numeric)))

/-- `sqlite_check_math_arg`. -/
def sqliteCheckMathArg : Value → Option UInt64
  | .null | .blob _ => none
  | .boolean value => some (if value then realOne else 0)
  | .integer value => some (machine.toReal value)
  | .real value => some value
  | .text text =>
    if trim text=[] then none else machine.parseReal (String.ofList (trim text))

/-- The arguments for which `sqlite_check_unary_math` has no value. -/
def UnaryMathFunc.excludes : UnaryMathFunc → UInt64 → Bool
  | .sqrt, numeric => realLt numeric 0
  | .ln, numeric | .log10, numeric | .log2, numeric => realLe numeric 0
  | .acos, numeric | .asin, numeric => !(realLe realMinusOne numeric && realLe numeric realOne)
  | .acosh, numeric => realLt numeric realOne
  | .atanh, numeric => realLe numeric realMinusOne || realLe realOne numeric
  | _, _ => false

/-- `sqlite_check_unary_math`. -/
def sqliteCheckUnaryMath (value : Value) (func : UnaryMathFunc) : Option UInt64 :=
  (sqliteCheckMathArg machine value).bind fun numeric =>
    if func.excludes numeric then none else some (machine.unaryMath func numeric)

/-- `sqlite_check_binary_math`. -/
def sqliteCheckBinaryMath (columnValue argument : Value) (func : BinaryMathFunc)
    (columnIsSecond : Bool) : Option UInt64 :=
  (sqliteCheckMathArg machine columnValue).bind fun columnValue =>
    (sqliteCheckMathArg machine argument).bind fun argument =>
      let left := if columnIsSecond then argument else columnValue
      let right := if columnIsSecond then columnValue else argument
      let result :=
        match func with
        | .power => some (machine.powf left right)
        | .atan2 => some (machine.atan2 left right)
        | .log =>
          if realLe left 0 || realLe right 0 || realEq left realOne then none
          else some (machine.log right left)
      result.filter isFinite

/-- `sqlite_check_add`. -/
def sqliteCheckAdd (left right : Value) : Outcome (Option Value) := do
  if left=.null ∨ right=.null then .ok none
  else
    match left, right with
    | .integer left, .integer right =>
      match checkedAdd left right with
      | some sum => .ok (some (.integer sum))
      | none => .ok (some (.real (machine.add (machine.toReal left) (machine.toReal right))))
    | left, right =>
      let left ← sqliteCheckNumericReal machine left
      let right ← sqliteCheckNumericReal machine right
      .ok (some (.real (machine.add left right)))

/-- `sqlite_check_multiply`. -/
def sqliteCheckMultiply (left right : Value) : Outcome (Option Value) := do
  if left=.null ∨ right=.null then .ok none
  else
    match left, right with
    | .integer left, .integer right =>
      match checkedMul left right with
      | some product => .ok (some (.integer product))
      | none => .ok (some (.real (machine.mul (machine.toReal left) (machine.toReal right))))
    | left, right =>
      let left ← sqliteCheckNumericReal machine left
      let right ← sqliteCheckNumericReal machine right
      .ok (some (.real (machine.mul left right)))

/-- A divisor that is a zero. -/
def isZero : Value → Bool
  | .integer value => value==0
  | .real value => realEq value 0
  | _ => false

/-- `sqlite_check_divide`. -/
def sqliteCheckDivide (left right : Value) : Outcome (Option Value) := do
  if left=.null ∨ right=.null then .ok none
  else if isZero right then .ok none
  else
    match left, right with
    | .integer left, .integer right => do
      let quotient ← divI64 left right
      .ok (some (.integer quotient))
    | left, right => do
      let left ← sqliteCheckNumericReal machine left
      let right ← sqliteCheckNumericReal machine right
      .ok (some (.real (machine.div left right)))

/-- `sqlite_check_modulo`. -/
def sqliteCheckModulo (left right : Value) : Outcome (Option Value) := do
  if left=.null ∨ right=.null then .ok none
  else
    let left ← sqliteCheckNumericReal machine left
    let right ← sqliteCheckNumericReal machine right
    if realToI64 right=0 then .ok none
    else
      let remainder ← remI64 (realToI64 left) (realToI64 right)
      .ok (some (.integer remainder))

end Functions

/-- `sqlite_typeof_name`. -/
def sqliteTypeofName : Value → String
  | .null => "null"
  | .boolean _ | .integer _ => "integer"
  | .real _ => "real"
  | .blob _ => "blob"
  | .text _ => "text"

/-- `sqlite_check_collated_value`. -/
def sqliteCheckCollatedValue (value : Value) (collation : String) : Value :=
  match value with
  | .text text =>
    if sqliteAsciiUpper collation="NOCASE" then .text (sqliteAsciiLower text)
    else if sqliteAsciiUpper collation="RTRIM" then
      .text (String.ofList (trimEndMatches (· == ' ') text.toList))
    else .text text
  | value => value

end RustSql.Check
