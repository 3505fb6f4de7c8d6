import RustSql.Check.Texts
import RustSql.Common.IntegerReals
import RustSql.Sql.Ast

/-!
# The arithmetic of the executor

The operators of expressions on the values of their operands: how an operand becomes a number
or a 64-bit integer, and what each operator does with it. Whether the negation of an `i64`
that does not fit panics or wraps depends on the build.
-/

namespace RustSql.Sql.Arithmetic

open RustSql.Check

/-- What the executor's arithmetic takes from the machine. -/
structure Machine extends Check.Machine where
  sub : UInt64 → UInt64 → UInt64

/-- A build of the program: with checks of integer overflow, or without them. -/
inductive Build where
  | checked
  | unchecked
  deriving DecidableEq

/-! ## Integers -/

/-- `i64::checked_sub`. -/
def checkedSub (left right : Int64) : Option Int64 :=
  if -2^63 ≤ left.toInt-right.toInt ∧ left.toInt-right.toInt < 2^63 then some (left-right)
  else none

/-- `-` of an `i64`; a panic where it does not fit and the build checks. -/
def negI64 (build : Build) (value : Int64) : Outcome Int64 := do
  Outcome.check (¬(build=.checked ∧ value=Int64.minValue))
  .ok (-value)

/-- `i64::wrapping_shl`. -/
def wrappingShl (value : Int64) (amount : ℕ) : Int64 :=
  Int64.ofBitVec (value.toBitVec <<< (amount%64))

/-- `i64::wrapping_shr`. -/
def wrappingShr (value : Int64) (amount : ℕ) : Int64 :=
  Int64.ofBitVec (value.toBitVec.sshiftRight (amount%64))

section Operands

variable (machine : Machine)

/-! ## The number a text begins with -/

/-- `sqlite_numeric_text_prefix`: the number and whether it is written as a real. -/
def sqliteNumericTextPrefix (value : String) : Outcome (Option (List Char × Bool)) := do
  let trimmed := trimStart value.toList
  let sign := scanSign trimmed
  let scan := scanDigits sign.1 sign.2 sign.1 false false
  if !scan.sawDigit then .ok none
  else
    let exponent := scanExponent scan.index scan.rest
    let found ← Text.sliceTo trimmed (exponent.getD scan.stop)
    .ok (some (found,scan.sawDot || exponent.isSome))

/-- `candidate.parse::<f64>().unwrap_or(0.0)`. -/
def parseRealOrZero (candidate : List Char) : UInt64 :=
  (machine.parseReal (String.ofList candidate)).getD 0

/-- `sqlite_text_real_prefix`. -/
def sqliteTextRealPrefix (value : String) : Outcome UInt64 := do
  let trimmed := trimStart value.toList
  let sign := scanSign trimmed
  let scan := scanDigits sign.1 sign.2 sign.1 false false
  if !scan.sawDigit then .ok 0
  else
    let found ← Text.sliceTo trimmed ((scanExponent scan.index scan.rest).getD scan.stop)
    .ok (parseRealOrZero machine found)

/-- `sqlite_text_integer_prefix`. -/
def sqliteTextIntegerPrefix (value : String) : Outcome Int64 := do
  let trimmed := trimStart value.toList
  let sign := scanSign trimmed
  let candidate ← Text.sliceTo trimmed (scanExponentDigits sign.1 sign.2 sign.1 false).1
  if candidate=[] ∨ candidate=['+'] ∨ candidate=['-'] then .ok 0
  else
    .ok ((parseI64 candidate).getD
      (if candidate.head?=some '-' then Int64.minValue else Int64.maxValue))

/-! ## Operands -/

/-- `coerce_sqlite_arithmetic_text`. -/
def coerceSqliteArithmeticText (value : String) : Outcome Value := do
  let found ← sqliteNumericTextPrefix value
  match found with
  | none => .ok (.integer 0)
  | some (candidate,hasRealSyntax) =>
    if !hasRealSyntax then
      match parseI64 candidate with
      | some value => .ok (.integer value)
      | none => .ok (.real (parseRealOrZero machine candidate))
    else .ok (.real (parseRealOrZero machine candidate))

/-- `coerce_sqlite_numeric_value`. -/
def coerceSqliteNumericValue : Value → Outcome Value
  | .null => .ok .null
  | .integer value => .ok (.integer value)
  | .real value => .ok (.real value)
  | .boolean value => .ok (.integer (if value then 1 else 0))
  | .text value => coerceSqliteArithmeticText machine value
  | .blob value => coerceSqliteArithmeticText machine (machine.fromUtf8Lossy value)

/-- `cast_value` to `INTEGER`. -/
def castInteger : Value → Outcome Value
  | .null => .ok .null
  | .integer value => .ok (.integer value)
  | .boolean value => .ok (.integer (if value then 1 else 0))
  | .real value => .ok (.integer (realToI64 value))
  | .text value => do
    let found ← sqliteTextIntegerPrefix value
    .ok (.integer found)
  | .blob value => do
    let found ← sqliteTextIntegerPrefix (machine.fromUtf8Lossy value)
    .ok (.integer found)

/-- `cast_value` to `REAL`. -/
def castReal : Value → Outcome Value
  | .null => .ok .null
  | .integer value => .ok (.real (i64ToReal value))
  | .boolean value => .ok (.real (if value then realOne else 0))
  | .real value => .ok (.real value)
  | .text value => do
    let found ← sqliteTextRealPrefix machine value
    .ok (.real found)
  | .blob value => do
    let found ← sqliteTextRealPrefix machine (machine.fromUtf8Lossy value)
    .ok (.real found)

/-- `sqlite_bitwise_integer_arg`. -/
def sqliteBitwiseIntegerArg (value : Value) : Outcome Int64 := do
  let cast ← castInteger machine value
  match cast with
  | .integer value => .ok value
  | .null => .ok 0
  -- integer cast must yield INTEGER or NULL
  | _ => .stuck

/-- `coerce_sqlite_numeric_real`. -/
def coerceSqliteNumericReal (value : Value) : Outcome UInt64 := do
  let cast ← castReal machine value
  match cast with
  | .real value => .ok value
  | .null => .ok 0
  -- real cast must yield REAL or NULL
  | _ => .stuck

/-! ## Operators -/

/-- `sqlite_numeric_binary_op`. -/
def sqliteNumericBinaryOp (left right : Value) (intOp : Int64 → Int64 → Option Int64)
    (realOp : UInt64 → UInt64 → UInt64) : Outcome Value := do
  let left ← coerceSqliteNumericValue machine left
  let right ← coerceSqliteNumericValue machine right
  match left, right with
  | .integer left, .integer right =>
    match intOp left right with
    | some result => .ok (.integer result)
    | none => .ok (.real (realOp (i64ToReal left) (i64ToReal right)))
  | .integer left, .real right => .ok (.real (realOp (i64ToReal left) right))
  | .real left, .integer right => .ok (.real (realOp left (i64ToReal right)))
  | .real left, .real right => .ok (.real (realOp left right))
  -- sqlite numeric coercion only returns numeric values
  | _, _ => .stuck

/-- `sqlite_divide_op`. -/
def sqliteDivideOp (left right : Value) : Outcome Value := do
  let left ← coerceSqliteNumericValue machine left
  let right ← coerceSqliteNumericValue machine right
  match left, right with
  | .integer left, .integer right =>
    if right=0 then .ok .null
    else if left=Int64.minValue ∧ right=-1 then
      .ok (.real (machine.div (i64ToReal Int64.minValue) realMinusOne))
    else do
      let quotient ← divI64 left right
      .ok (.integer quotient)
  | .integer left, .real right =>
    if realEq right 0 then .ok .null else .ok (.real (machine.div (i64ToReal left) right))
  | .real left, .integer right =>
    if right=0 then .ok .null else .ok (.real (machine.div left (i64ToReal right)))
  | .real left, .real right =>
    if realEq right 0 then .ok .null else .ok (.real (machine.div left right))
  | _, _ => .stuck

/-- The integer of an operand of `%`. -/
def moduloOperand : Value → Outcome Int64
  | .integer value => .ok value
  | .real value => .ok (realToI64 value)
  | _ => .stuck

/-- Whether a value is a real. -/
def isReal : Value → Bool
  | .real _ => true
  | _ => false

/-- `sqlite_modulo_op`. -/
def sqliteModuloOp (left right : Value) : Outcome Value := do
  let left ← coerceSqliteNumericValue machine left
  let right ← coerceSqliteNumericValue machine right
  if left=.null ∨ right=.null then .ok .null
  else
    let resultIsReal := isReal left || isReal right
    let left ← moduloOperand left
    let right ← moduloOperand right
    if right=0 then .ok .null
    else
      let result ← if left=Int64.minValue ∧ right=-1 then .ok 0 else remI64 left right
      .ok (if resultIsReal then .real (i64ToReal result) else .integer result)

/-- `sqlite_bitwise_binary_op`. -/
def sqliteBitwiseBinaryOp (left right : Value) (op : Int64 → Int64 → Int64) : Outcome Value := do
  let left ← sqliteBitwiseIntegerArg machine left
  let right ← sqliteBitwiseIntegerArg machine right
  .ok (.integer (op left right))

/-- `sqlite_shift_op`. -/
def sqliteShiftOp (left right : Value) (leftShift : Bool) : Outcome Value := do
  let left ← sqliteBitwiseIntegerArg machine left
  let right ← sqliteBitwiseIntegerArg machine right
  let shiftLeft := if right < 0 then !leftShift else leftShift
  -- `unsigned_abs`
  let amount := right.toInt.natAbs
  if 64 ≤ amount then .ok (.integer (if shiftLeft ∨ 0 ≤ left then 0 else -1))
  else
    -- shift amount < 64 fits in u32
    Outcome.check (amount < 2^32)
    .ok (.integer (if shiftLeft then wrappingShl left amount else wrappingShr left amount))

/-- `evaluate_binary_scalar`. What joins texts and reads JSON is taken from elsewhere. -/
def evaluateBinaryScalar (texts : ScalarBinaryOp → Value → Value → Except DbError Value)
    (op : ScalarBinaryOp) (left right : Value) : Outcome Value :=
  if left=.null ∨ right=.null then .ok .null
  else
    match op with
    | .add => sqliteNumericBinaryOp machine left right checkedAdd machine.add
    | .subtract => sqliteNumericBinaryOp machine left right checkedSub machine.sub
    | .multiply => sqliteNumericBinaryOp machine left right checkedMul machine.mul
    | .divide => sqliteDivideOp machine left right
    | .modulo => sqliteModuloOp machine left right
    | .bitAnd => sqliteBitwiseBinaryOp machine left right fun l r => l &&& r
    | .bitOr => sqliteBitwiseBinaryOp machine left right fun l r => l ||| r
    | .shiftLeft => sqliteShiftOp machine left right true
    | .shiftRight => sqliteShiftOp machine left right false
    | .concat | .jsonExtract | .jsonExtractText => Outcome.ofExcept (texts op left right)

/-- The negation of a number. -/
def negateNumber (build : Build) : Value → Outcome Value
  | .integer value => do
    let negated ← negI64 build value
    .ok (.integer negated)
  | .real value => .ok (.real (realNeg value))
  | .null => .ok .null
  | _ => .stuck

/-- The two copies of the evaluator: that of select lists and that of filters. -/
inductive Evaluator where
  | selectList
  | filter

/-- `UnaryMinus` on the value of its operand, as each copy has it. -/
def unaryMinus (build : Build) : Evaluator → Value → Outcome Value
  | .selectList, value =>
    if value=.null then .ok .null
    else do
      let number ← coerceSqliteNumericValue machine value
      negateNumber build number
  | .filter, value =>
    if value=.null then .ok .null
    else do
      let number ← coerceSqliteNumericValue machine value
      negateNumber build number

/-- `BitNot` on the value of its operand, as each copy has it. -/
def bitNot : Evaluator → Value → Outcome Value
  | .selectList, value =>
    if value=.null then .ok .null
    else do
      let found ← sqliteBitwiseIntegerArg machine value
      .ok (.integer (~~~found))
  | .filter, value =>
    if value=.null then .ok .null
    else do
      let found ← sqliteBitwiseIntegerArg machine value
      .ok (.integer (~~~found))

/-- `expect_arity`. -/
def expectArity (functionName : String) (args : List Value) (expected : ℕ) : Except DbError Unit :=
  if args.length=expected then .ok ()
  else .error (.plan s!"{functionName} expects {expected} arguments but got {args.length}")

/-- `ABS`. -/
def absFunction (args : List Value) : Outcome Value := do
  Outcome.ofExcept (expectArity "ABS" args 1)
  match args with
  | .null :: _ => .ok .null
  | .integer value :: _ =>
    match checkedAbs value with
    | some value => .ok (.integer value)
    | none => .err (.plan "ABS overflowed i64")
  | .real value :: _ => .ok (.real (realAbs value))
  | value :: _ => do
    let found ← coerceSqliteNumericReal machine value
    .ok (.real (realAbs found))
  | [] => .stuck

end Operands

end RustSql.Sql.Arithmetic
