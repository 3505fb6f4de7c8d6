import RustSql.Check.Functions
import RustSql.Check.Syntax

/-!
# The evaluation of conditions

`evaluate_check_expr`: the truth of a condition on a row, none where it is unknown.
-/

namespace RustSql.Check

/-- `evaluate_check_compare`. -/
def evaluateCheckCompare (machine : Machine) (left : Value) (op : CheckOp) (right : Value) :
    Option Bool :=
  let ordering :=
    match left, right with
    | .boolean left, .boolean right => some (compare left right)
    | .integer left, .integer right => some (compare left.toInt right.toInt)
    | .integer left, .real right => some (totalCmp (machine.toReal left) right)
    | .real left, .integer right => some (totalCmp left (machine.toReal right))
    | .real left, .real right => some (totalCmp left right)
    | .blob left, .blob right =>
      some (compareLists (fun x y : UInt8 => compare x.toNat y.toNat) left right)
    | .text left, .text right => some (compare left right)
    | _, _ => none
  if left=.null ∨ right=.null then none
  else
    match ordering with
    | none => some false
    | some ordering =>
      some (match op with
        | .eq => ordering==.eq
        | .ne => ordering≠.eq
        | .gt => ordering==.gt
        | .gte => ordering==.gt || ordering==.eq
        | .lt => ordering==.lt
        | .lte => ordering==.lt || ordering==.eq)

/-- The comparison of a computed value, unknown when there is none. -/
def compareComputed (machine : Machine) (computed : Option Value) (op : CheckOp) (value : Value) :
    Outcome (Option Bool) :=
  .ok (computed.bind fun left => evaluateCheckCompare machine left op value)

/-- `AND` of two truths. -/
def andTruth : Option Bool → Option Bool → Option Bool
  | some false, _ => some false
  | _, some false => some false
  | some true, some true => some true
  | _, _ => none

/-- `OR` of two truths. -/
def orTruth : Option Bool → Option Bool → Option Bool
  | some true, _ => some true
  | _, some true => some true
  | some false, some false => some false
  | _, _ => none

section Evaluate

variable (machine : Machine) (schema : Schema) (row : Row) (caseSensitiveLike : Bool)

/-- The value of a column, as the evaluator asks for it. -/
def columnValue (column : String) : Outcome Value :=
  Outcome.ofExcept (schema.valueForColumn row column)

/-- `evaluate_check_expr`. -/
def evaluateCheckExpr : CheckExpr → Outcome (Option Bool)
  | .compare column op value => do
    let left ← columnValue schema row column
    .ok (evaluateCheckCompare machine left op value)
  | .isNull column negated => do
    let value ← columnValue schema row column
    .ok (some ((value=.null) ^^ negated))
  | .glob column pattern negated => do
    let value ← columnValue schema row column
    if value=.null then .ok none
    else
      let found ← matchesGlobPattern (sqliteTextLikeValue machine value) pattern
      .ok (some (found ^^ negated))
  | .regexp column pattern negated => do
    let value ← columnValue schema row column
    if value=.null then .ok none
    else
      let found ← sqliteCheckRegexp pattern (sqliteTextLikeValue machine value)
      .ok (some (found ^^ negated))
  | .like column pattern escape negated => do
    let value ← columnValue schema row column
    if value=.null then .ok none
    else
      let found ← Outcome.ofExcept (matchesLikePattern (sqliteTextLikeValue machine value) pattern
        escape caseSensitiveLike)
      .ok (some (found ^^ negated))
  | .inList column values negated => do
    let value ← columnValue schema row column
    if value=.null then .ok none
    else if values.contains value then .ok (some (!negated))
    else if values.contains .null then .ok none
    else .ok (some negated)
  | .between column low high negated => do
    let value ← columnValue schema row column
    if value=.null ∨ low=.null ∨ high=.null then .ok none
    else
      let within := value.cmp low≠.lt ∧ value.cmp high≠.gt
      .ok (some (within ^^ negated))
  | .isBool column expected negated => do
    let value ← columnValue schema row column
    let truthy ← if value=.null then .ok false else sqliteCheckTruthy machine value
    .ok (some ((value≠.null && truthy==expected) ^^ negated))
  | .truthy column => do
    let value ← columnValue schema row column
    if value=.null then .ok none
    else
      let truthy ← sqliteCheckTruthy machine value
      .ok (some truthy)
  | .isDistinct column value negated => do
    let left ← columnValue schema row column
    .ok (some (checkValuesAreNotDistinct left value ^^ negated))
  | .lengthCompare column op value => do
    let left ← columnValue schema row column
    compareComputed machine ((sqliteCheckLength machine left).map .integer) op value
  | .octetLengthCompare column op value => do
    let left ← columnValue schema row column
    compareComputed machine ((sqliteCheckOctetLength machine left).map .integer) op value
  | .unicodeCompare column op value => do
    let left ← columnValue schema row column
    compareComputed machine ((sqliteCheckUnicode machine left).map .integer) op value
  | .unicodeIsNull column negated => do
    let left ← columnValue schema row column
    .ok (some ((sqliteCheckUnicode machine left).isNone ^^ negated))
  | .signCompare column op value => do
    let left ← columnValue schema row column
    compareComputed machine ((sqliteCheckSign machine left).map .integer) op value
  | .hexCompare column op value => do
    let left ← columnValue schema row column
    .ok (evaluateCheckCompare machine (.text (sqliteCheckHex machine left)) op value)
  | .quoteCompare column op value => do
    let left ← columnValue schema row column
    .ok (evaluateCheckCompare machine (.text (sqliteCheckQuote machine left)) op value)
  | .nullIfIsNull column value negated => do
    let left ← columnValue schema row column
    .ok (some (sqliteCheckNullif left value ^^ negated))
  | .replaceCompare column pattern replacement op value => do
    let left ← columnValue schema row column
    compareComputed machine ((sqliteCheckReplace machine left pattern replacement).map .text) op
      value
  | .replaceColumnCompare column pattern replacement op => do
    let left ← columnValue schema row column
    compareComputed machine ((sqliteCheckReplace machine left pattern replacement).map .text) op
      left
  | .roundCompare column precision op value => do
    let left ← columnValue schema row column
    let rounded ← sqliteCheckRound machine left precision
    compareComputed machine (rounded.map .real) op value
  | .roundingCompare column func op value => do
    let left ← columnValue schema row column
    compareComputed machine (sqliteCheckRounding machine left func) op value
  | .castCompare column targetType op value => do
    let left ← columnValue schema row column
    let casted ← sqliteCheckCast machine left targetType
    .ok (evaluateCheckCompare machine casted op value)
  | .minMaxColumnCompare column limit min op => do
    let left ← columnValue schema row column
    compareComputed machine (sqliteCheckMinMax left limit min) op left
  | .concatCompare column suffix op value => do
    let left ← columnValue schema row column
    .ok (evaluateCheckCompare machine (.text (sqliteCheckConcat machine left suffix)) op value)
  | .concatWsCompare column separator suffix op value =>
    match separator with
    | none => .ok none
    | some separator => do
      let left ← columnValue schema row column
      .ok (evaluateCheckCompare machine (.text (sqliteCheckConcatWs machine left separator suffix))
        op value)
  | .jsonValidCompare column flags compare => do
    let left ← columnValue schema row column
    let valid ← sqliteCheckJsonValid machine left flags
    match valid, compare with
    | none, _ => .ok none
    | some valid, some (op,value) =>
      .ok (evaluateCheckCompare machine (.integer (if valid then 1 else 0)) op value)
    | some valid, none => .ok (some valid)
  | .absCompare column op value => do
    let left ← columnValue schema row column
    let absValue ← sqliteCheckAbs machine left
    compareComputed machine absValue op value
  | .unaryMathCompare column func op value => do
    let left ← columnValue schema row column
    compareComputed machine ((sqliteCheckUnaryMath machine left func).map .real) op value
  | .binaryMathCompare column func argument columnIsSecond op value => do
    let left ← columnValue schema row column
    compareComputed machine
      ((sqliteCheckBinaryMath machine left argument func columnIsSecond).map .real) op value
  | .arithmeticCompare column addend op value => do
    let left ← columnValue schema row column
    let sum ← sqliteCheckAdd machine left addend
    compareComputed machine sum op value
  | .multiplyCompare column factor op value => do
    let left ← columnValue schema row column
    let product ← sqliteCheckMultiply machine left factor
    compareComputed machine product op value
  | .divideCompare column divisor op value => do
    let left ← columnValue schema row column
    let quotient ← sqliteCheckDivide machine left divisor
    compareComputed machine quotient op value
  | .moduloCompare column divisor op value _ => do
    let left ← columnValue schema row column
    let remainder ← sqliteCheckModulo machine left divisor
    compareComputed machine remainder op value
  | .typeOfCompare column op value => do
    let left ← columnValue schema row column
    .ok (evaluateCheckCompare machine (.text (sqliteTypeofName left)) op value)
  | .noCaseCompare column collation op value => do
    let left ← columnValue schema row column
    .ok (evaluateCheckCompare machine (sqliteCheckCollatedValue left collation) op
      (sqliteCheckCollatedValue value collation))
  | .caseFoldCompare column upper op value => do
    let left ← columnValue schema row column
    if left=.null then .ok none
    else
      let text := sqliteTextLikeValue machine left
      let folded := if upper then sqliteAsciiUpper text else sqliteAsciiLower text
      .ok (evaluateCheckCompare machine (.text folded) op value)
  | .trimCompare column side characters op value => do
    let left ← columnValue schema row column
    if left=.null then .ok none
    else
      let text := sqliteTrim (sqliteTextLikeValue machine left) side characters
      .ok (evaluateCheckCompare machine (.text text) op value)
  | .coalesceCompare column fallbacks op value => do
    let left ← columnValue schema row column
    let fallback := (fallbacks.find? fun value => value≠.null).getD .null
    let candidate := if left=.null then fallback else left
    .ok (evaluateCheckCompare machine candidate op value)
  | .instrCompare column needle op value => do
    let left ← columnValue schema row column
    let position ← sqliteCheckInstr machine left needle
    compareComputed machine (position.map .integer) op value
  | .substrCompare column start length op value => do
    let left ← columnValue schema row column
    if left=.null then .ok none
    else
      let text ← sqliteSubstrText (sqliteTextLikeValue machine left) start length
      .ok (evaluateCheckCompare machine (.text text) op value)
  | .and left right => do
    let left ← evaluateCheckExpr left
    let right ← evaluateCheckExpr right
    .ok (andTruth left right)
  | .or left right => do
    let left ← evaluateCheckExpr left
    let right ← evaluateCheckExpr right
    .ok (orTruth left right)
  | .not expr => do
    let value ← evaluateCheckExpr expr
    .ok (value.map fun value => !value)

end Evaluate

/-- A machine for conditions that compute with integers only. -/
def integerMachine : Machine where
  toReal _ := 0
  u128ToReal _ := 0
  add left _ := left
  mul left _ := left
  div left _ := left
  ceil value := value
  floor value := value
  trunc value := value
  round value := value
  tenPowi _ := realOne
  unaryMath _ value := value
  powf left _ := left
  atan2 left _ := left
  log value _ := value
  realToString _ := "0"
  parseReal _ := none
  fromUtf8Lossy _ := ""
  readsJson _ := false

end RustSql.Check
