import RustSql.Base.Kleene
import RustSql.Sql.Ast

/-!
# Comparisons

How the executor compares values, row values and lists of them, and what SQL says of each
comparison: unknown where a null stands in the way.
-/

namespace RustSql.Sql

/-- What the executor takes from elsewhere: arithmetic, casts, functions, patterns, and the
reading of texts as numbers. -/
structure Operators where
  /-- `-`, for a value that is not null. -/
  negate : Value → Except DbError Value
  /-- `~`, for a value that is not null. -/
  bitNot : Value → Except DbError Value
  castValue : Value → ColumnType → Except DbError Value
  evaluateBinaryScalar : ScalarBinaryOp → Value → Value → Except DbError Value
  evaluateScalarFunction : ScalarFunc → List Value → Except DbError Value
  /-- The number a text or blob begins with is not zero. -/
  isTrueText : String → Bool
  isTrueBlob : Bytes → Bool
  /-- `as f64`, as bits. -/
  toReal : Int64 → UInt64
  coerceTextLikeValue : Value → String
  checkEscapeChar : String → Except DbError Unit
  matchesLikePattern : String → String → Option String → Except DbError Bool
  matchesGlobPattern : String → String → Bool

section Code

variable (operators : Operators)

/-- `sqlite_storage_class_rank`. -/
def storageClassRank : Value → ℕ
  | .null => 0
  | .boolean _ | .integer _ | .real _ => 1
  | .text _ => 2
  | .blob _ => 3

/-- A boolean as a float, as bits. -/
def boolReal (value : Bool) : UInt64 := if value then 0x3FF0000000000000 else 0

/-- `f64::total_cmp`. -/
def totalCmp (left right : UInt64) : Ordering :=
  Ord.compare (realOrderKey left) (realOrderKey right)

/-- `compare`. -/
def compareValues : Value → Value → Option Ordering
  | .null, .null => some .eq
  | .null, _ => none
  | _, .null => none
  | .boolean left, .boolean right => some (Ord.compare left.toNat right.toNat)
  | .boolean left, .integer right => some (Ord.compare (left.toNat : ℤ) right.toInt)
  | .integer left, .boolean right => some (Ord.compare left.toInt (right.toNat : ℤ))
  | .boolean left, .real right => some (totalCmp (boolReal left) right)
  | .real left, .boolean right => some (totalCmp left (boolReal right))
  | .integer left, .integer right => some (Ord.compare left.toInt right.toInt)
  | .integer left, .real right => some (totalCmp (operators.toReal left) right)
  | .real left, .integer right => some (totalCmp left (operators.toReal right))
  | .real left, .real right => some (totalCmp left right)
  | .blob left, .blob right =>
    some (compareLists (fun x y : UInt8 => Ord.compare x.toNat y.toNat) left right)
  | .text left, .text right => some (Ord.compare left right)
  | left, right => some (Ord.compare (storageClassRank left) (storageClassRank right))

/-- `char::to_ascii_lowercase` of the ASCII characters. -/
def asciiLower (char : Char) : Char := if char.toNat < 128 then char.toLower else char

/-- `sqlite_nocase_cmp`. -/
def nocaseCmp (left right : String) : Ordering :=
  compareLists (fun x y : Char => Ord.compare (asciiLower x).toNat (asciiLower y).toNat)
    left.toList right.toList

/-- `sqlite_rtrim_cmp`. -/
def rtrimCmp (left right : String) : Ordering :=
  compareLists (fun x y : Char => Ord.compare x.toNat y.toNat)
    (left.toList.reverse.dropWhile (· == ' ')).reverse
    (right.toList.reverse.dropWhile (· == ' ')).reverse

/-- `compare_with_collation`. -/
def compareWithCollation (left right : Value) (collation : Option String) : Option Ordering :=
  match left, right with
  | .text leftText, .text rightText =>
    if collation.any fun name => eqIgnoreAsciiCase name "NOCASE" then
      some (nocaseCmp leftText rightText)
    else if collation.any fun name => eqIgnoreAsciiCase name "RTRIM" then
      some (rtrimCmp leftText rightText)
    else compareValues operators left right
  | left, right => compareValues operators left right

/-- The test of `compare_with_operator_with_collation`. -/
def operatorTest (op : CompareOp) (ordering : Option Ordering) : Bool :=
  match op with
  | .eq => ordering==some .eq
  | .ne => ordering≠some .eq
  | .gt => ordering==some .gt
  | .gte => ordering==some .gt || ordering==some .eq
  | .lt => ordering==some .lt
  | .lte => ordering==some .lt || ordering==some .eq

/-- `compare_with_operator_with_collation`. -/
def compareWithOperator (left : Value) (op : CompareOp) (right : Value)
    (collation : Option String) : Bool :=
  if left=.null ∨ right=.null then false
  else operatorTest op (compareWithCollation operators left right collation)

/-- `compare_result_value_with_collation`. -/
def compareResultValue (left : Value) (op : CompareOp) (right : Value)
    (collation : Option String) : Value :=
  if left=.null ∨ right=.null then .null
  else .boolean (compareWithOperator operators left op right collation)

/-- `sqlite_is_true_value`. -/
def isTrueValue : Value → Bool
  | .null => false
  | .integer value => value≠0
  | .real bits => bits*2≠0
  | .boolean value => value
  | .text value => operators.isTrueText value
  | .blob value => operators.isTrueBlob value

/-- `sqlite_not_value`. -/
def notValue : Value → Value
  | .null => .null
  | value => .boolean (!isTrueValue operators value)

/-- `is_with_negation`. -/
def isWithNegation (left right : Value) (negated : Bool) : Bool :=
  ((left=.null && right=.null) ||
    (left≠.null && right≠.null && compareValues operators left right==some .eq)) ^^ negated

/-- `tuple_is_with_negation`. -/
def tupleIsWithNegation (left right : List Value) (negated : Bool) : Bool :=
  (left.length==right.length &&
    (left.zip right).all fun pair => isWithNegation operators pair.1 pair.2 false) ^^ negated

/-- The loop of `in_membership`. -/
def inMembershipFrom (left : Value) (sawNull : Bool) : List Value → Option Bool
  | [] => if sawNull then none else some false
  | value :: values =>
    if value=.null then inMembershipFrom left true values
    else if compareValues operators left value=some .eq then some true
    else inMembershipFrom left sawNull values

/-- `in_membership`. -/
def inMembership (left : Value) (values : List Value) : Option Bool :=
  if values=[] then some false
  else if left=.null then none
  else inMembershipFrom operators left false values

/-- `evaluate_in_values`. -/
def evaluateInValues (left : Value) (values : List Value) (negated : Bool) : Bool :=
  match inMembership operators left values with
  | some result => result ^^ negated
  | none => false

/-- The first values of rows. -/
def firstValues (rows : List Row) : List Value := rows.map fun row => row.headD .null

/-- `evaluate_in_rows`. -/
def evaluateInRows (left : Value) (rows : List Row) (negated : Bool) : Bool :=
  evaluateInValues operators left (firstValues rows) negated

/-- A truth value as a value. -/
def truthValue : Truth → Value
  | some value => .boolean value
  | none => .null

/-- A boolean or null as a condition. -/
def valueHolds (value : Value) : Bool := value=.boolean true

/-- `in_result_value`. -/
def inResultValue (left : Value) (values : List Value) (negated : Bool) : Value :=
  match inMembership operators left values with
  | some result => .boolean (result ^^ negated)
  | none => .null

/-- The loop of `tuple_in_membership` over the places of one candidate: whether it can
match and whether a null is in the way. -/
def candidateMatch : List (Value × Value) → Bool → Bool × Bool
  | [], hasNull => (true,hasNull)
  | (left,right) :: rest, hasNull =>
    if left=.null ∨ right=.null then candidateMatch rest true
    else if compareValues operators left right=some .eq then candidateMatch rest hasNull
    else (false,hasNull)

/-- The loop of `tuple_in_membership`. -/
def tupleInMembershipFrom (left : List Value) (sawNull : Bool) : List (List Value) → Option Bool
  | [] => if sawNull then none else some false
  | candidate :: candidates =>
    if candidate.length≠left.length then tupleInMembershipFrom left sawNull candidates
    else
      let (canMatch,hasNull) := candidateMatch operators (left.zip candidate) false
      if canMatch && !hasNull then some true
      else tupleInMembershipFrom left (sawNull || (canMatch && hasNull)) candidates

/-- `tuple_in_membership`. -/
def tupleInMembership (left : List Value) (candidates : List (List Value)) : Option Bool :=
  if candidates=[] then some false
  else tupleInMembershipFrom operators left false candidates

/-- `tuple_in_result_value`. -/
def tupleInResultValue (left : List Value) (candidates : List (List Value)) (negated : Bool) :
    Value :=
  match tupleInMembership operators left candidates with
  | some result => .boolean (result ^^ negated)
  | none => .null

/-- The loop of `tuple_equality_result_value`. -/
def tupleEqualityFrom (op : CompareOp) (sawNull : Bool) : List (Value × Value) → Value
  | [] => if sawNull then .null else .boolean (op==.eq)
  | (left,right) :: rest =>
    if left=.null ∨ right=.null then tupleEqualityFrom op true rest
    else if compareValues operators left right=some .eq then tupleEqualityFrom op sawNull rest
    else .boolean (op==.ne)

/-- The loop of `tuple_order_result_value`. -/
def tupleOrderFrom (op : CompareOp) : List (Value × Value) → Value
  | [] => .boolean (op==.gte || op==.lte)
  | (left,right) :: rest =>
    if left=.null ∨ right=.null then .null
    else if compareValues operators left right=some .eq then tupleOrderFrom op rest
    else .boolean (operatorTest op (compareValues operators left right))

/-- `tuple_compare_result_value`. -/
def tupleCompareResultValue (left : List Value) (op : CompareOp) (right : List Value) :
    Except DbError Value :=
  if left.length≠right.length then
    .error (.plan "row-value comparisons require the same arity")
  else
    match op with
    | .eq | .ne => .ok (tupleEqualityFrom operators op false (left.zip right))
    | .gt | .gte | .lt | .lte => .ok (tupleOrderFrom operators op (left.zip right))

/-- `tuple_between_result_value`. -/
def tupleBetweenResultValue (value low high : List Value) (negated : Bool) :
    Except DbError Value := do
  let lower ← tupleCompareResultValue operators low .lte value
  let upper ← tupleCompareResultValue operators value .lte high
  if lower=.boolean false ∨ upper=.boolean false then .ok (.boolean (false ^^ negated))
  else if lower=.boolean true ∧ upper=.boolean true then .ok (.boolean (true ^^ negated))
  else .ok .null

/-- The value of `BETWEEN` in an expression. -/
def betweenValue (value low high : Value) (negated : Bool) : Value :=
  match compareValues operators value low, compareValues operators value high with
  | some lowCmp, some highCmp =>
    .boolean ((operatorTest .gte (some lowCmp) && operatorTest .lte (some highCmp)) ^^ negated)
  | _, _ => .null

end Code

end RustSql.Sql
