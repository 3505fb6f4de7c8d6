import RustSql.Sql.AskedParts
import RustSql.Sql.ThreeValued

/-!
# Filters and truth

What SQL says of a filter, and what `matches_filter` makes of it: the two agree unless a
negation stands over an unknown or a bound of `BETWEEN` is null.
-/

namespace RustSql.Sql

open RustSql.V2

variable {S : Type} (operators : Operators) (executeSubqueryRows : SubqueryRows S)
  (transactionId : TransactionId) (scope : Scope)

/-! ## Truth -/

/-- The values of expressions in SQL, subqueries included. -/
def sqlReading : Reading S where
  lookup := scope.lookup
  between value low high negated :=
    truthValue ((betweenTruth operators value low high).withNegation negated)
  inSubquery left query negated := do
    let left ← left
    let rows ← executeSubquery executeSubqueryRows transactionId query
      (some (scope.source,scope.row))
    .ok (truthValue ((inTruth operators left (firstValues rows.rows)).withNegation negated))
  tupleInSubquery left query negated := do
    let left ← left
    let rows ← executeSubqueryRows transactionId query (some (scope.source,scope.row))
    .ok (truthValue ((tupleInTruth operators left rows.rows).withNegation negated))
  compareSubquery left collation op query := do
    let left ← left
    let right ← scalarSubqueryValue executeSubqueryRows transactionId query
      (some (scope.source,scope.row))
    .ok (truthValue (compareTruth operators left op right collation))
  tupleCompareSubquery left op query := do
    let left ← left
    let right ← tupleSubqueryValue executeSubqueryRows transactionId query
      (some (scope.source,scope.row))
    tupleCompareResultValue operators left op right
  subquery query := scalarSubqueryValue executeSubqueryRows transactionId query
    (some (scope.source,scope.row))

/-- A comparison of row values, which have one length. -/
def tupleCompareTruth (left : List Value) (op : CompareOp) (right : List Value) :
    Except DbError Truth :=
  if left.length≠right.length then
    .error (.plan "row-value comparisons require the same arity")
  else .ok (tupleTruth operators left op right)

/-- `LIKE`, once its pattern and its escape are known. -/
def likeTruth (pattern escape : LikeEscapeValue) (negated : Bool) (value : Value) :
    Except DbError Truth :=
  if value=.null then .ok none
  else do
    let found ← operators.matchesLikePattern (operators.coerceTextLikeValue value)
      (pattern.asOptionString.getD "") escape.asOptionString
    .ok (some (found ^^ negated))

/-- `GLOB`, once its pattern is known. -/
def globTruth (pattern : LikeEscapeValue) (negated : Bool) (value : Value) : Truth :=
  if value=.null then none
  else some (operators.matchesGlobPattern (operators.coerceTextLikeValue value)
    (pattern.asOptionString.getD "") ^^ negated)

/-- The truth value of a filter for a row. Operands are evaluated in the order of the code,
and the right side of a conjunction or disjunction only where the left does not decide; an
error there does not count when the left is unknown. -/
def truth : Expr S → Except DbError Truth
  | .compare column op value => do
    let (left, collation) ← scope.lookupWithCollation column
    .ok (compareTruth operators left op value collation)
  | .compareColumns left op right => do
    let (left, leftCollation) ← scope.lookupWithCollation left
    let (right, rightCollation) ← scope.lookupWithCollation right
    .ok (compareTruth operators left op right (leftCollation.or rightCollation))
  | .compareScalar left op right =>
    let reading := sqlReading operators executeSubqueryRows transactionId scope
    match left.asTuple, right.asTuple with
    | some leftExprs, some rightExprs => do
      let left ← evaluateAll operators reading leftExprs
      let right ← evaluateAll operators reading rightExprs
      tupleCompareTruth operators left op right
    | _, _ => do
      let leftValue ← evaluate operators reading left
      let rightValue ← evaluate operators reading right
      .ok (compareTruth operators leftValue op rightValue (left.collation.or right.collation))
  | .isNull column negated => do
    let left ← scope.lookup column
    .ok (some ((left=.null) ^^ negated))
  | .isNullScalar expr negated => do
    let value ← evaluate operators
      (sqlReading operators executeSubqueryRows transactionId scope) expr
    .ok (some ((value=.null) ^^ negated))
  | .is left right negated =>
    let reading := sqlReading operators executeSubqueryRows transactionId scope
    match left.asTuple, right.asTuple with
    | some leftExprs, some rightExprs => do
      let left ← evaluateAll operators reading leftExprs
      let right ← evaluateAll operators reading rightExprs
      .ok (some (tupleIsWithNegation operators left right negated))
    | _, _ => do
      let left ← evaluate operators reading left
      let right ← evaluate operators reading right
      .ok (some (isWithNegation operators left right negated))
  | .isBool expr value negated explicit => do
    let evaluated ← evaluate operators
      (sqlReading operators executeSubqueryRows transactionId scope) expr
    -- an expression that stands as a condition is unknown when it is null
    if evaluated=.null ∧ explicit=false ∧ value=true ∧ negated=false then .ok none
    else
      .ok (some ((evaluated≠.null && isTrueValue operators evaluated==value) ^^ negated))
  | .inSubquery column query negated => do
    let left ← scope.lookup column
    let rows ← executeSubquery executeSubqueryRows transactionId query
      (some (scope.source,scope.row))
    .ok ((inTruth operators left (firstValues rows.rows)).withNegation negated)
  | .inList column values negated => do
    let left ← scope.lookup column
    .ok ((inTruth operators left values).withNegation negated)
  | .inSubqueryScalar expr query negated =>
    let reading := sqlReading operators executeSubqueryRows transactionId scope
    match expr.asTuple with
    | some exprs => do
      let left ← evaluateAll operators reading exprs
      let rows ← executeSubqueryRows transactionId query (some (scope.source,scope.row))
      .ok ((tupleInTruth operators left rows.rows).withNegation negated)
    | none => do
      let left ← evaluate operators reading expr
      let rows ← executeSubquery executeSubqueryRows transactionId query
        (some (scope.source,scope.row))
      .ok ((inTruth operators left (firstValues rows.rows)).withNegation negated)
  | .inListScalar expr values negated =>
    let reading := sqlReading operators executeSubqueryRows transactionId scope
    match expr.asTuple with
    | some exprs => do
      let left ← evaluateAll operators reading exprs
      let candidates ← evaluateTuples operators reading values
      .ok ((tupleInTruth operators left candidates).withNegation negated)
    | none => do
      let left ← evaluate operators reading expr
      let values ← evaluateAll operators reading values
      .ok ((inTruth operators left values).withNegation negated)
  | .compareSubquery column op query => do
    let left ← scope.lookup column
    let right ← scalarSubqueryValue executeSubqueryRows transactionId query
      (some (scope.source,scope.row))
    .ok (compareTruth operators left op right none)
  | .compareSubqueryScalar left op query =>
    let reading := sqlReading operators executeSubqueryRows transactionId scope
    match left.asTuple with
    | some exprs => do
      let left ← evaluateAll operators reading exprs
      let right ← tupleSubqueryValue executeSubqueryRows transactionId query
        (some (scope.source,scope.row))
      tupleCompareTruth operators left op right
    | none => do
      let left ← evaluate operators reading left
      let right ← scalarSubqueryValue executeSubqueryRows transactionId query
        (some (scope.source,scope.row))
      .ok (compareTruth operators left op right none)
  | .existsSubquery query negated => do
    let rows ← executeSubquery executeSubqueryRows transactionId query
      (some (scope.source,scope.row))
    .ok (some (!rows.rows.isEmpty ^^ negated))
  | .like column pattern escape negated => do
    let reading := sqlReading operators executeSubqueryRows transactionId scope
    let patternValue ← evaluate operators reading pattern
    if patternValue=.null then .ok none
    else
      let escapeValue ← evaluateEscape operators reading escape
      if escapeValue=.null then .ok none
      else
        let value ← scope.lookup column
        likeTruth operators (likePattern operators patternValue) escapeValue negated value
  | .likeScalar expr pattern escape negated => do
    let reading := sqlReading operators executeSubqueryRows transactionId scope
    let patternValue ← evaluate operators reading pattern
    if patternValue=.null then .ok none
    else
      let escapeValue ← evaluateEscape operators reading escape
      if escapeValue=.null then .ok none
      else
        let value ← evaluate operators reading expr
        likeTruth operators (likePattern operators patternValue) escapeValue negated value
  | .glob column pattern negated => do
    let patternValue ← evaluate operators
      (sqlReading operators executeSubqueryRows transactionId scope) pattern
    if patternValue=.null then .ok none
    else
      let value ← scope.lookup column
      .ok (globTruth operators (likePattern operators patternValue) negated value)
  | .globScalar expr pattern negated => do
    let reading := sqlReading operators executeSubqueryRows transactionId scope
    let patternValue ← evaluate operators reading pattern
    if patternValue=.null then .ok none
    else
      let value ← evaluate operators reading expr
      .ok (globTruth operators (likePattern operators patternValue) negated value)
  | .between column low high negated => do
    let value ← scope.lookup column
    .ok ((betweenTruth operators value low high).withNegation negated)
  | .betweenScalar expr low high negated =>
    let reading := sqlReading operators executeSubqueryRows transactionId scope
    match expr.asTuple, low.asTuple, high.asTuple with
    | some valueExprs, some lowExprs, some highExprs => do
      let value ← evaluateAll operators reading valueExprs
      let low ← evaluateAll operators reading lowExprs
      let high ← evaluateAll operators reading highExprs
      let lower ← tupleCompareTruth operators low .lte value
      let upper ← tupleCompareTruth operators value .lte high
      .ok ((lower.and upper).withNegation negated)
    | _, _, _ => do
      let value ← evaluate operators reading expr
      let low ← evaluate operators reading low
      let high ← evaluate operators reading high
      .ok ((betweenTruth operators value low high).withNegation negated)
  | .not expr => do
    let found ← truth expr
    .ok found.not
  | .and left right => do
    match ← truth left with
    | some false => .ok (some false)
    | some true => truth right
    | none =>
      match truth right with
      | .ok found => .ok (Truth.and none found)
      | .error _ => .ok none
  | .or left right => do
    match ← truth left with
    | some true => .ok (some true)
    | found =>
      let other ← truth right
      .ok (found.or other)

/-! ## The filters as they are evaluated -/

section Equations

variable (currentTxn : Option TransactionId)

-- Both are large: their equations are derived once, before the lemmas that use them.
attribute [local simp] matchesFilter truth

/-- A list of expressions in a filter is read one after another. -/
theorem evaluateAll_filter (exprs : List (ScalarExpr S)) :
    exprs.mapM (evaluateFilterScalarExpr operators executeSubqueryRows currentTxn scope)=
      evaluateAll operators (filterReading operators executeSubqueryRows currentTxn scope)
        exprs :=
  (evaluateAll_eq operators _ exprs).symm

/-- A comparison in a filter, over its reading. -/
theorem matchesFilter_compareScalar (left : ScalarExpr S) (op : CompareOp)
    (right : ScalarExpr S) :
    matchesFilter operators executeSubqueryRows transactionId currentTxn scope
        (.compareScalar left op right)=
      (let reading := filterReading operators executeSubqueryRows currentTxn scope
      match left.asTuple, right.asTuple with
      | some leftExprs, some rightExprs => do
        let left ← evaluateAll operators reading leftExprs
        let right ← evaluateAll operators reading rightExprs
        let result ← tupleCompareResultValue operators left op right
        .ok (valueHolds result)
      | _, _ => do
        let leftValue ← evaluate operators reading left
        let rightValue ← evaluate operators reading right
        .ok (compareWithOperator operators leftValue op rightValue
          (left.collation.or right.collation))) := by
  cases left with
  | tuple leftExprs =>
    cases right with
    | tuple rightExprs => simp only [matchesFilter,evaluateAll_filter,ScalarExpr.asTuple]
    | _ => rfl
  | _ => rfl

/-- `IS` in a filter, over its reading. -/
theorem matchesFilter_is (left right : ScalarExpr S) (negated : Bool) :
    matchesFilter operators executeSubqueryRows transactionId currentTxn scope
        (.is left right negated)=
      (let reading := filterReading operators executeSubqueryRows currentTxn scope
      match left.asTuple, right.asTuple with
      | some leftExprs, some rightExprs => do
        let left ← evaluateAll operators reading leftExprs
        let right ← evaluateAll operators reading rightExprs
        .ok (tupleIsWithNegation operators left right negated)
      | _, _ => do
        let left ← evaluate operators reading left
        let right ← evaluate operators reading right
        .ok (isWithNegation operators left right negated)) := by
  cases left with
  | tuple leftExprs =>
    cases right with
    | tuple rightExprs => simp only [matchesFilter,evaluateAll_filter,ScalarExpr.asTuple]
    | _ => rfl
  | _ => rfl

/-- `IN` with a subquery in a filter, over its reading. -/
theorem matchesFilter_inSubqueryScalar (expr : ScalarExpr S) (query : S) (negated : Bool) :
    matchesFilter operators executeSubqueryRows transactionId currentTxn scope
        (.inSubqueryScalar expr query negated)=
      (let reading := filterReading operators executeSubqueryRows currentTxn scope
      match expr.asTuple with
      | some exprs => do
        let left ← evaluateAll operators reading exprs
        let rows ← executeSubqueryRows transactionId query (some (scope.source,scope.row))
        .ok (valueHolds (tupleInResultValue operators left rows.rows negated))
      | none => do
        let left ← evaluate operators reading expr
        let rows ← executeSubquery executeSubqueryRows transactionId query
          (some (scope.source,scope.row))
        .ok (evaluateInRows operators left rows.rows negated)) := by
  cases expr with
  | tuple exprs => simp only [matchesFilter,evaluateAll_filter,ScalarExpr.asTuple]
  | _ => rfl

/-- The candidates of an `IN` in a filter, over its reading. -/
theorem candidates_filter (values : List (ScalarExpr S)) :
    (values.mapM fun candidate =>
      match candidate with
      | .tuple exprs =>
        exprs.mapM (evaluateFilterScalarExpr operators executeSubqueryRows currentTxn scope)
      | expr => do
        let single ← evaluateFilterScalarExpr operators executeSubqueryRows currentTxn scope expr
        .ok [single])=
      evaluateTuples operators (filterReading operators executeSubqueryRows currentTxn scope)
        values := by
  induction values with
  | nil => rfl
  | cons value values ih =>
    rw [List.mapM_cons,ih,evaluateTuples_cons]
    cases value with
    | tuple exprs =>
      dsimp only
      rw [evaluateAll_filter]
      rfl
    | _ => rfl

/-- `IN` in a filter, over its reading. -/
theorem matchesFilter_inListScalar (expr : ScalarExpr S) (values : List (ScalarExpr S))
    (negated : Bool) :
    matchesFilter operators executeSubqueryRows transactionId currentTxn scope
        (.inListScalar expr values negated)=
      (let reading := filterReading operators executeSubqueryRows currentTxn scope
      match expr.asTuple with
      | some exprs => do
        let left ← evaluateAll operators reading exprs
        let candidates ← evaluateTuples operators reading values
        .ok (valueHolds (tupleInResultValue operators left candidates negated))
      | none => do
        let left ← evaluate operators reading expr
        let values ← evaluateAll operators reading values
        .ok (evaluateInValues operators left values negated)) := by
  cases expr with
  | tuple exprs =>
    exact congrArg₂ (fun left candidates => do
        let left ← left
        let candidates ← candidates
        Except.ok (valueHolds (tupleInResultValue operators left candidates negated)))
      (evaluateAll_filter operators executeSubqueryRows scope currentTxn exprs)
      (candidates_filter operators executeSubqueryRows scope currentTxn values)
  | _ =>
    simp only [matchesFilter,evaluateAll_filter,ScalarExpr.asTuple]
    rfl

/-- A comparison with a subquery in a filter, over its reading. -/
theorem matchesFilter_compareSubqueryScalar (left : ScalarExpr S) (op : CompareOp) (query : S) :
    matchesFilter operators executeSubqueryRows transactionId currentTxn scope
        (.compareSubqueryScalar left op query)=
      (let reading := filterReading operators executeSubqueryRows currentTxn scope
      match left.asTuple with
      | some exprs => do
        let left ← evaluateAll operators reading exprs
        let right ← tupleSubqueryValue executeSubqueryRows transactionId query
          (some (scope.source,scope.row))
        let result ← tupleCompareResultValue operators left op right
        .ok (valueHolds result)
      | none => do
        let left ← evaluate operators reading left
        let right ← scalarSubqueryValue executeSubqueryRows transactionId query
          (some (scope.source,scope.row))
        .ok (compareWithOperator operators left op right none)) := by
  cases left with
  | tuple exprs => simp only [matchesFilter,evaluateAll_filter,ScalarExpr.asTuple]
  | _ => rfl

/-- `BETWEEN` in a filter, over its reading. -/
theorem matchesFilter_betweenScalar (expr low high : ScalarExpr S) (negated : Bool) :
    matchesFilter operators executeSubqueryRows transactionId currentTxn scope
        (.betweenScalar expr low high negated)=
      (let reading := filterReading operators executeSubqueryRows currentTxn scope
      match expr.asTuple, low.asTuple, high.asTuple with
      | some valueExprs, some lowExprs, some highExprs => do
        let values ← evaluateAll operators reading valueExprs
        let low ← evaluateAll operators reading lowExprs
        let high ← evaluateAll operators reading highExprs
        let result ← tupleBetweenResultValue operators values low high negated
        .ok (valueHolds result)
      | _, _, _ => do
        let value ← evaluate operators reading expr
        let low ← evaluate operators reading low
        let high ← evaluate operators reading high
        .ok (valueHolds (betweenValue operators value low high negated))) := by
  cases expr with
  | tuple valueExprs =>
    cases low with
    | tuple lowExprs =>
      cases high with
      | tuple highExprs => simp only [matchesFilter,evaluateAll_filter,ScalarExpr.asTuple]
      | _ => rfl
    | _ => rfl
  | _ => rfl

end Equations

/-! ## Filters and their truth -/

section Agreement

variable {operators executeSubqueryRows transactionId scope} {currentTxn : Option TransactionId}

/-- A map behind two steps is behind the second. -/
theorem map_bind {α β γ : Type} (value : Except DbError α) (f : α → Except DbError β)
    (g : β → γ) : (value >>= f).map g=value >>= fun x => (f x).map g := by
  cases value <;> rfl

/-- A map of a value. -/
@[simp] theorem map_ok {α β : Type} (value : α) (g : α → β) :
    (Except.ok value : Except DbError α).map g=.ok (g value) := rfl

/-- A map of either branch. -/
theorem map_ite {α β : Type} (condition : Prop) [Decidable condition]
    (first second : Except DbError α) (g : α → β) :
    (if condition then first else second).map g=
      if condition then first.map g else second.map g := by
  split <;> rfl

/-- The value of a truth holds when the truth does. -/
theorem valueHolds_map (found : Except DbError Truth) :
    (do
      let result ← found.map truthValue
      Except.ok (valueHolds result))=found.map Truth.holds := by
  cases found with
  | error error => rfl
  | ok found => exact congrArg Except.ok (valueHolds_truthValue found)

/-- A comparison of tuples gives the value of its truth. -/
theorem tupleCompareResultValue_map (left : List Value) (op : CompareOp) (right : List Value) :
    tupleCompareResultValue operators left op right=
      (tupleCompareTruth operators left op right).map truthValue := by
  rw [tupleCompareResultValue_eq,tupleCompareTruth,map_ite]
  rfl

/-- So does `BETWEEN` of tuples. -/
theorem tupleBetweenResultValue_map (value low high : List Value) (negated : Bool) :
    tupleBetweenResultValue operators value low high negated=
      (do
        let lower ← tupleCompareTruth operators low .lte value
        let upper ← tupleCompareTruth operators value .lte high
        Except.ok ((lower.and upper).withNegation negated)).map truthValue := by
  unfold tupleBetweenResultValue
  rw [tupleCompareResultValue_map,tupleCompareResultValue_map]
  cases tupleCompareTruth operators low .lte value with
  | error error => rfl
  | ok lower =>
    cases tupleCompareTruth operators value .lte high with
    | error error => rfl
    | ok upper =>
      rcases lower with _ | _ | _ <;> rcases upper with _ | _ | _ <;> cases negated <;> rfl

/-- So does `LIKE`. -/
theorem likeValue_map (pattern escape : LikeEscapeValue) (negated : Bool) (value : Value) :
    likeValue operators pattern escape negated value=
      (likeTruth operators pattern escape negated value).map truthValue := by
  unfold likeValue likeTruth
  rw [map_ite,map_bind]
  rfl

/-- So does `GLOB`. -/
theorem globValue_eq (pattern : LikeEscapeValue) (negated : Bool) (value : Value) :
    globValue operators pattern negated value=
      truthValue (globTruth operators pattern negated value) := by
  unfold globValue globTruth
  split <;> rfl

/-- Where the code's way with filters does no harm: no negation stands over an unknown, and
no null misleads a `BETWEEN`. -/
def Expr.Decided (operators : Operators) (executeSubqueryRows : SubqueryRows S)
    (transactionId : TransactionId) (scope : Scope) (filter : Expr S) : Prop :=
  match filter with
  | .not expr => truth operators executeSubqueryRows transactionId scope expr≠.ok none
  | .between column low high negated => ∀ value, scope.lookup column=.ok value →
    BetweenTested operators value low high negated
  | .betweenScalar expr low high negated =>
    let reading := sqlReading operators executeSubqueryRows transactionId scope
    match expr.asTuple, low.asTuple, high.asTuple with
    | some _, some _, some _ => True
    | _, _, _ => ∀ value lowValue highValue, evaluate operators reading expr=.ok value →
      evaluate operators reading low=.ok lowValue →
      evaluate operators reading high=.ok highValue →
      BetweenTested operators value lowValue highValue negated
  | _ => True

/-- The operands whose values a filter asks for. -/
def Expr.asksOperands (operators : Operators) (value : ScalarExpr S → Except DbError Value) :
    Expr S → List (ScalarExpr S)
  | .compareScalar left op right => (ScalarExpr.compare left op right).asks operators value
  | .is left right negated => (ScalarExpr.is left right negated).asks operators value
  | .isNullScalar expr _ | .isBool expr _ _ _ => [expr]
  | .inSubqueryScalar expr _ _ | .compareSubqueryScalar expr _ _ => asksAll value expr.elements
  | .inListScalar expr values negated =>
    (ScalarExpr.inList expr values negated).asks operators value
  | .like _ pattern escape _ => asksPattern value pattern escape.toList
  | .likeScalar expr pattern escape negated =>
    (ScalarExpr.like expr pattern escape negated).asks operators value
  | .glob _ pattern _ => [pattern]
  | .globScalar expr pattern negated =>
    (ScalarExpr.glob expr pattern negated).asks operators value
  | .betweenScalar expr low high negated =>
    (ScalarExpr.between expr low high negated).asks operators value
  | .compare _ _ _ | .compareColumns _ _ _ | .isNull _ _ | .inSubquery _ _ _ | .inList _ _ _
  | .compareSubquery _ _ _ | .existsSubquery _ _ | .between _ _ _ _ | .not _ | .and _ _
  | .or _ _ => []

/-- The filters a filter asks for: the right side of a conjunction when the left is true, of
a disjunction when the left is not. -/
def Expr.asksFilters (found : Expr S → Except DbError Truth) : Expr S → List (Expr S)
  | .not expr => [expr]
  | .and left right => left :: (match found left with
    | .ok (some true) => [right]
    | _ => [])
  | .or left right => left :: (match found left with
    | .ok (some true) => []
    | .ok _ => [right]
    | .error _ => [])
  | _ => []

/-- A filter keeps the rows for which it is true, or fails as SQL does. -/
def Expr.Tested (operators : Operators) (executeSubqueryRows : SubqueryRows S)
    (transactionId : TransactionId) (currentTxn : Option TransactionId) (scope : Scope)
    (filter : Expr S) : Prop :=
  matchesFilter operators executeSubqueryRows transactionId currentTxn scope filter=
    (truth operators executeSubqueryRows transactionId scope filter).map Truth.holds

/-- A negation turns the test of an unknown around. -/
theorem not_tested_iff {expr : Expr S}
    (h : expr.Tested operators executeSubqueryRows transactionId currentTxn scope) :
    (Expr.not expr).Tested operators executeSubqueryRows transactionId currentTxn scope ↔
      truth operators executeSubqueryRows transactionId scope expr≠.ok none := by
  rw [Expr.Tested] at h ⊢
  rw [matchesFilter,truth,h,map_bind]
  cases truth operators executeSubqueryRows transactionId scope expr with
  | error error => exact iff_of_true rfl (by simp)
  | ok found =>
    change Except.ok (!found.holds)=Except.ok found.not.holds ↔ _
    rw [Except.ok.injEq,eq_comm,Truth.holds_not]
    simp only [ne_eq,Except.ok.injEq]

/-- A conjunction tests its right side only when its left side is true. -/
theorem and_tested {left right : Expr S}
    (hleft : left.Tested operators executeSubqueryRows transactionId currentTxn scope)
    (hright : truth operators executeSubqueryRows transactionId scope left=.ok (some true) →
      right.Tested operators executeSubqueryRows transactionId currentTxn scope) :
    (Expr.and left right).Tested operators executeSubqueryRows transactionId currentTxn
      scope := by
  rw [Expr.Tested] at hleft ⊢
  rw [matchesFilter,truth,hleft]
  cases hfound : truth operators executeSubqueryRows transactionId scope left with
  | error error => rfl
  | ok found =>
    rcases found with _ | _ | _
    · -- an unknown left side keeps no row, whatever the right side is
      cases truth operators executeSubqueryRows transactionId scope right with
      | error error => rfl
      | ok other => rcases other with _ | _ | _ <;> rfl
    · rfl
    · exact hright hfound

/-- A disjunction tests its right side only when its left side is not true. -/
theorem or_tested {left right : Expr S}
    (hleft : left.Tested operators executeSubqueryRows transactionId currentTxn scope)
    (hright : ∀ found, truth operators executeSubqueryRows transactionId scope left=.ok found →
      found≠some true →
      right.Tested operators executeSubqueryRows transactionId currentTxn scope) :
    (Expr.or left right).Tested operators executeSubqueryRows transactionId currentTxn
      scope := by
  rw [Expr.Tested] at hleft ⊢
  rw [matchesFilter,truth,hleft]
  cases hfound : truth operators executeSubqueryRows transactionId scope left with
  | error error => rfl
  | ok found =>
    have hother : found≠some true →
        matchesFilter operators executeSubqueryRows transactionId currentTxn scope right=
          (truth operators executeSubqueryRows transactionId scope right).map Truth.holds :=
      hright found hfound
    rcases found with _ | _ | _
    · change matchesFilter _ _ _ _ _ right=_
      rw [hother nofun]
      cases truth operators executeSubqueryRows transactionId scope right with
      | error error => rfl
      | ok other => rcases other with _ | _ | _ <;> rfl
    · change matchesFilter _ _ _ _ _ right=_
      rw [hother nofun]
      cases truth operators executeSubqueryRows transactionId scope right with
      | error error => rfl
      | ok other => rcases other with _ | _ | _ <;> rfl
    · rfl

section Operands

variable {left right expr pattern : ScalarExpr S} {escape : Option (ScalarExpr S)}

/-- The evaluator of filters does as SQL does about these expressions. -/
abbrev Valued (operators : Operators) (executeSubqueryRows : SubqueryRows S)
    (transactionId : TransactionId) (currentTxn : Option TransactionId) (scope : Scope)
    (asked : List (ScalarExpr S)) : Prop :=
  Alike operators (filterReading operators executeSubqueryRows currentTxn scope)
    (sqlReading operators executeSubqueryRows transactionId scope) asked

/-- The values that SQL gives the operands of a filter. -/
abbrev sqlValue (operators : Operators) (executeSubqueryRows : SubqueryRows S)
    (transactionId : TransactionId) (scope : Scope) : ScalarExpr S → Except DbError Value :=
  evaluate operators (sqlReading operators executeSubqueryRows transactionId scope)

/-- A comparison holds in a filter when its truth is true. -/
theorem compareScalar_tested {op : CompareOp}
    (h : Valued operators executeSubqueryRows transactionId currentTxn scope
      ((Expr.compareScalar left op right).asksOperands operators
        (sqlValue operators executeSubqueryRows transactionId scope))) :
    (Expr.compareScalar left op right).Tested operators executeSubqueryRows transactionId
      currentTxn scope := by
  rw [Expr.Tested,matchesFilter_compareScalar,truth]
  refine (sides_asked h).trans ?_
  cases left.asTuple with
  | none => simp only [map_bind,map_ok,compareWithOperator_eq]
  | some x =>
    cases right.asTuple with
    | none => simp only [map_bind,map_ok,compareWithOperator_eq]
    | some y => simp only [map_bind,tupleCompareResultValue_map,valueHolds_map]

/-- So does `IS`. -/
theorem is_tested {negated : Bool}
    (h : Valued operators executeSubqueryRows transactionId currentTxn scope
      ((Expr.is left right negated).asksOperands operators
        (sqlValue operators executeSubqueryRows transactionId scope))) :
    (Expr.is left right negated).Tested operators executeSubqueryRows transactionId
      currentTxn scope := by
  rw [Expr.Tested,matchesFilter_is,truth]
  refine (sides_asked h).trans ?_
  cases left.asTuple with
  | none => simp only [map_bind,map_ok,Truth.holds_some]
  | some x =>
    cases right.asTuple with
    | none => simp only [map_bind,map_ok,Truth.holds_some]
    | some y => simp only [map_bind,map_ok,Truth.holds_some]

/-- So does `IS TRUE`. -/
theorem isBool_tested {value negated explicit : Bool}
    (h : Valued operators executeSubqueryRows transactionId currentTxn scope [expr]) :
    (Expr.isBool expr value negated explicit).Tested operators executeSubqueryRows
      transactionId currentTxn scope := by
  have hexpr := h expr List.mem_cons_self
  rw [Expr.Tested,matchesFilter,truth,evaluateFilterScalarExpr,hexpr,map_bind]
  refine bind_congr fun evaluated => ?_
  split
  · rename_i hnull
    obtain ⟨rfl,-,rfl,rfl⟩ := hnull
    rfl
  · simp only [map_ok,Truth.holds_some]

/-- So does `IN` with a subquery. -/
theorem inSubqueryScalar_tested {query : S} {negated : Bool}
    (h : Valued operators executeSubqueryRows transactionId currentTxn scope
      ((Expr.inSubqueryScalar expr query negated).asksOperands operators
        (sqlValue operators executeSubqueryRows transactionId scope))) :
    (Expr.inSubqueryScalar expr query negated).Tested operators executeSubqueryRows
      transactionId currentTxn scope := by
  obtain ⟨hvalue,htuple⟩ := elements_asked h
  rw [Expr.Tested,matchesFilter_inSubqueryScalar,truth]
  dsimp only
  cases hx : expr.asTuple with
  | none =>
    dsimp only
    rw [hvalue hx]
    simp only [map_bind,map_ok,evaluateInRows,evaluateInValues_eq]
  | some x =>
    dsimp only
    rw [htuple x hx]
    simp only [map_bind,map_ok,tupleInResultValue_eq,valueHolds_truthValue]

/-- So does a comparison with a subquery. -/
theorem compareSubqueryScalar_tested {op : CompareOp} {query : S}
    (h : Valued operators executeSubqueryRows transactionId currentTxn scope
      ((Expr.compareSubqueryScalar left op query).asksOperands operators
        (sqlValue operators executeSubqueryRows transactionId scope))) :
    (Expr.compareSubqueryScalar left op query).Tested operators executeSubqueryRows
      transactionId currentTxn scope := by
  obtain ⟨hvalue,htuple⟩ := elements_asked h
  rw [Expr.Tested,matchesFilter_compareSubqueryScalar,truth]
  dsimp only
  cases hx : left.asTuple with
  | none =>
    dsimp only
    rw [hvalue hx]
    simp only [map_bind,map_ok,compareWithOperator_eq]
  | some x =>
    dsimp only
    rw [htuple x hx]
    simp only [map_bind,tupleCompareResultValue_map,valueHolds_map]

/-- So does `IN`. -/
theorem inListScalar_tested {values : List (ScalarExpr S)} {negated : Bool}
    (h : Valued operators executeSubqueryRows transactionId currentTxn scope
      ((Expr.inListScalar expr values negated).asksOperands operators
        (sqlValue operators executeSubqueryRows transactionId scope))) :
    (Expr.inListScalar expr values negated).Tested operators executeSubqueryRows
      transactionId currentTxn scope := by
  rw [Expr.Tested,matchesFilter_inListScalar,truth]
  refine (inList_asked h).trans ?_
  cases expr.asTuple with
  | none => simp only [map_bind,map_ok,evaluateInValues_eq]
  | some x => simp only [map_bind,map_ok,tupleInResultValue_eq,valueHolds_truthValue]

/-- A pattern and an escape, before the value of a column is matched. -/
theorem like_tested {column : String} {negated : Bool}
    (h : Valued operators executeSubqueryRows transactionId currentTxn scope
      ((Expr.like column pattern escape negated).asksOperands operators
        (sqlValue operators executeSubqueryRows transactionId scope))) :
    (Expr.like column pattern escape negated).Tested operators executeSubqueryRows
      transactionId currentTxn scope := by
  rw [Expr.Tested,matchesFilter,truth,evaluateFilterScalarExpr]
  refine (pattern_asked h fun hrest found => by rw [evaluateEscape_asked hrest]).trans ?_
  simp only [map_bind,map_ite,map_ok,likeValue_map,valueHolds_map,Truth.holds_none]

/-- So does `LIKE`. -/
theorem likeScalar_tested {negated : Bool}
    (h : Valued operators executeSubqueryRows transactionId currentTxn scope
      ((Expr.likeScalar expr pattern escape negated).asksOperands operators
        (sqlValue operators executeSubqueryRows transactionId scope))) :
    (Expr.likeScalar expr pattern escape negated).Tested operators executeSubqueryRows
      transactionId currentTxn scope := by
  rw [Expr.Tested,matchesFilter,truth,evaluateFilterScalarExpr]
  refine (pattern_asked h fun hrest found => escape_asked hrest).trans ?_
  simp only [map_bind,map_ite,map_ok,likeValue_map,valueHolds_map,Truth.holds_none]

/-- So does `GLOB`. -/
theorem globScalar_tested {negated : Bool}
    (h : Valued operators executeSubqueryRows transactionId currentTxn scope
      ((Expr.globScalar expr pattern negated).asksOperands operators
        (sqlValue operators executeSubqueryRows transactionId scope))) :
    (Expr.globScalar expr pattern negated).Tested operators executeSubqueryRows
      transactionId currentTxn scope := by
  rw [Expr.Tested,matchesFilter,truth,evaluateFilterScalarExpr]
  refine (pattern_asked h fun hrest found => by rw [hrest expr List.mem_cons_self]).trans ?_
  simp only [map_bind,map_ite,map_ok,globValue_eq,valueHolds_truthValue,Truth.holds_none]

/-- A test of `BETWEEN`, for single values and for row values. -/
theorem betweenScalar_tested_iff {low high : ScalarExpr S} {negated : Bool}
    (h : Valued operators executeSubqueryRows transactionId currentTxn scope
      ((Expr.betweenScalar expr low high negated).asksOperands operators
        (sqlValue operators executeSubqueryRows transactionId scope))) :
    (Expr.betweenScalar expr low high negated).Tested operators executeSubqueryRows
        transactionId currentTxn scope ↔
      (Expr.betweenScalar expr low high negated).Decided operators executeSubqueryRows
        transactionId scope := by
  rw [Expr.Tested,matchesFilter_betweenScalar,truth,Expr.Decided]
  refine (Eq.congr_left (threeSides_asked negated h)).trans ?_
  -- single values are tested each in turn, row values by their places
  have hsingle : ∀ {value : Value} {lowValue highValue : Value},
      (Except.ok (valueHolds (betweenValue operators value lowValue highValue negated)) :
          Except DbError Bool)=
        .ok ((betweenTruth operators value lowValue highValue).withNegation negated).holds ↔
      BetweenTested operators value lowValue highValue negated := by
    intro value lowValue highValue
    rw [Except.ok.injEq,valueHolds_betweenValue_iff]
  cases expr.asTuple with
  | none => simp only [map_bind,map_ok,threeValues_iff,hsingle]
  | some xs =>
    cases low.asTuple with
    | none => simp only [map_bind,map_ok,threeValues_iff,hsingle]
    | some ys =>
      cases high.asTuple with
      | none => simp only [map_bind,map_ok,threeValues_iff,hsingle]
      | some zs =>
        refine iff_of_true ?_ trivial
        simp only [tupleBetweenResultValue_map,valueHolds_map]
        simp only [map_bind]

/-- The filters whose test is that of their truth value whenever their operands are. -/
theorem operands_tested {filter : Expr S}
    (h : Valued operators executeSubqueryRows transactionId currentTxn scope
      (filter.asksOperands operators
        (sqlValue operators executeSubqueryRows transactionId scope)))
    (hleaf : filter.children=[]) (hbetween : ∀ expr low high negated,
      filter≠.betweenScalar expr low high negated)
    (hcolumn : ∀ column low high negated, filter≠.between column low high negated) :
    filter.Tested operators executeSubqueryRows transactionId currentTxn scope := by
  cases filter with
  | compareScalar left op right => exact compareScalar_tested h
  | is left right negated => exact is_tested h
  | isBool expr value negated explicit => exact isBool_tested h
  | inSubqueryScalar expr query negated => exact inSubqueryScalar_tested h
  | inListScalar expr values negated => exact inListScalar_tested h
  | compareSubqueryScalar left op query => exact compareSubqueryScalar_tested h
  | like column pattern escape negated => exact like_tested h
  | likeScalar expr pattern escape negated => exact likeScalar_tested h
  | globScalar expr pattern negated => exact globScalar_tested h
  | isNullScalar expr negated =>
    rw [Expr.Tested,matchesFilter,truth,evaluateFilterScalarExpr,h expr List.mem_cons_self]
    simp only [map_bind,map_ok,Truth.holds_some]
  | glob column pattern negated =>
    rw [Expr.Tested,matchesFilter,truth,evaluateFilterScalarExpr,h pattern List.mem_cons_self]
    simp only [map_bind,map_ite,map_ok,globValue_eq,valueHolds_truthValue,Truth.holds_none]
  | compare column op value | compareColumns left op right | compareSubquery column op query =>
    simp only [Expr.Tested,matchesFilter,truth,map_bind,map_ok,compareWithOperator_eq]
  | isNull column negated | existsSubquery query negated =>
    simp only [Expr.Tested,matchesFilter,truth,map_bind,map_ok,Truth.holds_some]
  | inSubquery column query negated =>
    simp only [Expr.Tested,matchesFilter,truth,map_bind,map_ok,evaluateInRows,
      evaluateInValues_eq]
  | inList column values negated =>
    simp only [Expr.Tested,matchesFilter,truth,map_bind,map_ok,evaluateInValues_eq]
  | between column low high negated => exact absurd rfl (hcolumn column low high negated)
  | betweenScalar expr low high negated => exact absurd rfl (hbetween expr low high negated)
  | not expr | and left right | or left right => cases hleaf

end Operands

end Agreement

end RustSql.Sql
