import RustSql.Sql.WhereTruth

/-!
# The two evaluators of scalar expressions

The executor evaluates scalar expressions twice, in a select list and in a filter, by two
copies of one evaluator. Here each copy stands as it is written. Each goes through an
expression like the walk they share and differs from it only in its reading.
-/

namespace RustSql.Sql

open RustSql.V2

/-! ## The copy of select lists -/

namespace SelectList

section Code

variable {S : Type} (operators : Operators) (source : RowSet) (row : Row)

mutual

/-- `evaluate_scalar_expr`. -/
def evaluateScalarExpr : ScalarExpr S → Except DbError Value
  | .literal value => .ok value
  | .column name => lookupValue source.columns row name
  | .unaryPlus expr => evaluateScalarExpr expr
  | .bitNot expr => do
    let value ← evaluateScalarExpr expr
    if value=.null then .ok .null else operators.bitNot value
  | .not expr => do
    let value ← evaluateScalarExpr expr
    .ok (notValue operators value)
  | .unaryMinus expr => do
    let value ← evaluateScalarExpr expr
    if value=.null then .ok .null else operators.negate value
  | .cast expr ty => do
    let value ← evaluateScalarExpr expr
    operators.castValue value ty
  | .collate expr _ => evaluateScalarExpr expr
  | .is left right negated =>
    match left, right with
    | .tuple leftExprs, .tuple rightExprs => do
      let left ← evaluateScalarTupleExpr leftExprs
      let right ← evaluateScalarTupleExpr rightExprs
      .ok (.boolean (tupleIsWithNegation operators left right negated))
    | left, right => do
      let left ← evaluateScalarExpr left
      let right ← evaluateScalarExpr right
      .ok (.boolean (isWithNegation operators left right negated))
  | .isBool expr value negated => do
    let evaluated ← evaluateScalarExpr expr
    .ok (.boolean ((evaluated≠.null && isTrueValue operators evaluated==value) ^^ negated))
  | .inList expr values negated =>
    match expr with
    | .tuple leftExprs => do
      let left ← evaluateScalarTupleExpr leftExprs
      let candidates ← evaluateCandidates values
      .ok (tupleInResultValue operators left candidates negated)
    | expr => do
      let left ← evaluateScalarExpr expr
      let values ← evaluateScalarTupleExpr values
      .ok (inResultValue operators left values negated)
  | .inSubquery _ _ _ | .subquery _ | .compareSubquery _ _ _ => .error noQueryContext
  | .like expr pattern escape negated => do
    -- `evaluate_like_pattern`
    let patternValue ← evaluateScalarExpr pattern
    let pattern := likePattern operators patternValue
    if pattern=.null then .ok .null
    else
      let escape ← evaluateLikeEscape escape
      if escape=.null then .ok .null
      else
        let value ← evaluateScalarExpr expr
        if value=.null then .ok .null
        else
          let found ← operators.matchesLikePattern (operators.coerceTextLikeValue value)
            (pattern.asOptionString.getD "") escape.asOptionString
          .ok (.boolean (found ^^ negated))
  | .glob expr pattern negated => do
    -- `evaluate_glob_pattern`
    let patternValue ← evaluateScalarExpr pattern
    let pattern := likePattern operators patternValue
    if pattern=.null then .ok .null
    else
      let value ← evaluateScalarExpr expr
      if value=.null then .ok .null
      else
        .ok (.boolean (operators.matchesGlobPattern (operators.coerceTextLikeValue value)
          (pattern.asOptionString.getD "") ^^ negated))
  | .between expr low high negated =>
    match expr, low, high with
    | .tuple valueExprs, .tuple lowExprs, .tuple highExprs => do
      let value ← evaluateScalarTupleExpr valueExprs
      let low ← evaluateScalarTupleExpr lowExprs
      let high ← evaluateScalarTupleExpr highExprs
      tupleBetweenResultValue operators value low high negated
    | expr, low, high => do
      let value ← evaluateScalarExpr expr
      let low ← evaluateScalarExpr low
      let high ← evaluateScalarExpr high
      match compareValues operators value low with
      | none => .ok .null
      | some lowCmp =>
        match compareValues operators value high with
        | none => .ok .null
        | some highCmp =>
          .ok (.boolean ((lowCmp≠.lt && highCmp≠.gt) ^^ negated))
  | .compare left op right =>
    match left, right with
    | .tuple leftExprs, .tuple rightExprs => do
      let left ← evaluateScalarTupleExpr leftExprs
      let right ← evaluateScalarTupleExpr rightExprs
      tupleCompareResultValue operators left op right
    | left, right => do
      let leftValue ← evaluateScalarExpr left
      let rightValue ← evaluateScalarExpr right
      .ok (compareResultValue operators leftValue op rightValue
        (left.collation.or right.collation))
  | .case base clauses elseExpr =>
    -- `evaluate_case_scalar_expr`
    match base with
    | some base => do
      let baseValue ← evaluateScalarExpr base
      match ← evaluateBaseClauses baseValue clauses with
      | some value => .ok value
      | none => evaluateElse elseExpr
    | none => do
      match ← evaluateConditionClauses clauses with
      | some value => .ok value
      | none => evaluateElse elseExpr
  | .binary left op right => do
    let left ← evaluateScalarExpr left
    let right ← evaluateScalarExpr right
    operators.evaluateBinaryScalar op left right
  | .function func args =>
    -- `evaluate_short_circuit_scalar_function`
    match func with
    | .coalesce =>
      if args.length < 2 then .error (.plan "COALESCE expects at least 2 arguments")
      else evaluateCoalesce args
    | .ifNull =>
      match args with
      | [first, second] => do
        let value ← evaluateScalarExpr first
        if value=.null then evaluateScalarExpr second else .ok value
      | args => .error (.plan s!"IFNULL expects 2 arguments but got {args.length}")
    | .iif =>
      if args.length < 2 then
        .error (.plan s!"IIF expects at least 2 arguments but got {args.length}")
      else evaluateConditions args
    | .if' =>
      if args.length < 2 then
        .error (.plan s!"IF expects at least 2 arguments but got {args.length}")
      else evaluateConditions args
    | .other name => do
      let args ← evaluateScalarTupleExpr args
      operators.evaluateScalarFunction (.other name) args
  | .tuple _ => .error rowValueMisused
  | .windowFunction => .error (.plan "window function requires projection context")
  | .aggregate name => lookupValue source.columns row name

/-- `evaluate_scalar_tuple_expr`, and the values of a list of arguments. -/
def evaluateScalarTupleExpr : List (ScalarExpr S) → Except DbError (List Value)
  | [] => .ok []
  | expr :: rest => do
    let value ← evaluateScalarExpr expr
    let values ← evaluateScalarTupleExpr rest
    .ok (value :: values)

/-- The candidates of a row-value `IN`. -/
def evaluateCandidates : List (ScalarExpr S) → Except DbError (List (List Value))
  | [] => .ok []
  | .tuple values :: rest => do
    let candidate ← evaluateScalarTupleExpr values
    let candidates ← evaluateCandidates rest
    .ok (candidate :: candidates)
  | value :: rest => do
    let single ← evaluateScalarExpr value
    let candidates ← evaluateCandidates rest
    .ok ([single] :: candidates)

/-- `evaluate_like_escape`. -/
def evaluateLikeEscape : Option (ScalarExpr S) → Except DbError LikeEscapeValue
  | none => .ok .missing
  | some escape => do
    let value ← evaluateScalarExpr escape
    if value=.null then .ok .null
    else
      operators.checkEscapeChar (operators.coerceTextLikeValue value)
      .ok (.text (operators.coerceTextLikeValue value))

/-- The clauses of a `CASE` with a base, none when no clause applies. -/
def evaluateBaseClauses (baseValue : Value) :
    List (ScalarExpr S × ScalarExpr S) → Except DbError (Option Value)
  | [] => .ok none
  | (whenExpr,thenExpr) :: rest => do
    let whenValue ← evaluateScalarExpr whenExpr
    if compareValues operators baseValue whenValue=some .eq then
      let value ← evaluateScalarExpr thenExpr
      .ok (some value)
    else evaluateBaseClauses baseValue rest

/-- The clauses of a `CASE` without a base, none when no clause applies. -/
def evaluateConditionClauses :
    List (ScalarExpr S × ScalarExpr S) → Except DbError (Option Value)
  | [] => .ok none
  | (whenExpr,thenExpr) :: rest => do
    let whenValue ← evaluateScalarExpr whenExpr
    let condition ← operators.castValue whenValue .boolean
    if condition=.boolean true then
      let value ← evaluateScalarExpr thenExpr
      .ok (some value)
    else evaluateConditionClauses rest

/-- The `ELSE` of a `CASE`. -/
def evaluateElse : Option (ScalarExpr S) → Except DbError Value
  | some elseExpr => evaluateScalarExpr elseExpr
  | none => .ok .null

/-- The loop of `COALESCE`. -/
def evaluateCoalesce : List (ScalarExpr S) → Except DbError Value
  | [] => .ok .null
  | arg :: rest => do
    let value ← evaluateScalarExpr arg
    if value≠.null then .ok value else evaluateCoalesce rest

/-- The loop of `IIF`. -/
def evaluateConditions : List (ScalarExpr S) → Except DbError Value
  | condition :: value :: rest => do
    let found ← evaluateScalarExpr condition
    let condition ← operators.castValue found .boolean
    if condition=.boolean true then evaluateScalarExpr value else evaluateConditions rest
  | [default] => evaluateScalarExpr default
  | [] => .ok .null

end

end Code

end SelectList

/-! ## The copy of filters -/

namespace Filtering

section Code

variable {S : Type} (operators : Operators) (executeSubqueryRows : SubqueryRows S)
  (currentTxn : Option TransactionId) (scope : Scope)

mutual

/-- `evaluate_filter_scalar_expr`. -/
def evaluateFilterScalarExpr : ScalarExpr S → Except DbError Value
  | .literal value => .ok value
  | .column name => scope.lookup name
  | .unaryPlus expr => evaluateFilterScalarExpr expr
  | .bitNot expr => do
    let value ← evaluateFilterScalarExpr expr
    if value=.null then .ok .null else operators.bitNot value
  | .not expr => do
    let value ← evaluateFilterScalarExpr expr
    .ok (notValue operators value)
  | .unaryMinus expr => do
    let value ← evaluateFilterScalarExpr expr
    if value=.null then .ok .null else operators.negate value
  | .cast expr ty => do
    let value ← evaluateFilterScalarExpr expr
    operators.castValue value ty
  | .collate expr _ => evaluateFilterScalarExpr expr
  | .is left right negated =>
    match left, right with
    | .tuple leftExprs, .tuple rightExprs => do
      let left ← evaluateFilterScalarTupleExpr leftExprs
      let right ← evaluateFilterScalarTupleExpr rightExprs
      .ok (.boolean (tupleIsWithNegation operators left right negated))
    | left, right => do
      let left ← evaluateFilterScalarExpr left
      let right ← evaluateFilterScalarExpr right
      .ok (.boolean (isWithNegation operators left right negated))
  | .isBool expr value negated => do
    let evaluated ← evaluateFilterScalarExpr expr
    .ok (.boolean ((evaluated≠.null && isTrueValue operators evaluated==value) ^^ negated))
  | .inList expr values negated =>
    match expr with
    | .tuple leftExprs => do
      let left ← evaluateFilterScalarTupleExpr leftExprs
      let candidates ← evaluateFilterCandidates values
      .ok (tupleInResultValue operators left candidates negated)
    | expr => do
      let left ← evaluateFilterScalarExpr expr
      let values ← evaluateFilterScalarTupleExpr values
      .ok (inResultValue operators left values negated)
  | .inSubquery expr query negated => do
    let left ← evaluateFilterScalarExpr expr
    match currentTxn with
    | none => .error noQueryContext
    | some transactionId => do
      let rows ← executeSubquery executeSubqueryRows transactionId query
        (some (scope.source,scope.row))
      .ok (.boolean (evaluateInRows operators left rows.rows negated))
  | .compareSubquery left op query => do
    let leftValue ← evaluateFilterScalarExpr left
    match currentTxn with
    | none => .error noQueryContext
    | some transactionId => do
      let right ← scalarSubqueryValue executeSubqueryRows transactionId query
        (some (scope.source,scope.row))
      .ok (compareResultValue operators leftValue op right left.collation)
  | .subquery query =>
    match currentTxn with
    | none => .error noQueryContext
    | some transactionId =>
      scalarSubqueryValue executeSubqueryRows transactionId query (some (scope.source,scope.row))
  | .like expr pattern escape negated => do
    -- `evaluate_filter_like_pattern`
    let patternValue ← evaluateFilterScalarExpr pattern
    let pattern := likePattern operators patternValue
    if pattern=.null then .ok .null
    else
      let escape ← evaluateFilterLikeEscape escape
      if escape=.null then .ok .null
      else
        let value ← evaluateFilterScalarExpr expr
        if value=.null then .ok .null
        else
          let found ← operators.matchesLikePattern (operators.coerceTextLikeValue value)
            (pattern.asOptionString.getD "") escape.asOptionString
          .ok (.boolean (found ^^ negated))
  | .glob expr pattern negated => do
    -- `evaluate_filter_glob_pattern`
    let patternValue ← evaluateFilterScalarExpr pattern
    let pattern := likePattern operators patternValue
    if pattern=.null then .ok .null
    else
      let value ← evaluateFilterScalarExpr expr
      if value=.null then .ok .null
      else
        .ok (.boolean (operators.matchesGlobPattern (operators.coerceTextLikeValue value)
          (pattern.asOptionString.getD "") ^^ negated))
  | .between expr low high negated =>
    match expr, low, high with
    | .tuple valueExprs, .tuple lowExprs, .tuple highExprs => do
      let value ← evaluateFilterScalarTupleExpr valueExprs
      let low ← evaluateFilterScalarTupleExpr lowExprs
      let high ← evaluateFilterScalarTupleExpr highExprs
      tupleBetweenResultValue operators value low high negated
    | expr, low, high => do
      let value ← evaluateFilterScalarExpr expr
      let low ← evaluateFilterScalarExpr low
      let high ← evaluateFilterScalarExpr high
      match compareValues operators value low with
      | none => .ok .null
      | some lowCmp =>
        match compareValues operators value high with
        | none => .ok .null
        | some highCmp =>
          .ok (.boolean ((lowCmp≠.lt && highCmp≠.gt) ^^ negated))
  | .compare left op right =>
    match left, right with
    | .tuple leftExprs, .tuple rightExprs => do
      let left ← evaluateFilterScalarTupleExpr leftExprs
      let right ← evaluateFilterScalarTupleExpr rightExprs
      tupleCompareResultValue operators left op right
    | left, right => do
      let leftValue ← evaluateFilterScalarExpr left
      let rightValue ← evaluateFilterScalarExpr right
      .ok (compareResultValue operators leftValue op rightValue
        (left.collation.or right.collation))
  | .case base clauses elseExpr =>
    -- `evaluate_filter_case_scalar_expr`
    match base with
    | some base => do
      let baseValue ← evaluateFilterScalarExpr base
      match ← evaluateFilterBaseClauses baseValue clauses with
      | some value => .ok value
      | none => evaluateFilterElse elseExpr
    | none => do
      match ← evaluateFilterConditionClauses clauses with
      | some value => .ok value
      | none => evaluateFilterElse elseExpr
  | .binary left op right => do
    let left ← evaluateFilterScalarExpr left
    let right ← evaluateFilterScalarExpr right
    operators.evaluateBinaryScalar op left right
  | .function func args =>
    -- `evaluate_filter_short_circuit_scalar_function`
    match func with
    | .coalesce =>
      if args.length < 2 then .error (.plan "COALESCE expects at least 2 arguments")
      else evaluateFilterCoalesce args
    | .ifNull =>
      match args with
      | [first, second] => do
        let value ← evaluateFilterScalarExpr first
        if value=.null then evaluateFilterScalarExpr second else .ok value
      | args => .error (.plan s!"IFNULL expects 2 arguments but got {args.length}")
    | .iif =>
      if args.length < 2 then
        .error (.plan s!"IIF expects at least 2 arguments but got {args.length}")
      else evaluateFilterConditions args
    | .if' =>
      if args.length < 2 then
        .error (.plan s!"IF expects at least 2 arguments but got {args.length}")
      else evaluateFilterConditions args
    | .other name => do
      let args ← evaluateFilterScalarTupleExpr args
      operators.evaluateScalarFunction (.other name) args
  | .tuple _ => .error rowValueMisused
  | .windowFunction => .error (.plan "window function requires projection context")
  | .aggregate name => scope.lookup name

/-- `evaluate_filter_scalar_tuple_expr`, and the values of a list of arguments. -/
def evaluateFilterScalarTupleExpr : List (ScalarExpr S) → Except DbError (List Value)
  | [] => .ok []
  | expr :: rest => do
    let value ← evaluateFilterScalarExpr expr
    let values ← evaluateFilterScalarTupleExpr rest
    .ok (value :: values)

/-- The candidates of a row-value `IN`. -/
def evaluateFilterCandidates : List (ScalarExpr S) → Except DbError (List (List Value))
  | [] => .ok []
  | .tuple values :: rest => do
    let candidate ← evaluateFilterScalarTupleExpr values
    let candidates ← evaluateFilterCandidates rest
    .ok (candidate :: candidates)
  | value :: rest => do
    let single ← evaluateFilterScalarExpr value
    let candidates ← evaluateFilterCandidates rest
    .ok ([single] :: candidates)

/-- `evaluate_filter_like_escape`. -/
def evaluateFilterLikeEscape : Option (ScalarExpr S) → Except DbError LikeEscapeValue
  | none => .ok .missing
  | some escape => do
    let value ← evaluateFilterScalarExpr escape
    if value=.null then .ok .null
    else
      operators.checkEscapeChar (operators.coerceTextLikeValue value)
      .ok (.text (operators.coerceTextLikeValue value))

/-- The clauses of a `CASE` with a base, none when no clause applies. -/
def evaluateFilterBaseClauses (baseValue : Value) :
    List (ScalarExpr S × ScalarExpr S) → Except DbError (Option Value)
  | [] => .ok none
  | (whenExpr,thenExpr) :: rest => do
    let whenValue ← evaluateFilterScalarExpr whenExpr
    if compareValues operators baseValue whenValue=some .eq then
      let value ← evaluateFilterScalarExpr thenExpr
      .ok (some value)
    else evaluateFilterBaseClauses baseValue rest

/-- The clauses of a `CASE` without a base, none when no clause applies. -/
def evaluateFilterConditionClauses :
    List (ScalarExpr S × ScalarExpr S) → Except DbError (Option Value)
  | [] => .ok none
  | (whenExpr,thenExpr) :: rest => do
    let whenValue ← evaluateFilterScalarExpr whenExpr
    let condition ← operators.castValue whenValue .boolean
    if condition=.boolean true then
      let value ← evaluateFilterScalarExpr thenExpr
      .ok (some value)
    else evaluateFilterConditionClauses rest

/-- The `ELSE` of a `CASE`. -/
def evaluateFilterElse : Option (ScalarExpr S) → Except DbError Value
  | some elseExpr => evaluateFilterScalarExpr elseExpr
  | none => .ok .null

/-- The loop of `COALESCE`. -/
def evaluateFilterCoalesce : List (ScalarExpr S) → Except DbError Value
  | [] => .ok .null
  | arg :: rest => do
    let value ← evaluateFilterScalarExpr arg
    if value≠.null then .ok value else evaluateFilterCoalesce rest

/-- The loop of `IIF`. -/
def evaluateFilterConditions : List (ScalarExpr S) → Except DbError Value
  | condition :: value :: rest => do
    let found ← evaluateFilterScalarExpr condition
    let condition ← operators.castValue found .boolean
    if condition=.boolean true then evaluateFilterScalarExpr value
    else evaluateFilterConditions rest
  | [default] => evaluateFilterScalarExpr default
  | [] => .ok .null

end

end Code

end Filtering

/-! ## The steps of the copies -/

section Steps

variable {operators : Operators}

/-- `LIKE`, in the order of its parts. -/
theorem like_step (pattern value : Except DbError Value) (escape : Except DbError LikeEscapeValue)
    (negated : Bool) :
    (do
      let patternValue ← pattern
      let pattern := likePattern operators patternValue
      if pattern=.null then .ok .null
      else
        let escape ← escape
        if escape=.null then .ok .null
        else
          let value ← value
          if value=.null then .ok .null
          else
            let found ← operators.matchesLikePattern (operators.coerceTextLikeValue value)
              (pattern.asOptionString.getD "") escape.asOptionString
            .ok (.boolean (found ^^ negated)))=
      (do
        let patternValue ← pattern
        if patternValue=.null then .ok .null
        else
          let escapeValue ← escape
          if escapeValue=.null then .ok .null
          else
            let value ← value
            likeValue operators (likePattern operators patternValue) escapeValue negated value :
          Except DbError Value) := by
  refine bind_congr fun patternValue => ?_
  by_cases hpattern : patternValue=.null
  · rw [if_pos hpattern,likePattern,if_pos hpattern,if_pos rfl]
  · have hlike : likePattern operators patternValue≠.null := by
      rw [likePattern,if_neg hpattern]
      exact LikeEscapeValue.noConfusion
    rw [if_neg hpattern,if_neg hlike]
    rfl

/-- `GLOB`, in the order of its parts. -/
theorem glob_step (pattern value : Except DbError Value) (negated : Bool) :
    (do
      let patternValue ← pattern
      let pattern := likePattern operators patternValue
      if pattern=.null then .ok .null
      else
        let value ← value
        if value=.null then .ok .null
        else
          .ok (.boolean (operators.matchesGlobPattern (operators.coerceTextLikeValue value)
            (pattern.asOptionString.getD "") ^^ negated)))=
      (do
        let patternValue ← pattern
        if patternValue=.null then .ok .null
        else
          let value ← value
          .ok (globValue operators (likePattern operators patternValue) negated value) :
        Except DbError Value) := by
  refine bind_congr fun patternValue => ?_
  by_cases hpattern : patternValue=.null
  · rw [if_pos hpattern,likePattern,if_pos hpattern,if_pos rfl]
  · have hlike : likePattern operators patternValue≠.null := by
      rw [likePattern,if_neg hpattern]
      exact LikeEscapeValue.noConfusion
    rw [if_neg hpattern,if_neg hlike]
    refine bind_congr fun value => ?_
    rw [globValue]
    split <;> rfl

/-- `BETWEEN`, in the order of its parts. -/
theorem between_step (value low high : Except DbError Value) (negated : Bool) :
    (do
      let value ← value
      let low ← low
      let high ← high
      match compareValues operators value low with
      | none => .ok .null
      | some lowCmp =>
        match compareValues operators value high with
        | none => .ok .null
        | some highCmp =>
          .ok (.boolean ((lowCmp≠.lt && highCmp≠.gt) ^^ negated)))=
      (do
        let value ← value
        let low ← low
        let high ← high
        .ok (betweenValue operators value low high negated) : Except DbError Value) := by
  refine bind_congr fun value => bind_congr fun low => bind_congr fun high => ?_
  rw [betweenValue]
  cases compareValues operators value low with
  | none => rfl
  | some lowCmp =>
    cases compareValues operators value high with
    | none => rfl
    | some highCmp => cases lowCmp <;> cases highCmp <;> rfl

/-- A condition, then its branch. -/
theorem condition_step {α : Type} (value : Except DbError Value)
    (found missing : Except DbError α) :
    (do
      let value ← value
      let condition ← operators.castValue value .boolean
      if condition=Value.boolean true then found else missing)=
      (do
        let value ← value
        let condition ← operators.castValue value .boolean
        if condition==Value.boolean true then found else missing) := by
  refine bind_congr fun value => bind_congr fun condition => ?_
  simp only [beq_iff_eq]

/-- A clause compared with the base of its `CASE`. -/
theorem baseClause_step {α : Type} (base : Value) (value : Except DbError Value)
    (found missing : Except DbError α) :
    (do
      let value ← value
      if compareValues operators base value=some Ordering.eq then found else missing)=
      (do
        let value ← value
        let applies ← (.ok (compareValues operators base value==some Ordering.eq)
          : Except DbError Bool)
        if applies then found else missing) := by
  refine bind_congr fun value => ?_
  change _=if compareValues operators base value==some Ordering.eq then found else missing
  simp only [beq_iff_eq]

/-- The base comes before the clauses. -/
theorem baseCase_step (base : Except DbError Value)
    (clauses : Option Value → Except DbError Value) :
    (do
      let value ← base
      clauses (some value))=
      (do
        let base ← (do
          let value ← base
          .ok (some value))
        clauses base) := by
  rw [bind_assoc]
  rfl

/-- An `ELSE` that is there. -/
theorem else_step (value : Except DbError Value) :
    value=(do
      let value ← (do
        let value ← value
        .ok (some value) : Except DbError (Option Value))
      .ok (value.getD .null)) := by
  cases value <;> rfl

/-- The first value, if it is no `NULL`. -/
theorem coalesce_step (value rest : Except DbError Value) :
    (do
      let value ← value
      if value≠Value.null then .ok value else rest)=
      (do
        let value ← value
        if value=Value.null then rest else .ok value) := by
  refine bind_congr fun value => ?_
  simp only [ne_eq,ite_not]

/-- `IFNULL` is `COALESCE` of two. -/
theorem ifNull_step (first second : Except DbError Value) :
    (do
      let value ← first
      if value=Value.null then second else .ok value)=
      (do
        let value ← first
        if value=Value.null then (do
          let value ← second
          if value=Value.null then .ok .null else .ok value)
        else .ok value) := by
  refine bind_congr fun value => ?_
  congr 1
  cases second with
  | error error => rfl
  | ok value =>
    by_cases hvalue : value=.null
    · rw [hvalue]
      rfl
    · exact (if_neg hvalue).symm

/-- A candidate that is no tuple. -/
theorem candidateValues_single {S : Type} {reading : Reading S} {expr : ScalarExpr S}
    (h : ∀ values, expr=.tuple values → False) :
    candidateValues operators reading expr=(do
      let value ← evaluate operators reading expr
      .ok [value]) := by
  cases expr with
  | tuple values => exact (h values rfl).elim
  | _ => rfl

/-- `IFNULL` with another number of arguments. -/
theorem ifNull_arity {S : Type} {args : List (ScalarExpr S)}
    (h : ∀ first second, args=[first,second] → False) : args.length≠2 := by
  intro hlength
  obtain ⟨first,second,hargs⟩ := List.length_eq_two.mp hlength
  exact h first second hargs

end Steps

/-! ## Both copies are the walk -/

/-- The copy of select lists is the walk that reads the columns of the row. -/
theorem SelectList.evaluateScalarExpr_eq {S : Type} (operators : Operators) (source : RowSet)
    (row : Row) : ∀ expr : ScalarExpr S,
    evaluateScalarExpr operators source row expr=
      evaluate operators (projectionReading operators source.columns row) expr := by
  refine (@evaluateScalarExpr.mutual_induct S
    (fun expr => evaluateScalarExpr operators source row expr=
      evaluate operators (projectionReading operators source.columns row) expr)
    (fun args => evaluateConditions operators source row args=
      evaluatePairs operators (projectionReading operators source.columns row) args)
    (fun args => evaluateCoalesce operators source row args=
      evaluateFirst operators (projectionReading operators source.columns row) args)
    (fun clauses => evaluateConditionClauses operators source row clauses=
      evaluateClauses operators (projectionReading operators source.columns row) none clauses)
    (fun elseExpr => evaluateElse operators source row elseExpr=(do
      let value ← evaluateOption operators
        (projectionReading operators source.columns row) elseExpr
      .ok (value.getD .null)))
    (fun base clauses => evaluateBaseClauses operators source row base clauses=
      evaluateClauses operators (projectionReading operators source.columns row)
        (some base) clauses)
    (fun escape => evaluateLikeEscape operators source row escape=
      evaluateEscape operators (projectionReading operators source.columns row) escape)
    (fun values => evaluateCandidates operators source row values=
      evaluateTuples operators (projectionReading operators source.columns row) values)
    (fun exprs => evaluateScalarTupleExpr operators source row exprs=
      evaluateAll operators (projectionReading operators source.columns row) exprs)
    ?_ ?_ ?_ ?_ ?_ ?_ ?_ ?_ ?_ ?_ ?_ ?_ ?_ ?_ ?_ ?_ ?_ ?_ ?_ ?_ ?_ ?_ ?_ ?_ ?_ ?_ ?_ ?_
    ?_ ?_ ?_ ?_ ?_ ?_ ?_ ?_ ?_ ?_ ?_ ?_ ?_ ?_ ?_ ?_ ?_ ?_ ?_ ?_ ?_ ?_ ?_ ?_ ?_ ?_ ?_).1
  all_goals intros
  -- most constructors are written the same way in both
  all_goals try rfl
  all_goals try (simp only [evaluateScalarExpr,evaluate, *]; done)
  all_goals try (simp only [evaluateScalarExpr,evaluate, *]; rfl)
  all_goals try (simp only [evaluateConditions,evaluateScalarTupleExpr,evaluatePairs,
    evaluateAll, *]; done)
  · rw [evaluate_inSubquery]
    split <;> rfl
  · rw [evaluate_compareSubquery]
    split <;> rfl
  · simp only [evaluateScalarExpr,evaluate, *]
    exact like_step _ _ _ _
  · simp only [evaluateScalarExpr,evaluate, *]
    exact glob_step _ _ _
  · simp only [evaluateScalarExpr,evaluate, *]
    exact between_step _ _ _ _
  · simp only [evaluateScalarExpr,evaluate,evaluateOption, *]
    exact baseCase_step _ (fun base => do
      match ← evaluateClauses operators
        (projectionReading operators source.columns row) base _ with
      | some value => .ok value
      | none => do
        let value ← evaluateOption operators (projectionReading operators source.columns row) _
        .ok (value.getD .null))
  · simp only [evaluateScalarExpr,evaluate,evaluateFirst, *]
    exact ifNull_step _ _
  · rename_i args h
    rw [evaluate,if_pos (ifNull_arity h),evaluateScalarExpr]
    exact h
  · simp only [evaluateConditions,evaluatePairs, *]
    exact condition_step _ _ _
  · simp only [evaluateCoalesce,evaluateFirst, *]
    exact coalesce_step _ _
  · simp only [evaluateCandidates,evaluateTuples_cons,candidateValues,ScalarExpr.asTuple, *]
  · rename_i h _ _
    simp only [evaluateCandidates,evaluateTuples_cons,candidateValues_single h,bind_assoc, *]
    rfl
  · simp only [evaluateElse,evaluateOption, *]
    exact else_step _
  · simp only [evaluateLikeEscape,evaluateEscape, *]
    rfl
  · simp only [evaluateConditionClauses,evaluateClauses, *]
    exact condition_step _ _ _
  · simp only [evaluateBaseClauses,evaluateClauses, *]
    exact baseClause_step _ _ _ _

/-- The copy of filters is the walk that reads the scope and runs subqueries. -/
theorem Filtering.evaluateFilterScalarExpr_eq {S : Type} (operators : Operators)
    (executeSubqueryRows : SubqueryRows S) (currentTxn : Option TransactionId) (scope : Scope) :
    ∀ expr : ScalarExpr S,
    evaluateFilterScalarExpr operators executeSubqueryRows currentTxn scope expr=
      evaluate operators (filterReading operators executeSubqueryRows currentTxn scope) expr := by
  refine (@evaluateFilterScalarExpr.mutual_induct S currentTxn
    (fun expr => evaluateFilterScalarExpr operators executeSubqueryRows currentTxn scope expr=
      evaluate operators (filterReading operators executeSubqueryRows currentTxn scope) expr)
    (fun args => evaluateFilterConditions operators executeSubqueryRows currentTxn scope args=
      evaluatePairs operators (filterReading operators executeSubqueryRows currentTxn scope) args)
    (fun args => evaluateFilterCoalesce operators executeSubqueryRows currentTxn scope args=
      evaluateFirst operators (filterReading operators executeSubqueryRows currentTxn scope) args)
    (fun clauses =>
      evaluateFilterConditionClauses operators executeSubqueryRows currentTxn scope clauses=
        evaluateClauses operators (filterReading operators executeSubqueryRows currentTxn scope)
          none clauses)
    (fun elseExpr => evaluateFilterElse operators executeSubqueryRows currentTxn scope elseExpr=(do
      let value ← evaluateOption operators
        (filterReading operators executeSubqueryRows currentTxn scope) elseExpr
      .ok (value.getD .null)))
    (fun base clauses =>
      evaluateFilterBaseClauses operators executeSubqueryRows currentTxn scope base clauses=
        evaluateClauses operators (filterReading operators executeSubqueryRows currentTxn scope)
          (some base) clauses)
    (fun escape =>
      evaluateFilterLikeEscape operators executeSubqueryRows currentTxn scope escape=
        evaluateEscape operators (filterReading operators executeSubqueryRows currentTxn scope)
          escape)
    (fun values =>
      evaluateFilterCandidates operators executeSubqueryRows currentTxn scope values=
        evaluateTuples operators (filterReading operators executeSubqueryRows currentTxn scope)
          values)
    (fun exprs =>
      evaluateFilterScalarTupleExpr operators executeSubqueryRows currentTxn scope exprs=
        evaluateAll operators (filterReading operators executeSubqueryRows currentTxn scope)
          exprs)
    ?_ ?_ ?_ ?_ ?_ ?_ ?_ ?_ ?_ ?_ ?_ ?_ ?_ ?_ ?_ ?_ ?_ ?_ ?_ ?_ ?_ ?_ ?_ ?_ ?_ ?_ ?_ ?_
    ?_ ?_ ?_ ?_ ?_ ?_ ?_ ?_ ?_ ?_ ?_ ?_ ?_ ?_ ?_ ?_ ?_ ?_ ?_ ?_ ?_ ?_ ?_ ?_ ?_ ?_ ?_ ?_).1
  all_goals intros
  -- most constructors are written the same way in both
  all_goals try rfl
  all_goals try (simp only [evaluateFilterScalarExpr,evaluate, *]; done)
  all_goals try (simp only [evaluateFilterScalarExpr,evaluate, *]; rfl)
  all_goals try (simp only [evaluateFilterConditions,evaluateFilterScalarTupleExpr,
    evaluatePairs,evaluateAll, *]; done)
  · rename_i expr query negated ih
    rw [evaluate_inSubquery,evaluateFilterScalarExpr,ih]
    cases expr <;> rfl
  · rename_i left op query ih
    rw [evaluate_compareSubquery,evaluateFilterScalarExpr,ih]
    cases left <;> rfl
  · simp only [evaluateFilterScalarExpr,evaluate, *]
    exact like_step _ _ _ _
  · simp only [evaluateFilterScalarExpr,evaluate, *]
    exact glob_step _ _ _
  · simp only [evaluateFilterScalarExpr,evaluate, *]
    exact between_step _ _ _ _
  · simp only [evaluateFilterScalarExpr,evaluate,evaluateOption, *]
    exact baseCase_step _ (fun base => do
      match ← evaluateClauses operators
        (filterReading operators executeSubqueryRows currentTxn scope) base _ with
      | some value => .ok value
      | none => do
        let value ← evaluateOption operators
          (filterReading operators executeSubqueryRows currentTxn scope) _
        .ok (value.getD .null))
  · simp only [evaluateFilterScalarExpr,evaluate,evaluateFirst, *]
    exact ifNull_step _ _
  · rename_i args h
    rw [evaluate,if_pos (ifNull_arity h),evaluateFilterScalarExpr]
    exact h
  · simp only [evaluateFilterConditions,evaluatePairs, *]
    exact condition_step _ _ _
  · simp only [evaluateFilterCoalesce,evaluateFirst, *]
    exact coalesce_step _ _
  · simp only [evaluateFilterCandidates,evaluateTuples_cons,candidateValues,ScalarExpr.asTuple, *]
  · rename_i h _ _
    simp only [evaluateFilterCandidates,evaluateTuples_cons,candidateValues_single h,bind_assoc, *]
    rfl
  · simp only [evaluateFilterElse,evaluateOption, *]
    exact else_step _
  · simp only [evaluateFilterLikeEscape,evaluateEscape, *]
    rfl
  · simp only [evaluateFilterConditionClauses,evaluateClauses, *]
    exact condition_step _ _ _
  · simp only [evaluateFilterBaseClauses,evaluateClauses, *]
    exact baseClause_step _ _ _ _

/-! ## Agreement -/

/-- An expression that is a subquery or compares with one. -/
def ScalarExpr.isSubquery {S : Type} : ScalarExpr S → Bool
  | .inSubquery _ _ _ | .compareSubquery _ _ _ | .subquery _ => true
  | _ => false

/-- The readings of a filter without a row around it and of a select list agree about what
is no subquery. -/
theorem ownAgree_of_no_subquery {S : Type} {operators : Operators}
    {executeSubqueryRows : SubqueryRows S} {currentTxn : Option TransactionId} {source : RowSet}
    {row : Row} {expr : ScalarExpr S} (h : expr.isSubquery=false) :
    OwnAgree operators
      (filterReading operators executeSubqueryRows currentTxn ⟨source,row,none⟩)
      (projectionReading operators source.columns row) expr := by
  cases expr with
  | column name => exact Scope.lookup_of_outer_none rfl name
  | aggregate name => exact Scope.lookup_of_outer_none rfl name
  | between expr low high negated =>
    rw [OwnAgree]
    split
    · trivial
    · exact fun _ _ _ _ _ _ => rfl
  | inSubquery expr query negated => cases h
  | compareSubquery left op query => cases h
  | subquery query => cases h
  | _ => trivial

/-- A filter without a row around it and a select list give an expression without subqueries
the same value, or the same error. -/
theorem evaluators_agree {S : Type} (operators : Operators)
    (executeSubqueryRows : SubqueryRows S) (currentTxn : Option TransactionId) (source : RowSet)
    (row : Row) (expr : ScalarExpr S)
    (h : ∀ part, Part ScalarExpr.IsChild expr part → part.isSubquery=false) :
    Filtering.evaluateFilterScalarExpr operators executeSubqueryRows currentTxn
        ⟨source,row,none⟩ expr=
      SelectList.evaluateScalarExpr operators source row expr := by
  rw [Filtering.evaluateFilterScalarExpr_eq,SelectList.evaluateScalarExpr_eq]
  have hparts := (asked_agree_iff expr).mpr fun part hpart =>
    @ownAgree_of_no_subquery S operators executeSubqueryRows currentTxn source row part
      (h part (ScalarExpr.part_of_asked hpart))
  exact hparts expr (Part.self expr)

/-- `COALESCE(a,1)` where `a` is null. -/
theorem evaluators_agree_coalesce :
    Filtering.evaluateFilterScalarExpr plainOperators noSubqueries none
        ⟨nullRow.source,nullRow.row,none⟩
        (.function .coalesce [.column "a",.literal (.integer 1)])=.ok (.integer 1) := by
  have hparts : ∀ part, Part ScalarExpr.IsChild
      (.function .coalesce [.column "a",.literal (.integer 1)] : ScalarExpr Unit) part →
        part.isSubquery=false := by
    intro part hpart
    rcases Relation.ReflTransGen.cases_head hpart with rfl | ⟨child,hchild,hrest⟩
    · rfl
    · rcases List.mem_cons.mp hchild with rfl | hchild
      · rcases Relation.ReflTransGen.cases_head hrest with rfl | ⟨below,hbelow,-⟩
        · rfl
        · cases hbelow
      · obtain rfl := List.mem_singleton.mp hchild
        rcases Relation.ReflTransGen.cases_head hrest with rfl | ⟨below,hbelow,-⟩
        · rfl
        · cases hbelow
  rw [evaluators_agree plainOperators noSubqueries none nullRow.source nullRow.row _ hparts]
  rfl

end RustSql.Sql
