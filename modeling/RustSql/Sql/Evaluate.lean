import RustSql.Sql.Comparisons
import RustSql.V2.TxTypes

/-!
# Evaluating expressions and filters

The two evaluators of scalar expressions, one for projections and one for filters, and
`matches_filter`. Both evaluators go through an expression in the same way and differ in
how they read columns and what they do about subqueries.
-/

namespace RustSql.Sql

open RustSql.V2

/-! ## Columns -/

/-- `ColumnMeta`. -/
structure ColumnMeta where
  table : Option String
  tableAlias : Option String
  name : String
  outputName : String
  collation : Option String
  hidden : Bool
  deriving DecidableEq

/-- `RowSet`. -/
structure RowSet where
  columns : List ColumnMeta
  rows : List Row
  deriving DecidableEq

/-- `str::split_once`. -/
def splitOnce (text : String) (separator : Char) : Option (String × String) :=
  let (before, rest) := text.toList.span (· ≠ separator)
  match rest with
  | [] => none
  | _ :: after => some (String.ofList before,String.ofList after)

/-- The one place that was found. -/
def theIndex (column : String) (indexes : List ℕ) : Except DbError ℕ :=
  match indexes with
  | [] => .error (.plan s!"unknown column {column}")
  | [index] => .ok index
  | _ => .error (.plan s!"ambiguous column reference: {column}")

/-- `resolve_column_index`. -/
def resolveColumnIndex (columns : List ColumnMeta) (column : String) : Except DbError ℕ :=
  match splitOnce column '.' with
  | some (tableName, suffix) =>
    theIndex column (columns.findIdxs fun entry =>
      entry.outputName==column ||
        (entry.name==suffix && (entry.table==some tableName || entry.tableAlias==some tableName)))
  | none =>
    let found (hidden : Bool) := columns.findIdxs fun entry =>
      entry.hidden==hidden && (entry.outputName==column || entry.name==column)
    if found false=[] then theIndex column (found true) else theIndex column (found false)

/-- `lookup_value`. -/
def lookupValue (columns : List ColumnMeta) (row : Row) (column : String) :
    Except DbError Value := do
  let index ← resolveColumnIndex columns column
  match row[index]? with
  | some value => .ok value
  | none => .error (.storage s!"row is missing column {column}")

/-- A row with its columns, and the row of the query around it. -/
structure Scope where
  source : RowSet
  row : Row
  outer : Option (RowSet × Row)

/-- `lookup_filter_value_with_meta`, without the meta data but the collation. -/
def Scope.lookupWithCollation (scope : Scope) (column : String) :
    Except DbError (Value × Option String) :=
  let collation (columns : List ColumnMeta) : Option String :=
    match resolveColumnIndex columns column with
    | .ok index => columns[index]?.bind ColumnMeta.collation
    | .error _ => none
  match lookupValue scope.source.columns scope.row column with
  | .ok value => .ok (value,collation scope.source.columns)
  | .error error =>
    match scope.outer with
    | some (outerRowSet, outerRow) =>
      match lookupValue outerRowSet.columns outerRow column with
      | .ok value => .ok (value,collation outerRowSet.columns)
      | .error _ => .error error
    | none => .error error

/-- `lookup_filter_value`. -/
def Scope.lookup (scope : Scope) (column : String) : Except DbError Value := do
  let found ← scope.lookupWithCollation column
  .ok found.1

/-! ## Scalar expressions -/

/-- A `LIKE` pattern or an `ESCAPE` that was evaluated: `LikeEscapeValue`. -/
inductive LikeEscapeValue where
  | missing
  | null
  | text (value : String)
  deriving DecidableEq

/-- `as_option_string`. -/
def LikeEscapeValue.asOptionString : LikeEscapeValue → Option String
  | .text value => some value
  | _ => none

/-- What an evaluator of scalar expressions does in its own way. The left side of a
comparison with a subquery is given with its error, which counts when it is asked for. -/
structure Reading (S : Type) where
  lookup : String → Except DbError Value
  between : Value → Value → Value → Bool → Value
  inSubquery : Except DbError Value → S → Bool → Except DbError Value
  tupleInSubquery : Except DbError (List Value) → S → Bool → Except DbError Value
  compareSubquery : Except DbError Value → Option String → CompareOp → S → Except DbError Value
  tupleCompareSubquery : Except DbError (List Value) → CompareOp → S → Except DbError Value
  subquery : S → Except DbError Value

section Evaluate

variable {S : Type} (operators : Operators) (reading : Reading S)

/-- The value of `LIKE` once its pattern and its escape are known. -/
def likeValue (pattern escape : LikeEscapeValue) (negated : Bool) (value : Value) :
    Except DbError Value :=
  if value=.null then .ok .null
  else do
    let found ← operators.matchesLikePattern (operators.coerceTextLikeValue value)
      (pattern.asOptionString.getD "") escape.asOptionString
    .ok (.boolean (found ^^ negated))

/-- The value of `GLOB` once its pattern is known. -/
def globValue (pattern : LikeEscapeValue) (negated : Bool) (value : Value) : Value :=
  if value=.null then .null
  else .boolean (operators.matchesGlobPattern (operators.coerceTextLikeValue value)
    (pattern.asOptionString.getD "") ^^ negated)

/-- A pattern, null or as a text. -/
def likePattern (value : Value) : LikeEscapeValue :=
  if value=.null then .null else .text (operators.coerceTextLikeValue value)

/-- An escape, null or as a text of one character. -/
def likeEscape (value : Value) : Except DbError LikeEscapeValue :=
  if value=.null then .ok .null
  else do
    operators.checkEscapeChar (operators.coerceTextLikeValue value)
    .ok (.text (operators.coerceTextLikeValue value))

mutual

/-- The walk through an expression. -/
def evaluate : ScalarExpr S → Except DbError Value
  | .literal value => .ok value
  | .column name => reading.lookup name
  | .unaryPlus expr => evaluate expr
  | .bitNot expr => do
    let value ← evaluate expr
    if value=.null then .ok .null else operators.bitNot value
  | .not expr => do
    let value ← evaluate expr
    .ok (notValue operators value)
  | .unaryMinus expr => do
    let value ← evaluate expr
    if value=.null then .ok .null else operators.negate value
  | .cast expr ty => do
    let value ← evaluate expr
    operators.castValue value ty
  | .collate expr _ => evaluate expr
  | .is left right negated =>
    match left, right with
    | .tuple leftExprs, .tuple rightExprs => do
      let left ← evaluateAll leftExprs
      let right ← evaluateAll rightExprs
      .ok (.boolean (tupleIsWithNegation operators left right negated))
    | left, right => do
      let left ← evaluate left
      let right ← evaluate right
      .ok (.boolean (isWithNegation operators left right negated))
  | .isBool expr value negated => do
    let evaluated ← evaluate expr
    .ok (.boolean ((evaluated≠.null && isTrueValue operators evaluated==value) ^^ negated))
  | .inList expr values negated =>
    match expr with
    | .tuple leftExprs => do
      let left ← evaluateAll leftExprs
      let candidates ← evaluateTuples values
      .ok (tupleInResultValue operators left candidates negated)
    | expr => do
      let left ← evaluate expr
      let values ← evaluateAll values
      .ok (inResultValue operators left values negated)
  | .inSubquery expr query negated =>
    match expr with
    | .tuple exprs => reading.tupleInSubquery (evaluateAll exprs) query negated
    | expr => reading.inSubquery (evaluate expr) query negated
  | .subquery query => reading.subquery query
  | .like expr pattern escape negated => do
    let patternValue ← evaluate pattern
    if patternValue=.null then .ok .null
    else
      let escapeValue ← evaluateEscape escape
      if escapeValue=.null then .ok .null
      else
        let value ← evaluate expr
        likeValue operators (likePattern operators patternValue) escapeValue negated value
  | .glob expr pattern negated => do
    let patternValue ← evaluate pattern
    if patternValue=.null then .ok .null
    else
      let value ← evaluate expr
      .ok (globValue operators (likePattern operators patternValue) negated value)
  | .between expr low high negated =>
    match expr, low, high with
    | .tuple valueExprs, .tuple lowExprs, .tuple highExprs => do
      let value ← evaluateAll valueExprs
      let low ← evaluateAll lowExprs
      let high ← evaluateAll highExprs
      tupleBetweenResultValue operators value low high negated
    | expr, low, high => do
      let value ← evaluate expr
      let low ← evaluate low
      let high ← evaluate high
      .ok (reading.between value low high negated)
  | .compare left op right =>
    match left, right with
    | .tuple leftExprs, .tuple rightExprs => do
      let left ← evaluateAll leftExprs
      let right ← evaluateAll rightExprs
      tupleCompareResultValue operators left op right
    | left, right => do
      let leftValue ← evaluate left
      let rightValue ← evaluate right
      .ok (compareResultValue operators leftValue op rightValue
        (left.collation.or right.collation))
  | .compareSubquery left op query =>
    match left with
    | .tuple exprs => reading.tupleCompareSubquery (evaluateAll exprs) op query
    | left => reading.compareSubquery (evaluate left) left.collation op query
  | .case base clauses elseExpr => do
    let base ← evaluateOption base
    match ← evaluateClauses base clauses with
    | some value => .ok value
    | none => do
      let value ← evaluateOption elseExpr
      .ok (value.getD .null)
  | .binary left op right => do
    let left ← evaluate left
    let right ← evaluate right
    operators.evaluateBinaryScalar op left right
  | .function func args =>
    match func with
    | .coalesce =>
      if args.length < 2 then .error (.plan "COALESCE expects at least 2 arguments")
      else evaluateFirst args
    | .ifNull =>
      if args.length≠2 then
        .error (.plan s!"IFNULL expects 2 arguments but got {args.length}")
      else evaluateFirst args
    | .iif =>
      if args.length < 2 then
        .error (.plan s!"IIF expects at least 2 arguments but got {args.length}")
      else evaluatePairs args
    | .if' =>
      if args.length < 2 then
        .error (.plan s!"IF expects at least 2 arguments but got {args.length}")
      else evaluatePairs args
    | func => do
      let values ← evaluateAll args
      operators.evaluateScalarFunction func values
  | .tuple _ => .error (.plan "row value misused")
  | .windowFunction => .error (.plan "window function requires projection context")
  | .aggregate name => reading.lookup name

/-- The values of several expressions. -/
def evaluateAll : List (ScalarExpr S) → Except DbError (List Value)
  | [] => .ok []
  | expr :: rest => do
    let value ← evaluate expr
    let values ← evaluateAll rest
    .ok (value :: values)

/-- The candidates of a row-value `IN`; one that is no row value counts as one of one
value. -/
def evaluateTuples : List (ScalarExpr S) → Except DbError (List (List Value))
  | [] => .ok []
  | expr :: rest => do
    let candidate ← match expr with
      | .tuple exprs => evaluateAll exprs
      | expr => do
        let value ← evaluate expr
        .ok [value]
    let candidates ← evaluateTuples rest
    .ok (candidate :: candidates)

/-- `evaluate_like_escape`. -/
def evaluateEscape : Option (ScalarExpr S) → Except DbError LikeEscapeValue
  | none => .ok .missing
  | some expr => do
    let value ← evaluate expr
    likeEscape operators value

/-- An expression that may be missing. -/
def evaluateOption : Option (ScalarExpr S) → Except DbError (Option Value)
  | none => .ok none
  | some expr => do
    let value ← evaluate expr
    .ok (some value)

/-- The clauses of a `CASE`, none when no clause applies. -/
def evaluateClauses (base : Option Value) :
    List (ScalarExpr S × ScalarExpr S) → Except DbError (Option Value)
  | [] => .ok none
  | (whenExpr,thenExpr) :: rest => do
    let whenValue ← evaluate whenExpr
    let applies ← match base with
      | some baseValue => .ok (compareValues operators baseValue whenValue==some .eq)
      | none => do
        let condition ← operators.castValue whenValue .boolean
        .ok (condition==.boolean true)
    if applies then do
      let value ← evaluate thenExpr
      .ok (some value)
    else evaluateClauses base rest

/-- The first value that is not null: `COALESCE` and `IFNULL`. -/
def evaluateFirst : List (ScalarExpr S) → Except DbError Value
  | [] => .ok .null
  | expr :: rest => do
    let value ← evaluate expr
    if value=.null then evaluateFirst rest else .ok value

/-- Conditions with their values, and a default: `IIF`. -/
def evaluatePairs : List (ScalarExpr S) → Except DbError Value
  | [] => .ok .null
  | [expr] => evaluate expr
  | conditionExpr :: valueExpr :: rest => do
    let value ← evaluate conditionExpr
    let condition ← operators.castValue value .boolean
    if condition==.boolean true then evaluate valueExpr else evaluatePairs rest

end

end Evaluate

/-! ## Subqueries -/

/-- `execute_subquery_rows`: planning and running a subquery, with the row around it. -/
abbrev SubqueryRows (S : Type) :=
  TransactionId → S → Option (RowSet × Row) → Except DbError RowSet

section Subqueries

variable {S : Type} (executeSubqueryRows : SubqueryRows S) (transactionId : TransactionId)
  (query : S) (outer : Option (RowSet × Row))

/-- `execute_subquery`. -/
def executeSubquery : Except DbError RowSet := do
  let rows ← executeSubqueryRows transactionId query outer
  if rows.columns.length≠1 then .error (.plan "subquery must return exactly one column")
  else .ok rows

/-- `scalar_subquery_value`. -/
def scalarSubqueryValue : Except DbError Value := do
  let rows ← executeSubquery executeSubqueryRows transactionId query outer
  .ok ((firstValues rows.rows).headD .null)

/-- `tuple_subquery_value`. -/
def tupleSubqueryValue : Except DbError (List Value) := do
  let rows ← executeSubqueryRows transactionId query outer
  match rows.rows with
  | [] => .ok (List.replicate rows.columns.length .null)
  | [row] => .ok row
  | _ => .error (.plan "scalar subquery returned more than one row")

end Subqueries

/-- The error of a subquery that finds no transaction. -/
def noQueryContext : DbError := .plan "subquery scalar expressions require query context"

/-- The error of a row value where one value is needed. -/
def rowValueMisused : DbError := .plan "row value misused"

section Filters

variable {S : Type} (operators : Operators) (executeSubqueryRows : SubqueryRows S)

/-- The readings of `evaluate_filter_scalar_expr`: columns also of the row around, and
subqueries in the current transaction, if there is one. -/
def filterReading (currentTxn : Option TransactionId) (scope : Scope) : Reading S where
  lookup := scope.lookup
  between := betweenValue operators
  inSubquery left query negated := do
    let left ← left
    match currentTxn with
    | none => .error noQueryContext
    | some transactionId => do
      let rows ← executeSubquery executeSubqueryRows transactionId query
        (some (scope.source,scope.row))
      .ok (.boolean (evaluateInRows operators left rows.rows negated))
  tupleInSubquery _ _ _ := .error rowValueMisused
  compareSubquery left collation op query := do
    let left ← left
    match currentTxn with
    | none => .error noQueryContext
    | some transactionId => do
      let right ← scalarSubqueryValue executeSubqueryRows transactionId query
        (some (scope.source,scope.row))
      .ok (compareResultValue operators left op right collation)
  tupleCompareSubquery _ _ _ := .error rowValueMisused
  subquery query :=
    match currentTxn with
    | none => .error noQueryContext
    | some transactionId =>
      scalarSubqueryValue executeSubqueryRows transactionId query (some (scope.source,scope.row))

/-- `evaluate_filter_scalar_expr`. -/
def evaluateFilterScalarExpr (currentTxn : Option TransactionId) (scope : Scope) :
    ScalarExpr S → Except DbError Value :=
  evaluate operators (filterReading operators executeSubqueryRows currentTxn scope)

/-- The readings of `evaluate_scalar_expr`: columns of the row itself, and no subqueries. -/
def projectionReading (columns : List ColumnMeta) (row : Row) : Reading S where
  lookup := lookupValue columns row
  between := betweenValue operators
  inSubquery _ _ _ := .error noQueryContext
  tupleInSubquery _ _ _ := .error noQueryContext
  compareSubquery _ _ _ _ := .error noQueryContext
  tupleCompareSubquery _ _ _ := .error noQueryContext
  subquery _ := .error noQueryContext

/-- `evaluate_scalar_expr`. -/
def evaluateScalarExpr (columns : List ColumnMeta) (row : Row) :
    ScalarExpr S → Except DbError Value :=
  evaluate operators (projectionReading operators columns row)

variable (transactionId : TransactionId) (currentTxn : Option TransactionId) (scope : Scope)

/-- `matches_filter`, for a filter that is there. -/
def matchesFilter : Expr S → Except DbError Bool
  | .compare column op value => do
    let (left, collation) ← scope.lookupWithCollation column
    .ok (compareWithOperator operators left op value collation)
  | .compareColumns left op right => do
    let (left, leftCollation) ← scope.lookupWithCollation left
    let (right, rightCollation) ← scope.lookupWithCollation right
    .ok (compareWithOperator operators left op right (leftCollation.or rightCollation))
  | .compareScalar left op right =>
    let value := evaluateFilterScalarExpr operators executeSubqueryRows currentTxn scope
    match left, right with
    | .tuple leftExprs, .tuple rightExprs => do
      let left ← leftExprs.mapM value
      let right ← rightExprs.mapM value
      let result ← tupleCompareResultValue operators left op right
      .ok (valueHolds result)
    | left, right => do
      let leftValue ← value left
      let rightValue ← value right
      .ok (compareWithOperator operators leftValue op rightValue
        (left.collation.or right.collation))
  | .isNull column negated => do
    let left ← scope.lookup column
    .ok ((left=.null) ^^ negated)
  | .isNullScalar expr negated => do
    let value ← evaluateFilterScalarExpr operators executeSubqueryRows currentTxn scope expr
    .ok ((value=.null) ^^ negated)
  | .is left right negated =>
    let value := evaluateFilterScalarExpr operators executeSubqueryRows currentTxn scope
    match left, right with
    | .tuple leftExprs, .tuple rightExprs => do
      let left ← leftExprs.mapM value
      let right ← rightExprs.mapM value
      .ok (tupleIsWithNegation operators left right negated)
    | left, right => do
      let left ← value left
      let right ← value right
      .ok (isWithNegation operators left right negated)
  | .isBool expr value negated _ => do
    let evaluated ← evaluateFilterScalarExpr operators executeSubqueryRows currentTxn scope expr
    .ok ((evaluated≠.null && isTrueValue operators evaluated==value) ^^ negated)
  | .inSubquery column query negated => do
    let left ← scope.lookup column
    let rows ← executeSubquery executeSubqueryRows transactionId query
      (some (scope.source,scope.row))
    .ok (evaluateInRows operators left rows.rows negated)
  | .inList column values negated => do
    let left ← scope.lookup column
    .ok (evaluateInValues operators left values negated)
  | .inSubqueryScalar expr query negated =>
    let value := evaluateFilterScalarExpr operators executeSubqueryRows currentTxn scope
    match expr with
    | .tuple leftExprs => do
      let left ← leftExprs.mapM value
      let rows ← executeSubqueryRows transactionId query (some (scope.source,scope.row))
      .ok (valueHolds (tupleInResultValue operators left rows.rows negated))
    | expr => do
      let left ← value expr
      let rows ← executeSubquery executeSubqueryRows transactionId query
        (some (scope.source,scope.row))
      .ok (evaluateInRows operators left rows.rows negated)
  | .inListScalar expr values negated =>
    let value := evaluateFilterScalarExpr operators executeSubqueryRows currentTxn scope
    match expr with
    | .tuple leftExprs => do
      let left ← leftExprs.mapM value
      let candidates ← values.mapM fun candidate =>
        match candidate with
        | .tuple exprs => exprs.mapM value
        | expr => do
          let single ← value expr
          .ok [single]
      .ok (valueHolds (tupleInResultValue operators left candidates negated))
    | expr => do
      let left ← value expr
      let candidates ← values.mapM value
      .ok (evaluateInValues operators left candidates negated)
  | .compareSubquery column op query => do
    let left ← scope.lookup column
    let right ← scalarSubqueryValue executeSubqueryRows transactionId query
      (some (scope.source,scope.row))
    .ok (compareWithOperator operators left op right none)
  | .compareSubqueryScalar left op query =>
    let value := evaluateFilterScalarExpr operators executeSubqueryRows currentTxn scope
    match left with
    | .tuple leftExprs => do
      let left ← leftExprs.mapM value
      let right ← tupleSubqueryValue executeSubqueryRows transactionId query
        (some (scope.source,scope.row))
      let result ← tupleCompareResultValue operators left op right
      .ok (valueHolds result)
    | left => do
      let left ← value left
      let right ← scalarSubqueryValue executeSubqueryRows transactionId query
        (some (scope.source,scope.row))
      .ok (compareWithOperator operators left op right none)
  | .existsSubquery query negated => do
    let rows ← executeSubquery executeSubqueryRows transactionId query
      (some (scope.source,scope.row))
    .ok (!rows.rows.isEmpty ^^ negated)
  | .like column pattern escape negated => do
    let patternValue ← evaluateFilterScalarExpr operators executeSubqueryRows currentTxn scope
      pattern
    if patternValue=.null then .ok false
    else
      let escapeValue ← evaluateEscape operators
        (filterReading operators executeSubqueryRows currentTxn scope) escape
      if escapeValue=.null then .ok false
      else
        let value ← scope.lookup column
        let result ← likeValue operators (likePattern operators patternValue) escapeValue negated
          value
        .ok (valueHolds result)
  | .likeScalar expr pattern escape negated => do
    let patternValue ← evaluateFilterScalarExpr operators executeSubqueryRows currentTxn scope
      pattern
    if patternValue=.null then .ok false
    else
      let escapeValue ← evaluateEscape operators
        (filterReading operators executeSubqueryRows currentTxn scope) escape
      if escapeValue=.null then .ok false
      else
        let value ← evaluateFilterScalarExpr operators executeSubqueryRows currentTxn scope expr
        let result ← likeValue operators (likePattern operators patternValue) escapeValue negated
          value
        .ok (valueHolds result)
  | .glob column pattern negated => do
    let patternValue ← evaluateFilterScalarExpr operators executeSubqueryRows currentTxn scope
      pattern
    if patternValue=.null then .ok false
    else
      let value ← scope.lookup column
      .ok (valueHolds (globValue operators (likePattern operators patternValue) negated value))
  | .globScalar expr pattern negated => do
    let patternValue ← evaluateFilterScalarExpr operators executeSubqueryRows currentTxn scope
      pattern
    if patternValue=.null then .ok false
    else
      let value ← evaluateFilterScalarExpr operators executeSubqueryRows currentTxn scope expr
      .ok (valueHolds (globValue operators (likePattern operators patternValue) negated value))
  | .between column low high negated => do
    let value ← scope.lookup column
    .ok (valueHolds (betweenValue operators value low high negated))
  | .betweenScalar expr low high negated =>
    let value := evaluateFilterScalarExpr operators executeSubqueryRows currentTxn scope
    match expr, low, high with
    | .tuple valueExprs, .tuple lowExprs, .tuple highExprs => do
      let values ← valueExprs.mapM value
      let low ← lowExprs.mapM value
      let high ← highExprs.mapM value
      let result ← tupleBetweenResultValue operators values low high negated
      .ok (valueHolds result)
    | expr, low, high => do
      let value' ← value expr
      let low ← value low
      let high ← value high
      .ok (valueHolds (betweenValue operators value' low high negated))
  | .not expr => do
    let found ← matchesFilter expr
    .ok (!found)
  | .and left right => do
    if ← matchesFilter left then matchesFilter right else .ok false
  | .or left right => do
    if ← matchesFilter left then .ok true else matchesFilter right

end Filters

end RustSql.Sql
