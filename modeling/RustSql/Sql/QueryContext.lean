import RustSql.Sql.ScalarEvaluators

/-!
# Expressions with subqueries

Outside of filters the executor evaluates an expression with a subquery like a filter, in the
transaction of the statement, and any other expression without one.
-/

namespace RustSql.Sql

open RustSql.V2

section Subqueries

variable {S : Type} (nested : ScalarExpr S → Bool)

mutual

/-- `scalar_expr_contains_subquery`. What the parts of an aggregate or of a window function
contain is taken from elsewhere. The pattern of a `LIKE` is not looked at. -/
def scalarExprContainsSubquery : ScalarExpr S → Bool
  | .inSubquery _ _ _ | .subquery _ | .compareSubquery _ _ _ => true
  | .tuple exprs => anyContainsSubquery exprs
  | .function _ args => anyContainsSubquery args
  | .unaryPlus expr => scalarExprContainsSubquery expr
  | .unaryMinus expr => scalarExprContainsSubquery expr
  | .bitNot expr => scalarExprContainsSubquery expr
  | .not expr => scalarExprContainsSubquery expr
  | .cast expr _ => scalarExprContainsSubquery expr
  | .collate expr _ => scalarExprContainsSubquery expr
  | .isBool expr _ _ => scalarExprContainsSubquery expr
  | .glob expr pattern _ => scalarExprContainsSubquery expr || scalarExprContainsSubquery pattern
  | .like expr _ escape _ => scalarExprContainsSubquery expr || optionContainsSubquery escape
  | .is left right _ => scalarExprContainsSubquery left || scalarExprContainsSubquery right
  | .compare left _ right => scalarExprContainsSubquery left || scalarExprContainsSubquery right
  | .binary left _ right => scalarExprContainsSubquery left || scalarExprContainsSubquery right
  | .inList expr values _ => scalarExprContainsSubquery expr || anyContainsSubquery values
  | .between expr low high _ =>
    scalarExprContainsSubquery expr || scalarExprContainsSubquery low ||
      scalarExprContainsSubquery high
  | .case base clauses elseExpr =>
    optionContainsSubquery base || clausesContainSubquery clauses ||
      optionContainsSubquery elseExpr
  | .aggregate name => nested (.aggregate name)
  | .windowFunction => nested .windowFunction
  | .literal _ | .column _ => false

/-- An expression of a list contains a subquery. -/
def anyContainsSubquery : List (ScalarExpr S) → Bool
  | [] => false
  | expr :: rest => scalarExprContainsSubquery expr || anyContainsSubquery rest

/-- An expression that is there contains a subquery. -/
def optionContainsSubquery : Option (ScalarExpr S) → Bool
  | none => false
  | some expr => scalarExprContainsSubquery expr

/-- A clause of a `CASE` contains a subquery. -/
def clausesContainSubquery : List (ScalarExpr S × ScalarExpr S) → Bool
  | [] => false
  | (whenExpr,thenExpr) :: rest =>
    scalarExprContainsSubquery whenExpr || scalarExprContainsSubquery thenExpr ||
      clausesContainSubquery rest

end

variable (operators : Operators) (executeSubqueryRows : SubqueryRows S)
  (transactionId : Option TransactionId) (source : RowSet) (row : Row)
  (outer : Option (RowSet × Row))

/-- The transaction a subquery needs. -/
def queryContext : Except DbError TransactionId :=
  match transactionId with
  | some transactionId => .ok transactionId
  | none => .error noQueryContext

/-- `evaluate_scalar_expr_in_context`. -/
def evaluateScalarExprInContext (expr : ScalarExpr S) : Except DbError Value :=
  match expr with
  | .inSubquery expr query negated => do
    let transactionId ← queryContext transactionId
    let subqueryOuter := outer.or (some (source,row))
    match expr with
    | .tuple leftExprs => do
      let left ← SelectList.evaluateScalarTupleExpr operators source row leftExprs
      let rows ← executeSubqueryRows transactionId query subqueryOuter
      .ok (tupleInResultValue operators left rows.rows negated)
    | expr => do
      let left ← SelectList.evaluateScalarExpr operators source row expr
      let rows ← executeSubquery executeSubqueryRows transactionId query subqueryOuter
      .ok (.boolean (evaluateInRows operators left rows.rows negated))
  | .compareSubquery left op query => do
    let transactionId ← queryContext transactionId
    let subqueryOuter := outer.or (some (source,row))
    match left with
    | .tuple leftExprs => do
      let left ← SelectList.evaluateScalarTupleExpr operators source row leftExprs
      let right ← tupleSubqueryValue executeSubqueryRows transactionId query subqueryOuter
      tupleCompareResultValue operators left op right
    | left => do
      let value ← SelectList.evaluateScalarExpr operators source row left
      let right ← scalarSubqueryValue executeSubqueryRows transactionId query subqueryOuter
      .ok (compareResultValue operators value op right left.collation)
  | .subquery query => do
    let transactionId ← queryContext transactionId
    scalarSubqueryValue executeSubqueryRows transactionId query (outer.or (some (source,row)))
  | expr =>
    if scalarExprContainsSubquery nested expr then do
      let transactionId ← queryContext transactionId
      Filtering.evaluateFilterScalarExpr operators executeSubqueryRows (some transactionId)
        ⟨source,row,outer⟩ expr
    else SelectList.evaluateScalarExpr operators source row expr

/-- Without a subquery the context does not matter. -/
theorem evaluateScalarExprInContext_plain {expr : ScalarExpr S}
    (h : scalarExprContainsSubquery nested expr=false) :
    evaluateScalarExprInContext nested operators executeSubqueryRows transactionId source row outer
      expr=SelectList.evaluateScalarExpr operators source row expr := by
  unfold evaluateScalarExprInContext
  split
  · rw [scalarExprContainsSubquery] at h
    cases h
  · rw [scalarExprContainsSubquery] at h
    cases h
  · rw [scalarExprContainsSubquery] at h
    cases h
  · rw [if_neg (by rw [h]; decide)]

end Subqueries

end RustSql.Sql
