import RustSql.Sql.Evaluate

/-!
# One expression, two readings

Two evaluators that go through an expression in the same way can differ only where one of
them does something of its own.
-/

namespace RustSql.Sql

variable {S : Type} (operators : Operators) (reading : Reading S)

/-- The expressions of a row value. -/
def ScalarExpr.asTuple : ScalarExpr S → Option (List (ScalarExpr S))
  | .tuple exprs => some exprs
  | _ => none

/-! ## The cases of row values -/

/-- `IS`, of tuples or of values. -/
theorem evaluate_is (left right : ScalarExpr S) (negated : Bool) :
    evaluate operators reading (.is left right negated)=
      (match left.asTuple, right.asTuple with
      | some leftExprs, some rightExprs => do
        let left ← evaluateAll operators reading leftExprs
        let right ← evaluateAll operators reading rightExprs
        .ok (.boolean (tupleIsWithNegation operators left right negated))
      | _, _ => do
        let left ← evaluate operators reading left
        let right ← evaluate operators reading right
        .ok (.boolean (isWithNegation operators left right negated))) := by
  cases left with
  | tuple leftExprs => cases right <;> rfl
  | _ => rfl

/-- A comparison, of tuples or of values. -/
theorem evaluate_compare (left : ScalarExpr S) (op : CompareOp) (right : ScalarExpr S) :
    evaluate operators reading (.compare left op right)=
      (match left.asTuple, right.asTuple with
      | some leftExprs, some rightExprs => do
        let left ← evaluateAll operators reading leftExprs
        let right ← evaluateAll operators reading rightExprs
        tupleCompareResultValue operators left op right
      | _, _ => do
        let leftValue ← evaluate operators reading left
        let rightValue ← evaluate operators reading right
        .ok (compareResultValue operators leftValue op rightValue
          (left.collation.or right.collation))) := by
  cases left with
  | tuple leftExprs => cases right <;> rfl
  | _ => rfl

/-- `BETWEEN`, of tuples or of values. -/
theorem evaluate_between (expr low high : ScalarExpr S) (negated : Bool) :
    evaluate operators reading (.between expr low high negated)=
      (match expr.asTuple, low.asTuple, high.asTuple with
      | some valueExprs, some lowExprs, some highExprs => do
        let value ← evaluateAll operators reading valueExprs
        let low ← evaluateAll operators reading lowExprs
        let high ← evaluateAll operators reading highExprs
        tupleBetweenResultValue operators value low high negated
      | _, _, _ => do
        let value ← evaluate operators reading expr
        let low ← evaluate operators reading low
        let high ← evaluate operators reading high
        .ok (reading.between value low high negated)) := by
  cases expr with
  | tuple valueExprs =>
    cases low with
    | tuple lowExprs => cases high <;> rfl
    | _ => rfl
  | _ => rfl

/-- `IN`, of tuples or of values. -/
theorem evaluate_inList (expr : ScalarExpr S) (values : List (ScalarExpr S)) (negated : Bool) :
    evaluate operators reading (.inList expr values negated)=
      (match expr.asTuple with
      | some leftExprs => do
        let left ← evaluateAll operators reading leftExprs
        let candidates ← evaluateTuples operators reading values
        .ok (tupleInResultValue operators left candidates negated)
      | none => do
        let left ← evaluate operators reading expr
        let values ← evaluateAll operators reading values
        .ok (inResultValue operators left values negated)) := by
  cases expr <;> rfl

/-- `IN` with a subquery. -/
theorem evaluate_inSubquery (expr : ScalarExpr S) (query : S) (negated : Bool) :
    evaluate operators reading (.inSubquery expr query negated)=
      (match expr.asTuple with
      | some exprs =>
        reading.tupleInSubquery (evaluateAll operators reading exprs) query negated
      | none => reading.inSubquery (evaluate operators reading expr) query negated) := by
  cases expr <;> rfl

/-- A comparison with a subquery. -/
theorem evaluate_compareSubquery (left : ScalarExpr S) (op : CompareOp) (query : S) :
    evaluate operators reading (.compareSubquery left op query)=
      (match left.asTuple with
      | some exprs =>
        reading.tupleCompareSubquery (evaluateAll operators reading exprs) op query
      | none =>
        reading.compareSubquery (evaluate operators reading left) left.collation op query) := by
  cases left <;> rfl

/-- The values of a candidate of a row-value `IN`. -/
def candidateValues (expr : ScalarExpr S) : Except DbError (List Value) :=
  match expr.asTuple with
  | some exprs => evaluateAll operators reading exprs
  | none => do
    let value ← evaluate operators reading expr
    .ok [value]

/-- One candidate, then the others. -/
theorem evaluateTuples_cons (expr : ScalarExpr S) (rest : List (ScalarExpr S)) :
    evaluateTuples operators reading (expr :: rest)=(do
      let candidate ← candidateValues operators reading expr
      let candidates ← evaluateTuples operators reading rest
      .ok (candidate :: candidates)) := by
  cases expr with
  | tuple exprs => rfl
  | _ => simp only [evaluateTuples,candidateValues,ScalarExpr.asTuple,bind_assoc]

/-- Expressions are evaluated one after another. -/
theorem evaluateAll_eq (exprs : List (ScalarExpr S)) :
    evaluateAll operators reading exprs=exprs.mapM (evaluate operators reading) := by
  induction exprs with
  | nil => rfl
  | cons expr rest ih =>
    rw [evaluateAll,List.mapM_cons,ih]
    rfl

/-! ## Agreement -/

section Agreement

variable {operators reading} {other : Reading S}

/-- Two readings agree where they do something of their own. -/
def OwnAgree (operators : Operators) (reading other : Reading S) (expr : ScalarExpr S) : Prop :=
  match expr with
  | .column name | .aggregate name => reading.lookup name=other.lookup name
  | .between expr low high negated =>
    match expr.asTuple, low.asTuple, high.asTuple with
    | some _, some _, some _ => True
    | _, _, _ => ∀ value lowValue highValue, evaluate operators other expr=.ok value →
      evaluate operators other low=.ok lowValue → evaluate operators other high=.ok highValue →
      reading.between value lowValue highValue negated=
        other.between value lowValue highValue negated
  | .inSubquery expr query negated =>
    match expr.asTuple with
    | some exprs =>
      reading.tupleInSubquery (evaluateAll operators other exprs) query negated=
        other.tupleInSubquery (evaluateAll operators other exprs) query negated
    | none =>
      reading.inSubquery (evaluate operators other expr) query negated=
        other.inSubquery (evaluate operators other expr) query negated
  | .compareSubquery left op query =>
    match left.asTuple with
    | some exprs =>
      reading.tupleCompareSubquery (evaluateAll operators other exprs) op query=
        other.tupleCompareSubquery (evaluateAll operators other exprs) op query
    | none =>
      reading.compareSubquery (evaluate operators other left) left.collation op query=
        other.compareSubquery (evaluate operators other left) left.collation op query
  | .subquery query => reading.subquery query=other.subquery query
  | _ => True

/-- Programs that go on alike after every result. -/
theorem bind_ok_iff {α β : Type} {value : Except DbError α} {f g : α → Except DbError β} :
    (value >>= f)=(value >>= g) ↔ ∀ x, value=.ok x → f x=g x := by
  cases value with
  | error error => exact ⟨fun _ _ hx => (nomatch hx),fun _ => rfl⟩
  | ok value =>
    constructor
    · intro h x hx
      cases hx
      exact h
    · intro h
      exact h value rfl

end Agreement

end RustSql.Sql
