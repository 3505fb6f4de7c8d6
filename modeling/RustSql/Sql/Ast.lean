import RustSql.Common.Value
import RustSql.Sql.Schema

/-!
# Expressions

The expressions of a statement: scalar expressions, which have a value, and filters, which
keep a row or not. A subquery is a statement, which stands as a parameter.
-/

namespace RustSql.Sql

/-- `ScalarBinaryOp`. -/
inductive ScalarBinaryOp where
  | add
  | subtract
  | multiply
  | divide
  | modulo
  | bitAnd
  | bitOr
  | shiftLeft
  | shiftRight
  | concat
  | jsonExtract
  | jsonExtractText
  deriving DecidableEq

/-- `ScalarFunc`: the functions that evaluate their arguments one at a time, and the others
by name. -/
inductive ScalarFunc where
  | coalesce
  | ifNull
  | iif
  | if'
  | other (name : String)
  deriving DecidableEq

/-- `ScalarExpr`. An aggregate stands as the name of its column, which is all an evaluator
uses of it, and a window function has no value in an expression. -/
inductive ScalarExpr (S : Type) where
  | literal (value : Value)
  | column (name : String)
  | tuple (exprs : List (ScalarExpr S))
  | unaryPlus (expr : ScalarExpr S)
  | unaryMinus (expr : ScalarExpr S)
  | bitNot (expr : ScalarExpr S)
  | not (expr : ScalarExpr S)
  | cast (expr : ScalarExpr S) (ty : ColumnType)
  | collate (expr : ScalarExpr S) (collation : String)
  | is (left right : ScalarExpr S) (negated : Bool)
  | isBool (expr : ScalarExpr S) (value negated : Bool)
  | inList (expr : ScalarExpr S) (values : List (ScalarExpr S)) (negated : Bool)
  | inSubquery (expr : ScalarExpr S) (query : S) (negated : Bool)
  | subquery (query : S)
  | like (expr pattern : ScalarExpr S) (escape : Option (ScalarExpr S)) (negated : Bool)
  | glob (expr pattern : ScalarExpr S) (negated : Bool)
  | between (expr low high : ScalarExpr S) (negated : Bool)
  | compare (left : ScalarExpr S) (op : CompareOp) (right : ScalarExpr S)
  | compareSubquery (left : ScalarExpr S) (op : CompareOp) (query : S)
  | case (base : Option (ScalarExpr S)) (whenThenClauses : List (ScalarExpr S × ScalarExpr S))
      (elseExpr : Option (ScalarExpr S))
  | binary (left : ScalarExpr S) (op : ScalarBinaryOp) (right : ScalarExpr S)
  | function (func : ScalarFunc) (args : List (ScalarExpr S))
  | windowFunction
  | aggregate (name : String)

/-- `Expr`: filters. -/
inductive Expr (S : Type) where
  | compare (column : String) (op : CompareOp) (value : Value)
  | compareColumns (left : String) (op : CompareOp) (right : String)
  | compareScalar (left : ScalarExpr S) (op : CompareOp) (right : ScalarExpr S)
  | isNull (column : String) (negated : Bool)
  | isNullScalar (expr : ScalarExpr S) (negated : Bool)
  | is (left right : ScalarExpr S) (negated : Bool)
  | isBool (expr : ScalarExpr S) (value negated explicit : Bool)
  | inSubquery (column : String) (query : S) (negated : Bool)
  | inList (column : String) (values : List Value) (negated : Bool)
  | inSubqueryScalar (expr : ScalarExpr S) (query : S) (negated : Bool)
  | inListScalar (expr : ScalarExpr S) (values : List (ScalarExpr S)) (negated : Bool)
  | compareSubquery (column : String) (op : CompareOp) (query : S)
  | compareSubqueryScalar (left : ScalarExpr S) (op : CompareOp) (query : S)
  | existsSubquery (query : S) (negated : Bool)
  | like (column : String) (pattern : ScalarExpr S) (escape : Option (ScalarExpr S))
      (negated : Bool)
  | likeScalar (expr pattern : ScalarExpr S) (escape : Option (ScalarExpr S)) (negated : Bool)
  | glob (column : String) (pattern : ScalarExpr S) (negated : Bool)
  | globScalar (expr pattern : ScalarExpr S) (negated : Bool)
  | between (column : String) (low high : Value) (negated : Bool)
  | betweenScalar (expr low high : ScalarExpr S) (negated : Bool)
  | not (expr : Expr S)
  | and (left right : Expr S)
  | or (left right : Expr S)

/-- `scalar_expr_collation`. -/
def ScalarExpr.collation {S : Type} : ScalarExpr S → Option String
  | .collate _ collation => some collation
  | _ => none

section Children

variable {S : Type}

/-- The expressions an expression is made of. -/
def ScalarExpr.children : ScalarExpr S → List (ScalarExpr S)
  | .tuple exprs => exprs
  | .unaryPlus expr | .unaryMinus expr | .bitNot expr | .not expr | .cast expr _
  | .collate expr _ | .isBool expr _ _ => [expr]
  | .is left right _ | .compare left _ right | .binary left _ right => [left,right]
  | .inList expr values _ => expr :: values
  | .inSubquery expr _ _ | .compareSubquery expr _ _ => [expr]
  | .like expr pattern escape _ => expr :: pattern :: escape.toList
  | .glob expr pattern _ => [expr,pattern]
  | .between expr low high _ => [expr,low,high]
  | .case base clauses elseExpr =>
    base.toList++clauses.map Prod.fst++clauses.map Prod.snd++elseExpr.toList
  | .function _ args => args
  | .literal _ | .column _ | .subquery _ | .windowFunction | .aggregate _ => []

/-- Being one of an expression's children. -/
def ScalarExpr.IsChild (child expr : ScalarExpr S) : Prop := child∈expr.children

theorem option_sizeOf_lt {expr : ScalarExpr S} {escape : Option (ScalarExpr S)}
    (h : expr∈escape.toList) : sizeOf expr < sizeOf escape := by
  rw [Option.mem_toList] at h
  subst h
  simp

/-- Children are smaller. -/
theorem ScalarExpr.child_sizeOf_lt {child expr : ScalarExpr S} (h : child∈expr.children) :
    sizeOf child < sizeOf expr := by
  cases expr with
  | tuple exprs =>
    have hmem : child∈exprs := h
    have hlt := List.sizeOf_lt_of_mem hmem
    simp only [tuple.sizeOf_spec]
    omega
  | inList expr values negated =>
    rcases List.mem_cons.mp h with rfl | h
    · simp only [inList.sizeOf_spec]
      omega
    · have hlt := List.sizeOf_lt_of_mem h
      simp only [inList.sizeOf_spec]
      omega
  | like expr pattern escape negated =>
    rcases List.mem_cons.mp h with rfl | h
    · simp only [like.sizeOf_spec]
      omega
    rcases List.mem_cons.mp h with rfl | h
    · simp only [like.sizeOf_spec]
      omega
    · have hlt := option_sizeOf_lt h
      simp only [like.sizeOf_spec]
      omega
  | case base clauses elseExpr =>
    simp only [children,List.mem_append] at h
    simp only [case.sizeOf_spec]
    rcases h with ((h | h) | h) | h
    · have hlt := option_sizeOf_lt h
      omega
    · obtain ⟨clause,hclause,rfl⟩ := List.mem_map.mp h
      have hlt := List.sizeOf_lt_of_mem hclause
      have hpair := Prod.mk.sizeOf_spec clause.1 clause.2
      rw [Prod.mk.eta] at hpair
      omega
    · obtain ⟨clause,hclause,rfl⟩ := List.mem_map.mp h
      have hlt := List.sizeOf_lt_of_mem hclause
      have hpair := Prod.mk.sizeOf_spec clause.1 clause.2
      rw [Prod.mk.eta] at hpair
      omega
    · have hlt := option_sizeOf_lt h
      omega
  | function func args =>
    have hmem : child∈args := h
    have hlt := List.sizeOf_lt_of_mem hmem
    simp only [function.sizeOf_spec]
    omega
  | _ =>
    -- one, two, three or no children of their own
    simp only [children,List.mem_cons,List.not_mem_nil,or_false] at h <;>
      rcases h with rfl | rfl | rfl <;> simp <;> omega

/-- There is no infinite descent into children. -/
theorem ScalarExpr.child_wellFounded : WellFounded (ScalarExpr.IsChild (S := S)) :=
  Subrelation.wf (fun h => child_sizeOf_lt h) (measure sizeOf).wf

/-- The filters a filter is made of. -/
def Expr.children : Expr S → List (Expr S)
  | .not expr => [expr]
  | .and left right | .or left right => [left,right]
  | _ => []

/-- Being one of a filter's children. -/
def Expr.IsChild (child expr : Expr S) : Prop := child∈expr.children

theorem Expr.child_sizeOf_lt {child expr : Expr S} (h : child∈expr.children) :
    sizeOf child < sizeOf expr := by
  cases expr with
  | not expr =>
    obtain rfl := List.mem_singleton.mp h
    simp
  | and left right =>
    simp only [children,List.mem_cons,List.not_mem_nil,or_false] at h
    rcases h with rfl | rfl
    · simp
      omega
    · simp
  | or left right =>
    simp only [children,List.mem_cons,List.not_mem_nil,or_false] at h
    rcases h with rfl | rfl
    · simp
      omega
    · simp
  | _ => cases h

theorem Expr.child_wellFounded : WellFounded (Expr.IsChild (S := S)) :=
  Subrelation.wf (fun h => child_sizeOf_lt h) (measure sizeOf).wf

end Children

end RustSql.Sql
