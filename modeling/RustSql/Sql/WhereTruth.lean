import RustSql.Sql.FilterTruth

/-!
# The rows a filter keeps

`matches_filter` keeps the rows for which a filter is true exactly where every part of the
filter is decided, and a select list then gives the filter's truth value.
-/

namespace RustSql.Sql

open RustSql.V2

section Where

variable {S : Type} (operators : Operators) (executeSubqueryRows : SubqueryRows S)
  (transactionId : TransactionId) (scope : Scope) (inTransaction : Bool)

/-- The transaction that a subquery in an expression finds: none outside `BEGIN`. -/
def currentTransaction : Option TransactionId :=
  if inTransaction then some transactionId else none

/-- Where an operand has its value in SQL: no null misleads a `BETWEEN`, the membership of
an `IN` with a subquery is known, and subqueries stand in a transaction and beside single
values. -/
def ScalarExpr.Decided (expr : ScalarExpr S) : Prop :=
  let reading := sqlReading operators executeSubqueryRows transactionId scope
  let outer := some (scope.source,scope.row)
  match expr with
  | .between expr low high _ =>
    match expr.asTuple, low.asTuple, high.asTuple with
    | some _, some _, some _ => True
    | _, _, _ => ∀ value lowValue highValue, evaluate operators reading expr=.ok value →
      evaluate operators reading low=.ok lowValue →
      evaluate operators reading high=.ok highValue →
      BetweenExact operators value lowValue highValue
  | .inSubquery expr query negated =>
    match expr.asTuple with
    | some exprs =>
      reading.tupleInSubquery (evaluateAll operators reading exprs) query negated=
        .error rowValueMisused
    | none => ∀ value, evaluate operators reading expr=.ok value →
      if inTransaction then
        ∀ rows, executeSubquery executeSubqueryRows transactionId query outer=.ok rows →
          inTruth operators value (firstValues rows.rows)≠none
      else executeSubquery executeSubqueryRows transactionId query outer=.error noQueryContext
  | .compareSubquery left op query =>
    match left.asTuple with
    | some exprs =>
      reading.tupleCompareSubquery (evaluateAll operators reading exprs) op query=
        .error rowValueMisused
    | none => inTransaction=true ∨ ∀ value, evaluate operators reading left=.ok value →
      scalarSubqueryValue executeSubqueryRows transactionId query outer=.error noQueryContext
  | .subquery query => inTransaction=true ∨
    scalarSubqueryValue executeSubqueryRows transactionId query outer=.error noQueryContext
  | _ => True

variable {operators executeSubqueryRows transactionId scope inTransaction}

/-- A step that always succeeds brings no error of its own. -/
theorem error_eq_bind_iff {α β : Type} {value : Except DbError α} {f : α → Except DbError β}
    {error : DbError} (h : ∀ x, ∃ y, f x=.ok y) :
    .error error=(value >>= f) ↔ value=.error error := by
  cases value with
  | error other =>
    constructor
    · intro herror
      cases herror
      rfl
    · intro herror
      cases herror
      rfl
  | ok value =>
    obtain ⟨y,hy⟩ := h value
    refine iff_of_false ?_ (by simp)
    change ¬Except.error error=f value
    rw [hy]
    simp

/-- The value of `IN` is the test of the filter, except where membership is unknown. -/
theorem evaluateInRows_eq_iff (left : Value) (rows : List Row) (negated : Bool) :
    Value.boolean (evaluateInRows operators left rows negated)=
        truthValue ((inTruth operators left (firstValues rows)).withNegation negated) ↔
      inTruth operators left (firstValues rows)≠none := by
  unfold evaluateInRows
  rw [evaluateInValues_eq]
  cases inTruth operators left (firstValues rows) with
  | none =>
    rw [Truth.withNegation_none]
    refine iff_of_false ?_ (not_not_intro rfl)
    cases negated <;> simp [truthValue]
  | some value =>
    rw [Truth.withNegation_some,Truth.holds_some]
    exact iff_of_true rfl (Option.some_ne_none _)

/-- The evaluator of filters does as SQL does where an operand is decided. -/
theorem ownAgree_filter_iff (expr : ScalarExpr S) :
    OwnAgree operators
        (filterReading operators executeSubqueryRows
          (currentTransaction transactionId inTransaction) scope)
        (sqlReading operators executeSubqueryRows transactionId scope) expr ↔
      expr.Decided operators executeSubqueryRows transactionId scope inTransaction := by
  cases expr with
  | between expr low high negated =>
    have hbetween : ∀ value lowValue highValue,
        (filterReading operators executeSubqueryRows
          (currentTransaction transactionId inTransaction) scope).between value lowValue
            highValue negated=
        (sqlReading operators executeSubqueryRows transactionId scope).between value lowValue
            highValue negated ↔
          BetweenExact operators value lowValue highValue :=
      fun value lowValue highValue => betweenValue_eq_iff value lowValue highValue negated
    rw [OwnAgree,ScalarExpr.Decided]
    cases expr.asTuple <;> cases low.asTuple <;> cases high.asTuple <;>
      simp only [hbetween]
  | inSubquery expr query negated =>
    rw [OwnAgree,ScalarExpr.Decided]
    cases expr.asTuple with
    | some exprs => exact eq_comm
    | none =>
      cases inTransaction with
      | true =>
        refine bind_ok_iff.trans (forall₂_congr fun value hvalue => ?_)
        refine bind_ok_iff.trans (forall₂_congr fun rows hrows => ?_)
        rw [Except.ok.injEq]
        exact evaluateInRows_eq_iff value rows.rows negated
      | false =>
        refine bind_ok_iff.trans (forall₂_congr fun value hvalue => ?_)
        exact error_eq_bind_iff fun rows => ⟨_,rfl⟩
  | compareSubquery left op query =>
    rw [OwnAgree,ScalarExpr.Decided]
    cases left.asTuple with
    | some exprs => exact eq_comm
    | none =>
      cases inTransaction with
      | true =>
        refine iff_of_true ?_ (Or.inl rfl)
        refine bind_ok_iff.mpr fun value hvalue => bind_ok_iff.mpr fun right hright => ?_
        rw [compareResultValue_eq]
      | false =>
        refine bind_ok_iff.trans (Iff.trans ?_ (or_iff_right Bool.false_ne_true).symm)
        exact forall₂_congr fun value hvalue => error_eq_bind_iff fun right => ⟨_,rfl⟩
  | subquery query =>
    cases inTransaction with
    | true => exact iff_of_true rfl (Or.inl rfl)
    | false => exact eq_comm.trans (or_iff_right Bool.false_ne_true).symm
  | _ => exact iff_of_true (by first | rfl | trivial) trivial

/-- A filter is tested as it is true where it is decided, when what it asks for is. -/
theorem tested_iff {currentTxn : Option TransactionId} {filter : Expr S}
    (hoperands : Valued operators executeSubqueryRows transactionId currentTxn scope
      (filter.asksOperands operators
        (sqlValue operators executeSubqueryRows transactionId scope)))
    (hfilters : ∀ asked∈filter.asksFilters
        (truth operators executeSubqueryRows transactionId scope),
      asked.Tested operators executeSubqueryRows transactionId currentTxn scope) :
    filter.Tested operators executeSubqueryRows transactionId currentTxn scope ↔
      filter.Decided operators executeSubqueryRows transactionId scope := by
  cases filter with
  | not expr => exact not_tested_iff (hfilters expr List.mem_cons_self)
  | and left right =>
    refine iff_of_true (and_tested (hfilters left List.mem_cons_self) fun hleft => ?_) trivial
    refine hfilters right (List.mem_cons_of_mem left ?_)
    rw [hleft]
    exact List.mem_cons_self
  | or left right =>
    refine iff_of_true (or_tested (hfilters left List.mem_cons_self) fun found hleft hne => ?_)
      trivial
    refine hfilters right (List.mem_cons_of_mem left ?_)
    rw [hleft]
    rcases found with _ | _ | _
    · exact List.mem_cons_self
    · exact List.mem_cons_self
    · exact absurd rfl hne
  | betweenScalar expr low high negated => exact betweenScalar_tested_iff hoperands
  | between column low high negated =>
    rw [Expr.Tested,matchesFilter,truth,map_bind,Expr.Decided,bind_ok_iff]
    refine forall₂_congr fun value hvalue => ?_
    rw [map_ok,Except.ok.injEq,valueHolds_betweenValue_iff]
  | _ => exact iff_of_true (operands_tested hoperands rfl (by simp) (by simp)) trivial

/-- Asking for a filter. -/
def Expr.Asks (found : Expr S → Except DbError Truth) (asked filter : Expr S) : Prop :=
  asked∈filter.asksFilters found

/-- Asking for parts comes to an end. -/
theorem Expr.asks_wellFounded (found : Expr S → Except DbError Truth) :
    WellFounded (Expr.Asks found) := by
  refine Subrelation.wf (fun {asked filter} h => ?_) child_wellFounded
  change asked∈filter.asksFilters found at h
  change asked∈filter.children
  cases filter with
  | not expr => exact h
  | and left right =>
    rw [asksFilters,List.mem_cons] at h
    rcases h with rfl | h
    · exact List.mem_cons_self
    · split at h
      · exact List.mem_cons_of_mem left h
      · cases h
  | or left right =>
    rw [asksFilters,List.mem_cons] at h
    rcases h with rfl | h
    · exact List.mem_cons_self
    · split at h
      · cases h
      · exact List.mem_cons_of_mem left h
      · cases h
  | _ => cases h

/-- A property of all filters that a filter asks for, and one of all parts of their operands
that are asked for. -/
def Expr.AllAsked (operators : Operators) (executeSubqueryRows : SubqueryRows S)
    (transactionId : TransactionId) (scope : Scope) (onFilter : Expr S → Prop)
    (onOperand : ScalarExpr S → Prop) (filter : Expr S) : Prop :=
  let value := sqlValue operators executeSubqueryRows transactionId scope
  ∀ part, Part (Expr.Asks (truth operators executeSubqueryRows transactionId scope)) filter
      part →
    onFilter part ∧ ∀ operand∈part.asksOperands operators value, ∀ sub,
      Part (ScalarExpr.Asks operators value) operand sub → onOperand sub

/-- What a filter asks for is decided. -/
def Expr.AllDecided (operators : Operators) (executeSubqueryRows : SubqueryRows S)
    (transactionId : TransactionId) (scope : Scope) (inTransaction : Bool)
    (filter : Expr S) : Prop :=
  filter.AllAsked operators executeSubqueryRows transactionId scope
    (fun part => part.Decided operators executeSubqueryRows transactionId scope)
    fun sub => sub.Decided operators executeSubqueryRows transactionId scope inTransaction

/-- What a filter asks for keeps the rows for which it is true, and operands have their
values. -/
def Expr.FollowsTruth (operators : Operators) (executeSubqueryRows : SubqueryRows S)
    (transactionId : TransactionId) (scope : Scope) (inTransaction : Bool)
    (filter : Expr S) : Prop :=
  let currentTxn := currentTransaction transactionId inTransaction
  filter.AllAsked operators executeSubqueryRows transactionId scope
    (fun part => part.Tested operators executeSubqueryRows transactionId currentTxn scope)
    fun sub => evaluateFilterScalarExpr operators executeSubqueryRows currentTxn scope sub=
      sqlValue operators executeSubqueryRows transactionId scope sub

/-- Every part follows its truth exactly when every part asked for is decided. -/
theorem followsTruth_iff (filter : Expr S) :
    filter.FollowsTruth operators executeSubqueryRows transactionId scope inTransaction ↔
      filter.AllDecided operators executeSubqueryRows transactionId scope inTransaction := by
  refine parts_iff (Expr.asks_wellFounded _) (fun filter hbelow => ?_) filter
  have hoperand : ∀ operand : ScalarExpr S,
      (∀ sub, Part (ScalarExpr.Asks operators
            (sqlValue operators executeSubqueryRows transactionId scope)) operand sub →
        evaluateFilterScalarExpr operators executeSubqueryRows
            (currentTransaction transactionId inTransaction) scope sub=
          sqlValue operators executeSubqueryRows transactionId scope sub) ↔
      ∀ sub, Part (ScalarExpr.Asks operators
            (sqlValue operators executeSubqueryRows transactionId scope)) operand sub →
        sub.Decided operators executeSubqueryRows transactionId scope inTransaction :=
    fun operand => (asked_agree_iff operand).trans
      (forall₂_congr fun sub hsub => ownAgree_filter_iff sub)
  have hall := forall₂_congr fun operand
    (_ : operand∈filter.asksOperands operators
      (sqlValue operators executeSubqueryRows transactionId scope)) => hoperand operand
  rw [← hall]
  refine and_congr_left fun hagree => ?_
  exact tested_iff (fun operand hmem => hagree operand hmem operand (Part.self operand))
    fun asked hasked => (hbelow asked hasked asked (Part.self asked)).1

/-! ## Select lists -/

/-- The same expression in a select list; conjunctions, disjunctions and subqueries have
none there. -/
def Expr.toScalar : Expr S → Option (ScalarExpr S)
  | .compare column op value => some (.compare (.column column) op (.literal value))
  | .compareColumns left op right => some (.compare (.column left) op (.column right))
  | .compareScalar left op right => some (.compare left op right)
  | .isNull column negated => some (.is (.column column) (.literal .null) negated)
  | .isNullScalar expr negated => some (.is expr (.literal .null) negated)
  | .is left right negated => some (.is left right negated)
  | .isBool expr value negated explicit =>
    if explicit then some (.isBool expr value negated) else none
  | .inList column values negated =>
    some (.inList (.column column) (values.map .literal) negated)
  | .inListScalar expr values negated => some (.inList expr values negated)
  | .like column pattern escape negated =>
    some (.like (.column column) pattern escape negated)
  | .likeScalar expr pattern escape negated => some (.like expr pattern escape negated)
  | .glob column pattern negated => some (.glob (.column column) pattern negated)
  | .globScalar expr pattern negated => some (.glob expr pattern negated)
  | .between column low high negated =>
    some (.between (.column column) (.literal low) (.literal high) negated)
  | .betweenScalar expr low high negated => some (.between expr low high negated)
  | .not expr => expr.toScalar.map .not
  | .inSubquery _ _ _ | .inSubqueryScalar _ _ _ | .compareSubquery _ _ _
  | .compareSubqueryScalar _ _ _ | .existsSubquery _ _ | .and _ _ | .or _ _ => none

/-- In SQL a filter has the same value in a select list. -/
def Expr.SameTruth (operators : Operators) (executeSubqueryRows : SubqueryRows S)
    (transactionId : TransactionId) (scope : Scope) (filter : Expr S)
    (scalar : ScalarExpr S) : Prop :=
  sqlValue operators executeSubqueryRows transactionId scope scalar=
    (truth operators executeSubqueryRows transactionId scope filter).map truthValue

/-- No collation of a column changes the outcome of a comparison. -/
def Expr.IgnoresCollation (operators : Operators) (scope : Scope) : Expr S → Prop
  | .compare column op value => ∀ found, scope.lookupWithCollation column=.ok found →
      compareTruth operators found.1 op value none=
        compareTruth operators found.1 op value found.2
  | .compareColumns left op right => ∀ first, scope.lookupWithCollation left=.ok first →
      ∀ second, scope.lookupWithCollation right=.ok second →
      compareTruth operators first.1 op second.1 none=
        compareTruth operators first.1 op second.1 (first.2.or second.2)
  | .not expr => expr.IgnoresCollation operators scope
  | _ => True

/-- Different truths have different values. -/
theorem truthValue_inj {first second : Truth} :
    truthValue first=truthValue second ↔ first=second := by
  rcases first with _ | _ | _ <;> rcases second with _ | _ | _ <;> simp [truthValue]

/-- So have results that are truths. -/
theorem map_truthValue_inj {first second : Except DbError Truth} :
    first.map truthValue=second.map truthValue ↔ first=second := by
  refine ⟨fun h => ?_,congrArg _⟩
  cases first with
  | error error =>
    cases second with
    | error other => exact congrArg Except.error (Except.error.inj h)
    | ok found => cases h
  | ok found =>
    cases second with
    | error error => cases h
    | ok other => exact congrArg Except.ok (truthValue_inj.mp (Except.ok.inj h))

/-- Negation loses nothing. -/
theorem map_not_inj {first second : Except DbError Truth} :
    first.map Truth.not=second.map Truth.not ↔ first=second := by
  have htwice : ∀ found : Except DbError Truth, (found.map Truth.not).map Truth.not=found := by
    rintro (error | _ | _ | _) <;> rfl
  refine ⟨fun h => ?_,congrArg _⟩
  rw [← htwice first,h,htwice]

/-- `IS NULL` asks whether the value is `NULL`. -/
theorem isWithNegation_null (value : Value) (negated : Bool) :
    isWithNegation operators value .null negated=((value=.null) ^^ negated) := by
  cases value <;> rfl

/-- `NOT` of a truth's value. -/
theorem notValue_truthValue (found : Truth) :
    notValue operators (truthValue found)=truthValue found.not := by
  rcases found with _ | _ | _ <;> rfl

/-- Literals are their values. -/
theorem evaluateAll_literals (reading : Reading S) (values : List Value) :
    evaluateAll operators reading (values.map .literal)=.ok values := by
  induction values with
  | nil => rfl
  | cons value values ih =>
    rw [List.map_cons,evaluateAll,ih]
    rfl

/-- A select list compares a column without the column's collation. -/
theorem sqlValue_compare (column : String) (op : CompareOp) (value : Value) :
    sqlValue operators executeSubqueryRows transactionId scope
        (.compare (.column column) op (.literal value))=
      (scope.lookupWithCollation column >>= fun found =>
        .ok (compareTruth operators found.1 op value none)).map truthValue := by
  change (scope.lookupWithCollation column >>= fun found => Except.ok found.1) >>= _=_
  rw [bind_assoc,map_bind]
  refine bind_congr fun found => ?_
  exact congrArg Except.ok (compareResultValue_eq found.1 op value none)

/-- A comparison of two columns looks both up. -/
theorem sqlValue_compareColumns (left : String) (op : CompareOp) (right : String) :
    sqlValue operators executeSubqueryRows transactionId scope
        (.compare (.column left) op (.column right))=
      (scope.lookupWithCollation left >>= fun first =>
        scope.lookupWithCollation right >>= fun second =>
          .ok (compareTruth operators first.1 op second.1 none)).map truthValue := by
  change (scope.lookupWithCollation left >>= fun first => Except.ok first.1) >>=
    (fun first => (scope.lookupWithCollation right >>= fun second => Except.ok second.1) >>= _)=_
  simp only [bind_assoc,map_bind]
  refine bind_congr fun first => ?_
  change scope.lookupWithCollation right >>= (fun second =>
    Except.ok (compareResultValue operators first.1 op second.1 none))=_
  refine bind_congr fun second => ?_
  exact congrArg Except.ok (compareResultValue_eq first.1 op second.1 none)

/-- A comparison with a literal has the same truth when no collation matters. -/
theorem compare_sameTruth_iff (column : String) (op : CompareOp) (value : Value) :
    (Expr.compare column op value).SameTruth operators executeSubqueryRows transactionId scope
        (.compare (.column column) op (.literal value)) ↔
      (Expr.compare column op value : Expr S).IgnoresCollation operators scope := by
  rw [Expr.SameTruth,sqlValue_compare,map_truthValue_inj,truth]
  refine bind_ok_iff.trans (forall₂_congr fun found hfound => ?_)
  rw [Except.ok.injEq]

/-- So has a comparison of two columns. -/
theorem compareColumns_sameTruth_iff (left : String) (op : CompareOp) (right : String) :
    (Expr.compareColumns left op right).SameTruth operators executeSubqueryRows transactionId
        scope (.compare (.column left) op (.column right)) ↔
      (Expr.compareColumns left op right : Expr S).IgnoresCollation operators scope := by
  rw [Expr.SameTruth,sqlValue_compareColumns,map_truthValue_inj,truth]
  refine bind_ok_iff.trans (forall₂_congr fun first hfirst => ?_)
  refine bind_ok_iff.trans (forall₂_congr fun second hsecond => ?_)
  rw [Except.ok.injEq]

/-- A comparison of expressions always has. -/
theorem compareScalar_sameTruth (left : ScalarExpr S) (op : CompareOp) (right : ScalarExpr S) :
    (Expr.compareScalar left op right).SameTruth operators executeSubqueryRows transactionId
      scope (.compare left op right) := by
  rw [Expr.SameTruth,sqlValue,evaluate_compare,truth]
  cases left.asTuple with
  | none => simp only [map_bind,map_ok,compareResultValue_eq]
  | some x =>
    cases right.asTuple with
    | none => simp only [map_bind,map_ok,compareResultValue_eq]
    | some y => simp only [map_bind,tupleCompareResultValue_map]

/-- `IS NULL` of a column has. -/
theorem isNull_sameTruth (column : String) (negated : Bool) :
    (Expr.isNull column negated).SameTruth operators executeSubqueryRows transactionId scope
      (.is (.column column) (.literal .null) negated) := by
  rw [Expr.SameTruth,truth]
  change (scope.lookup column >>= fun left =>
    Except.ok (Value.boolean (isWithNegation operators left .null negated)))=_
  simp only [isWithNegation_null,map_bind,map_ok,truthValue]

/-- `IS NULL` of an expression has. -/
theorem isNullScalar_sameTruth (expr : ScalarExpr S) (negated : Bool) :
    (Expr.isNullScalar expr negated).SameTruth operators executeSubqueryRows transactionId scope
      (.is expr (.literal .null) negated) := by
  have hvalue : sqlValue operators executeSubqueryRows transactionId scope
        (.is expr (.literal .null) negated)=(do
      let left ← sqlValue operators executeSubqueryRows transactionId scope expr
      .ok (.boolean (isWithNegation operators left .null negated))) := by
    rw [sqlValue,evaluate_is]
    cases expr.asTuple <;> rfl
  rw [Expr.SameTruth,truth,map_bind,hvalue]
  simp only [isWithNegation_null,map_ok,truthValue]

/-- `IS` has. -/
theorem is_sameTruth (left right : ScalarExpr S) (negated : Bool) :
    (Expr.is left right negated).SameTruth operators executeSubqueryRows transactionId scope
      (.is left right negated) := by
  rw [Expr.SameTruth,sqlValue,evaluate_is,truth]
  cases left.asTuple with
  | none => simp only [map_bind,map_ok,truthValue]
  | some x =>
    cases right.asTuple with
    | none => simp only [map_bind,map_ok,truthValue]
    | some y => simp only [map_bind,map_ok,truthValue]

/-- A condition of its own is unknown for a null, an explicit test is not. -/
theorem isBool_sameTruth (expr : ScalarExpr S) (value negated : Bool) :
    (Expr.isBool expr value negated true).SameTruth operators executeSubqueryRows transactionId
      scope (.isBool expr value negated) := by
  rw [Expr.SameTruth,sqlValue,evaluate,truth,map_bind]
  refine bind_congr fun evaluated => ?_
  rw [if_neg fun hnull => Bool.noConfusion hnull.2.1]
  rfl

/-- `IN` of a column has. -/
theorem inList_sameTruth (column : String) (values : List Value) (negated : Bool) :
    (Expr.inList column values negated).SameTruth operators executeSubqueryRows transactionId
      scope (.inList (.column column) (values.map .literal) negated) := by
  rw [Expr.SameTruth,truth,map_bind]
  change (scope.lookup column >>= fun left => evaluateAll operators _ (values.map .literal) >>=
    fun values => Except.ok (inResultValue operators left values negated))=_
  rw [evaluateAll_literals]
  refine bind_congr fun left => ?_
  exact congrArg Except.ok (inResultValue_eq left values negated)

/-- `IN` of an expression has. -/
theorem inListScalar_sameTruth (expr : ScalarExpr S) (values : List (ScalarExpr S))
    (negated : Bool) :
    (Expr.inListScalar expr values negated).SameTruth operators executeSubqueryRows
      transactionId scope (.inList expr values negated) := by
  rw [Expr.SameTruth,sqlValue,evaluate_inList,truth]
  cases expr.asTuple with
  | none => simp only [map_bind,map_ok,inResultValue_eq]
  | some x => simp only [map_bind,map_ok,tupleInResultValue_eq]

/-- `BETWEEN` has. -/
theorem betweenScalar_sameTruth (expr low high : ScalarExpr S) (negated : Bool) :
    (Expr.betweenScalar expr low high negated).SameTruth operators executeSubqueryRows
      transactionId scope (.between expr low high negated) := by
  rw [Expr.SameTruth,sqlValue,evaluate_between,truth]
  have hscalar : (do
        let value ← evaluate operators
          (sqlReading operators executeSubqueryRows transactionId scope) expr
        let low ← evaluate operators
          (sqlReading operators executeSubqueryRows transactionId scope) low
        let high ← evaluate operators
          (sqlReading operators executeSubqueryRows transactionId scope) high
        Except.ok (truthValue
          ((betweenTruth operators value low high).withNegation negated)))=
      (do
        let value ← evaluate operators
          (sqlReading operators executeSubqueryRows transactionId scope) expr
        let low ← evaluate operators
          (sqlReading operators executeSubqueryRows transactionId scope) low
        let high ← evaluate operators
          (sqlReading operators executeSubqueryRows transactionId scope) high
        Except.ok ((betweenTruth operators value low high).withNegation negated)).map
          truthValue := by
    simp only [map_bind,map_ok]
  cases expr.asTuple with
  | none => exact hscalar
  | some x =>
    cases low.asTuple with
    | none => exact hscalar
    | some y =>
      cases high.asTuple with
      | none => exact hscalar
      | some z =>
        simp only [tupleBetweenResultValue_map]
        simp only [map_bind,map_ok]

/-- An expression has a truth value in SQL. -/
def ScalarExpr.HasTruth (operators : Operators) (executeSubqueryRows : SubqueryRows S)
    (transactionId : TransactionId) (scope : Scope) (scalar : ScalarExpr S) : Prop :=
  ∃ found : Except DbError Truth,
    sqlValue operators executeSubqueryRows transactionId scope scalar=found.map truthValue

/-- What has the same truth has a truth. -/
theorem hasTruth_of_sameTruth {filter : Expr S} {scalar : ScalarExpr S}
    (h : filter.SameTruth operators executeSubqueryRows transactionId scope scalar) :
    scalar.HasTruth operators executeSubqueryRows transactionId scope ∧
      (filter.SameTruth operators executeSubqueryRows transactionId scope scalar ↔ True) :=
  ⟨⟨_,h⟩,iff_true_intro h⟩

/-- `NOT` of what has a truth. -/
theorem sqlValue_not {scalar : ScalarExpr S} {found : Except DbError Truth}
    (h : sqlValue operators executeSubqueryRows transactionId scope scalar=
      found.map truthValue) :
    sqlValue operators executeSubqueryRows transactionId scope (.not scalar)=
      (found.map Truth.not).map truthValue := by
  have hvalue : sqlValue operators executeSubqueryRows transactionId scope (.not scalar)=(do
      let value ← sqlValue operators executeSubqueryRows transactionId scope scalar
      .ok (notValue operators value)) := by
    rw [sqlValue,evaluate]
  rw [hvalue,h]
  cases found with
  | error error => rfl
  | ok found => exact congrArg Except.ok (notValue_truthValue found)

/-- A negation gives its truth value where its operand does. -/
theorem not_sameTruth_iff {expr : Expr S} {scalar : ScalarExpr S}
    (h : scalar.HasTruth operators executeSubqueryRows transactionId scope) :
    (Expr.not expr).SameTruth operators executeSubqueryRows transactionId scope (.not scalar) ↔
      expr.SameTruth operators executeSubqueryRows transactionId scope scalar := by
  obtain ⟨found,hfound⟩ := h
  have htruth : truth operators executeSubqueryRows transactionId scope (.not expr)=
      (truth operators executeSubqueryRows transactionId scope expr).map Truth.not := by
    rw [truth]
    cases truth operators executeSubqueryRows transactionId scope expr <;> rfl
  rw [Expr.SameTruth,Expr.SameTruth,sqlValue_not hfound,hfound,htruth,map_truthValue_inj,
    map_truthValue_inj,map_not_inj]

/-- In SQL an expression has a truth value in a select list, and that of the filter where no
collation of a column makes a difference. -/
theorem toScalar_truth {filter : Expr S} {scalar : ScalarExpr S}
    (h : filter.toScalar=some scalar) :
    scalar.HasTruth operators executeSubqueryRows transactionId scope ∧
      (filter.SameTruth operators executeSubqueryRows transactionId scope scalar ↔
        filter.IgnoresCollation operators scope) := by
  induction filter generalizing scalar with
  | compare column op value =>
    cases h
    exact ⟨⟨_,sqlValue_compare column op value⟩,compare_sameTruth_iff column op value⟩
  | compareColumns left op right =>
    cases h
    exact ⟨⟨_,sqlValue_compareColumns left op right⟩,compareColumns_sameTruth_iff left op right⟩
  | not expr ih =>
    obtain ⟨inner,hinner,rfl⟩ := Option.map_eq_some_iff.mp h
    obtain ⟨htruth,hsame⟩ := ih hinner
    refine ⟨?_,(not_sameTruth_iff htruth).trans hsame⟩
    obtain ⟨found,hfound⟩ := htruth
    exact ⟨_,sqlValue_not hfound⟩
  | compareScalar left op right =>
    cases h
    exact hasTruth_of_sameTruth (compareScalar_sameTruth left op right)
  | isNull column negated =>
    cases h
    exact hasTruth_of_sameTruth (isNull_sameTruth column negated)
  | isNullScalar expr negated =>
    cases h
    exact hasTruth_of_sameTruth (isNullScalar_sameTruth expr negated)
  | is left right negated =>
    cases h
    exact hasTruth_of_sameTruth (is_sameTruth left right negated)
  | isBool expr value negated explicit =>
    cases explicit with
    | false => cases h
    | true =>
      cases h
      exact hasTruth_of_sameTruth (isBool_sameTruth expr value negated)
  | inList column values negated =>
    cases h
    exact hasTruth_of_sameTruth (inList_sameTruth column values negated)
  | inListScalar expr values negated =>
    cases h
    exact hasTruth_of_sameTruth (inListScalar_sameTruth expr values negated)
  | betweenScalar expr low high negated =>
    cases h
    exact hasTruth_of_sameTruth (betweenScalar_sameTruth expr low high negated)
  | between column low high negated =>
    cases h
    refine hasTruth_of_sameTruth ?_
    rw [Expr.SameTruth,truth,map_bind]
    rfl
  | like column pattern escape negated | likeScalar expr pattern escape negated =>
    cases h
    refine hasTruth_of_sameTruth ?_
    rw [Expr.SameTruth,sqlValue,evaluate,truth]
    simp only [map_bind,map_ite,map_ok,likeValue_map]
    rfl
  | glob column pattern negated | globScalar expr pattern negated =>
    cases h
    refine hasTruth_of_sameTruth ?_
    rw [Expr.SameTruth,sqlValue,evaluate,truth]
    simp only [map_bind,map_ite,map_ok,globValue_eq]
    rfl
  | _ => cases h

/-- Where an expression of a select list has its value in SQL: no column is read from a row
around, no null misleads a `BETWEEN`, and a subquery is refused in SQL too. -/
def ScalarExpr.Plain (operators : Operators) (executeSubqueryRows : SubqueryRows S)
    (transactionId : TransactionId) (scope : Scope) (expr : ScalarExpr S) : Prop :=
  match expr with
  | .column name | .aggregate name =>
    lookupValue scope.source.columns scope.row name=scope.lookup name
  | .inSubquery _ _ _ | .compareSubquery _ _ _ | .subquery _ =>
    sqlValue operators executeSubqueryRows transactionId scope expr=.error noQueryContext
  | expr => expr.Decided operators executeSubqueryRows transactionId scope true

/-- Without an outer row names are looked up in the row. -/
theorem Scope.lookup_of_outer_none (houter : scope.outer=none) (column : String) :
    scope.lookup column=lookupValue scope.source.columns scope.row column := by
  unfold Scope.lookup Scope.lookupWithCollation
  rw [houter]
  cases lookupValue scope.source.columns scope.row column <;> rfl

/-- The evaluator of select lists does as SQL does there. -/
theorem ownAgree_projection_iff (expr : ScalarExpr S) :
    OwnAgree operators (projectionReading operators scope.source.columns scope.row)
        (sqlReading operators executeSubqueryRows transactionId scope) expr ↔
      expr.Plain operators executeSubqueryRows transactionId scope := by
  cases expr with
  | column name => exact Iff.rfl
  | aggregate name => exact Iff.rfl
  | between expr low high negated =>
    exact @ownAgree_filter_iff S operators executeSubqueryRows transactionId scope true
      (.between expr low high negated)
  | inSubquery expr query negated =>
    rw [OwnAgree,ScalarExpr.Plain,sqlValue,evaluate_inSubquery]
    cases expr.asTuple with
    | none => exact eq_comm
    | some exprs => exact eq_comm
  | compareSubquery left op query =>
    rw [OwnAgree,ScalarExpr.Plain,sqlValue,evaluate_compareSubquery]
    cases left.asTuple with
    | none => exact eq_comm
    | some exprs => exact eq_comm
  | subquery query => exact eq_comm
  | _ => exact Iff.rfl

/-- A select list gives the truth value of a filter, every part it asks for having its SQL
value. -/
def Expr.SelectsTruth (operators : Operators) (executeSubqueryRows : SubqueryRows S)
    (transactionId : TransactionId) (scope : Scope) (filter : Expr S)
    (scalar : ScalarExpr S) : Prop :=
  (∀ part, Part (ScalarExpr.Asks operators
        (sqlValue operators executeSubqueryRows transactionId scope)) scalar part →
    evaluateScalarExpr operators scope.source.columns scope.row part=
      sqlValue operators executeSubqueryRows transactionId scope part) ∧
  evaluateScalarExpr operators scope.source.columns scope.row scalar=
    (truth operators executeSubqueryRows transactionId scope filter).map truthValue

/-- Everything that is asked for in a select list has its SQL value, and no collation of a
column makes a difference. -/
def Expr.Selectable (operators : Operators) (executeSubqueryRows : SubqueryRows S)
    (transactionId : TransactionId) (scope : Scope) (filter : Expr S)
    (scalar : ScalarExpr S) : Prop :=
  (∀ part, Part (ScalarExpr.Asks operators
        (sqlValue operators executeSubqueryRows transactionId scope)) scalar part →
    part.Plain operators executeSubqueryRows transactionId scope) ∧
  filter.IgnoresCollation operators scope

/-- The select list has the same truth exactly for selectable filters. -/
theorem selectsTruth_iff {filter : Expr S} {scalar : ScalarExpr S}
    (h : filter.toScalar=some scalar) :
    filter.SelectsTruth operators executeSubqueryRows transactionId scope scalar ↔
      filter.Selectable operators executeSubqueryRows transactionId scope scalar := by
  have hparts : (∀ part, Part (ScalarExpr.Asks operators
          (sqlValue operators executeSubqueryRows transactionId scope)) scalar part →
        evaluateScalarExpr operators scope.source.columns scope.row part=
          sqlValue operators executeSubqueryRows transactionId scope part) ↔
      ∀ part, Part (ScalarExpr.Asks operators
          (sqlValue operators executeSubqueryRows transactionId scope)) scalar part →
        part.Plain operators executeSubqueryRows transactionId scope :=
    (asked_agree_iff scalar).trans (forall₂_congr fun part hpart => ownAgree_projection_iff part)
  refine (and_congr_right fun hvalues => ?_).trans (and_congr_left fun _ => hparts)
  rw [hvalues scalar (Part.self scalar)]
  exact (toScalar_truth h).2

end Where

/-! ## Where filters follow truth -/

/-- A connection without functions. -/
def plainOperators : Operators where
  negate := .ok
  bitNot := .ok
  castValue value _ := .ok value
  evaluateBinaryScalar _ left _ := .ok left
  evaluateScalarFunction _ _ := .ok .null
  isTrueText _ := false
  isTrueBlob _ := false
  toReal _ := 0
  coerceTextLikeValue _ := ""
  checkEscapeChar _ := .ok ()
  matchesLikePattern _ _ _ := .ok true
  matchesGlobPattern _ _ := true

/-- A row of one column with a null. -/
def nullRow : Scope where
  source := ⟨[⟨none,none,"a","a",none,false⟩],[[.null]]⟩
  row := [.null]
  outer := none

def noSubqueries : SubqueryRows Unit := fun _ _ _ => .ok ⟨[],[]⟩

/-- A row with 1 for `a` and a null for `b`. -/
def unreachedRow : Scope where
  source := ⟨[⟨none,none,"a","a",none,false⟩,⟨none,none,"b","b",none,false⟩],
    [[.integer 1,.null]]⟩
  row := [.integer 1,.null]
  outer := none

/-- `a=2 AND NOT (b=1)`. -/
def unreachedFilter : Expr Unit :=
  .and (.compare "a" .eq (.integer 2)) (.not (.compare "b" .eq (.integer 1)))

end RustSql.Sql
