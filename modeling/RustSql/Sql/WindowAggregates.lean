import RustSql.Sql.Aggregates
import RustSql.Sql.ArithmeticLimits

/-!
# Window aggregates and grouped aggregates

The loop over a window frame and the fold of a group compute the same: the totals of the loop
determine the state of the group, and a row changes both alike. They differ in the evaluation of
the arguments only, where a group refuses subqueries.
-/

namespace RustSql.Sql

open RustSql.V2 Outcome

section Totals

variable {N S : Type} (machine : AggregateMachine N) (operators : Operators)

/-- The state of a group that has seen what the totals say. -/
def FrameTotals.state (totals : FrameTotals) : WindowFunc → AggregateState
  | .count => .count totals.count
  | .sum => .sum totals.intSum totals.realSum (totals.count≠0) totals.sawReal
  | .avg => .avg totals.intSum totals.realSum totals.count totals.sawReal
  | .total => .total totals.realSum
  | .min => .min totals.extremum
  | .max => .max totals.extremum
  | .groupConcat => .groupConcat totals.concat
  | .jsonGroupArray => .jsonGroupArray totals.jsonArrayValues
  | .jsonGroupObject => .jsonGroupObject totals.jsonObjectFields

variable {call : AggregateCall S} {windowFunc : WindowFunc} {args : List (ScalarExpr S)}

theorem initialAggregateState_eq (h : windowCall call.func call.arg=some (windowFunc,args)) :
    initialAggregateState call=FrameTotals.initial.state windowFunc := by
  obtain ⟨func,arg,filter⟩ := call
  cases func <;> cases arg <;> cases h <;> rfl

/-- The totals and the state have the same value. -/
theorem aggregateStateValue_state (totals : FrameTotals) :
    aggregateStateValue machine (totals.state windowFunc)=frameValue machine windowFunc totals := by
  cases windowFunc with
  | sum =>
    rw [FrameTotals.state,aggregateStateValue,frameValue]
    by_cases hcount : totals.count=0
    · rw [if_neg (by simp [hcount]),if_pos hcount]
    · rw [if_pos (by simp [hcount]),if_neg hcount]
  | count => rfl
  | avg => rfl
  | total => rfl
  | min => rfl
  | max => rfl
  | groupConcat => rfl
  | jsonGroupArray => rfl
  | jsonGroupObject => rfl

/-- An empty frame has the value of no rows. -/
theorem emptyFrameValue_eq (windowFunc : WindowFunc) :
    frameValue machine windowFunc FrameTotals.initial=.ok (emptyFrameValue windowFunc) := by
  cases windowFunc <;> rfl

/-- A number that counts changes a sum and its state alike. -/
theorem addNumber_state (value : Value) (totals : FrameTotals) (windowFunc : WindowFunc)
    (hfunc : windowFunc=.sum ∨ windowFunc=.avg ∨ windowFunc=.total)
    (evaluate : ScalarExpr S → Except DbError Value) (args : List (ScalarExpr S))
    {update : Option Value → Outcome AggregateState}
    (hinteger : ∀ n : Int64, update (some (.integer n))=.ok
      (FrameTotals.state {totals with
        intSum := totals.intSum+n.toInt
        realSum := machine.machine.add totals.realSum (i64ToReal n)
        count := totals.count+1} windowFunc))
    (hreal : ∀ bits, update (some (.real bits))=.ok
      (FrameTotals.state {totals with
        realSum := machine.machine.add totals.realSum bits
        count := totals.count+1
        sawReal := true} windowFunc))
    (hother : update (some .null)=.stuck ∧ (∀ flag, update (some (.boolean flag))=.stuck) ∧
      (∀ bytes, update (some (.blob bytes))=.stuck) ∧ ∀ text, update (some (.text text))=.stuck)
    (hnone : update none=.ok (totals.state windowFunc)) :
    (addToTotals machine operators evaluate windowFunc args value totals >>= fun totals =>
      .ok (totals.state windowFunc))=coerceAggregateNumericValue machine value >>= update := by
  have hadd : addToTotals machine operators evaluate windowFunc args value totals=
      addToTotals machine operators evaluate .sum args value totals := by
    rcases hfunc with rfl | rfl | rfl
    · rfl
    · rfl
    · rfl
  rw [hadd,addToTotals]
  cases hnumber : coerceAggregateNumericValue machine value with
  | stuck => rfl
  | err e => rfl
  | ok number =>
    rw [bind_ok,bind_ok]
    cases number with
    | none => exact hnone.symm
    | some number =>
      cases number with
      | integer n => exact (hinteger n).symm
      | real bits => exact (hreal bits).symm
      | null => exact hother.1.symm
      | boolean flag => exact (hother.2.1 flag).symm
      | blob bytes => exact (hother.2.2.1 bytes).symm
      | text text => exact (hother.2.2.2 text).symm

/-- A row that counts changes the totals and the state alike. -/
theorem addToTotals_state (evaluate : ScalarExpr S → Except DbError Value) (totals : FrameTotals)
    (h : windowCall call.func call.arg=some (windowFunc,args)) :
    (ofExcept (firstArgument evaluate args) >>= fun value =>
      addToTotals machine operators evaluate windowFunc args value totals >>= fun totals =>
        .ok (totals.state windowFunc))=
    updateAggregateState machine operators evaluate (totals.state windowFunc) call.func call.arg := by
  obtain ⟨func,arg,filter⟩ := call
  -- one case for each pair of a function and an argument that a window knows
  cases func with
  | count =>
    cases arg <;> cases h
    · rfl
    · next expr =>
      change (ofExcept (evaluate expr) >>= _)=ofExcept (evaluate expr) >>= _
      refine congrArg (ofExcept (evaluate expr) >>= ·) (funext fun value => ?_)
      by_cases hnull : value=.null
      · rw [addToTotals,bind_ok,if_neg (by simp [hnull]),if_neg (by simp [hnull])]
        rfl
      · rw [addToTotals,bind_ok,if_pos (Or.inr hnull),if_pos hnull]
        rfl
  | sum =>
    cases arg <;> cases h
    next expr =>
    change (ofExcept (evaluate expr) >>= _)=ofExcept (evaluate expr) >>= _
    refine congrArg (ofExcept (evaluate expr) >>= ·) (funext fun value => ?_)
    exact addNumber_state machine operators value totals .sum (Or.inl rfl) evaluate _
      (fun n => by simp [FrameTotals.state]) (fun bits => by simp [FrameTotals.state])
      ⟨rfl,fun _ => rfl,fun _ => rfl,fun _ => rfl⟩ rfl
  | avg =>
    cases arg <;> cases h
    next expr =>
    change (ofExcept (evaluate expr) >>= _)=ofExcept (evaluate expr) >>= _
    refine congrArg (ofExcept (evaluate expr) >>= ·) (funext fun value => ?_)
    exact addNumber_state machine operators value totals .avg (Or.inr (Or.inl rfl)) evaluate _
      (fun n => rfl) (fun bits => rfl)
      ⟨rfl,fun _ => rfl,fun _ => rfl,fun _ => rfl⟩ rfl
  | total =>
    cases arg <;> cases h
    next expr =>
    change (ofExcept (evaluate expr) >>= _)=ofExcept (evaluate expr) >>= _
    refine congrArg (ofExcept (evaluate expr) >>= ·) (funext fun value => ?_)
    exact addNumber_state machine operators value totals .total (Or.inr (Or.inr rfl)) evaluate _
      (fun n => rfl) (fun bits => rfl)
      ⟨rfl,fun _ => rfl,fun _ => rfl,fun _ => rfl⟩ rfl
  | groupConcat =>
    cases arg <;> cases h
    next expr separator =>
    change (ofExcept (evaluate expr) >>= _)=ofExcept (evaluate expr) >>= _
    refine congrArg (ofExcept (evaluate expr) >>= ·) (funext fun value => ?_)
    have hseparator : (expr :: separator.toList)[1]?=separator := by
      cases separator with
      | none => rfl
      | some separator => rfl
    dsimp only [addToTotals]
    rw [hseparator]
    by_cases hnull : value=.null
    · rw [if_pos hnull,if_pos hnull]
      rfl
    · rw [if_neg hnull,if_neg hnull]
      cases separatorText operators evaluate separator with
      | error e => rfl
      | ok text => rfl
  | jsonGroupArray =>
    cases arg <;> cases h
    next expr =>
    change (ofExcept (evaluate expr) >>= _)=ofExcept (evaluate expr) >>= _
    refine congrArg (ofExcept (evaluate expr) >>= ·) (funext fun value => ?_)
    dsimp only [addToTotals]
    cases jsonOfValue machine value with
    | error e => rfl
    | ok json => rfl
  | jsonGroupObject =>
    cases arg <;> cases h
    next key valueExpr =>
    change (ofExcept (evaluate key) >>= _)=ofExcept (evaluate key) >>= _
    refine congrArg (ofExcept (evaluate key) >>= ·) (funext fun value => ?_)
    dsimp only [addToTotals,List.getElem?_cons_succ,List.getElem?_cons_zero]
    by_cases hnull : value=.null
    · rw [if_pos hnull,if_pos hnull]
      rfl
    · rw [if_neg hnull,if_neg hnull]
      cases jsonField machine operators evaluate value valueExpr with
      | error e => rfl
      | ok field => rfl
  | min =>
    cases arg <;> cases h
    next expr =>
    change (ofExcept (evaluate expr) >>= _)=ofExcept (evaluate expr) >>= _
    exact congrArg (ofExcept (evaluate expr) >>= ·) (funext fun value => rfl)
  | max =>
    cases arg <;> cases h
    next expr =>
    change (ofExcept (evaluate expr) >>= _)=ofExcept (evaluate expr) >>= _
    exact congrArg (ofExcept (evaluate expr) >>= ·) (funext fun value => rfl)

end Totals

/-! ## Arguments -/

section Arguments

variable {S : Type} (operators : Operators) (nested : ScalarExpr S → Bool)
  (executeSubqueryRows : SubqueryRows S) (transactionId : Option TransactionId) (source : RowSet)
  (row : Row) (outer : Option (RowSet × Row))

variable {N : Type} (machine : AggregateMachine N)

theorem separatorText_congr {evaluate evaluate' : ScalarExpr S → Except DbError Value}
    {separator : Option (ScalarExpr S)} (h : ∀ expr∈separator, evaluate expr=evaluate' expr) :
    separatorText operators evaluate separator=separatorText operators evaluate' separator := by
  cases separator with
  | none => rfl
  | some expr => rw [separatorText,separatorText,h expr rfl]

/-- The loop asks for the values of its arguments only. -/
theorem addToTotals_congr {evaluate evaluate' : ScalarExpr S → Except DbError Value}
    {args : List (ScalarExpr S)} (h : ∀ expr∈args, evaluate expr=evaluate' expr)
    (windowFunc : WindowFunc) (value : Value) (totals : FrameTotals) :
    addToTotals machine operators evaluate windowFunc args value totals=
      addToTotals machine operators evaluate' windowFunc args value totals := by
  have hsecond : ∀ expr∈args[1]?, evaluate expr=evaluate' expr :=
    fun expr hexpr => h expr (List.mem_of_getElem? hexpr)
  cases windowFunc with
  | groupConcat => rw [addToTotals,addToTotals,separatorText_congr operators hsecond]
  | jsonGroupObject =>
    rw [addToTotals,addToTotals]
    cases harg : args[1]? with
    | none => rfl
    | some expr =>
      dsimp only
      rw [jsonField,jsonField,hsecond expr harg]
  | count => rfl
  | sum => rfl
  | avg => rfl
  | total => rfl
  | min => rfl
  | max => rfl
  | jsonGroupArray => rfl

theorem firstArgument_congr {evaluate evaluate' : ScalarExpr S → Except DbError Value}
    {args : List (ScalarExpr S)} (h : ∀ expr∈args, evaluate expr=evaluate' expr) :
    firstArgument evaluate args=firstArgument evaluate' args := by
  cases args with
  | nil => rfl
  | cons expr args => exact h expr List.mem_cons_self

end Arguments

/-! ## Rows -/

section Rows

variable {N S : Type} (machine : AggregateMachine N) (operators : Operators)
  (nested : ScalarExpr S → Bool) (executeSubqueryRows : SubqueryRows S)
  (transactionId : TransactionId) (currentTxn : Option TransactionId) (source : RowSet)

/-- A row of a frame, and the totals' state after it. -/
def frameStep (windowFunc : WindowFunc) (args : List (ScalarExpr S)) (filter : Option (Expr S))
    (totals : FrameTotals) (row : Row) : Outcome FrameTotals :=
  addFrameRow machine operators nested executeSubqueryRows (some transactionId) currentTxn source
    windowFunc args filter row totals

variable {call : AggregateCall S} {windowFunc : WindowFunc} {args : List (ScalarExpr S)}

theorem keepsFrameRow_eq (filter : Option (Expr S)) (row : Row) :
    keepsFrameRow operators executeSubqueryRows (some transactionId) currentTxn source filter row=
      keepsRow operators executeSubqueryRows transactionId currentTxn source filter row := by
  cases filter with
  | none => rfl
  | some filter => rfl

/-- A row changes the totals of a frame and the state of a group alike. -/
theorem frameStep_state (hcall : windowCall call.func call.arg=some (windowFunc,args))
    (hplain : ∀ expr∈args, scalarExprContainsSubquery nested expr=false)
    (totals : FrameTotals) (row : Row) :
    (frameStep machine operators nested executeSubqueryRows transactionId currentTxn source
      windowFunc args call.filter totals row >>= fun totals => .ok [totals.state windowFunc])=
    updateAggregateStates machine operators executeSubqueryRows transactionId currentTxn source row
      [totals.state windowFunc] [call] := by
  have hargs : ∀ expr∈args, evaluateScalarExprInContext nested operators executeSubqueryRows
      (some transactionId) source row none expr=
        SelectList.evaluateScalarExpr operators source row expr :=
    fun expr hexpr => evaluateScalarExprInContext_plain nested operators executeSubqueryRows _
      source row none (hplain expr hexpr)
  have hvalue := addToTotals_state machine operators
    (SelectList.evaluateScalarExpr operators source row) totals hcall
  rw [frameStep,addFrameRow,keepsFrameRow_eq,updateAggregateStates]
  cases keepsRow operators executeSubqueryRows transactionId currentTxn source call.filter row with
  | error e => rfl
  | ok kept =>
    cases kept with
    | false => rfl
    | true =>
      change ((Outcome.ofExcept (firstArgument _ args) >>= fun value => addToTotals machine operators
        _ windowFunc args value totals) >>= _)=
          updateAggregateState machine operators _ _ call.func call.arg >>= _
      rw [←hvalue,firstArgument_congr hargs]
      cases firstArgument (SelectList.evaluateScalarExpr operators source row) args with
      | error e => rfl
      | ok value =>
        change (addToTotals machine operators _ windowFunc args value totals >>= _)=
          (addToTotals machine operators _ windowFunc args value totals >>= _) >>= _
        rw [addToTotals_congr operators machine hargs]
        cases addToTotals machine operators (SelectList.evaluateScalarExpr operators source row)
          windowFunc args value totals with
        | ok totals => rfl
        | err e => rfl
        | stuck => rfl

/-- The rows change them alike. -/
theorem foldlM_frameStep (hcall : windowCall call.func call.arg=some (windowFunc,args))
    (hplain : ∀ expr∈args, scalarExprContainsSubquery nested expr=false) (rows : List Row)
    (totals : FrameTotals) :
    (rows.foldlM (frameStep machine operators nested executeSubqueryRows transactionId currentTxn
      source windowFunc args call.filter) totals >>= fun totals =>
        .ok [totals.state windowFunc])=
    rows.foldlM (fun states row => updateAggregateStates machine operators executeSubqueryRows
      transactionId currentTxn source row states [call]) [totals.state windowFunc] := by
  induction rows generalizing totals with
  | nil => rfl
  | cons row rows ih =>
    rw [List.foldlM_cons,List.foldlM_cons,←frameStep_state machine operators nested
      executeSubqueryRows transactionId currentTxn source hcall hplain]
    cases frameStep machine operators nested executeSubqueryRows transactionId currentTxn source
      windowFunc args call.filter totals row with
    | ok totals => exact ih totals
    | err e => rfl
    | stuck => rfl

/-- Rows that the filter drops change nothing. -/
theorem foldlM_frameStep_dropped {filter : Option (Expr S)} {rows : List Row}
    (h : ∀ row∈rows, keepsRow operators executeSubqueryRows transactionId currentTxn source filter
      row=.ok false) (totals : FrameTotals) :
    rows.foldlM (frameStep machine operators nested executeSubqueryRows transactionId currentTxn
      source windowFunc args filter) totals=.ok totals := by
  induction rows with
  | nil => rfl
  | cons row rows ih =>
    have hrow : frameStep machine operators nested executeSubqueryRows transactionId currentTxn
        source windowFunc args filter totals row=.ok totals := by
      rw [frameStep,addFrameRow,keepsFrameRow_eq,h row List.mem_cons_self]
      rfl
    rw [List.foldlM_cons,hrow]
    exact ih fun other hother => h other (List.mem_cons_of_mem row hother)

/-! ## Frames -/

/-- A frame covers these rows, in this order; one that starts behind its end or behind the
partition covers none. -/
def FrameCovers (entries : List (Row × Row)) (orderedEntryIndexes : List ℕ)
    (frameStart frameEnd : ℕ) (rows : List Row) : Prop :=
  if frameEnd < frameStart ∨ orderedEntryIndexes.length ≤ frameStart then rows=[]
  else
    List.Forall₂ (fun ordinal row => ∃ entryIndex projected,
      orderedEntryIndexes[ordinal]?=some entryIndex ∧ entries[entryIndex]?=some (projected,row))
      (List.range' frameStart (Nat.min frameEnd (orderedEntryIndexes.length-1)+1-frameStart)) rows

variable {entries : List (Row × Row)} {orderedEntryIndexes : List ℕ} {rows : List Row}

/-- The loop over a frame goes over the rows it covers. -/
theorem evaluateAggregateWindowValue_eq {frameStart frameEnd : ℕ}
    (hcovers : FrameCovers entries orderedEntryIndexes frameStart frameEnd rows)
    (currentOrdinal peerStart peerEnd : ℕ) (filter : Option (Expr S)) :
    evaluateAggregateWindowValue machine operators nested executeSubqueryRows (some transactionId)
      currentTxn source entries orderedEntryIndexes currentOrdinal peerStart peerEnd frameStart
      frameEnd windowFunc args .noOthers filter=
    rows.foldlM (frameStep machine operators nested executeSubqueryRows transactionId currentTxn
      source windowFunc args filter) FrameTotals.initial >>= fun totals =>
        Outcome.ofExcept (frameValue machine windowFunc totals) := by
  unfold FrameCovers at hcovers
  unfold evaluateAggregateWindowValue
  split at hcovers
  · next hempty =>
    subst hcovers
    rw [if_pos hempty,List.foldlM_nil]
    change _=Outcome.ofExcept (frameValue machine windowFunc FrameTotals.initial)
    rw [emptyFrameValue_eq]
    rfl
  · next hempty =>
    rw [if_neg hempty]
    dsimp only
    generalize List.range' _ _=ordinals at hcovers ⊢
    generalize FrameTotals.initial=totals
    induction hcovers generalizing totals with
    | nil => rfl
    | cons hrow hrows ih =>
      obtain ⟨entryIndex,projected,hindex,hentry⟩ := hrow
      rw [List.foldlM_cons,List.foldlM_cons]
      simp only [WindowExclude.excludes,Bool.false_eq_true,if_false,hindex,hentry] at ih ⊢
      rw [frameStep]
      cases addFrameRow machine operators nested executeSubqueryRows (some transactionId)
        currentTxn source windowFunc args filter _ totals with
      | ok totals => exact ih totals
      | err e => rfl
      | stuck => rfl

/-- Over a frame without exclusion an aggregate has the value, or the error, that it has over a
group of the frame's rows, when no argument contains a subquery; over a frame whose rows the
filter drops it has the value of no rows. -/
theorem window_aggregate_eq_grouped {frameStart frameEnd : ℕ}
    (hcall : windowCall call.func call.arg=some (windowFunc,args))
    (hcovers : FrameCovers entries orderedEntryIndexes frameStart frameEnd rows)
    (currentOrdinal peerStart peerEnd : ℕ) :
    ((∀ expr∈args, scalarExprContainsSubquery nested expr=false) →
      (evaluateAggregateWindowValue machine operators nested executeSubqueryRows
        (some transactionId) currentTxn source entries orderedEntryIndexes currentOrdinal peerStart
        peerEnd frameStart frameEnd windowFunc args .noOthers call.filter >>= fun value =>
          .ok [value])=
      aggregateValues machine operators executeSubqueryRows transactionId currentTxn source [call]
        rows) ∧
    ((∀ row∈rows, keepsRow operators executeSubqueryRows transactionId currentTxn source
        call.filter row=.ok false) →
      evaluateAggregateWindowValue machine operators nested executeSubqueryRows
        (some transactionId) currentTxn source entries orderedEntryIndexes currentOrdinal peerStart
        peerEnd frameStart frameEnd windowFunc args .noOthers call.filter=
      Outcome.ofExcept (aggregateStateValue machine (initialAggregateState call))) := by
  have hloop := @evaluateAggregateWindowValue_eq N S machine operators nested executeSubqueryRows
    transactionId currentTxn source windowFunc args entries orderedEntryIndexes rows frameStart
    frameEnd hcovers currentOrdinal peerStart peerEnd call.filter
  constructor
  · intro hplain
    have hfold := foldlM_frameStep machine operators nested executeSubqueryRows transactionId
      currentTxn source hcall hplain rows FrameTotals.initial
    rw [hloop,aggregateValues,List.map_cons,List.map_nil,initialAggregateState_eq hcall,←hfold]
    cases rows.foldlM (frameStep machine operators nested executeSubqueryRows transactionId
      currentTxn source windowFunc args call.filter) FrameTotals.initial with
    | err e => rfl
    | stuck => rfl
    | ok totals =>
      change (Outcome.ofExcept (frameValue machine windowFunc totals) >>= fun value => .ok [value])=
        Outcome.ofExcept ([totals.state windowFunc].mapM (aggregateStateValue machine))
      rw [List.mapM_cons,List.mapM_nil,aggregateStateValue_state]
      cases frameValue machine windowFunc totals with
      | ok value => rfl
      | error e => rfl
  · intro hdropped
    rw [hloop,foldlM_frameStep_dropped machine operators nested executeSubqueryRows transactionId
      currentTxn source hdropped,initialAggregateState_eq hcall,aggregateStateValue_state]
    rfl

end Rows

/-- A machine for aggregates of integers. -/
def wordAggregates : AggregateMachine Unit where
  machine := Arithmetic.wordMachine
  serde := ⟨fun _ => false,fun _ => none,fun _ => []⟩
  ofInteger _ := ()
  ofReal _ := none

/-- Subqueries that give one row with a one. -/
def oneRow : SubqueryRows Unit := fun _ _ _ => .ok ⟨[⟨none,none,"a","a",none,false⟩],[[.integer 1]]⟩

/-- The sum of a column over the rows of a frame that ends behind the partition. -/
theorem window_aggregate_eq_grouped_sum :
    (evaluateAggregateWindowValue wordAggregates plainOperators (fun _ => false) oneRow (some 0)
      none ⟨[⟨none,none,"a","a",none,false⟩],[]⟩ [([],[.integer 3]), ([],[.integer 4])] [1, 0]
      0 0 0 0 5 .sum [.column "a"] .noOthers none >>= fun value => .ok [value])=
    aggregateValues wordAggregates plainOperators oneRow 0 none
      ⟨[⟨none,none,"a","a",none,false⟩],[]⟩ [⟨.sum,.expr (.column "a"),none⟩]
      [[.integer 4], [.integer 3]] := by
  refine (@window_aggregate_eq_grouped Unit Unit wordAggregates plainOperators (fun _ => false)
    oneRow 0 none ⟨[⟨none,none,"a","a",none,false⟩],[]⟩ ⟨.sum,.expr (.column "a"),none⟩ .sum
    [.column "a"] [([],[.integer 3]), ([],[.integer 4])] [1, 0] [[.integer 4], [.integer 3]] 0 5 rfl
    ?_ 0 0 0).1 ?_
  · exact .cons ⟨1,[],rfl,rfl⟩ (.cons ⟨0,[],rfl,rfl⟩ .nil)
  · intro expr hexpr
    obtain rfl := List.mem_singleton.mp hexpr
    rfl

/-- The sum of a subquery has a value over a frame of one row; over a group of it the subquery
is refused. -/
theorem subquery_sum_refused :
    evaluateAggregateWindowValue wordAggregates plainOperators (fun _ => false) oneRow (some 0)
      none ⟨[],[]⟩ [([],[])] [0] 0 0 0 0 0 .sum [.subquery ()] .noOthers none=
      .ok (.integer 1) ∧
    aggregateValues wordAggregates plainOperators oneRow 0 none ⟨[],[]⟩
      [⟨.sum,.expr (.subquery ()),none⟩] [[]]=.err noQueryContext := by
  constructor
  · rfl
  · rfl

end RustSql.Sql
