import RustSql.Sql.Arithmetic
import RustSql.Sql.Jsonb
import RustSql.Sql.QueryContext

/-!
# Aggregates of groups and of window frames

The executor computes an aggregate twice: over the rows of a group, with a state that every row
updates, and over the rows of a window frame, with a loop of its own. Both stand here as they
are written, for the functions that both know; what `DISTINCT` and `ORDER BY` add inside a call
is left out, since a window refuses them.
-/

namespace RustSql.Sql

open RustSql.V2

/-- `WindowFunc`: the functions that are aggregates. -/
inductive WindowFunc where
  | count
  | sum
  | avg
  | total
  | min
  | max
  | groupConcat
  | jsonGroupArray
  | jsonGroupObject
  deriving DecidableEq

/-- `AggregateFunc`: the functions that a window knows. -/
inductive AggregateFunc where
  | count
  | sum
  | avg
  | total
  | groupConcat
  | jsonGroupArray
  | jsonGroupObject
  | min
  | max
  deriving DecidableEq

/-- `AggregateArg`. -/
inductive AggregateArg (S : Type) where
  | wildcard
  | expr (expr : ScalarExpr S)
  | groupConcat (expr : ScalarExpr S) (separator : Option (ScalarExpr S))
  | jsonGroupObject (key value : ScalarExpr S)

/-- `AggregateCall`. -/
structure AggregateCall (S : Type) where
  func : AggregateFunc
  arg : AggregateArg S
  filter : Option (Expr S)

/-- `AggregateState`. Sums of integers have 128 bits, more than any number of rows fills. -/
inductive AggregateState where
  | count (count : ℕ)
  | sum (intSum : ℤ) (realSum : UInt64) (seen sawReal : Bool)
  | avg (intSum : ℤ) (realSum : UInt64) (count : ℕ) (sawReal : Bool)
  | total (total : UInt64)
  | groupConcat (value : Option String)
  | jsonGroupArray (values : List String)
  | jsonGroupObject (fields : List String)
  | min (value : Option Value)
  | max (value : Option Value)

/-- `parse_aggregate_window_function`: the window function of an aggregate call. -/
def windowCall {S : Type} :
    AggregateFunc → AggregateArg S → Option (WindowFunc × List (ScalarExpr S))
  | .count, .wildcard => some (.count,[])
  | .count, .expr expr => some (.count,[expr])
  | .sum, .expr expr => some (.sum,[expr])
  | .avg, .expr expr => some (.avg,[expr])
  | .total, .expr expr => some (.total,[expr])
  | .min, .expr expr => some (.min,[expr])
  | .max, .expr expr => some (.max,[expr])
  | .groupConcat, .groupConcat expr separator => some (.groupConcat,expr :: separator.toList)
  | .jsonGroupArray, .expr expr => some (.jsonGroupArray,[expr])
  | .jsonGroupObject, .jsonGroupObject key value => some (.jsonGroupObject,[key,value])
  | _, _ => none

/-! ## Values -/

/-- What aggregates take from the machine and from the JSON library. -/
structure AggregateMachine (N : Type) where
  machine : Arithmetic.Machine
  serde : SerdeJson N
  /-- `Number::from`. -/
  ofInteger : Int64 → N
  /-- `Number::from_f64`. -/
  ofReal : UInt64 → Option N

section Values

variable {N : Type} (machine : AggregateMachine N)

/-- `parse_sqlite_aggregate_numeric_text`. -/
def parseSqliteAggregateNumericText (value : String) : Outcome Value :=
  let trimmed := Check.trim value
  match Check.parseI64 trimmed with
  | some integer => .ok (.integer integer)
  | none =>
    match machine.machine.parseReal (String.ofList trimmed) with
    | some real => .ok (.real real)
    | none => do
      let found ← Arithmetic.sqliteNumericTextPrefix value
      match found with
      | some (candidate,_) =>
        .ok (.real (Arithmetic.parseRealOrZero machine.machine candidate))
      | none => .ok (.real 0)

/-- `parse_sqlite_aggregate_numeric_blob`. -/
def parseSqliteAggregateNumericBlob (value : Bytes) : Outcome Value := do
  let number ← parseSqliteAggregateNumericText machine (machine.machine.fromUtf8Lossy value)
  match number with
  | .integer value => .ok (.real (i64ToReal value))
  | value => .ok value

/-- `coerce_aggregate_numeric_value`. -/
def coerceAggregateNumericValue : Value → Outcome (Option Value)
  | .null => .ok none
  | .integer value => .ok (some (.integer value))
  | .real value => .ok (some (.real value))
  | .boolean value => .ok (some (.integer (if value then 1 else 0)))
  | .text value => do
    let number ← parseSqliteAggregateNumericText machine value
    .ok (some number)
  | .blob value => do
    let number ← parseSqliteAggregateNumericBlob machine value
    .ok (some number)

/-- `sql_value_to_json`. -/
def sqlValueToJson : Value → Except DbError (JsonValue N)
  | .null => .ok .null
  | .boolean value => .ok (.number (machine.ofInteger (if value then 1 else 0)))
  | .integer value => .ok (.number (machine.ofInteger value))
  | .real value => .ok ((machine.ofReal value).elim .null .number)
  | .text value => .ok (.string value)
  | .blob value =>
    match Jsonb.decode machine.serde value with
    | .ok value => .ok value
    | .error _ => .error (.plan "JSON cannot hold BLOB values")

/-- The JSON text of a value. -/
def jsonOfValue (value : Value) : Except DbError String := do
  let json ← sqlValueToJson machine value
  .ok (String.ofList (machine.serde.toString json))

/-- `i64::try_from` of a sum. -/
def sumValue (intSum : ℤ) : Except DbError Value :=
  if -2^63 ≤ intSum ∧ intSum < 2^63 then .ok (.integer (Int64.ofInt intSum))
  else .error (.plan "SUM overflowed i64")

/-- A count as a value and as a float. -/
def countValue (count : ℕ) : Value := .integer (Int64.ofNat count)
def countReal (count : ℕ) : UInt64 := i64ToReal (Int64.ofNat count)

/-- A text behind the separator, or the first text. -/
def concatenated (current : Option String) (separator text : String) : Option String :=
  match current with
  | some current => some (current++separator++text)
  | none => some text

/-- The JSON texts of an array and of an object. -/
def jsonArrayText (values : List String) : String := "["++",".intercalate values++"]"
def jsonObjectText (fields : List String) : String := "\x7b"++",".intercalate fields++"\x7d"

/-! ## Groups -/

section Groups

variable {S : Type} (operators : Operators)

/-- A value replaces the extremum when that compares as it says. -/
def replaces (ordering : Ordering) (existing value : Value) : Bool :=
  compareValues operators existing value=some ordering

/-- The least or the greatest value so far. -/
def extremumWith (ordering : Ordering) (current : Option Value) (value : Value) : Option Value :=
  if value=.null then current
  else
    match current with
    | none => some value
    | some existing =>
      if replaces operators ordering existing value then some value else some existing

/-- `initial_aggregate_state`. -/
def initialAggregateState (call : AggregateCall S) : AggregateState :=
  match call.func with
  | .count => .count 0
  | .sum => .sum 0 0 false false
  | .avg => .avg 0 0 0 false
  | .total => .total 0
  | .groupConcat => .groupConcat none
  | .jsonGroupArray => .jsonGroupArray []
  | .jsonGroupObject => .jsonGroupObject []
  | .min => .min none
  | .max => .max none

/-- The text a value is joined with. -/
def separatorText (evaluate : ScalarExpr S → Except DbError Value)
    (separator : Option (ScalarExpr S)) : Except DbError String :=
  match separator with
  | none => .ok ","
  | some expr => do
    let value ← evaluate expr
    if value=.null then .ok "" else .ok (operators.coerceTextLikeValue value)

/-- The JSON field of a key and a value. -/
def jsonField (evaluate : ScalarExpr S → Except DbError Value) (key : Value)
    (value : ScalarExpr S) : Except DbError String := do
  let key := String.ofList (machine.serde.toString (.string (operators.coerceTextLikeValue key)))
  let value ← evaluate value
  let text ← jsonOfValue machine value
  .ok (key++":"++text)

/-- One state of `update_aggregate_states`, for a row that the filter keeps. -/
def updateAggregateState (evaluate : ScalarExpr S → Except DbError Value) :
    AggregateState → AggregateFunc → AggregateArg S → Outcome AggregateState
  | .count count, .count, .wildcard => .ok (.count (count+1))
  | .count count, .count, .expr expr => do
    let value ← Outcome.ofExcept (evaluate expr)
    .ok (.count (if value≠.null then count+1 else count))
  | .sum intSum realSum seen sawReal, .sum, .expr expr => do
    let value ← Outcome.ofExcept (evaluate expr)
    let number ← coerceAggregateNumericValue machine value
    match number with
    | some (.integer value) =>
      .ok (.sum (intSum+value.toInt) (machine.machine.add realSum (i64ToReal value)) true sawReal)
    | some (.real value) => .ok (.sum intSum (machine.machine.add realSum value) true true)
    -- aggregate numeric coercion only returns numeric values
    | some _ => .stuck
    | none => .ok (.sum intSum realSum seen sawReal)
  | .avg intSum realSum count sawReal, .avg, .expr expr => do
    let value ← Outcome.ofExcept (evaluate expr)
    let number ← coerceAggregateNumericValue machine value
    match number with
    | some (.integer value) =>
      .ok (.avg (intSum+value.toInt) (machine.machine.add realSum (i64ToReal value)) (count+1)
        sawReal)
    | some (.real value) =>
      .ok (.avg intSum (machine.machine.add realSum value) (count+1) true)
    | some _ => .stuck
    | none => .ok (.avg intSum realSum count sawReal)
  | .total total, .total, .expr expr => do
    let value ← Outcome.ofExcept (evaluate expr)
    let number ← coerceAggregateNumericValue machine value
    match number with
    | some (.integer value) => .ok (.total (machine.machine.add total (i64ToReal value)))
    | some (.real value) => .ok (.total (machine.machine.add total value))
    | some _ => .stuck
    | none => .ok (.total total)
  | .groupConcat current, .groupConcat, .groupConcat expr separator => do
    let value ← Outcome.ofExcept (evaluate expr)
    if value=.null then .ok (.groupConcat current)
    else
      let separator ← Outcome.ofExcept (separatorText operators evaluate separator)
      .ok (.groupConcat (concatenated current separator (operators.coerceTextLikeValue value)))
  | .jsonGroupArray values, .jsonGroupArray, .expr expr => do
    let value ← Outcome.ofExcept (evaluate expr)
    let json ← Outcome.ofExcept (jsonOfValue machine value)
    .ok (.jsonGroupArray (values++[json]))
  | .jsonGroupObject fields, .jsonGroupObject, .jsonGroupObject key value => do
    let key ← Outcome.ofExcept (evaluate key)
    if key=.null then .ok (.jsonGroupObject fields)
    else
      let field ← Outcome.ofExcept (jsonField machine operators evaluate key value)
      .ok (.jsonGroupObject (fields++[field]))
  | .min current, .min, .expr expr => do
    let value ← Outcome.ofExcept (evaluate expr)
    .ok (.min (extremumWith operators .gt current value))
  | .max current, .max, .expr expr => do
    let value ← Outcome.ofExcept (evaluate expr)
    .ok (.max (extremumWith operators .lt current value))
  | state, _, _ => .ok state

/-- `aggregate_state_value`. -/
def aggregateStateValue : AggregateState → Except DbError Value
  | .count count => .ok (countValue count)
  | .sum intSum realSum seen sawReal =>
    if seen then
      if sawReal then .ok (.real realSum) else sumValue intSum
    else .ok .null
  | .avg _ realSum count _ =>
    if count=0 then .ok .null else .ok (.real (machine.machine.div realSum (countReal count)))
  | .total total => .ok (.real total)
  | .groupConcat value => .ok (value.elim .null .text)
  | .jsonGroupArray values => .ok (.text (jsonArrayText values))
  | .jsonGroupObject fields => .ok (.text (jsonObjectText fields))
  | .min value | .max value => .ok (value.getD .null)

variable (executeSubqueryRows : SubqueryRows S) (transactionId : TransactionId)
  (currentTxn : Option TransactionId) (source : RowSet)

/-- A row is kept by a filter, or there is none. -/
def keepsRow (filter : Option (Expr S)) (row : Row) : Except DbError Bool :=
  match filter with
  | none => .ok true
  | some filter =>
    matchesFilter operators executeSubqueryRows transactionId currentTxn ⟨source,row,none⟩ filter

/-- `update_aggregate_states`. -/
def updateAggregateStates (row : Row) :
    List AggregateState → List (AggregateCall S) → Outcome (List AggregateState)
  | state :: states, call :: calls => do
    let kept ← Outcome.ofExcept
      (keepsRow operators executeSubqueryRows transactionId currentTxn source call.filter row)
    let updated ← if kept then
        updateAggregateState machine operators (SelectList.evaluateScalarExpr operators source row)
          state call.func call.arg
      else .ok state
    let rest ← updateAggregateStates row states calls
    .ok (updated :: rest)
  | states, _ => .ok states

/-- The values of some calls over the rows of a group: every row updates the states, and in the
end each state has its value, `aggregate_state_values`. -/
def aggregateValues (calls : List (AggregateCall S)) (rows : List Row) :
    Outcome (List Value) := do
  let states ← rows.foldlM (fun states row => updateAggregateStates machine operators
    executeSubqueryRows transactionId currentTxn source row states calls)
    (calls.map initialAggregateState)
  Outcome.ofExcept (states.mapM (aggregateStateValue machine))

end Groups

/-! ## Window frames -/

/-- `WindowExclude`. -/
inductive WindowExclude where
  | noOthers
  | currentRow
  | group
  | ties
  deriving DecidableEq

/-- A row of the frame is excluded. -/
def WindowExclude.excludes (exclude : WindowExclude)
    (currentOrdinal peerStart peerEnd ordinal : ℕ) : Bool :=
  match exclude with
  | .noOthers => false
  | .currentRow => ordinal=currentOrdinal
  | .group => peerStart ≤ ordinal && ordinal ≤ peerEnd
  | .ties => ordinal≠currentOrdinal && (peerStart ≤ ordinal && ordinal ≤ peerEnd)

/-- What the loop over a frame has counted and gathered. -/
structure FrameTotals where
  count : ℕ
  intSum : ℤ
  realSum : UInt64
  sawReal : Bool
  extremum : Option Value
  concat : Option String
  jsonArrayValues : List String
  jsonObjectFields : List String

/-- Nothing yet. -/
def FrameTotals.initial : FrameTotals := ⟨0,0,0,false,none,none,[],[]⟩

section Windows

variable {S : Type} (operators : Operators) (nested : ScalarExpr S → Bool)
  (executeSubqueryRows : SubqueryRows S) (transactionId : Option TransactionId)
  (currentTxn : Option TransactionId) (fullSource : RowSet)

/-- The value of an empty frame. -/
def emptyFrameValue : WindowFunc → Value
  | .count => .integer 0
  | .sum | .avg => .null
  | .total => .real 0
  | .min | .max => .null
  | .groupConcat => .null
  | .jsonGroupArray => .text "[]"
  | .jsonGroupObject => .text "\x7b\x7d"

/-- The value of the first argument, or of none. -/
def firstArgument (evaluate : ScalarExpr S → Except DbError Value) :
    List (ScalarExpr S) → Except DbError Value
  | [] => .ok (.integer 1)
  | expr :: _ => evaluate expr

/-- The loop of `evaluate_aggregate_window_value` over a row that counts. -/
def addToTotals (evaluate : ScalarExpr S → Except DbError Value) (windowFunc : WindowFunc)
    (args : List (ScalarExpr S)) (value : Value) (totals : FrameTotals) : Outcome FrameTotals :=
  match windowFunc with
  | .count =>
    .ok (if args=[] ∨ value≠.null then {totals with count := totals.count+1} else totals)
  | .sum | .avg | .total => do
    let number ← coerceAggregateNumericValue machine value
    match number with
    | some (.integer value) =>
      .ok {totals with
        intSum := totals.intSum+value.toInt
        realSum := machine.machine.add totals.realSum (i64ToReal value)
        count := totals.count+1}
    | some (.real value) =>
      .ok {totals with
        realSum := machine.machine.add totals.realSum value
        count := totals.count+1
        sawReal := true}
    | some _ => .stuck
    | none => .ok totals
  | .min => .ok {totals with extremum := extremumWith operators .gt totals.extremum value}
  | .max => .ok {totals with extremum := extremumWith operators .lt totals.extremum value}
  | .groupConcat =>
    if value=.null then .ok totals
    else do
      let separator ← Outcome.ofExcept (separatorText operators evaluate args[1]?)
      .ok {totals with
        concat := concatenated totals.concat separator (operators.coerceTextLikeValue value)}
  | .jsonGroupArray => do
    let json ← Outcome.ofExcept (jsonOfValue machine value)
    .ok {totals with jsonArrayValues := totals.jsonArrayValues++[json]}
  | .jsonGroupObject =>
    if value=.null then .ok totals
    else
      match args[1]? with
      | none => .err (.plan "JSON_GROUP_OBJECT window requires value argument")
      | some expr => do
        let field ← Outcome.ofExcept (jsonField machine operators evaluate value expr)
        .ok {totals with jsonObjectFields := totals.jsonObjectFields++[field]}

/-- The value of the totals of a frame. -/
def frameValue (windowFunc : WindowFunc) (totals : FrameTotals) : Except DbError Value :=
  match windowFunc with
  | .count => .ok (countValue totals.count)
  | .sum =>
    if totals.count=0 then .ok .null
    else if totals.sawReal then .ok (.real totals.realSum)
    else sumValue totals.intSum
  | .avg =>
    if totals.count=0 then .ok .null
    else .ok (.real (machine.machine.div totals.realSum (countReal totals.count)))
  | .total => .ok (.real totals.realSum)
  | .min | .max => .ok (totals.extremum.getD .null)
  | .groupConcat => .ok (totals.concat.elim .null .text)
  | .jsonGroupArray => .ok (.text (jsonArrayText totals.jsonArrayValues))
  | .jsonGroupObject => .ok (.text (jsonObjectText totals.jsonObjectFields))

/-- A row of a frame is kept by the filter, or there is none. -/
def keepsFrameRow (filter : Option (Expr S)) (row : Row) : Except DbError Bool :=
  match filter with
  | none => .ok true
  | some filter =>
    match transactionId with
    | none => .error (.plan "aggregate window FILTER requires transaction context")
    | some transactionId =>
      matchesFilter operators executeSubqueryRows transactionId currentTxn
        ⟨fullSource,row,none⟩ filter

/-- The loop of `evaluate_aggregate_window_value` over a row that is not excluded. -/
def addFrameRow (windowFunc : WindowFunc) (args : List (ScalarExpr S)) (filter : Option (Expr S))
    (fullRow : Row) (totals : FrameTotals) : Outcome FrameTotals := do
  let kept ← Outcome.ofExcept
    (keepsFrameRow operators executeSubqueryRows transactionId currentTxn fullSource filter fullRow)
  if kept then
    let evaluate := evaluateScalarExprInContext nested operators executeSubqueryRows transactionId
      fullSource fullRow none
    let value ← Outcome.ofExcept (firstArgument evaluate args)
    addToTotals machine operators evaluate windowFunc args value totals
  else .ok totals

/-- `evaluate_aggregate_window_value`. An entry is a projected row with its full row. -/
def evaluateAggregateWindowValue (entries : List (Row × Row)) (orderedEntryIndexes : List ℕ)
    (currentOrdinal peerStart peerEnd frameStart frameEnd : ℕ) (windowFunc : WindowFunc)
    (args : List (ScalarExpr S)) (exclude : WindowExclude) (filter : Option (Expr S)) :
    Outcome Value :=
  if frameEnd < frameStart ∨ orderedEntryIndexes.length ≤ frameStart then
    .ok (emptyFrameValue windowFunc)
  else do
    let frameEnd := Nat.min frameEnd (orderedEntryIndexes.length-1)
    let totals ← (List.range' frameStart (frameEnd+1-frameStart)).foldlM
      (fun totals ordinal =>
        if exclude.excludes currentOrdinal peerStart peerEnd ordinal then .ok totals
        else
          match orderedEntryIndexes[ordinal]? with
          | none => .ok totals
          | some entryIndex =>
            match entries[entryIndex]? with
            -- the index is out of bounds
            | none => .stuck
            | some (_, fullRow) =>
              addFrameRow machine operators nested executeSubqueryRows transactionId currentTxn
                fullSource windowFunc args filter fullRow totals)
      FrameTotals.initial
    Outcome.ofExcept (frameValue machine windowFunc totals)

end Windows

end Values

end RustSql.Sql
