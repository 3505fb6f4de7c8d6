import Mathlib.Data.List.Sort
import RustSql.Sql.ForeignKeys

/-!
# Statements that write rows

`UPDATE` as a loop of storage calls, with every `OR` clause. What the statement reads and
evaluates before it writes (its filter, its assignments, its `RETURNING` list) is a function
of the storage.
-/

namespace RustSql.Sql

open RustSql.Engine RustSql.V2

/-- What a statement evaluates in a transaction without changing the storage. -/
abbrev Query (σ α : Type) := TransactionId → σ → Except DbError α

/-- A `RETURNING` list. -/
abbrev Returning (σ : Type) := Query σ (RowId → Row → Except DbError Row)

/-! ## Conflict clauses -/

/-- The clause after `OR`. -/
def hasClause (orConflict : Option String) (clause : String) : Bool :=
  orConflict.any fun mode => eqIgnoreAsciiCase mode clause

/-- The error is about a key that is there already. -/
def isUniqueness (error : DbError) : Bool :=
  containsText error.display "duplicate primary key" || containsText error.display "unique index"

/-- The error is about a constraint that a conflict clause covers. -/
def isConstraint (error : DbError) : Bool :=
  containsText error.display "cannot be NULL" || containsText error.display "check constraint" ||
    isUniqueness error

/-- `matches_ignore_conflict`. -/
def matchesIgnoreConflict (orConflict : Option String) (error : DbError) : Bool :=
  hasClause orConflict "IGNORE" && isConstraint error

/-- `matches_update_fail_conflict`. -/
def matchesUpdateFailConflict (orConflict : Option String) : Bool := hasClause orConflict "FAIL"

/-- `matches_fail_conflict`. -/
def matchesFailConflict (orConflict : Option String) (error : DbError) : Bool :=
  hasClause orConflict "FAIL" && isConstraint error

/-- `matches_rollback_conflict`. -/
def matchesRollbackConflict (orConflict : Option String) (error : DbError) : Bool :=
  hasClause orConflict "ROLLBACK" && isConstraint error

section Statements

variable {σ : Type} [StorageEngine σ] (expressions : Expressions) (fuel : ℕ) (tid : TransactionId)

/-- Evaluate something in the current storage. -/
def query {α : Type} (evaluate : Query σ α) : Eff (Session σ) α :=
  Eff.reads fun session => evaluate tid session.storage

/-- Roll the storage's transaction back because of a conflict and forget it. -/
def rollbackConflict : Eff (Session σ) Unit := do
  call (StorageEngine.rollback tid)
  Eff.modify fun session => { session with currentTxn := none }

/-! ## Rows in the way of a new one -/

/-- `row_matches_partial_index`. -/
def rowMatchesPartialIndex (schema : Schema) (caseSensitiveLike : Bool) (index : IndexMeta)
    (row : Row) : Except DbError Bool :=
  match index.predicate with
  | some predicate => expressions.matchesPredicate schema row predicate caseSensitiveLike
  | none => .ok true

/-- `project_index_key`. -/
def projectIndexKey (schema : Schema) (caseSensitiveLike : Bool) (index : IndexMeta)
    (row : Row) : Except DbError (List Value) :=
  index.columns.mapM fun column =>
    expressions.evaluateIndexTerm schema row column caseSensitiveLike

/-- The ids of the rows that have a row's key in one unique index. -/
def indexConflicts (schema : Schema) (caseSensitiveLike : Bool) (existing : List (RowId × Row))
    (candidate : Row) (index : IndexMeta) : Except DbError (List RowId) := do
  if !(← rowMatchesPartialIndex expressions schema caseSensitiveLike index candidate) then .ok []
  else
    let key ← projectIndexKey expressions schema caseSensitiveLike index candidate
    if !index.enforcesUniqueKey key then .ok []
    else
      let found ← existing.mapM fun entry => do
        if ← rowMatchesPartialIndex expressions schema caseSensitiveLike index entry.2 then
          let existingKey ← projectIndexKey expressions schema caseSensitiveLike index entry.2
          .ok (if existingKey=key then some entry.1 else none)
        else .ok none
      .ok found.reduceOption

/-- The ids of the rows that have a row's primary key. -/
def primaryKeyConflicts (schema : Schema) (existing : List (RowId × Row)) (candidate : Row) :
    List RowId :=
  let positions := schema.primaryKeyPositions
  if positions=[] ∨ positions.any fun index => candidate[index]?==some .null then []
  else (existing.filter fun entry => schema.samePrimaryKey entry.2 candidate).map Prod.fst

/-- `find_insert_conflicting_rows`. -/
def findInsertConflictingRows (table : String) (schema : Schema) (candidate : Row) :
    Eff (Session σ) (List (RowId × Row)) := do
  let existing ← call (StorageEngine.scanRows tid table)
  let indexes ← call (StorageEngine.listAllIndexes tid table)
  let session ← Eff.get
  let caseSensitiveLike := StorageEngine.caseSensitiveLike session.storage
  let byIndex ← Eff.lift ((indexes.filter IndexMeta.unique).mapM
    (indexConflicts expressions schema caseSensitiveLike existing candidate))
  let ids := primaryKeyConflicts schema existing candidate++byIndex.flatten
  let conflicts := existing.filter fun entry => ids.contains entry.1
  pure (conflicts.insertionSort fun left right => left.1 ≤ right.1)

/-! ## `INSERT` -/

/-- What is handed back about a stored row. -/
def returnRow (table : String) (returning : Option (Returning σ)) (rowId : RowId) :
    Eff (Session σ) (List Row) :=
  match returning with
  | none => pure []
  | some returning => do
    match ← call (StorageEngine.getRow tid table rowId) with
    | none => Eff.fail (.storage "inserted row could not be read for RETURNING")
    | some row => do
      let project ← query tid returning
      let projected ← Eff.lift (project rowId row)
      pure [projected]

/-! ## `UPDATE` -/

/-- `update_final_rows`. -/
def updateFinalRows (rows : List (RowId × Row)) (pending : List PendingUpdate) : List Row :=
  rows.map fun entry =>
    match pending.find? fun update => update.rowId==entry.1 with
    | some update => update.updated
    | none => entry.2

/-- `validate_update_primary_key_uniqueness`. -/
def validateUpdatePrimaryKeyUniqueness (schema : Schema) :
    List (List Value) → List Row → Except DbError Unit
  | _, [] => .ok ()
  | seen, row :: rows =>
    let key := schema.primaryKeyPositions.filterMap fun index => row[index]?
    if schema.primaryKeyPositions=[] then .ok ()
    else if key.any fun value => value=.null then
      validateUpdatePrimaryKeyUniqueness schema seen rows
    else if seen.contains key then .error (schema.duplicatePrimaryKey expressions row)
    else validateUpdatePrimaryKeyUniqueness schema (key :: seen) rows

/-- The check of one index in `validate_update_unique_index_constraints`. -/
def validateUpdateUniqueIndex (schema : Schema) (caseSensitiveLike : Bool) (index : IndexMeta) :
    List (List Value) → List Row → Except DbError Unit
  | _, [] => .ok ()
  | seen, row :: rows => do
    if !(← rowMatchesPartialIndex expressions schema caseSensitiveLike index row) then
      validateUpdateUniqueIndex schema caseSensitiveLike index seen rows
    else
      let key ← projectIndexKey expressions schema caseSensitiveLike index row
      if !index.enforcesUniqueKey key then
        validateUpdateUniqueIndex schema caseSensitiveLike index seen rows
      else if seen.contains key then
        .error (.storage s!"unique index {index.name} constraint failed")
      else validateUpdateUniqueIndex schema caseSensitiveLike index (key :: seen) rows

/-- `validate_update_result_constraints`. -/
def validateUpdateResultConstraints (schema : Schema) (indexes : List IndexMeta)
    (finalRows : List Row) : Eff (Session σ) Unit := do
  Eff.forEach finalRows fun row => do
    validateChildRow expressions schema row
    validateForeignKeyReferences tid schema row
  Eff.lift (validateUpdatePrimaryKeyUniqueness expressions schema [] finalRows)
  let session ← Eff.get
  let caseSensitiveLike := StorageEngine.caseSensitiveLike session.storage
  Eff.forEach (indexes.filter IndexMeta.unique) fun index =>
    Eff.lift (validateUpdateUniqueIndex expressions schema caseSensitiveLike index [] finalRows)

/-- `prepare_update_or_replace`: `deleted` are the rows already out of the way. -/
def prepareUpdateOrReplace (table : String) (schema : Schema) :
    List RowId → List PendingUpdate → Eff (Session σ) Unit
  | _, [] => pure ()
  | deleted, pending :: rest => do
    let found ← findInsertConflictingRows expressions tid table schema pending.updated
    let conflicts := found.filter fun entry =>
      entry.1≠pending.rowId && !deleted.contains entry.1
    Eff.forEach conflicts fun entry => do
      validateNoForeignKeyDependents expressions tid fuel table entry.2
      call (StorageEngine.deleteRow tid table entry.1)
    prepareUpdateOrReplace table schema (conflicts.map Prod.fst++deleted) rest

/-- The updates that `OR IGNORE` keeps, in order; `accepted` are those kept so far. -/
def acceptUpdates (orConflict : Option String) (schema : Schema) (indexes : List IndexMeta)
    (rows : List (RowId × Row)) :
    List PendingUpdate → List PendingUpdate → Eff (Session σ) (List PendingUpdate)
  | accepted, [] => pure accepted
  | accepted, candidate :: rest =>
    let tried := accepted++[candidate]
    Eff.attempt
      (validateUpdateResultConstraints expressions tid schema indexes
        (updateFinalRows rows tried)) fun
      | .ok _ => acceptUpdates orConflict schema indexes rows tried rest
      | .error error =>
        if matchesIgnoreConflict orConflict error then
          acceptUpdates orConflict schema indexes rows accepted rest
        else Eff.fail error

/-- `filter_update_conflicts`. -/
def filterUpdateConflicts (table : String) (orConflict : Option String) (schema : Schema)
    (indexes : List IndexMeta) (rows : List (RowId × Row)) (pending : List PendingUpdate) :
    Eff (Session σ) (List PendingUpdate) :=
  if hasClause orConflict "REPLACE" then do
    prepareUpdateOrReplace expressions fuel tid table schema [] pending
    pure pending
  else if !hasClause orConflict "IGNORE" then
    Eff.attempt
      (validateUpdateResultConstraints expressions tid schema indexes
        (updateFinalRows rows pending)) fun
      | .ok _ => pure pending
      | .error error => do
        let session ← Eff.get
        if matchesRollbackConflict orConflict error ∧ session.currentTxn=some tid then
          rollbackConflict tid
        else pure ()
        Eff.fail error
  else do
    let accepted ← acceptUpdates expressions tid orConflict schema indexes rows [] pending
    validateUpdateResultConstraints expressions tid schema indexes
      (updateFinalRows rows accepted)
    pure accepted

/-- Write the new rows of an update, one after the other. -/
def writeUpdates (table : String) (updatedColumns : List String)
    (returning : Option (Returning σ)) (pending : List PendingUpdate) :
    Eff (Session σ) (List Row) := do
  let returned ← Eff.mapEach pending fun (update : PendingUpdate) => do
    call (StorageEngine.updateRowWithColumns tid table update.rowId update.updated
      updatedColumns)
    match returning with
    | none => pure []
    | some returning => do
      let project ← query tid returning
      let projected ← Eff.lift (project update.rowId update.updated)
      pure [projected]
  pure returned.flatten

/-- The loop of `execute_update_or_fail`: the updates before the first that is refused
are written. -/
def acceptUpdatesOrFail (table : String) (schema : Schema) (indexes : List IndexMeta)
    (rows : List (RowId × Row)) (updatedColumns : List String) :
    List PendingUpdate → List PendingUpdate → Eff (Session σ) (List PendingUpdate)
  | accepted, [] => pure accepted
  | accepted, candidate :: rest =>
    let tried := accepted++[candidate]
    Eff.attempt
      (validateUpdateResultConstraints expressions tid schema indexes
        (updateFinalRows rows tried)) fun
      | .ok _ => acceptUpdatesOrFail table schema indexes rows updatedColumns tried rest
      | .error error =>
        if matchesFailConflict (some "FAIL") error then do
          let _ ← writeUpdates tid table updatedColumns none accepted
          Eff.fail error
        else Eff.fail error

/-- `execute_update_or_fail`. -/
def executeUpdateOrFail (table : String) (schema : Schema) (indexes : List IndexMeta)
    (rows : List (RowId × Row)) (updatedColumns : List String) (candidates : List PendingUpdate) :
    Eff (Session σ) (List Row) := do
  let accepted ← acceptUpdatesOrFail expressions tid table schema indexes rows updatedColumns []
    candidates
  validateUpdateParentKeyChanges expressions tid fuel table schema accepted
  writeUpdates tid table updatedColumns none accepted

/-- `execute_update`. The candidates are the selected rows with their new values, in the
order and up to the limit of the statement. -/
def executeUpdate (table : String) (orConflict : Option String) (updatedColumns : List String)
    (candidates : Query σ (List PendingUpdate)) (returning : Option (Returning σ)) :
    Eff (Session σ) (List Row) := do
  let schema ← requireSchema tid table
  let rows ← call (StorageEngine.scanRows tid table)
  let indexes ← call (StorageEngine.listAllIndexes tid table)
  let candidates ← query tid candidates
  if matchesUpdateFailConflict orConflict && returning.isNone then
    executeUpdateOrFail expressions fuel tid table schema indexes rows updatedColumns candidates
  else
    let pending ← filterUpdateConflicts expressions fuel tid table orConflict schema indexes rows
      candidates
    validateUpdateParentKeyChanges expressions tid fuel table schema pending
    writeUpdates tid table updatedColumns returning pending

end Statements

end RustSql.Sql
