import RustSql.Engine.Traits

/-!
# Foreign keys

The state of a connection and what the executor does about foreign keys: the check of a
row's references, the actions on the rows that depend on a changed or deleted one, and
the check of what was deferred. The actions recurse from row to row; they run with a
bound on their depth.
-/

namespace RustSql.Sql

open RustSql.Engine RustSql.V2

/-- The cells of a connection that statements read and write, and its storage. -/
structure Session (σ : Type) where
  storage : σ
  currentTxn : Option TransactionId
  savepointTransaction : Bool
  savepointStack : List String
  deferredForeignKeysPending : Bool
  deferForeignKeys : Bool
  foreignKeys : Bool
  queryOnly : Bool

/-! ## Actions and deferral -/

/-- `ForeignKeyDeleteAction`. -/
inductive ForeignKeyDeleteAction where
  | restrict
  | cascade
  | setNull
  | setDefault
  deriving DecidableEq

/-- The action a clause names; `NO ACTION` and no clause restrict. -/
def foreignKeyAction (clause : Option String) : ForeignKeyDeleteAction :=
  match clause with
  | some action =>
    if eqIgnoreAsciiCase action "CASCADE" then .cascade
    else if eqIgnoreAsciiCase action "SET NULL" then .setNull
    else if eqIgnoreAsciiCase action "SET DEFAULT" then .setDefault
    else .restrict
  | none => .restrict

/-- `foreign_key_delete_action`. -/
def foreignKeyDeleteAction (foreignKey : ForeignKey) : ForeignKeyDeleteAction :=
  foreignKeyAction foreignKey.onDelete

/-- `deferrable == Some(true) && initially_deferred == Some(true)`. -/
def ForeignKey.isInitiallyDeferred (foreignKey : ForeignKey) : Bool :=
  foreignKey.deferrable==some true && foreignKey.initiallyDeferred==some true

/-- A clause that names `RESTRICT`. -/
def isRestrict (clause : Option String) : Bool :=
  clause.any fun action => eqIgnoreAsciiCase action "RESTRICT"

section Deferral

variable {σ : Type}

/-- A transaction is open and the foreign key is deferred in it. -/
def Session.defers (session : Session σ) (restricted : Bool) (foreignKey : ForeignKey) : Bool :=
  session.currentTxn.isSome &&
    (session.deferForeignKeys || (foreignKey.isInitiallyDeferred && !restricted))

/-- `should_defer_foreign_key`. -/
def Session.shouldDeferForeignKey (session : Session σ) (foreignKey : ForeignKey) : Bool :=
  session.defers false foreignKey

/-- `should_defer_parent_delete_foreign_key`. -/
def Session.shouldDeferParentDeleteForeignKey (session : Session σ) (foreignKey : ForeignKey) :
    Bool :=
  session.defers (isRestrict foreignKey.onDelete) foreignKey

/-- `should_defer_parent_update_foreign_key`. -/
def Session.shouldDeferParentUpdateForeignKey (session : Session σ) (foreignKey : ForeignKey) :
    Bool :=
  session.defers (isRestrict foreignKey.onUpdate) foreignKey

/-- Remember that a check was skipped. -/
def notePending : Eff (Session σ) Unit :=
  Eff.modify fun session => { session with deferredForeignKeysPending := true }

/-- A call of the storage engine. -/
def call {α : Type} (x : Eff σ α) : Eff (Session σ) α :=
  Eff.zoom Session.storage (fun session storage => { session with storage := storage }) x

end Deferral

/-! ## Keys -/

/-- The values of some columns of a row. -/
def Schema.values (schema : Schema) (row : Row) (columns : List String) :
    Except DbError (List Value) :=
  columns.mapM (schema.valueForColumn row)

/-- Write values into the named columns. -/
def Schema.assign (schema : Schema) (row : Row) (assignments : List (String × Value)) :
    Except DbError Row :=
  assignments.foldlM (fun row entry => do
    let index ← schema.columnIndex entry.1
    .ok (row.set index entry.2)) row

/-- `resolve_foreign_key_parent_columns`. -/
def resolveForeignKeyParentColumns (parentSchema : Schema) (foreignKey : ForeignKey) :
    Except DbError (List String) :=
  match foreignKey.refColumns with
  | some refColumns =>
    if refColumns.length≠foreignKey.columns.length then
      .error (.storage
        s!"foreign key column count mismatch for parent table {parentSchema.name}")
    else do
      let _ ← refColumns.mapM parentSchema.columnIndex
      .ok refColumns
  | none =>
    let primaryKeyColumns := (parentSchema.columns.filter ColumnDef.primaryKey).map ColumnDef.name
    if primaryKeyColumns=[] then
      .error (.storage
        s!"foreign key parent table {parentSchema.name} has no primary key for REFERENCES shorthand")
    else if primaryKeyColumns.length≠foreignKey.columns.length then
      .error (.storage
        s!"foreign key parent table {parentSchema.name} primary key column count {primaryKeyColumns.length} does not match child column count {foreignKey.columns.length}")
    else .ok primaryKeyColumns

section Checks

variable {σ : Type} [StorageEngine σ] (expressions : Expressions) (tid : TransactionId)

/-- `require_schema`. -/
def requireSchema (table : String) : Eff (Session σ) Schema := do
  match ← call (StorageEngine.getSchema tid table) with
  | some schema => pure schema
  | none => Eff.fail (.storage s!"unknown table: {table}")

/-! ## References of a row -/

/-- `validate_foreign_key_reference`. -/
def validateForeignKeyReference (schema : Schema) (row : Row) (foreignKey : ForeignKey) :
    Eff (Session σ) Unit := do
  let childValues ← Eff.lift (schema.values row foreignKey.columns)
  if childValues.any fun value => value=.null then pure ()
  else
    let parentSchema ← requireSchema tid foreignKey.refTable
    let parentColumnNames ← Eff.lift (resolveForeignKeyParentColumns parentSchema foreignKey)
    let parentColumns ← Eff.lift (parentColumnNames.mapM parentSchema.columnIndex)
    let parentRows ← call (StorageEngine.scanRows tid foreignKey.refTable)
    let found := parentRows.any fun entry =>
      (parentColumns.zip childValues).all fun pair => entry.2[pair.1]?==some pair.2
    if found then pure ()
    else
      let childDisplay := String.intercalate ", " foreignKey.columns
      let parentDisplay := String.intercalate ", " parentColumnNames
      Eff.fail (.storage
        s!"foreign key constraint failed: {childDisplay} references {foreignKey.refTable}({parentDisplay})")

/-- `validate_foreign_key_references`. -/
def validateForeignKeyReferences (schema : Schema) (row : Row) : Eff (Session σ) Unit := do
  let session ← Eff.get
  if session.foreignKeys then
    Eff.forEach schema.allForeignKeys fun foreignKey => do
      let session ← Eff.get
      if session.shouldDeferForeignKey foreignKey then notePending
      else validateForeignKeyReference tid schema row foreignKey
  else pure ()

/-! ## Rows that depend on a key -/

/-- Go through the rows of a child table whose foreign key has the given values, as a
scan made before the first of them found it. -/
def forEachDependent (childSchema : Schema) (childColumns : List String) (key : List Value)
    (action : RowId → Row → Eff (Session σ) Unit) : Eff (Session σ) Unit := do
  let childRows ← call (StorageEngine.scanRows tid childSchema.name)
  Eff.forEach childRows fun entry => do
    let childValues ← Eff.lift (childSchema.values entry.2 childColumns)
    if childValues.any fun value => value=.null then pure ()
    else if childValues=key then action entry.1 entry.2
    else pure ()

/-- The checks of a rewritten child row. -/
def validateChildRow (childSchema : Schema) (row : Row) : Eff (Session σ) Unit := do
  Eff.lift (childSchema.validateRowValues row)
  let session ← Eff.get
  Eff.lift (childSchema.validateCheckConstraints expressions row
    (StorageEngine.caseSensitiveLike session.storage))

/-- The defaults of some columns. -/
def Schema.defaults (schema : Schema) (columns : List String) :
    Except DbError (List (String × Value)) :=
  columns.mapM fun column => do
    let index ← schema.columnIndex column
    match schema.columns[index]? with
    | some definition => do
      let value ← definition.evaluateDefault expressions
      .ok (column,value)
    | none => .ok (column,.null)

/-- Rewrite a dependent row of a deleted one, check it and store it. -/
def detachDependent (childSchema : Schema) (rowId : RowId) (updated : Row) :
    Eff (Session σ) Unit := do
  validateChildRow expressions childSchema updated
  validateForeignKeyReferences tid childSchema updated
  call (StorageEngine.updateRow tid childSchema.name rowId updated)

/-- `validate_no_foreign_key_dependents_for_key`; `recurse` is
`validate_no_foreign_key_dependents`. -/
def validateNoForeignKeyDependentsForKey (recurse : String → Row → Eff (Session σ) Unit)
    (childSchema : Schema) (action : ForeignKeyDeleteAction) (childColumns : List String)
    (parentTable : String) (parentColumns : List String) (parentValues : List Value) :
    Eff (Session σ) Unit :=
  forEachDependent tid childSchema childColumns parentValues fun rowId row =>
    match action with
    | .cascade => do
      recurse childSchema.name row
      call (StorageEngine.deleteRow tid childSchema.name rowId)
    | .setNull => do
      let updated ← Eff.lift
        (childSchema.assign row (childColumns.map fun column => (column,.null)))
      detachDependent expressions tid childSchema rowId updated
    | .setDefault => do
      let defaults ← Eff.lift (childSchema.defaults expressions childColumns)
      let updated ← Eff.lift (childSchema.assign row defaults)
      detachDependent expressions tid childSchema rowId updated
    | .restrict =>
      let childDisplay := String.intercalate ", " childColumns
      let parentDisplay := String.intercalate ", " parentColumns
      Eff.fail (.storage
        s!"foreign key constraint failed: {childSchema.name}.{childDisplay} references {parentTable}({parentDisplay})")

/-- The foreign keys of a schema that reference a table. -/
def Schema.referencing (schema : Schema) (parentTable : String) : List ForeignKey :=
  schema.allForeignKeys.filter fun foreignKey => foreignKey.refTable==parentTable

/-- What `validate_no_foreign_key_dependents` does about one foreign key. -/
def validateDependentsOf (recurse : String → Row → Eff (Session σ) Unit) (parentSchema : Schema)
    (parentTable : String) (parentRow : Row) (childSchema : Schema) (foreignKey : ForeignKey) :
    Eff (Session σ) Unit := do
  let session ← Eff.get
  if session.shouldDeferParentDeleteForeignKey foreignKey then notePending
  else
    let parentColumnNames ← Eff.lift (resolveForeignKeyParentColumns parentSchema foreignKey)
    let parentValues ← Eff.lift (parentSchema.values parentRow parentColumnNames)
    if parentValues.any fun value => value=.null then pure ()
    else
      validateNoForeignKeyDependentsForKey expressions tid recurse childSchema
        (foreignKeyDeleteAction foreignKey) foreignKey.columns parentTable parentColumnNames
        parentValues

/-- `validate_no_foreign_key_dependents`, to a depth of at most `fuel` rows. -/
def validateNoForeignKeyDependents : ℕ → String → Row → Eff (Session σ) Unit
  | 0, _, _ => Eff.hang
  | fuel+1, parentTable, parentRow => do
    let session ← Eff.get
    if session.foreignKeys then
      let parentSchema ← requireSchema tid parentTable
      let schemas ← call (StorageEngine.listSchemas tid)
      Eff.forEach schemas fun childSchema =>
        Eff.forEach (childSchema.referencing parentTable) fun foreignKey =>
          validateDependentsOf expressions tid (validateNoForeignKeyDependents fuel)
            parentSchema parentTable parentRow childSchema foreignKey
    else pure ()

/-! ## Changed parent keys -/

/-- An update that is about to be written: the row's id, the stored row and the new one. -/
structure PendingUpdate where
  rowId : RowId
  stored : Row
  updated : Row
  deriving DecidableEq

/-- `cascade_update_foreign_key_dependents_for_key`; `recurse` is
`validate_update_parent_key_changes` for the child table. -/
def cascadeUpdateForeignKeyDependentsForKey
    (recurse : String → Schema → List PendingUpdate → Eff (Session σ) Unit)
    (childSchema : Schema) (childColumns : List String)
    (oldParentValues updatedParentValues : List Value) : Eff (Session σ) Unit :=
  forEachDependent tid childSchema childColumns oldParentValues fun rowId row => do
    let updated ← Eff.lift (childSchema.assign row (childColumns.zip updatedParentValues))
    validateChildRow expressions childSchema updated
    recurse childSchema.name childSchema [⟨rowId,row,updated⟩]
    call (StorageEngine.updateRow tid childSchema.name rowId updated)

/-- `set_null_update_foreign_key_dependents_for_key`. -/
def setNullUpdateForeignKeyDependentsForKey (childSchema : Schema) (childColumns : List String)
    (oldParentValues : List Value) : Eff (Session σ) Unit :=
  forEachDependent tid childSchema childColumns oldParentValues fun rowId row => do
    let updated ← Eff.lift
      (childSchema.assign row (childColumns.map fun column => (column,.null)))
    validateChildRow expressions childSchema updated
    call (StorageEngine.updateRow tid childSchema.name rowId updated)

/-- `set_default_update_foreign_key_dependents_for_key`. -/
def setDefaultUpdateForeignKeyDependentsForKey (childSchema : Schema)
    (childColumns : List String) (oldParentValues updatedParentValues : List Value) :
    Eff (Session σ) Unit :=
  forEachDependent tid childSchema childColumns oldParentValues fun rowId row => do
    let defaults ← Eff.lift (childSchema.defaults expressions childColumns)
    let updated ← Eff.lift (childSchema.assign row defaults)
    validateChildRow expressions childSchema updated
    let updatedChildValues ← Eff.lift (childSchema.values updated childColumns)
    if updatedChildValues≠updatedParentValues then
      validateForeignKeyReferences tid childSchema updated
    else pure ()
    call (StorageEngine.updateRow tid childSchema.name rowId updated)

/-- What `validate_update_parent_key_changes` does about one foreign key and one row. -/
def validateKeyChange
    (recurse : String → Schema → List PendingUpdate → Eff (Session σ) Unit)
    (parentTable : String) (parentSchema childSchema : Schema) (foreignKey : ForeignKey)
    (parentColumnNames : List String) (pending : PendingUpdate) : Eff (Session σ) Unit := do
  let oldParentValues ← Eff.lift (parentSchema.values pending.stored parentColumnNames)
  let updatedParentValues ← Eff.lift (parentSchema.values pending.updated parentColumnNames)
  if oldParentValues=updatedParentValues ∨ oldParentValues.any fun value => value=.null then
    pure ()
  else
    match foreignKeyAction foreignKey.onUpdate with
    | .cascade =>
      cascadeUpdateForeignKeyDependentsForKey expressions tid recurse childSchema
        foreignKey.columns oldParentValues updatedParentValues
    | .setNull =>
      setNullUpdateForeignKeyDependentsForKey expressions tid childSchema foreignKey.columns
        oldParentValues
    | .setDefault =>
      setDefaultUpdateForeignKeyDependentsForKey expressions tid childSchema foreignKey.columns
        oldParentValues updatedParentValues
    | .restrict =>
      validateNoForeignKeyDependentsForKey expressions tid (fun _ _ => pure ()) childSchema
        .restrict foreignKey.columns parentTable parentColumnNames oldParentValues

/-- `validate_update_parent_key_changes`, to a depth of at most `fuel` rows. -/
def validateUpdateParentKeyChanges :
    ℕ → String → Schema → List PendingUpdate → Eff (Session σ) Unit
  | 0, _, _, _ => Eff.hang
  | fuel+1, parentTable, parentSchema, pendingUpdates => do
    let session ← Eff.get
    if session.foreignKeys && !pendingUpdates.isEmpty then
      let schemas ← call (StorageEngine.listSchemas tid)
      Eff.forEach schemas fun childSchema =>
        Eff.forEach (childSchema.referencing parentTable) fun foreignKey => do
          let session ← Eff.get
          if session.shouldDeferParentUpdateForeignKey foreignKey then notePending
          else
            let parentColumnNames ← Eff.lift
              (resolveForeignKeyParentColumns parentSchema foreignKey)
            Eff.forEach pendingUpdates fun pending =>
              validateKeyChange expressions tid (validateUpdateParentKeyChanges fuel)
                parentTable parentSchema childSchema foreignKey parentColumnNames pending
    else pure ()

end Checks

end RustSql.Sql
