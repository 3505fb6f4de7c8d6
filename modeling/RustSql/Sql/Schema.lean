import RustSql.Common.Value

/-!
# Schemas as the executor reads them

A table's columns, keys and foreign keys, and the checks a row passes before it is
stored. What the SQL text of a check, of a generated column or of an index term means
is left to a parser and evaluator of expressions.
-/

namespace RustSql.Sql

/-- `str::eq_ignore_ascii_case`. -/
def eqIgnoreAsciiCase (left right : String) : Bool :=
  left.toList.map Char.toLower==right.toList.map Char.toLower

/-- `Value::type_name`. -/
def typeName : Value → String
  | .null => "NULL"
  | .boolean _ => "BOOLEAN"
  | .integer _ => "INTEGER"
  | .real _ => "REAL"
  | .blob _ => "BLOB"
  | .text _ => "TEXT"

/-- `ColumnType`. -/
inductive ColumnType where
  | any
  | boolean
  | integer
  | numeric
  | real
  | blob
  | text
  deriving DecidableEq

/-- `ColumnType::name`. -/
def ColumnType.name : ColumnType → String
  | .any => "ANY"
  | .boolean => "BOOLEAN"
  | .integer => "INTEGER"
  | .numeric => "NUMERIC"
  | .real => "REAL"
  | .blob => "BLOB"
  | .text => "TEXT"

/-- `ColumnType::matches_value`. -/
def ColumnType.matchesValue : ColumnType → Value → Bool
  | .any, _ => true
  | .boolean, .boolean _ => true
  | .integer, .integer _ => true
  | .numeric, .integer _ => true
  | .numeric, .real _ => true
  | .real, .real _ => true
  | .blob, .blob _ => true
  | .text, .text _ => true
  | _, _ => false

/-- `SortOrder`. -/
inductive SortOrder where
  | asc
  | desc
  deriving DecidableEq

/-- `ColumnDefault`. -/
inductive ColumnDefault where
  | literal (value : Value)
  | currentTimestamp
  | currentDate
  | currentTime
  deriving DecidableEq

/-- `CheckConstraint`; the expression stands as its SQL text. -/
structure CheckConstraint where
  name : String
  expr : String
  deriving DecidableEq

/-- `ForeignKey`. -/
structure ForeignKey where
  columns : List String
  refTable : String
  refColumns : Option (List String)
  onDelete : Option String
  onUpdate : Option String
  deferrable : Option Bool
  initiallyDeferred : Option Bool
  deriving DecidableEq

/-- `ColumnDef`. -/
structure ColumnDef where
  name : String
  columnType : ColumnType
  nullable : Bool
  primaryKey : Bool
  primaryKeySortOrder : Option SortOrder
  defaultValue : Option ColumnDefault
  generatedExpr : Option String
  checks : List CheckConstraint
  foreignKey : Option ForeignKey
  deriving DecidableEq

/-- `Schema`. -/
structure Schema where
  name : String
  columns : List ColumnDef
  checks : List CheckConstraint
  foreignKeys : List ForeignKey
  /-- The columns of `primary_key_constraint`. -/
  primaryKeyConstraint : Option (List String)
  strict : Bool
  withoutRowid : Bool
  /-- The columns of each of the `unique_constraints`. -/
  uniqueConstraints : List (List String) := []
  deriving DecidableEq

/-- The parser and evaluator of the expressions a schema keeps as text, with the clock. -/
structure Expressions where
  /-- `evaluate_check_expr`: the truth of a check for a row, none when it is null. -/
  evaluateCheckExpr : Schema → String → Row → Bool → Except DbError (Option Bool)
  /-- The value of a generated column. -/
  generatedValue : Schema → Row → String → Except DbError Value
  /-- `strict_integer_value`, `strict_real_value` and `strict_text_value`. -/
  strictValue : ColumnType → Value → Option Value
  /-- The values of the `CURRENT_` defaults. -/
  currentTimestamp : Except DbError Value
  currentDate : Except DbError Value
  currentTime : Except DbError Value
  /-- `evaluate_index_term_with_like_mode`. -/
  evaluateIndexTerm : Schema → Row → String → Bool → Except DbError Value
  /-- The predicate of a partial index. -/
  matchesPredicate : Schema → Row → String → Bool → Except DbError Bool
  /-- How values are printed in messages. -/
  display : List Value → String

/-! ## Columns -/

/-- `all_foreign_keys`. -/
def Schema.allForeignKeys (schema : Schema) : List ForeignKey :=
  schema.foreignKeys++schema.columns.filterMap ColumnDef.foreignKey

/-- `column_index`. -/
def Schema.columnIndex (schema : Schema) (column : String) : Except DbError ℕ :=
  match schema.columns.findIdx? fun entry => entry.name==column with
  | some index => .ok index
  | none => .error (.storage s!"unknown column: {column}")

/-- `value_for_column`. -/
def Schema.valueForColumn (schema : Schema) (row : Row) (column : String) :
    Except DbError Value := do
  let index ← schema.columnIndex column
  match row[index]? with
  | some value => .ok value
  | none => .error (.storage s!"row is missing column {column}")

/-- The positions of the primary key's columns. -/
def Schema.primaryKeyPositions (schema : Schema) : List ℕ :=
  schema.columns.findIdxs ColumnDef.primaryKey

/-- `ColumnDefault::evaluate`. -/
def ColumnDefault.evaluate (expressions : Expressions) : ColumnDefault → Except DbError Value
  | .literal value => .ok value
  | .currentTimestamp => expressions.currentTimestamp
  | .currentDate => expressions.currentDate
  | .currentTime => expressions.currentTime

/-- The default of a column, null without one. -/
def ColumnDef.evaluateDefault (expressions : Expressions) (column : ColumnDef) :
    Except DbError Value :=
  match column.defaultValue with
  | some value => value.evaluate expressions
  | none => .ok .null

/-! ## The checks of a row -/

/-- The check of one value in `validate_row_values`. -/
def validateColumnValue (strict : Bool) (column : ColumnDef) (value : Value) :
    Except DbError Unit :=
  if value=.null then
    if !strict && column.primaryKey && column.columnType==.integer &&
        column.primaryKeySortOrder==some .desc then .ok ()
    else if column.primaryKey then
      .error (.storage s!"primary key column '{column.name}' cannot be NULL")
    else if !column.nullable then .error (.storage s!"column '{column.name}' cannot be NULL")
    else .ok ()
  else if column.columnType.matchesValue value then .ok ()
  else .error (.storage
    s!"column '{column.name}' expected {column.columnType.name} but got {typeName value}")

/-- `validate_row_values`. -/
def Schema.validateRowValues (schema : Schema) (row : Row) : Except DbError Unit := do
  if row.length≠schema.columns.length then
    .error (.storage
      s!"insert into {schema.name} expected {schema.columns.length} values but got {row.length}")
  else
    (schema.columns.zip row).forM fun entry => validateColumnValue schema.strict entry.1 entry.2

section Checks

variable (expressions : Expressions)

/-- `validate_check_constraint`. -/
def Schema.validateCheckConstraint (schema : Schema) (row : Row) (caseSensitiveLike : Bool)
    (check : CheckConstraint) : Except DbError Unit := do
  let truth ← expressions.evaluateCheckExpr schema check.expr row caseSensitiveLike
  if truth=some false then .error (.storage s!"check constraint '{check.name}' failed")
  else .ok ()

/-- `validate_check_constraints_with_like_mode`. -/
def Schema.validateCheckConstraints (schema : Schema) (row : Row) (caseSensitiveLike : Bool) :
    Except DbError Unit :=
  (schema.columns.flatMap ColumnDef.checks++schema.checks).forM
    (schema.validateCheckConstraint expressions row caseSensitiveLike)

/-- The message for a key that is there already. -/
def Schema.duplicatePrimaryKey (schema : Schema) (row : Row) : DbError :=
  let positions := schema.primaryKeyPositions
  let names := positions.filterMap fun index => schema.columns[index]?.map ColumnDef.name
  let key := positions.filterMap fun index => row[index]?
  match names with
  | [name] => .storage
      s!"duplicate primary key value for column '{name}': {expressions.display key}"
  | names =>
    let columns := String.intercalate ", " names
    .storage s!"duplicate primary key value for columns ({columns}): {expressions.display key}"

/-- Two rows have the same primary key. -/
def Schema.samePrimaryKey (schema : Schema) (left right : Row) : Bool :=
  schema.primaryKeyPositions.all fun index => left[index]?==right[index]?

/-- `validate_primary_key_uniqueness`. -/
def Schema.validatePrimaryKeyUniqueness (schema : Schema) (row : Row) (existing : List Row) :
    Except DbError Unit :=
  if schema.primaryKeyPositions=[] then .ok ()
  else if existing.any fun other => schema.samePrimaryKey other row then
    .error (schema.duplicatePrimaryKey expressions row)
  else .ok ()

/-! ## The values of an insert -/

/-- `normalize_strict_value`. -/
def Schema.normalizeStrictValue (schema : Schema) (column : ColumnDef) (value : Value) :
    Except DbError Value :=
  if value=.null ∨ column.columnType=.any then .ok value
  else
    let normalized :=
      match column.columnType with
      | .any => some value
      | .integer | .real | .text => expressions.strictValue column.columnType value
      | .blob | .numeric | .boolean =>
        if column.columnType.matchesValue value then some value else none
    match normalized with
    | some value => .ok value
    | none => .error (.storage
        s!"cannot store {typeName value} value in {column.columnType.name} column {schema.name}.{column.name}")

/-- `normalize_strict_row`. -/
def Schema.normalizeStrictRow (schema : Schema) (row : Row) : Except DbError Row :=
  if schema.strict then
    (schema.columns.zip row).mapM fun entry =>
      schema.normalizeStrictValue expressions entry.1 entry.2
  else .ok row

/-- `populate_generated_columns`: each sees the values of those before it. -/
def Schema.populateGeneratedColumns (schema : Schema) (row : Row) : Except DbError Row :=
  (schema.columns.zipIdx.foldlM fun (row : Row) entry =>
    match entry.1.generatedExpr with
    | some text => do
      let value ← expressions.generatedValue schema row text
      .ok (row.set entry.2 value)
    | none => .ok row) row

end Checks

/-! ## Plain tables -/

/-- A database whose expressions all have no value. -/
def noExpressions : Expressions where
  evaluateCheckExpr _ _ _ _ := .ok none
  generatedValue _ _ _ := .ok .null
  strictValue _ value := some value
  currentTimestamp := .ok .null
  currentDate := .ok .null
  currentTime := .ok .null
  evaluateIndexTerm _ _ _ _ := .ok .null
  matchesPredicate _ _ _ _ := .ok true
  display _ := ""

/-- A column that is an integer primary key. -/
def keyColumn (name : String) : ColumnDef where
  name := name
  columnType := .integer
  nullable := false
  primaryKey := true
  primaryKeySortOrder := none
  defaultValue := none
  generatedExpr := none
  checks := []
  foreignKey := none

/-- A table of columns and foreign keys. -/
def plainTable (name : String) (columns : List ColumnDef) (foreignKeys : List ForeignKey) :
    Schema where
  name := name
  columns := columns
  checks := []
  foreignKeys := foreignKeys
  primaryKeyConstraint := none
  strict := false
  withoutRowid := false

end RustSql.Sql
