import RustSql.Sql.Schema

/-!
# Check expressions

The conditions of `CHECK` constraints and of partial indexes as the parser leaves them: each
looks at one column and compares something computed from its value with constants, and `AND`,
`OR` and `NOT` put them together.
-/

namespace RustSql.Check

open Sql

/-- `CheckOp`. -/
inductive CheckOp where
  | eq
  | ne
  | gt
  | gte
  | lt
  | lte
  deriving DecidableEq

/-- `TrimSide`. -/
inductive TrimSide where
  | both
  | start
  | stop
  deriving DecidableEq

/-- `RoundingFunc`. -/
inductive RoundingFunc where
  | ceil
  | ceiling
  | floor
  | trunc
  deriving DecidableEq

/-- `UnaryMathFunc`. -/
inductive UnaryMathFunc where
  | sqrt
  | ln
  | log10
  | log2
  | exp
  | sin
  | cos
  | tan
  | sinh
  | cosh
  | tanh
  | atan
  | acos
  | asin
  | acosh
  | asinh
  | atanh
  | degrees
  | radians
  deriving DecidableEq

/-- `BinaryMathFunc`. -/
inductive BinaryMathFunc where
  | power
  | atan2
  | log
  deriving DecidableEq

/-- `CheckExpr`. -/
inductive CheckExpr where
  | compare (column : String) (op : CheckOp) (value : Value)
  | isNull (column : String) (negated : Bool)
  | glob (column pattern : String) (negated : Bool)
  | regexp (column pattern : String) (negated : Bool)
  | like (column pattern : String) (escape : Option String) (negated : Bool)
  | inList (column : String) (values : List Value) (negated : Bool)
  | between (column : String) (low high : Value) (negated : Bool)
  | isBool (column : String) (value negated : Bool)
  | truthy (column : String)
  | isDistinct (column : String) (value : Value) (negated : Bool)
  | lengthCompare (column : String) (op : CheckOp) (value : Value)
  | octetLengthCompare (column : String) (op : CheckOp) (value : Value)
  | unicodeCompare (column : String) (op : CheckOp) (value : Value)
  | unicodeIsNull (column : String) (negated : Bool)
  | signCompare (column : String) (op : CheckOp) (value : Value)
  | hexCompare (column : String) (op : CheckOp) (value : Value)
  | quoteCompare (column : String) (op : CheckOp) (value : Value)
  | nullIfIsNull (column : String) (value : Value) (negated : Bool)
  | replaceCompare (column pattern replacement : String) (op : CheckOp) (value : Value)
  | replaceColumnCompare (column pattern replacement : String) (op : CheckOp)
  /-- The precision is an `i32`. -/
  | roundCompare (column : String) (precision : Option Int32) (op : CheckOp) (value : Value)
  | roundingCompare (column : String) (func : RoundingFunc) (op : CheckOp) (value : Value)
  | castCompare (column : String) (targetType : ColumnType) (op : CheckOp) (value : Value)
  | minMaxColumnCompare (column : String) (limit : Value) (min : Bool) (op : CheckOp)
  | concatCompare (column : String) (suffix : List Value) (op : CheckOp) (value : Value)
  | concatWsCompare (column : String) (separator : Option String) (suffix : List Value)
    (op : CheckOp) (value : Value)
  | jsonValidCompare (column : String) (flags : Option Int64) (compare : Option (CheckOp × Value))
  | absCompare (column : String) (op : CheckOp) (value : Value)
  | unaryMathCompare (column : String) (func : UnaryMathFunc) (op : CheckOp) (value : Value)
  | binaryMathCompare (column : String) (func : BinaryMathFunc) (argument : Value)
    (columnIsSecond : Bool) (op : CheckOp) (value : Value)
  | arithmeticCompare (column : String) (addend : Value) (op : CheckOp) (value : Value)
  | multiplyCompare (column : String) (factor : Value) (op : CheckOp) (value : Value)
  | divideCompare (column : String) (divisor : Value) (op : CheckOp) (value : Value)
  | moduloCompare (column : String) (divisor : Value) (op : CheckOp) (value : Value)
    (functionForm : Bool)
  | typeOfCompare (column : String) (op : CheckOp) (value : Value)
  | noCaseCompare (column collation : String) (op : CheckOp) (value : Value)
  | caseFoldCompare (column : String) (upper : Bool) (op : CheckOp) (value : Value)
  | trimCompare (column : String) (side : TrimSide) (characters : Option String) (op : CheckOp)
    (value : Value)
  | coalesceCompare (column : String) (fallbacks : List Value) (op : CheckOp) (value : Value)
  | instrCompare (column : String) (needle : Value) (op : CheckOp) (value : Value)
  | substrCompare (column : String) (start : Int64) (length : Option Int64) (op : CheckOp)
    (value : Value)
  | and (left right : CheckExpr)
  | or (left right : CheckExpr)
  | not (expr : CheckExpr)

namespace CheckExpr

/-- The columns a condition looks at, from left to right. -/
def columns : CheckExpr → List String
  | compare column .. | isNull column _ | glob column .. | regexp column .. | like column ..
  | inList column .. | between column .. | isBool column .. | truthy column
  | isDistinct column .. | lengthCompare column .. | octetLengthCompare column ..
  | unicodeCompare column .. | unicodeIsNull column _ | signCompare column ..
  | hexCompare column .. | quoteCompare column .. | nullIfIsNull column ..
  | replaceCompare column .. | replaceColumnCompare column .. | roundCompare column ..
  | roundingCompare column .. | castCompare column .. | minMaxColumnCompare column ..
  | concatCompare column .. | concatWsCompare column .. | jsonValidCompare column ..
  | absCompare column .. | unaryMathCompare column .. | binaryMathCompare column ..
  | arithmeticCompare column .. | multiplyCompare column .. | divideCompare column ..
  | moduloCompare column .. | typeOfCompare column .. | noCaseCompare column ..
  | caseFoldCompare column .. | trimCompare column .. | coalesceCompare column ..
  | instrCompare column .. | substrCompare column .. => [column]
  | and left right | or left right => left.columns++right.columns
  | not expr => expr.columns

end CheckExpr

end RustSql.Check

/-!
## Schemas with their conditions

A table's schema with the `CHECK` conditions as trees and with the decorated column lists of
its keys, the checks of its constraints and the renaming of a column.
-/

namespace RustSql.Check

open Sql

/-- `CheckConstraint`. -/
structure CheckConstraint where
  name : String
  expr : CheckExpr

/-- `ColumnDef`. -/
structure ColumnDef where
  name : String
  columnType : ColumnType
  nullable : Bool
  primaryKey : Bool
  primaryKeySortOrder : Option SortOrder
  generatedExpr : Option String
  checks : List CheckConstraint
  foreignKey : Option ForeignKey

/-- `PrimaryKeyConstraint` and `UniqueConstraint`: the columns, and each with its collation and
direction as it stood in the text. -/
structure KeyConstraint where
  columns : List String
  decoratedColumns : Option (List String)
  deriving DecidableEq

/-- `Schema`. -/
structure Schema where
  name : String
  columns : List ColumnDef
  checks : List CheckConstraint
  foreignKeys : List ForeignKey
  primaryKeyConstraint : Option KeyConstraint
  uniqueConstraints : List KeyConstraint
  strict : Bool

namespace Schema

/-! ## Columns and rows -/

/-- `column_index`. -/
def columnIndex (schema : Schema) (column : String) : Except DbError ℕ :=
  match schema.columns.findIdx? fun entry => entry.name==column with
  | some index => .ok index
  | none => .error (.storage s!"unknown column: {column}")

/-- `value_for_column`. -/
def valueForColumn (schema : Schema) (row : Row) (column : String) : Except DbError Value := do
  let index ← schema.columnIndex column
  match row[index]? with
  | some value => .ok value
  | none => .error (.storage s!"row is missing column {column}")

/-- `has_column`. -/
def hasColumn (schema : Schema) (column : String) : Bool :=
  schema.columns.any fun entry => entry.name==column

/-- `all_foreign_keys`. -/
def allForeignKeys (schema : Schema) : List ForeignKey :=
  schema.foreignKeys++schema.columns.filterMap ColumnDef.foreignKey

/-- The conditions of the columns and of the table. -/
def allChecks (schema : Schema) : List CheckConstraint :=
  schema.columns.flatMap ColumnDef.checks++schema.checks

/-- The check of one value in `validate_row_values`. -/
def validateColumnValue (strict : Bool) (column : ColumnDef) (value : Value) :
    Except DbError Unit :=
  if value=.null then
    if !strict && column.primaryKey && column.columnType==.integer &&
        column.primaryKeySortOrder==some .desc then .ok ()
    else if column.primaryKey then
      .error (.storage s!"primary key column '{column.name}' cannot be NULL")
    else if !column.nullable then .error (.storage s!"column '{column.name}' cannot be NULL")
    else .ok ()
  else if column.columnType.matchesValue value then .ok ()
  else .error (.storage
    s!"column '{column.name}' expected {column.columnType.name} but got {typeName value}")

/-- `validate_row_values`. -/
def validateRowValues (schema : Schema) (row : Row) : Except DbError Unit :=
  if row.length≠schema.columns.length then
    .error (.storage
      s!"insert into {schema.name} expected {schema.columns.length} values but got {row.length}")
  else
    (schema.columns.zip row).forM fun entry => validateColumnValue schema.strict entry.1 entry.2

/-! ## The checks of the constraints -/

/-- `validate_check_expr_metadata`. -/
def validateCheckExprMetadata (schema : Schema) (expr : CheckExpr) : Except DbError Unit :=
  expr.columns.forM fun column =>
    if schema.hasColumn column then .ok ()
    else .error (.storage s!"unknown column in CHECK: {column}")

/-- The check of a foreign key in `validate_constraints_metadata`. -/
def validateForeignKeyMetadata (schema : Schema) (foreignKey : ForeignKey) :
    Except DbError Unit :=
  if foreignKey.columns=[] then
    .error (.storage "FOREIGN KEY constraint must reference at least one column")
  else if foreignKey.refColumns.any fun columns =>
      columns.length≠foreignKey.columns.length then
    .error (.storage
      s!"FOREIGN KEY column count mismatch for parent table {foreignKey.refTable}")
  else foreignKey.columns.forM fun column =>
    if schema.hasColumn column then .ok ()
    else .error (.storage s!"unknown column in FOREIGN KEY: {column}")

/-- The check of a unique constraint in `validate_constraints_metadata`. -/
def validateUniqueMetadata (schema : Schema) (constraint : KeyConstraint) :
    Except DbError Unit :=
  if constraint.columns=[] then
    .error (.storage "UNIQUE constraint must reference at least one column")
  else constraint.columns.forM fun column =>
    if schema.hasColumn column then .ok ()
    else .error (.storage s!"unknown column in UNIQUE constraint: {column}")

/-- `validate_constraints_metadata`. -/
def validateConstraintsMetadata (schema : Schema) : Except DbError Unit := do
  schema.allChecks.forM fun check => schema.validateCheckExprMetadata check.expr
  schema.allForeignKeys.forM schema.validateForeignKeyMetadata
  schema.uniqueConstraints.forM schema.validateUniqueMetadata

end Schema

end RustSql.Check
