import Mathlib.Data.List.Infix
import RustSql.Sql.Schema

/-!
# Changes of a schema

What `ALTER TABLE` makes of a schema, and the checks of its constraints. Which columns the
text of an expression names, and the text after a column got another name, are left to a
parser.
-/

namespace RustSql.Sql

/-- The columns in the expressions a schema keeps as text. -/
structure ExpressionNames where
  /-- `rename_check_expr_column`, from the old name to the new one. -/
  renameCheckExprColumn : String → String → String → String
  /-- `check_references_column`. -/
  checkReferencesColumn : String → String → Bool
  /-- `sql_expr_mentions_identifier`. -/
  sqlExprMentionsIdentifier : String → String → Bool
  /-- `validate_check_expr_metadata`. -/
  validateCheckExprMetadata : Schema → String → Except DbError Unit

/-! ## The checks of the constraints -/

/-- `has_column`. -/
def Schema.hasColumn (schema : Schema) (column : String) : Bool :=
  schema.columns.any fun entry => entry.name==column

/-- `has_referenced_column`. -/
def ForeignKey.hasReferencedColumn (foreignKey : ForeignKey) (column : String) : Bool :=
  foreignKey.refColumns.any fun columns => columns.contains column

/-- The check of a foreign key in `validate_constraints_metadata`. -/
def Schema.validateForeignKeyMetadata (schema : Schema) (foreignKey : ForeignKey) :
    Except DbError Unit :=
  if foreignKey.columns=[] then
    .error (.storage "FOREIGN KEY constraint must reference at least one column")
  else if foreignKey.refColumns.any fun columns =>
      columns.length≠foreignKey.columns.length then
    .error (.storage
      s!"FOREIGN KEY column count mismatch for parent table {foreignKey.refTable}")
  else foreignKey.columns.forM fun column =>
    if schema.hasColumn column then .ok ()
    else .error (.storage s!"unknown column in FOREIGN KEY: {column}")

/-- The check of a unique constraint in `validate_constraints_metadata`. -/
def Schema.validateUniqueMetadata (schema : Schema) (columns : List String) :
    Except DbError Unit :=
  if columns=[] then
    .error (.storage "UNIQUE constraint must reference at least one column")
  else columns.forM fun column =>
    if schema.hasColumn column then .ok ()
    else .error (.storage s!"unknown column in UNIQUE constraint: {column}")

/-- `validate_constraints_metadata`. -/
def Schema.validateConstraintsMetadata (names : ExpressionNames) (schema : Schema) :
    Except DbError Unit := do
  (schema.columns.flatMap ColumnDef.checks++schema.checks).forM fun check =>
    names.validateCheckExprMetadata schema check.expr
  schema.allForeignKeys.forM schema.validateForeignKeyMetadata
  schema.uniqueConstraints.forM schema.validateUniqueMetadata

/-! ## New names -/

/-- One name for another. -/
def renamed (oldName newName : String) (name : String) : String :=
  if name=oldName then newName else name

/-- The check after a column got another name. -/
def CheckConstraint.renameColumn (names : ExpressionNames) (oldName newName : String)
    (check : CheckConstraint) : CheckConstraint :=
  { check with expr := names.renameCheckExprColumn oldName newName check.expr }

/-- The columns a foreign key stands on, after one got another name. -/
def ForeignKey.renameColumn (oldName newName : String) (foreignKey : ForeignKey) : ForeignKey :=
  { foreignKey with columns := foreignKey.columns.map (renamed oldName newName) }

/-- The columns a foreign key refers to, after one of that table got another name. -/
def ForeignKey.renameRefColumn (table oldName newName : String) (foreignKey : ForeignKey) :
    ForeignKey :=
  if foreignKey.refTable=table then
    { foreignKey with
      refColumns := foreignKey.refColumns.map (List.map (renamed oldName newName)) }
  else foreignKey

/-- The table a foreign key refers to, after one got another name. -/
def ForeignKey.renameRefTable (oldName newName : String) (foreignKey : ForeignKey) : ForeignKey :=
  { foreignKey with refTable := renamed oldName newName foreignKey.refTable }

/-- Change the foreign keys of a schema, those of its columns included. -/
def Schema.mapForeignKeys (f : ForeignKey → ForeignKey) (schema : Schema) : Schema :=
  { schema with
    columns := schema.columns.map fun column =>
      { column with foreignKey := column.foreignKey.map f }
    foreignKeys := schema.foreignKeys.map f }

/-- `rename_column_references`. -/
def Schema.renameColumnReferences (names : ExpressionNames) (oldName newName : String)
    (schema : Schema) : Schema :=
  { schema with
    columns := schema.columns.map fun column =>
      { column with
        name := renamed oldName newName column.name
        checks := column.checks.map (CheckConstraint.renameColumn names oldName newName)
        foreignKey := column.foreignKey.map (ForeignKey.renameColumn oldName newName) }
    checks := schema.checks.map (CheckConstraint.renameColumn names oldName newName)
    foreignKeys := schema.foreignKeys.map fun foreignKey =>
      (foreignKey.renameColumn oldName newName).renameRefColumn schema.name oldName newName
    uniqueConstraints := schema.uniqueConstraints.map (List.map (renamed oldName newName)) }

/-- `rename_foreign_key_ref_table`. -/
def Schema.renameForeignKeyRefTable (oldName newName : String) (schema : Schema) : Schema :=
  schema.mapForeignKeys (ForeignKey.renameRefTable oldName newName)

/-- `rename_foreign_key_ref_column`. -/
def Schema.renameForeignKeyRefColumn (table oldName newName : String) (schema : Schema) :
    Schema :=
  schema.mapForeignKeys (ForeignKey.renameRefColumn table oldName newName)

/-! ## Columns that go -/

/-- What depends on a column in the eyes of `drop_column`. -/
def Schema.dependsOnColumn (names : ExpressionNames) (schema : Schema) (oldName : String) :
    Option String :=
  let foreignKeys := schema.columns.filterMap ColumnDef.foreignKey
  if schema.columns.any fun column => column.name≠oldName &&
      column.generatedExpr.any fun expr => names.sqlExprMentionsIdentifier expr oldName then
    some "generated columns depend on it"
  else if (schema.checks++schema.columns.flatMap ColumnDef.checks).any fun check =>
      names.checkReferencesColumn check.expr oldName then
    some "a CHECK constraint depends on it"
  else if schema.uniqueConstraints.any fun columns => columns.contains oldName then
    some "a UNIQUE constraint depends on it"
  else if (schema.foreignKeys++foreignKeys).any fun foreignKey =>
      foreignKey.columns.contains oldName then
    some "a FOREIGN KEY depends on it"
  else if (schema.name≠"" && schema.foreignKeys.any fun foreignKey =>
        foreignKey.refTable=schema.name && foreignKey.hasReferencedColumn oldName) ||
      foreignKeys.any fun foreignKey =>
        foreignKey.refTable=schema.name && foreignKey.hasReferencedColumn oldName then
    some "a FOREIGN KEY depends on it"
  else none

/-- `Schema::drop_column`: the schema without the column, and where it stood. -/
def Schema.dropColumn (names : ExpressionNames) (schema : Schema) (oldName : String) :
    Except DbError (Schema × ℕ) :=
  match schema.columns.findIdx? fun column => column.name==oldName with
  | none => .error (.storage s!"unknown column: {oldName}")
  | some removedIndex =>
    if schema.columns.length=1 then
      .error (.storage s!"cannot drop the only column on table {schema.name}")
    else if schema.columns[removedIndex]?.any ColumnDef.primaryKey then
      .error (.storage s!"cannot drop primary key column '{oldName}'")
    else
      match schema.dependsOnColumn names oldName with
      | some reason => .error (.storage s!"cannot drop column '{oldName}' because {reason}")
      | none => do
        let updated := { schema with columns := schema.columns.eraseIdx removedIndex }
        updated.validateConstraintsMetadata names
        .ok (updated,removedIndex)

end RustSql.Sql
