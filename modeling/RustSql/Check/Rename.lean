import RustSql.Base.Fallible
import RustSql.Check.Evaluate
import RustSql.Sql.SchemaChanges

/-!
# Renaming a column

`ALTER TABLE ... RENAME COLUMN`: the new name in the conditions, the keys and the foreign keys
of a table, and in the foreign keys of the others that refer to it.
-/

namespace RustSql.Check

open Sql

/-- `rename_check_expr_column`. -/
def CheckExpr.rename (oldName newName : String) : CheckExpr → CheckExpr
  | .compare column op value => .compare (renamed oldName newName column) op value
  | .isNull column negated => .isNull (renamed oldName newName column) negated
  | .glob column pattern negated => .glob (renamed oldName newName column) pattern negated
  | .regexp column pattern negated => .regexp (renamed oldName newName column) pattern negated
  | .like column pattern escape negated =>
    .like (renamed oldName newName column) pattern escape negated
  | .inList column values negated => .inList (renamed oldName newName column) values negated
  | .between column low high negated => .between (renamed oldName newName column) low high negated
  | .isBool column value negated => .isBool (renamed oldName newName column) value negated
  | .truthy column => .truthy (renamed oldName newName column)
  | .isDistinct column value negated => .isDistinct (renamed oldName newName column) value negated
  | .lengthCompare column op value => .lengthCompare (renamed oldName newName column) op value
  | .octetLengthCompare column op value =>
    .octetLengthCompare (renamed oldName newName column) op value
  | .unicodeCompare column op value => .unicodeCompare (renamed oldName newName column) op value
  | .unicodeIsNull column negated => .unicodeIsNull (renamed oldName newName column) negated
  | .signCompare column op value => .signCompare (renamed oldName newName column) op value
  | .hexCompare column op value => .hexCompare (renamed oldName newName column) op value
  | .quoteCompare column op value => .quoteCompare (renamed oldName newName column) op value
  | .nullIfIsNull column value negated =>
    .nullIfIsNull (renamed oldName newName column) value negated
  | .replaceCompare column pattern replacement op value =>
    .replaceCompare (renamed oldName newName column) pattern replacement op value
  | .replaceColumnCompare column pattern replacement op =>
    .replaceColumnCompare (renamed oldName newName column) pattern replacement op
  | .roundCompare column precision op value =>
    .roundCompare (renamed oldName newName column) precision op value
  | .roundingCompare column func op value =>
    .roundingCompare (renamed oldName newName column) func op value
  | .castCompare column targetType op value =>
    .castCompare (renamed oldName newName column) targetType op value
  | .minMaxColumnCompare column limit min op =>
    .minMaxColumnCompare (renamed oldName newName column) limit min op
  | .concatCompare column suffix op value =>
    .concatCompare (renamed oldName newName column) suffix op value
  | .concatWsCompare column separator suffix op value =>
    .concatWsCompare (renamed oldName newName column) separator suffix op value
  | .jsonValidCompare column flags comparison =>
    .jsonValidCompare (renamed oldName newName column) flags comparison
  | .absCompare column op value => .absCompare (renamed oldName newName column) op value
  | .unaryMathCompare column func op value =>
    .unaryMathCompare (renamed oldName newName column) func op value
  | .binaryMathCompare column func argument columnIsSecond op value =>
    .binaryMathCompare (renamed oldName newName column) func argument columnIsSecond op value
  | .arithmeticCompare column addend op value =>
    .arithmeticCompare (renamed oldName newName column) addend op value
  | .multiplyCompare column factor op value =>
    .multiplyCompare (renamed oldName newName column) factor op value
  | .divideCompare column divisor op value =>
    .divideCompare (renamed oldName newName column) divisor op value
  | .moduloCompare column divisor op value functionForm =>
    .moduloCompare (renamed oldName newName column) divisor op value functionForm
  | .typeOfCompare column op value => .typeOfCompare (renamed oldName newName column) op value
  | .noCaseCompare column collation op value =>
    .noCaseCompare (renamed oldName newName column) collation op value
  | .caseFoldCompare column upper op value =>
    .caseFoldCompare (renamed oldName newName column) upper op value
  | .trimCompare column side characters op value =>
    .trimCompare (renamed oldName newName column) side characters op value
  | .coalesceCompare column fallbacks op value =>
    .coalesceCompare (renamed oldName newName column) fallbacks op value
  | .instrCompare column needle op value =>
    .instrCompare (renamed oldName newName column) needle op value
  | .substrCompare column start length op value =>
    .substrCompare (renamed oldName newName column) start length op value
  | .and left right => .and (left.rename oldName newName) (right.rename oldName newName)
  | .or left right => .or (left.rename oldName newName) (right.rename oldName newName)
  | .not expr => .not (expr.rename oldName newName)

/-- The condition with another name for a column. -/
def CheckConstraint.rename (oldName newName : String) (check : CheckConstraint) :
    CheckConstraint :=
  { check with expr := check.expr.rename oldName newName }

namespace Schema

/-- `rename_column_references`. -/
def renameColumnReferences (oldName newName : String) (schema : Schema) : Schema :=
  { schema with
    columns := schema.columns.map fun column =>
      { column with
        name := renamed oldName newName column.name
        checks := column.checks.map (CheckConstraint.rename oldName newName)
        foreignKey := column.foreignKey.map (ForeignKey.renameColumn oldName newName) }
    checks := schema.checks.map (CheckConstraint.rename oldName newName)
    foreignKeys := schema.foreignKeys.map fun foreignKey =>
      (foreignKey.renameColumn oldName newName).renameRefColumn schema.name oldName newName
    uniqueConstraints := schema.uniqueConstraints.map fun key =>
      { key with columns := key.columns.map (renamed oldName newName) } }

/-- `rename_foreign_key_ref_column`. -/
def renameForeignKeyRefColumn (table oldName newName : String) (schema : Schema) : Schema :=
  { schema with
    columns := schema.columns.map fun column =>
      { column with
        foreignKey := column.foreignKey.map (ForeignKey.renameRefColumn table oldName newName) }
    foreignKeys := schema.foreignKeys.map (ForeignKey.renameRefColumn table oldName newName) }

/-- The schema of the table whose column gets another name. -/
def renameColumn (table oldName newName : String) (schema : Schema) : Schema :=
  (schema.renameColumnReferences oldName newName).renameForeignKeyRefColumn table oldName newName

end Schema

/-- The tables of a store, by name. -/
abbrev Schemas := String → Option Schema

/-- `rename_column` of the stores, as far as it changes schemas. -/
def renameColumn (table oldName newName : String) (schemas : Schemas) : Except DbError Schemas :=
  match schemas table with
  | none => .error (.storage s!"unknown table: {table}")
  | some schema =>
    if !schema.hasColumn oldName then
      .error (.storage s!"unknown column {oldName} on table {table}")
    else if schema.hasColumn newName then
      .error (.storage s!"column already exists on table {table}: {newName}")
    else do
      let updated := schema.renameColumn table oldName newName
      updated.validateConstraintsMetadata
      .ok fun other =>
        if other=table then some updated
        else (schemas other).map (Schema.renameForeignKeyRefColumn table oldName newName)

/-! ## The names in a schema -/

/-- `is_ascii_alphabetic` or an underscore. -/
def startsIdentifier (char : Char) : Bool := char.isAlpha || char == '_'

/-- `is_ascii_alphanumeric` or an underscore. -/
def continuesIdentifier (char : Char) : Bool := char.isAlphanum || char == '_'

/-- The identifiers `sql_expr_mentions_identifier` comes to. -/
def identifiersOf : List Char → List (List Char)
  | [] => []
  | char :: rest =>
    if startsIdentifier char then
      (char :: rest.takeWhile continuesIdentifier) ::
        identifiersOf (rest.dropWhile continuesIdentifier)
    else identifiersOf rest
  termination_by text => text.length
  decreasing_by
    · have := (List.dropWhile_suffix (l := rest) continuesIdentifier).length_le
      simp only [List.length_cons]
      omega
    · simp

/-- `sql_expr_mentions_identifier`. -/
def sqlExprMentionsIdentifier (expr identifier : String) : Bool :=
  (identifiersOf expr.toList).any fun word => eqIgnoreAsciiCase (String.ofList word) identifier

/-- The column of a decorated one: the name alone, or before its collation or direction. -/
def decorates (decorated name : String) : Bool :=
  decorated==name || decorated==name++" ASC" || decorated==name++" DESC" ||
    (name++" COLLATE ").toList.isPrefixOf decorated.toList

/-- A decorated column of the key has the name. -/
def KeyConstraint.Decorates (key : KeyConstraint) (name : String) : Prop :=
  ∃ columns, key.decoratedColumns=some columns ∧ ∃ column∈columns, decorates column name=true

/-- A place of a schema where a column of a table is named. -/
inductive Mentions (schema : Schema) (table name : String) : Prop
  | column {column : ColumnDef} (h : column∈schema.columns) (hname : column.name=name)
  | check {check : CheckConstraint} (h : check∈schema.allChecks) (hname : name∈check.expr.columns)
  | generated {column : ColumnDef} {expr : String} (h : column∈schema.columns)
    (hexpr : column.generatedExpr=some expr) (hname : sqlExprMentionsIdentifier expr name=true)
  | primaryKey {key : KeyConstraint} (h : schema.primaryKeyConstraint=some key)
    (hname : name∈key.columns)
  | primaryKeyDecorated {key : KeyConstraint} (h : schema.primaryKeyConstraint=some key)
    (hname : key.Decorates name)
  | unique {key : KeyConstraint} (h : key∈schema.uniqueConstraints) (hname : name∈key.columns)
  | uniqueDecorated {key : KeyConstraint} (h : key∈schema.uniqueConstraints)
    (hname : key.Decorates name)
  | foreignKey {foreignKey : ForeignKey} (h : foreignKey∈schema.allForeignKeys)
    (hname : name∈foreignKey.columns)
  | referenced {foreignKey : ForeignKey} (h : foreignKey∈schema.allForeignKeys)
    (htable : foreignKey.refTable=table) (hname : foreignKey.hasReferencedColumn name=true)

/-- The places of them that the renaming of a column leaves as they are. -/
inductive Overlooked (schema : Schema) (name : String) : Prop
  | generated {column : ColumnDef} {expr : String} (h : column∈schema.columns)
    (hexpr : column.generatedExpr=some expr) (hname : sqlExprMentionsIdentifier expr name=true)
  | primaryKey {key : KeyConstraint} (h : schema.primaryKeyConstraint=some key)
    (hname : name∈key.columns)
  | primaryKeyDecorated {key : KeyConstraint} (h : schema.primaryKeyConstraint=some key)
    (hname : key.Decorates name)
  | uniqueDecorated {key : KeyConstraint} (h : key∈schema.uniqueConstraints)
    (hname : key.Decorates name)

/-! ## The meaning of the conditions -/

section Meaning

variable {schema : Schema} {row : Row} {table oldName newName : String}

theorem renamed_ne_old (hne : oldName≠newName) (name : String) :
    renamed oldName newName name≠oldName := by
  unfold renamed
  split_ifs with h
  · exact hne.symm
  · exact h

/-- Names other than the new one stay apart. -/
theorem renamed_beq {left right : String} (hleft : left≠newName) (hright : right≠newName) :
    (renamed oldName newName left==renamed oldName newName right)=(left==right) := by
  unfold renamed
  by_cases hl : left=oldName
  · by_cases hr : right=oldName
    · rw [if_pos hl,if_pos hr,hl,hr,beq_self_eq_true,beq_self_eq_true]
    · rw [if_pos hl,if_neg hr,beq_eq_false_iff_ne.mpr hright.symm,
        beq_eq_false_iff_ne.mpr fun h => hr (h.symm.trans hl)]
  · by_cases hr : right=oldName
    · rw [if_neg hl,if_pos hr,beq_eq_false_iff_ne.mpr hleft,
        beq_eq_false_iff_ne.mpr fun h => hl (h.trans hr)]
    · rw [if_neg hl,if_neg hr]

variable {column : String} {foreignKey : ForeignKey}

theorem hasColumn_iff :
    schema.hasColumn column=true ↔ ∃ entry∈schema.columns, entry.name=column := by
  simp only [Schema.hasColumn,List.any_eq_true,beq_iff_eq]

/-- A column of the table after the renaming. -/
def ColumnDef.renameColumn (table oldName newName : String) (column : ColumnDef) : ColumnDef :=
  { column with
    name := renamed oldName newName column.name
    checks := column.checks.map (CheckConstraint.rename oldName newName)
    foreignKey := (column.foreignKey.map (ForeignKey.renameColumn oldName newName)).map
      (ForeignKey.renameRefColumn table oldName newName) }

theorem renameColumn_columns : (schema.renameColumn table oldName newName).columns=
    schema.columns.map (ColumnDef.renameColumn table oldName newName) := by
  simp only [Schema.renameColumn,Schema.renameForeignKeyRefColumn,Schema.renameColumnReferences,
    List.map_map]
  rfl

/-- Tests that agree on a list find the same place. -/
theorem findIdx?_agree {α : Type} {left right : α → Bool} {xs : List α}
    (h : ∀ x∈xs, left x=right x) : xs.findIdx? left=xs.findIdx? right := by
  induction xs with
  | nil => rfl
  | cons x xs ih =>
    obtain ⟨hx,hxs⟩ := List.forall_mem_cons.mp h
    rw [List.findIdx?_cons,List.findIdx?_cons,hx,ih hxs]

/-- A column is looked for among the new names as it was among the old ones. -/
theorem columnIndex_renameColumn (table oldName : String) (hnew : schema.hasColumn newName=false)
    (hcolumn : schema.hasColumn column=true) :
    ∃ index < schema.columns.length, schema.columnIndex column=.ok index ∧
      (schema.renameColumn table oldName newName).columnIndex (renamed oldName newName column)=
        .ok index := by
  obtain ⟨found,hfound,hname⟩ := hasColumn_iff.mp hcolumn
  have hentries : ∀ entry∈schema.columns, entry.name≠newName := by
    intro entry hentry hentryname
    rw [hasColumn_iff.mpr ⟨entry,hentry,hentryname⟩] at hnew
    cases hnew
  have hplaces : ((schema.renameColumn table oldName newName).columns.findIdx? fun entry =>
      entry.name==renamed oldName newName column)=
      schema.columns.findIdx? fun entry => entry.name==column := by
    rw [renameColumn_columns,List.findIdx?_map]
    exact findIdx?_agree fun entry hentry =>
      renamed_beq (hentries entry hentry) (hname▸hentries found hfound)
  cases hindex : schema.columns.findIdx? fun entry => entry.name==column with
  | none =>
    have hnone := List.findIdx?_eq_none_iff.mp hindex found hfound
    rw [hname,beq_self_eq_true] at hnone
    cases hnone
  | some index =>
    obtain ⟨hlt,-⟩ := List.findIdx?_eq_some_iff_findIdx_eq.mp hindex
    refine ⟨index,hlt,?_,?_⟩
    · rw [Schema.columnIndex,hindex]
    · rw [Schema.columnIndex,hplaces,hindex]

/-- A column of a valid row has the value it had. -/
theorem columnValue_renameColumn (hnew : schema.hasColumn newName=false)
    (hrow : schema.validateRowValues row=.ok ())
    (hcolumn : schema.hasColumn column=true) :
    columnValue (schema.renameColumn table oldName newName) row (renamed oldName newName column)=
      columnValue schema row column := by
  obtain ⟨index,hlt,hold,hrenamed⟩ :=
    columnIndex_renameColumn table oldName hnew hcolumn
  have hlength : row.length=schema.columns.length := by
    by_contra hne
    rw [Schema.validateRowValues,if_pos hne] at hrow
    cases hrow
  have hget : row[index]?=some row[index] := List.getElem?_eq_getElem (hlength▸hlt)
  rw [columnValue,columnValue,Schema.valueForColumn,Schema.valueForColumn,hold,hrenamed]
  dsimp only [bind,Except.bind]
  rw [hget]

theorem bind_congr_left {α β : Type} {x y : Outcome α} (h : x=y) (f : α → Outcome β) :
    (x >>= f)=(y >>= f) := by
  rw [h]

/-- A condition that is renamed with its columns keeps its value. -/
theorem evaluateCheckExpr_rename (machine : Machine) {updated : Schema} {caseSensitiveLike : Bool}
    {expr : CheckExpr}
    (h : ∀ column∈expr.columns,
      columnValue updated row (renamed oldName newName column)=columnValue schema row column) :
    evaluateCheckExpr machine updated row caseSensitiveLike (expr.rename oldName newName)=
      evaluateCheckExpr machine schema row caseSensitiveLike expr := by
  induction expr with
  | and left right ihleft ihright =>
    rw [CheckExpr.rename,evaluateCheckExpr,evaluateCheckExpr,
      ihleft fun column hcolumn => h column (List.mem_append_left _ hcolumn),
      ihright fun column hcolumn => h column (List.mem_append_right _ hcolumn)]
  | or left right ihleft ihright =>
    rw [CheckExpr.rename,evaluateCheckExpr,evaluateCheckExpr,
      ihleft fun column hcolumn => h column (List.mem_append_left _ hcolumn),
      ihright fun column hcolumn => h column (List.mem_append_right _ hcolumn)]
  | not expr ih => rw [CheckExpr.rename,evaluateCheckExpr,evaluateCheckExpr,ih h]
  | concatWsCompare column separator suffix op value =>
    cases separator with
    | none => rfl
    | some separator => exact bind_congr_left (h column List.mem_cons_self) _
  -- every other comparison asks for its column first
  | _ => exact bind_congr_left (h _ List.mem_cons_self) _

/-! ## The names after the renaming -/

theorem CheckExpr.rename_columns (oldName newName : String) (expr : CheckExpr) :
    (expr.rename oldName newName).columns=expr.columns.map (renamed oldName newName) := by
  induction expr with
  | and left right ihleft ihright =>
    rw [rename,columns,columns,List.map_append,ihleft,ihright]
  | or left right ihleft ihright =>
    rw [rename,columns,columns,List.map_append,ihleft,ihright]
  | not expr ih => rw [rename,columns,columns,ih]
  | _ => rfl

/-- The old name is not one of the new names. -/
theorem not_mem_map_renamed (hne : oldName≠newName) (names : List String) :
    oldName∉names.map (renamed oldName newName) := by
  intro h
  obtain ⟨name,-,hname⟩ := List.mem_map.mp h
  exact renamed_ne_old hne name hname

theorem renameColumn_allChecks : (schema.renameColumn table oldName newName).allChecks=
    schema.allChecks.map (CheckConstraint.rename oldName newName) := by
  rw [Schema.allChecks,renameColumn_columns,Schema.allChecks,List.map_append,List.flatMap_map,
    List.map_flatMap]
  rfl

@[simp] theorem renameRefColumn_columns (foreignKey : ForeignKey) :
    (foreignKey.renameRefColumn table oldName newName).columns=foreignKey.columns := by
  unfold ForeignKey.renameRefColumn
  split_ifs
  · rfl
  · rfl

/-- A foreign key that refers to the table refers to the new names. -/
theorem renameRefColumn_forgets (hne : oldName≠newName)
    (h : (foreignKey.renameRefColumn table oldName newName).refTable=table) :
    (foreignKey.renameRefColumn table oldName newName).hasReferencedColumn oldName=false := by
  unfold ForeignKey.renameRefColumn at h ⊢
  split_ifs at h ⊢
  · rw [ForeignKey.hasReferencedColumn]
    cases foreignKey.refColumns with
    | none => rfl
    | some columns =>
      have hgone := not_mem_map_renamed hne columns
      rw [Option.map_some,Option.any_some,List.contains_eq_mem,decide_eq_false_iff_not]
      exact hgone
  · contradiction

/-- The foreign keys after those of the columns and of the table were changed. -/
theorem mem_allForeignKeys_map {ofColumn ofTable : ForeignKey → ForeignKey}
    {change : ColumnDef → ColumnDef}
    (hchange : ∀ column, (change column).foreignKey=column.foreignKey.map ofColumn)
    (h : foreignKey∈schema.foreignKeys.map ofTable++
      (schema.columns.map change).filterMap ColumnDef.foreignKey) :
    ∃ original∈schema.allForeignKeys,
      foreignKey=ofTable original ∨ foreignKey=ofColumn original := by
  rcases List.mem_append.mp h with htable | hcolumn
  · obtain ⟨original,horiginal,rfl⟩ := List.mem_map.mp htable
    exact ⟨original,List.mem_append_left _ horiginal,Or.inl rfl⟩
  · obtain ⟨changed,hchanged,hforeign⟩ := List.mem_filterMap.mp hcolumn
    obtain ⟨column,hmem,rfl⟩ := List.mem_map.mp hchanged
    rw [hchange] at hforeign
    obtain ⟨original,horiginal,rfl⟩ := Option.map_eq_some_iff.mp hforeign
    refine ⟨original,List.mem_append_right _ ?_,Or.inr rfl⟩
    exact List.mem_filterMap.mpr ⟨column,hmem,horiginal⟩

/-- Every foreign key of a table refers to the new names. -/
theorem renameForeignKeyRefColumn_mem
    (h : foreignKey∈(schema.renameForeignKeyRefColumn table oldName newName).allForeignKeys) :
    ∃ original∈schema.allForeignKeys,
      foreignKey=original.renameRefColumn table oldName newName := by
  obtain ⟨original,horiginal,hform⟩ := mem_allForeignKeys_map (fun _ => rfl) h
  exact ⟨original,horiginal,hform.elim id id⟩

/-- The own foreign keys stand on the new names. -/
theorem renameColumnReferences_mem
    (h : foreignKey∈(schema.renameColumnReferences oldName newName).allForeignKeys) :
    ∃ original : ForeignKey, foreignKey.columns=original.columns.map (renamed oldName newName) := by
  obtain ⟨original,-,hform⟩ := mem_allForeignKeys_map (fun _ => rfl) h
  refine ⟨original,?_⟩
  rcases hform with rfl | rfl
  · rw [renameRefColumn_columns]
    rfl
  · rfl

/-- Where the old name is left, the renaming did not come to. -/
theorem mentions_renameColumn_iff (hne : oldName≠newName) :
    Mentions (schema.renameColumn table oldName newName) table oldName ↔
      Overlooked schema oldName := by
  constructor
  · intro h
    cases h with
    | column h hname =>
      rw [renameColumn_columns] at h
      obtain ⟨column,-,rfl⟩ := List.mem_map.mp h
      exact absurd hname (renamed_ne_old hne _)
    | check h hname =>
      rw [renameColumn_allChecks] at h
      obtain ⟨check,-,rfl⟩ := List.mem_map.mp h
      rw [CheckConstraint.rename,CheckExpr.rename_columns] at hname
      exact absurd hname (not_mem_map_renamed hne _)
    | generated h hexpr hname =>
      rw [renameColumn_columns] at h
      obtain ⟨column,hcolumn,rfl⟩ := List.mem_map.mp h
      exact .generated hcolumn hexpr hname
    | primaryKey h hname => exact .primaryKey h hname
    | primaryKeyDecorated h hname => exact .primaryKeyDecorated h hname
    | unique h hname =>
      obtain ⟨key,-,rfl⟩ := List.mem_map.mp h
      exact absurd hname (not_mem_map_renamed hne _)
    | uniqueDecorated h hname =>
      obtain ⟨key,hkey,rfl⟩ := List.mem_map.mp h
      exact .uniqueDecorated hkey hname
    | foreignKey h hname =>
      obtain ⟨before,hbefore,rfl⟩ := renameForeignKeyRefColumn_mem h
      obtain ⟨original,hcolumns⟩ := renameColumnReferences_mem hbefore
      rw [renameRefColumn_columns,hcolumns] at hname
      exact absurd hname (not_mem_map_renamed hne _)
    | referenced h htable hname =>
      obtain ⟨before,-,rfl⟩ := renameForeignKeyRefColumn_mem h
      rw [renameRefColumn_forgets hne htable] at hname
      cases hname
  · intro h
    cases h with
    | generated h hexpr hname =>
      rename_i column expr
      have hrenamed : column.renameColumn table oldName newName∈
          (schema.renameColumn table oldName newName).columns := by
        rw [renameColumn_columns]
        exact List.mem_map_of_mem h
      exact .generated hrenamed hexpr hname
    | primaryKey h hname => exact .primaryKey h hname
    | primaryKeyDecorated h hname => exact .primaryKeyDecorated h hname
    | uniqueDecorated h hname =>
      exact .uniqueDecorated (List.mem_map.mpr ⟨_,h,rfl⟩) hname

/-! ## Accepted renamings -/

/-- After the renaming no schema names the column by its old name, and each condition has the value
on every valid row that it had. -/
structure KeepsMeaning (machine : Machine) (schema : Schema) (table oldName newName : String)
    (schemas : Schemas) : Prop where
  forgotten : ∃ updated, schemas table=some updated ∧ ¬Mentions updated table oldName ∧
    updated.allChecks=schema.allChecks.map (CheckConstraint.rename oldName newName) ∧
    ∀ row, schema.validateRowValues row=.ok () → ∀ caseSensitiveLike, ∀ check∈schema.allChecks,
      evaluateCheckExpr machine updated row caseSensitiveLike (check.expr.rename oldName newName)=
        evaluateCheckExpr machine schema row caseSensitiveLike check.expr
  references : ∀ other found, schemas other=some found → ∀ foreignKey∈found.allForeignKeys,
    foreignKey.refTable=table → foreignKey.hasReferencedColumn oldName=false

/-- What an accepted renaming did. -/
theorem renameColumn_ok {schemas result : Schemas} (hschema : schemas table=some schema)
    (h : renameColumn table oldName newName schemas=.ok result) :
    schema.hasColumn oldName=true ∧ schema.hasColumn newName=false ∧
      result table=some (schema.renameColumn table oldName newName) ∧
      ∀ other, other≠table →
        result other=(schemas other).map (Schema.renameForeignKeyRefColumn table oldName newName) := by
  unfold renameColumn at h
  rw [hschema] at h
  dsimp only at h
  split_ifs at h with hold hnew
  obtain ⟨_,-,h⟩ := except_bind_ok h
  obtain rfl := Except.ok.inj h
  refine ⟨by simpa using hold,by simpa using hnew,if_pos rfl,fun other hother => if_neg hother⟩

/-- The columns of the conditions of a schema that passed its checks are columns of it. -/
theorem hasColumn_of_valid (hvalid : schema.validateConstraintsMetadata=.ok ())
    {check : CheckConstraint} (hcheck : check∈schema.allChecks)
    (hcolumn : column∈check.expr.columns) : schema.hasColumn column=true := by
  obtain ⟨_,hchecks,-⟩ := except_bind_ok hvalid
  have hexpr := forM_ok hchecks check hcheck
  have hone := forM_ok hexpr column hcolumn
  by_contra hnone
  rw [if_neg hnone] at hone
  cases hone

/-- An accepted renaming keeps the meaning of a schema exactly when the old name stands in none of the
places it leaves as they are: generated columns, the primary key constraint, and the decorated
columns of the unique constraints. -/
theorem renameColumn_keepsMeaning_iff (machine : Machine) {schemas result : Schemas}
    (hschema : schemas table=some schema) (hvalid : schema.validateConstraintsMetadata=.ok ())
    (h : renameColumn table oldName newName schemas=.ok result) :
    KeepsMeaning machine schema table oldName newName result ↔ ¬Overlooked schema oldName := by
  obtain ⟨hold,hnew,htable,hothers⟩ := renameColumn_ok hschema h
  have hne : oldName≠newName := by
    rintro rfl
    rw [hold] at hnew
    cases hnew
  constructor
  · rintro ⟨⟨updated,hupdated,hforgotten,-⟩,-⟩ hoverlooked
    rw [htable] at hupdated
    obtain rfl := Option.some.inj hupdated
    exact hforgotten ((mentions_renameColumn_iff hne).mpr hoverlooked)
  · intro hnone
    refine ⟨⟨_,htable,fun hmentions => hnone ((mentions_renameColumn_iff hne).mp hmentions),
      renameColumn_allChecks,?_⟩,?_⟩
    · intro row hrow caseSensitiveLike check hcheck
      exact evaluateCheckExpr_rename machine fun column hcolumn =>
        columnValue_renameColumn hnew hrow (hasColumn_of_valid hvalid hcheck hcolumn)
    · intro other found hfound foreignKey hforeign hrefers
      by_cases hother : other=table
      · rw [hother,htable] at hfound
        obtain rfl := Option.some.inj hfound
        obtain ⟨before,-,rfl⟩ := renameForeignKeyRefColumn_mem hforeign
        exact renameRefColumn_forgets hne hrefers
      · rw [hothers other hother] at hfound
        obtain ⟨before,-,rfl⟩ := Option.map_eq_some_iff.mp hfound
        obtain ⟨original,-,rfl⟩ := renameForeignKeyRefColumn_mem hforeign
        exact renameRefColumn_forgets hne hrefers

end Meaning

/-- A table with a named key: `CREATE TABLE users (id INTEGER, CHECK (id > 0), PRIMARY KEY (id))`. -/
def keyedTable : Schema where
  name := "users"
  columns := [⟨"id",.integer,false,true,none,none,[],none⟩]
  checks := [⟨"users_check",.compare "id" .gt (.integer 0)⟩]
  foreignKeys := []
  primaryKeyConstraint := some ⟨["id"],some ["id"]⟩
  uniqueConstraints := []
  strict := false

/-- A store of one table. -/
def storeOf (schema : Schema) : Schemas := fun name =>
  if name=schema.name then some schema else none

/-- The primary key constraint keeps the old name. -/
theorem primary_key_overlooked :
    keyedTable.validateConstraintsMetadata=.ok () ∧
    ∃ result, renameColumn "users" "id" "uid" (storeOf keyedTable)=.ok result ∧
      ¬KeepsMeaning integerMachine keyedTable "users" "id" "uid" result := by
  refine ⟨rfl,_,rfl,?_⟩
  rintro ⟨⟨updated,hupdated,hforgotten,-⟩,-⟩
  obtain rfl := Option.some.inj hupdated
  exact hforgotten (.primaryKey rfl List.mem_cons_self)

/-- The table with the key on its column: `CREATE TABLE users (id INTEGER PRIMARY KEY, CHECK (id > 0))`. -/
def columnKeyTable : Schema := { keyedTable with primaryKeyConstraint := none }

/-- Its column can be renamed. -/
theorem column_key_renamed :
    ∃ result, renameColumn "users" "id" "uid" (storeOf columnKeyTable)=.ok result ∧
      KeepsMeaning integerMachine columnKeyTable "users" "id" "uid" result := by
  have hfound : storeOf columnKeyTable "users"=some columnKeyTable := rfl
  refine ⟨_,rfl,(renameColumn_keepsMeaning_iff integerMachine hfound rfl rfl).mpr ?_⟩
  intro hoverlooked
  cases hoverlooked with
  | generated h hexpr =>
    obtain rfl := List.mem_singleton.mp h
    cases hexpr
  | primaryKey h => cases h
  | primaryKeyDecorated h => cases h
  | uniqueDecorated h => cases h

end RustSql.Check
