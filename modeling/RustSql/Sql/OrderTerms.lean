import RustSql.Base.OuterJoin
import RustSql.Sql.Projection
import RustSql.Sql.QueryContext

/-!
# The terms of an order

A term of `ORDER BY` is read from the columns of the rows. A wildcard leaves the hidden columns
out beforehand and asks outside of a transaction; the terms below have the same values there.
-/

namespace RustSql.Sql

open RustSql.V2

variable {S : Type}

/-! ## Columns without the hidden ones -/

/-- The columns that a wildcard shows. -/
def visibleColumns (columns : List ColumnMeta) : List ColumnMeta :=
  columns.filter fun column => !column.hidden

/-- A name means the same column among those a wildcard shows as among all, or none of either
for the same reason. -/
def MeansVisible (columns : List ColumnMeta) (name : String) : Prop :=
  (resolveColumnIndex (visibleColumns columns) name).map (fun place =>
      (visibleIndexes columns)[place]?)=
    (resolveColumnIndex columns name).map some

instance (columns : List ColumnMeta) (name : String) : Decidable (MeansVisible columns name) :=
  inferInstanceAs (Decidable (_=_))

theorem visibleIndexes_lt {columns : List ColumnMeta} {index : ℕ}
    (h : index∈visibleIndexes columns) : index < columns.length := by
  obtain ⟨⟨column,place⟩,hentry,hplace⟩ := List.mem_filterMap.mp h
  have hlt := (List.mem_zipIdx hentry).2.1
  dsimp only at hplace
  split at hplace
  · cases hplace
    omega
  · cases hplace

/-- A wildcard shows the values at the places of its columns. -/
theorem visibleRow_getElem? {columns : List ColumnMeta} {row : Row}
    (hrow : row.length=columns.length) (place : ℕ) :
    (visibleRow columns row)[place]?=
      (visibleIndexes columns)[place]?.bind fun index : ℕ => row[index]? := by
  have hvalues : ∀ indexes : List ℕ, (∀ index∈indexes, index < row.length) → ∀ place : ℕ,
      (indexes.filterMap fun index : ℕ => row[index]?)[place]?=
        indexes[place]?.bind fun index : ℕ => row[index]? := by
    intro indexes hbound
    induction indexes with
    | nil => exact fun place => rfl
    | cons index indexes ih =>
      intro place
      have hindex := List.getElem?_eq_getElem (hbound index List.mem_cons_self)
      rw [List.filterMap_cons_some hindex]
      cases place with
      | zero => exact hindex.symm
      | succ place =>
        exact ih (fun other hother => hbound other (List.mem_cons_of_mem index hother)) place
  refine hvalues _ (fun index hindex => ?_) place
  rw [hrow]
  exact visibleIndexes_lt hindex

/-- A name that means the same column has the same value. -/
theorem lookupValue_visible {columns : List ColumnMeta} {name : String}
    (h : MeansVisible columns name) {row : Row} (hrow : row.length=columns.length) :
    lookupValue (visibleColumns columns) (visibleRow columns row) name=
      lookupValue columns row name := by
  unfold MeansVisible at h
  unfold lookupValue
  cases hvisible : resolveColumnIndex (visibleColumns columns) name with
  | error error =>
    cases hwhole : resolveColumnIndex columns name with
    | error other =>
      rw [hvisible,hwhole] at h
      rw [Except.error.inj h]
      rfl
    | ok index =>
      rw [hvisible,hwhole] at h
      cases h
  | ok place =>
    cases hwhole : resolveColumnIndex columns name with
    | error error =>
      rw [hvisible,hwhole] at h
      cases h
    | ok index =>
      rw [hvisible,hwhole] at h
      have hsame : (visibleIndexes columns)[place]?=some index := Except.ok.inj h
      have hplace : (visibleRow columns row)[place]?=row[index]? := by
        rw [visibleRow_getElem? hrow,hsame]
        rfl
      simp only [bind,Except.bind,hplace]

/-- An expression whose names all mean the same columns has the same value. -/
theorem evaluateScalarExpr_visible {operators : Operators} {columns : List ColumnMeta}
    {expr : ScalarExpr S}
    (h : ∀ name, Part ScalarExpr.IsChild expr (.column name) ∨
      Part ScalarExpr.IsChild expr (.aggregate name) → MeansVisible columns name)
    {row : Row} (hrow : row.length=columns.length) :
    SelectList.evaluateScalarExpr operators ⟨visibleColumns columns,[]⟩ (visibleRow columns row)
        expr=
      SelectList.evaluateScalarExpr operators ⟨columns,[]⟩ row expr := by
  rw [SelectList.evaluateScalarExpr_eq,SelectList.evaluateScalarExpr_eq]
  refine (asked_agree_iff expr).mpr (fun part hpart => ?_) expr (Part.self expr)
  have hbelow := ScalarExpr.part_of_asked hpart
  cases part with
  | column name => exact lookupValue_visible (h name (.inl hbelow)) hrow
  | aggregate name => exact lookupValue_visible (h name (.inr hbelow)) hrow
  | between expr low high negated =>
    rw [OwnAgree]
    split
    · trivial
    · exact fun _ _ _ _ _ _ => rfl
  | inSubquery expr query negated =>
    rw [OwnAgree]
    split <;> rfl
  | compareSubquery left op query =>
    rw [OwnAgree]
    split <;> rfl
  | subquery query => rfl
  | _ => trivial

/-! ## Terms -/

/-- The columns of a select list that spells out what a wildcard shows. -/
def spelledColumns (columns : List ColumnMeta) (names : List String) : List ColumnMeta :=
  ((visibleIndexes columns).zip names).flatMap fun entry =>
    columns[entry.1]?.toList.map fun column => {column with outputName := entry.2}

/-- The column that a name means among columns that stand for those of a wildcard. -/
def visiblePlace (columns shown : List ColumnMeta) (name : String) : Option ℕ :=
  (resolveColumnIndex shown name).toOption.bind fun place => (visibleIndexes columns)[place]?

/-- A term that reads visible columns alone and has no subquery. The name of a column is looked
up among the columns of the select list and then among all. -/
def OrderByExpr.IsVisible (nested : ScalarExpr S → Bool) (columns : List ColumnMeta)
    (names : List String) : OrderByExpr S → Prop
  | .position _ => True
  | .column name =>
    visiblePlace columns (visibleColumns columns) name=
      (visiblePlace columns (spelledColumns columns names) name).or
        (resolveColumnIndex columns name).toOption
  | .expr term =>
    scalarExprContainsSubquery nested term=false ∧
      ∀ name, Part ScalarExpr.IsChild term (.column name) ∨
        Part ScalarExpr.IsChild term (.aggregate name) → MeansVisible columns name

/-- Projection with the evaluator of the executor. -/
def contextProjecting (nested : ScalarExpr S → Bool) (operators : Operators)
    (executeSubqueryRows : SubqueryRows S) (scalarExprName : ScalarExpr S → String)
    (populateWindow : ℕ → ScalarExpr S → Option TransactionId → List ColumnMeta →
      List (Row × Row) → Except DbError (List (Row × Row))) : Projecting S where
  evaluateInContext transactionId columns row expr :=
    evaluateScalarExprInContext nested operators executeSubqueryRows transactionId ⟨columns,[]⟩ row
      none expr
  scalarExprName := scalarExprName
  populateWindow := populateWindow

theorem tryLookupValue_visible {columns : List ColumnMeta} {row : Row}
    (hrow : row.length=columns.length) (shown : List ColumnMeta) (name : String) :
    tryLookupValue shown (visibleRow columns row) name=
      (visiblePlace columns shown name).bind fun index : ℕ => row[index]? := by
  unfold tryLookupValue visiblePlace
  cases resolveColumnIndex shown name with
  | error error => rfl
  | ok place => exact visibleRow_getElem? hrow place

/-- The value that a name has when it is looked up twice is that of one column. -/
theorem tryLookupValue_or {columns : List ColumnMeta} {row : Row}
    (hrow : row.length=columns.length) (shown : List ColumnMeta) (name : String) :
    (tryLookupValue shown (visibleRow columns row) name).or (tryLookupValue columns row name)=
      ((visiblePlace columns shown name).or (resolveColumnIndex columns name).toOption).bind
        fun index : ℕ => row[index]? := by
  rw [tryLookupValue_visible hrow]
  cases hplace : visiblePlace columns shown name with
  | none =>
    unfold tryLookupValue
    cases resolveColumnIndex columns name <;> rfl
  | some index =>
    have hmem : index∈visibleIndexes columns := by
      obtain ⟨place,-,hplace⟩ := Option.bind_eq_some_iff.mp hplace
      exact List.mem_of_getElem? hplace
    have hindex : index < row.length := by
      rw [hrow]
      exact visibleIndexes_lt hmem
    change (row[index]?).or _=row[index]?
    rw [List.getElem?_eq_getElem hindex]
    rfl

/-- A visible term has the same value in a row with and without the hidden columns, in a
transaction and outside of it. -/
theorem orderSortKey_visible {nested : ScalarExpr S → Bool} {operators : Operators}
    {executeSubqueryRows : SubqueryRows S}
    {scalarExprName : ScalarExpr S → String}
    {populateWindow : ℕ → ScalarExpr S → Option TransactionId → List ColumnMeta →
      List (Row × Row) → Except DbError (List (Row × Row))}
    {columns : List ColumnMeta} {names : List String} {orderBy : List (OrderBy S)}
    (hterms : ∀ item∈orderBy, item.expr.IsVisible nested columns names) {row : Row}
    (hrow : row.length=columns.length) (transactionId : Option TransactionId) :
    let projecting :=
      contextProjecting nested operators executeSubqueryRows scalarExprName populateWindow
    orderSortKey projecting none (visibleColumns columns) (visibleRow columns row)
        (visibleColumns columns) (visibleRow columns row) orderBy=
      orderSortKey projecting transactionId (spelledColumns columns names)
        (visibleRow columns row) columns row orderBy := by
  intro projecting
  unfold orderSortKey
  refine mapM_congr_mem fun item hitem => ?_
  have hvisible := hterms item hitem
  cases hexpr : item.expr with
  | position place => rfl
  | column name =>
    rw [hexpr] at hvisible
    refine congrArg Except.ok ?_
    change (tryLookupValue _ _ name).or (tryLookupValue _ _ name)=
      (tryLookupValue _ _ name).or (tryLookupValue _ _ name)
    rw [Option.or_self,tryLookupValue_visible hrow,tryLookupValue_or hrow]
    exact congrArg (fun place => Option.bind place fun index : ℕ => row[index]?) hvisible
  | expr expr =>
    rw [hexpr] at hvisible
    obtain ⟨hsubquery,hnames⟩ := hvisible
    refine congrArg (Except.map some) ?_
    change evaluateScalarExprInContext _ _ _ _ _ _ _ expr=
      evaluateScalarExprInContext _ _ _ _ _ _ _ expr
    rw [evaluateScalarExprInContext_plain _ _ _ _ _ _ _ hsubquery,
      evaluateScalarExprInContext_plain _ _ _ _ _ _ _ hsubquery]
    exact evaluateScalarExpr_visible hnames hrow

end RustSql.Sql
