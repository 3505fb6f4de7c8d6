import Mathlib.Data.List.TakeWhile
import RustSql.Sql.Joins
import RustSql.Sql.WhereTruth

/-!
# Joins as relations

What a join is for: the pairs of rows that satisfy the condition, and the rows of either side
that found no partner, with the columns of a `USING` clause taken from the side that has the
row. A `USING` condition says that the columns of both sides agree; the engine writes it with
names, and it means that only where the names lead to these columns.
-/

namespace RustSql.Sql

open RustSql.V2

/-! ## What joins are -/

/-- Every row has a value for each column. -/
def RowSet.Fits (rowset : RowSet) : Prop := ∀ row∈rowset.rows, row.length=rowset.columns.length

/-- The condition of a join. A `USING` clause comes with the names of the sources, where they
have any; a natural join is one for the columns both sides have. -/
inductive JoinConstraint (S : Type) where
  | on (condition : Expr S)
  | merging (leftQualifier rightQualifier : Option String) (columns : List String)

/-- The columns of a `USING` clause. -/
def JoinConstraint.usingColumns {S : Type} : JoinConstraint S → List String
  | .on _ => []
  | .merging _ _ columns => columns

/-- A join of a `FROM` clause. -/
structure JoinClause (S : Type) where
  kind : JoinKind
  source : Except DbError RowSet
  constraint : JoinConstraint S

/-- What the planner hands to the executor. -/
def JoinClause.plan {S : Type} (clause : JoinClause S) : JoinPlan S where
  kind := clause.kind
  source := clause.source
  on :=
    match clause.constraint with
    | .on condition => condition
    | .merging leftQualifier rightQualifier columns =>
      joinUsingExpr leftQualifier rightQualifier columns
  usingColumns := clause.constraint.usingColumns

section Relational

variable {S : Type} (operators : Operators) (executeSubqueryRows : SubqueryRows S)
  (transactionId : TransactionId) (currentTxn : Option TransactionId)
  (outer : Option (RowSet × Row))

/-- The collation of a column. -/
def collationAt (columns : List ColumnMeta) (index : ℕ) : Option String :=
  columns[index]?.bind ColumnMeta.collation

/-- Two rows agree in a column that both sides have. -/
def agreesIn (left right : List ColumnMeta) (leftRow rightRow : Row) (column : String) : Bool :=
  match leftPlace left column, rightPlace right column with
  | some leftIndex, some rightIndex =>
    compareWithOperator operators (leftRow[leftIndex]?.getD .null) .eq
      (rightRow[rightIndex]?.getD .null)
      ((collationAt left leftIndex).or (collationAt right rightIndex))
  | _, _ => false

/-- What the condition of a join says of two rows. -/
def JoinConstraint.holds (left right : List ColumnMeta) (leftRow rightRow : Row) :
    JoinConstraint S → Except DbError Bool
  | .on condition =>
    matchesOn operators executeSubqueryRows transactionId currentTxn outer
      (joinedColumns left right []) condition leftRow rightRow
  | .merging _ _ columns => .ok (columns.all (agreesIn operators left right leftRow rightRow))

/-- The left values of a right row without a partner: those of the `USING` columns, and
nulls. -/
def mergedValues (left right : List ColumnMeta) (usingColumns : List String) (rightRow : Row) :
    Row :=
  left.zipIdx.map fun entry =>
    if entry.1.name∈usingColumns ∧ leftPlace left entry.1.name=some entry.2 then
      ((rightPlace right entry.1.name).bind fun index => rightRow[index]?).getD .null
    else .null

/-- A join: all pairs that satisfy the condition, in the order of the left rows and then of the
right ones, and the rows without a partner that its kind keeps. -/
def relationalJoin (current : RowSet) (clause : JoinClause S) : Except DbError RowSet := do
  let right ← clause.source
  let usingColumns := clause.constraint.usingColumns
  let rows ← testedJoin
    (fun leftRow rightRow => clause.constraint.holds operators executeSubqueryRows transactionId
      currentTxn outer current.columns right.columns leftRow rightRow)
    (fun leftRow rightRow => leftRow++rightRow)
    (fun leftRow =>
      if clause.kind.keepsLeft then some (leftRow++List.replicate right.columns.length .null)
      else none)
    (fun rightRow =>
      if clause.kind.keepsRight then
        some (mergedValues current.columns right.columns usingColumns rightRow++rightRow)
      else none)
    current.rows right.rows
  .ok ⟨joinedColumns current.columns right.columns usingColumns,rows⟩

/-- The joins of a `FROM` clause, one after the other, and the filter. -/
def relationalJoins (source : Except DbError RowSet) (clauses : List (JoinClause S))
    (filter : Option (Expr S)) : Except DbError RowSet := do
  let current ← source
  let joined ← clauses.foldlM
    (relationalJoin operators executeSubqueryRows transactionId currentTxn outer) current
  filterJoined operators executeSubqueryRows transactionId currentTxn outer filter joined

/-- The names of a `USING` condition lead to the columns they are about. -/
def JoinConstraint.Denotes (left right : List ColumnMeta) : JoinConstraint S → Prop
  | .on _ => True
  | .merging leftQualifier rightQualifier columns =>
    ∀ column∈columns, ∃ leftIndex rightIndex,
      leftPlace left column=some leftIndex ∧ rightPlace right column=some rightIndex ∧
      resolveColumnIndex (joinedColumns left right columns)
        (qualifyJoinUsingColumn leftQualifier column)=.ok leftIndex ∧
      resolveColumnIndex (joinedColumns left right columns)
        (qualifyJoinUsingColumn rightQualifier column)=.ok (left.length+rightIndex)

/-- The names of the `USING` conditions of all joins do. -/
def DenotesAll (left : List ColumnMeta) : List (JoinClause S) → Prop
  | [] => True
  | clause :: clauses => ∀ right, clause.source=.ok right →
    clause.constraint.Denotes left right.columns ∧
      DenotesAll (joinedColumns left right.columns clause.constraint.usingColumns) clauses

end Relational

/-! ## Merged columns -/

section Merged

variable {left right : List ColumnMeta} {rightRow : Row}

/-- The place of a column is one of a visible column with its name. -/
theorem leftPlace_some {column : String} {index : ℕ} (h : leftPlace left column=some index) :
    ∃ entry, left[index]?=some entry ∧ entry.hidden=false ∧ entry.name=column := by
  obtain ⟨hlt,hentry,-⟩ := List.findIdx?_eq_some_iff_getElem.mp h
  refine ⟨left[index],List.getElem?_eq_getElem hlt,?_⟩
  simpa using hentry

/-- The place of a column on the right. -/
theorem rightPlace_some {column : String} {index : ℕ} (h : rightPlace right column=some index) :
    ∃ entry, right[index]?=some entry ∧ entry.name=column := by
  obtain ⟨hlt,hentry,-⟩ := List.findIdx?_eq_some_iff_getElem.mp h
  refine ⟨right[index],List.getElem?_eq_getElem hlt,?_⟩
  simpa using hentry

/-- What is filled in at a place for a column. -/
def filledAt (left right : List ColumnMeta) (rightRow : Row) (index : ℕ) (column : String) :
    Option Value :=
  if leftPlace left column=some index then
    (rightPlace right column).bind fun place => rightRow[place]?
  else none

/-- A merged column adds none. -/
theorem fillUsing_length (row : Row) (column : String) :
    (fillUsing left right rightRow row column).length=row.length := by
  unfold fillUsing
  split
  · split
    · exact List.length_set
    · rfl
  · rfl

/-- It fills its own place. -/
theorem fillUsing_getElem? (row : Row) (column : String) {index : ℕ} (h : index < row.length) :
    (fillUsing left right rightRow row column)[index]?=
      (filledAt left right rightRow index column).or row[index]? := by
  unfold fillUsing filledAt
  cases hleft : leftPlace left column with
  | none => rfl
  | some place =>
    cases hright : rightPlace right column with
    | none =>
      simp only [Option.bind_none,ite_self]
      rfl
    | some rightIndex =>
      simp only [Option.bind_some,Option.some.injEq]
      cases hvalue : rightRow[rightIndex]? with
      | none => simp only [ite_self]; rfl
      | some value =>
        simp only [List.getElem?_set]
        by_cases hplace : place=index
        · rw [if_pos hplace,if_pos hplace,if_pos (hplace▸h)]
          rfl
        · rw [if_neg hplace,if_neg hplace]
          rfl

/-- Nor do several add any. -/
theorem foldl_fillUsing_length (columns : List String) (row : Row) :
    (columns.foldl (fillUsing left right rightRow) row).length=row.length := by
  induction columns generalizing row with
  | nil => rfl
  | cons column columns ih => rw [List.foldl_cons,ih,fillUsing_length]

/-- After all columns a place holds what was filled in for the column that stands there. -/
theorem foldl_fillUsing_getElem? (columns : List String) (row : Row) {index : ℕ}
    {entry : ColumnMeta} (hentry : left[index]?=some entry) (h : index < row.length) :
    (columns.foldl (fillUsing left right rightRow) row)[index]?=
      (if entry.name∈columns then filledAt left right rightRow index entry.name else none).or
        row[index]? := by
  induction columns using List.reverseRecOn with
  | nil => simp
  | append_singleton columns column ih =>
    rw [List.foldl_append,List.foldl_cons,List.foldl_nil,fillUsing_getElem? _ _
      (by rw [foldl_fillUsing_length]; exact h),ih]
    by_cases hname : entry.name=column
    · rw [hname,if_pos (List.mem_append_right columns List.mem_cons_self)]
      cases filledAt left right rightRow index column with
      | some value => rfl
      | none => simp
    · have hfilled : filledAt left right rightRow index column=none := by
        unfold filledAt
        refine if_neg fun hplace => hname ?_
        obtain ⟨found,hfound,-,hfoundName⟩ := leftPlace_some hplace
        rw [hentry] at hfound
        rw [Option.some.inj hfound,hfoundName]
      rw [hfilled]
      simp only [List.mem_append,List.mem_singleton,hname,or_false,Option.none_or]

/-- Where a right row has no partner, the loop fills in the merged values. -/
theorem rightOnlyRow_eq (usingColumns : List String) :
    rightOnlyRow left right usingColumns rightRow=
      mergedValues left right usingColumns rightRow++rightRow := by
  refine congrArg (·++rightRow) (List.ext_getElem? fun index => ?_)
  rw [mergedValues,List.getElem?_map,List.getElem?_zipIdx]
  cases hentry : left[index]? with
  | none =>
    have hlength : left.length ≤ index := List.getElem?_eq_none_iff.mp hentry
    rw [List.getElem?_eq_none]
    · rfl
    · rw [foldl_fillUsing_length,List.length_replicate]
      exact hlength
  | some entry =>
    have hlt : index < left.length := (List.getElem?_eq_some_iff.mp hentry).1
    rw [foldl_fillUsing_getElem? _ _ hentry (by rwa [List.length_replicate]),
      List.getElem?_replicate,if_pos hlt]
    simp only [Option.map_some,Nat.zero_add,filledAt]
    by_cases hmem : entry.name∈usingColumns
    · by_cases hplace : leftPlace left entry.name=some index
      · rw [if_pos hmem,if_pos hplace,if_pos ⟨hmem,hplace⟩]
        cases (rightPlace right entry.name).bind fun index => rightRow[index]? <;> rfl
      · rw [if_pos hmem,if_neg hplace,if_neg fun h => hplace h.2]
        rfl
    · rw [if_neg hmem,if_neg fun h => hmem h.1]
      rfl

/-- Nor do all. -/
theorem mergedValues_length (usingColumns : List String) :
    (mergedValues left right usingColumns rightRow).length=left.length := by
  rw [mergedValues,List.length_map,List.length_zipIdx]

end Merged

/-! ## Conditions -/

section Conditions

variable {S : Type} (operators : Operators) (executeSubqueryRows : SubqueryRows S)
  (transactionId : TransactionId) (currentTxn : Option TransactionId)
  (outer : Option (RowSet × Row)) {left right : List ColumnMeta}

/-- A name that leads to a column is read there. -/
theorem lookupWithCollation_ok {scope : Scope} {column : String} {index : ℕ} {value : Value}
    (hindex : resolveColumnIndex scope.source.columns column=.ok index)
    (hvalue : scope.row[index]?=some value) :
    scope.lookupWithCollation column=.ok (value,collationAt scope.source.columns index) := by
  have hlookup : lookupValue scope.source.columns scope.row column=.ok value := by
    simp only [lookupValue,hindex,bind,Except.bind,hvalue]
  simp only [Scope.lookupWithCollation,hlookup,hindex]
  rfl

/-- Hiding a column leaves its collation. -/
theorem collationAt_joined_left (columns : List String) {index : ℕ} (h : index < left.length) :
    collationAt (joinedColumns left right columns) index=collationAt left index := by
  rw [collationAt,joinedColumns,List.getElem?_append_left h,collationAt]

/-- Columns of the right keep their collation. -/
theorem collationAt_joined_right (columns : List String) (index : ℕ) :
    collationAt (joinedColumns left right columns) (left.length+index)=
      collationAt right index := by
  rw [collationAt,joinedColumns,List.getElem?_append_right (Nat.le_add_right _ _),
    Nat.add_sub_cancel_left,List.getElem?_map,collationAt]
  cases right[index]? with
  | none => rfl
  | some column =>
    simp only [Option.map_some,Option.bind_some,hideUsing]
    split <;> rfl

/-- The comparison of a `USING` column compares the columns that its names lead to. -/
theorem usingTerm_matches {columns : List ColumnMeta} {leftQualifier rightQualifier : Option String}
    {column : String} {leftRow rightRow : Row} {first second : ℕ} {x y : Value}
    (hfirst : resolveColumnIndex columns (qualifyJoinUsingColumn leftQualifier column)=.ok first)
    (hsecond : resolveColumnIndex columns (qualifyJoinUsingColumn rightQualifier column)=
      .ok second)
    (hx : (leftRow++rightRow)[first]?=some x) (hy : (leftRow++rightRow)[second]?=some y) :
    matchesOn operators executeSubqueryRows transactionId currentTxn outer columns
      (usingTerm leftQualifier rightQualifier column) leftRow rightRow=
      .ok (compareWithOperator operators x .eq y
        ((collationAt columns first).or (collationAt columns second))) := by
  rw [matchesOn,usingTerm,matchesFilter]
  rw [@lookupWithCollation_ok ⟨⟨columns,[]⟩,leftRow++rightRow,outer⟩ _ _ _ hfirst hx,
    @lookupWithCollation_ok ⟨⟨columns,[]⟩,leftRow++rightRow,outer⟩ _ _ _ hsecond hy]
  rfl

/-- A `USING` condition holds where all of its comparisons do. -/
theorem joinUsingExpr_matches {columns : List ColumnMeta}
    {leftQualifier rightQualifier : Option String} {usingColumns : List String}
    {leftRow rightRow : Row} {verdict : String → Bool}
    (h : ∀ column∈usingColumns, matchesOn operators executeSubqueryRows transactionId currentTxn
      outer columns (usingTerm leftQualifier rightQualifier column) leftRow rightRow=
      .ok (verdict column)) :
    matchesOn operators executeSubqueryRows transactionId currentTxn outer columns
      (joinUsingExpr leftQualifier rightQualifier usingColumns) leftRow rightRow=
      .ok (usingColumns.all verdict) := by
  cases usingColumns with
  | nil => rfl
  | cons column usingColumns =>
    rw [joinUsingExpr,List.all_cons]
    have hfold : ∀ (expr : Expr S) (passed : Bool),
        matchesOn operators executeSubqueryRows transactionId currentTxn outer columns expr leftRow
          rightRow=.ok passed →
        matchesOn operators executeSubqueryRows transactionId currentTxn outer columns
          (usingColumns.foldl (fun expr column =>
            .and expr (usingTerm leftQualifier rightQualifier column)) expr) leftRow rightRow=
          .ok (passed && usingColumns.all verdict) := by
      have hrest := fun other hother => h other (List.mem_cons_of_mem column hother)
      clear h
      induction usingColumns with
      | nil =>
        intro expr passed hexpr
        rw [List.foldl_nil,hexpr,List.all_nil,Bool.and_true]
      | cons other usingColumns ih =>
        intro expr passed hexpr
        have hother := hrest other List.mem_cons_self
        have hand : matchesOn operators executeSubqueryRows transactionId currentTxn outer columns
            (.and expr (usingTerm leftQualifier rightQualifier other)) leftRow rightRow=
            .ok (passed && verdict other) := by
          unfold matchesOn at hexpr hother ⊢
          rw [matchesFilter,hexpr]
          cases passed with
          | true => exact hother
          | false => rfl
        rw [List.foldl_cons,ih (fun column hcolumn => hrest column
          (List.mem_cons_of_mem other hcolumn)) _ _ hand,List.all_cons,Bool.and_assoc]
    exact hfold _ _ (h column List.mem_cons_self)

/-- Where the names lead to the columns of both sides, the condition means that they agree. -/
theorem JoinConstraint.Denotes.matches {constraint : JoinConstraint S}
    (h : constraint.Denotes left right) {leftRow rightRow : Row} (kind : JoinKind)
    (source : Except DbError RowSet) (hleft : leftRow.length=left.length)
    (hright : rightRow.length=right.length) :
    matchesOn operators executeSubqueryRows transactionId currentTxn outer
      (joinedColumns left right constraint.usingColumns)
      (JoinClause.plan ⟨kind,source,constraint⟩).on leftRow rightRow=
      constraint.holds operators executeSubqueryRows transactionId currentTxn outer left right
        leftRow rightRow := by
  cases constraint with
  | on condition => rfl
  | merging leftQualifier rightQualifier columns =>
    rw [JoinConstraint.holds]
    refine joinUsingExpr_matches _ _ _ _ _ fun column hcolumn => ?_
    obtain ⟨leftIndex,rightIndex,hleftPlace,hrightPlace,hfirst,hsecond⟩ := h column hcolumn
    obtain ⟨leftEntry,hleftEntry,-,-⟩ := leftPlace_some hleftPlace
    obtain ⟨rightEntry,hrightEntry,-⟩ := rightPlace_some hrightPlace
    have hleftLt : leftIndex < left.length := (List.getElem?_eq_some_iff.mp hleftEntry).1
    have hrightLt : rightIndex < right.length := (List.getElem?_eq_some_iff.mp hrightEntry).1
    obtain ⟨x,hx⟩ : ∃ x, leftRow[leftIndex]?=some x :=
      ⟨_,List.getElem?_eq_getElem (by omega)⟩
    obtain ⟨y,hy⟩ : ∃ y, rightRow[rightIndex]?=some y :=
      ⟨_,List.getElem?_eq_getElem (by omega)⟩
    have hx' : (leftRow++rightRow)[leftIndex]?=leftRow[leftIndex]? :=
      List.getElem?_append_left (by omega)
    have hy' : (leftRow++rightRow)[left.length+rightIndex]?=rightRow[rightIndex]? := by
      rw [←hleft,List.getElem?_append_right (Nat.le_add_right _ _),Nat.add_sub_cancel_left]
    rw [JoinConstraint.usingColumns,usingTerm_matches operators executeSubqueryRows transactionId
      currentTxn outer hfirst hsecond (hx'.trans hx) (hy'.trans hy),
      collationAt_joined_left columns hleftLt,collationAt_joined_right]
    simp only [agreesIn,hleftPlace,hrightPlace,hx,hy,Option.getD_some]

end Conditions

/-! ## Runs -/

section Runs

variable {S : Type} (operators : Operators) (executeSubqueryRows : SubqueryRows S)
  (transactionId : TransactionId) (currentTxn : Option TransactionId)
  (outer : Option (RowSet × Row))

/-- A join is what it is for, where the names of its condition lead to the right columns. -/
theorem executeJoin_eq {current : RowSet} {clause : JoinClause S} (hcurrent : current.Fits)
    (hsource : ∀ right, clause.source=.ok right →
      right.Fits ∧ clause.constraint.Denotes current.columns right.columns) :
    executeJoin operators executeSubqueryRows transactionId currentTxn outer current clause.plan=
      relationalJoin operators executeSubqueryRows transactionId currentTxn outer current
        clause := by
  rw [executeJoin,relationalJoin]
  cases hright : clause.source with
  | error error => simp only [JoinClause.plan,hright]; rfl
  | ok right =>
    obtain ⟨hfits,hdenotes⟩ := hsource right hright
    have htests : ∀ leftRow∈current.rows, ∀ rightRow∈right.rows,
        matchesOn operators executeSubqueryRows transactionId currentTxn outer
          (joinedColumns current.columns right.columns clause.plan.usingColumns) clause.plan.on
          leftRow rightRow=
        clause.constraint.holds operators executeSubqueryRows transactionId currentTxn outer
          current.columns right.columns leftRow rightRow :=
      fun leftRow hleft rightRow hrightRow =>
        hdenotes.matches operators executeSubqueryRows transactionId currentTxn outer clause.kind
          clause.source (hcurrent leftRow hleft) (hfits rightRow hrightRow)
    have hplan : clause.plan.source=.ok right := hright
    rw [hplan]
    simp only [bind,Except.bind]
    rw [nestedLoop_eq,testedJoin_congr _ _ _ _ htests]
    simp only [rightOnlyRow_eq]
    rfl

/-- The rows of a join have a value for each of its columns. -/
theorem relationalJoin_fits {current : RowSet} {clause : JoinClause S} {result : RowSet}
    (hcurrent : current.Fits) (hsource : ∀ right, clause.source=.ok right → right.Fits)
    (h : relationalJoin operators executeSubqueryRows transactionId currentTxn outer current
      clause=.ok result) : result.Fits ∧ ∃ right, clause.source=.ok right ∧
        result.columns=joinedColumns current.columns right.columns
          clause.constraint.usingColumns := by
  obtain ⟨right,hright,h⟩ := except_bind_ok h
  obtain ⟨rows,hrows,h⟩ := except_bind_ok h
  obtain ⟨_,_,hjoin⟩ := except_bind_ok hrows
  cases h
  have hfits := hsource right hright
  refine ⟨?_,right,hright,rfl⟩
  intro row hrow
  obtain rfl := Except.ok.inj hjoin
  have hwidth : (joinedColumns current.columns right.columns
      clause.constraint.usingColumns).length=current.columns.length+right.columns.length := by
    rw [joinedColumns,List.length_append,List.length_map]
  change row.length=(joinedColumns _ _ _).length
  rw [hwidth]
  rcases mem_outerJoin hrow with ⟨leftRow,hleft,rightRow,hright,-,rfl⟩ | ⟨leftRow,hleft,hpad,-⟩ |
    ⟨rightRow,hright,hpad,-⟩
  · rw [List.length_append,hcurrent leftRow hleft,hfits rightRow hright]
  · split at hpad
    · obtain rfl := Option.some.inj hpad
      rw [List.length_append,hcurrent leftRow hleft,List.length_replicate]
    · cases hpad
  · split at hpad
    · obtain rfl := Option.some.inj hpad
      rw [List.length_append,mergedValues_length,hfits rightRow hright]
    · cases hpad

/-- A run through the joins of a `FROM` clause. -/
theorem foldlM_executeJoin {clauses : List (JoinClause S)} {current : RowSet}
    (hcurrent : current.Fits)
    (hsources : ∀ clause∈clauses, ∀ right, clause.source=.ok right → right.Fits)
    (hdenotes : DenotesAll current.columns clauses) :
    (clauses.map JoinClause.plan).foldlM
        (executeJoin operators executeSubqueryRows transactionId currentTxn outer) current=
      clauses.foldlM
        (relationalJoin operators executeSubqueryRows transactionId currentTxn outer) current ∧
    ∀ result, clauses.foldlM
      (relationalJoin operators executeSubqueryRows transactionId currentTxn outer) current=
      .ok result → result.Fits := by
  induction clauses generalizing current with
  | nil =>
    refine ⟨rfl,fun result h => ?_⟩
    rw [←Except.ok.inj h]
    exact hcurrent
  | cons clause clauses ih =>
    have hsource := hsources clause List.mem_cons_self
    have hstep := executeJoin_eq operators executeSubqueryRows transactionId currentTxn outer
      hcurrent fun right hright => ⟨hsource right hright,(hdenotes right hright).1⟩
    rw [List.map_cons,List.foldlM_cons,List.foldlM_cons,hstep]
    cases hjoin : relationalJoin operators executeSubqueryRows transactionId currentTxn outer
        current clause with
    | error error => exact ⟨rfl,fun result h => by cases h⟩
    | ok next =>
      obtain ⟨hfits,right,hright,hcolumns⟩ := relationalJoin_fits operators executeSubqueryRows
        transactionId currentTxn outer hcurrent hsource hjoin
      refine ih hfits (fun other hother => hsources other (List.mem_cons_of_mem clause hother)) ?_
      rw [hcolumns]
      exact (hdenotes right hright).2

end Runs

/-! ## Names -/

section Names

variable {left right : List ColumnMeta}

/-- A text without the separator is not split. -/
theorem splitOnce_none {text : String} {separator : Char} (h : separator∉text.toList) :
    splitOnce text separator=none := by
  have hall : ∀ char∈text.toList, decide (char≠separator)=true := by
    intro char hchar
    refine decide_eq_true fun hsame => h ?_
    rw [←hsame]
    exact hchar
  rw [splitOnce,List.span_eq_takeWhile_dropWhile,List.dropWhile_eq_nil_iff.mpr hall]

/-- A qualified name is split at its dot. -/
theorem splitOnce_qualified {qualifier column : String} (h : '.'∉qualifier.toList) :
    splitOnce (qualifier++"."++column) '.'=some (qualifier,column) := by
  have hall : ∀ char∈qualifier.toList, decide (char≠ '.')=true := by
    intro char hchar
    refine decide_eq_true fun hsame => h ?_
    rw [←hsame]
    exact hchar
  have hdot : (".":String).toList=['.'] := rfl
  have htext : (qualifier++"."++column).toList=qualifier.toList++ '.' :: column.toList := by
    rw [String.toList_append,String.toList_append,hdot,List.append_assoc,List.singleton_append]
  have hstop : (decide ('.'≠ '.')) = false := rfl
  rw [splitOnce,htext,List.span_eq_takeWhile_dropWhile,List.takeWhile_append_of_pos hall,
    List.dropWhile_append_of_pos hall,List.takeWhile_cons,List.dropWhile_cons,hstop]
  simp only [Bool.false_eq_true,if_false,List.append_nil,String.ofList_toList]

/-- A name that leads somewhere leads to each place it fits. -/
theorem theIndex_unique {column : String} {indexes : List ℕ} {index place : ℕ}
    (h : theIndex column indexes=.ok index) (hplace : place∈indexes) : index=place := by
  match indexes, h with
  | [only], h =>
    rw [List.mem_singleton.mp hplace]
    exact (Except.ok.inj h).symm

/-- A column carries the name of its source. -/
def Carries (qualifier : String) (column : ColumnMeta) : Prop :=
  column.table=some qualifier ∨ column.tableAlias=some qualifier

/-- A qualified name that leads somewhere leads to the column it names. -/
theorem resolve_qualified {columns : List ColumnMeta} {qualifier column : String}
    {index place : ℕ} {entry : ColumnMeta} (hplain : '.'∉qualifier.toList)
    (hindex : resolveColumnIndex columns (qualifyJoinUsingColumn (some qualifier) column)=
      .ok index)
    (hentry : columns[place]?=some entry) (hcarries : Carries qualifier entry)
    (hname : entry.name=column) : index=place := by
  have hsplit : splitOnce (qualifyJoinUsingColumn (some qualifier) column) '.'=
      some (qualifier,column) := splitOnce_qualified hplain
  rw [resolveColumnIndex,hsplit] at hindex
  refine theIndex_unique hindex ?_
  obtain ⟨hlt,hget⟩ := List.getElem?_eq_some_iff.mp hentry
  rw [List.mem_findIdxs_iff_pos_getElem hlt,hget,hname]
  cases hcarries with
  | inl htable => simp [htable]
  | inr halias => simp [halias]

/-- A name without a qualifier leads to a column that is shown, where it fits one. -/
theorem resolve_unqualified {columns : List ColumnMeta} {column : String} {index place : ℕ}
    {entry : ColumnMeta} (hplain : '.'∉column.toList)
    (hindex : resolveColumnIndex columns (qualifyJoinUsingColumn none column)=.ok index)
    (hentry : columns[place]?=some entry) (hshown : entry.hidden=false)
    (hname : entry.name=column) : index=place := by
  have hsplit : splitOnce (qualifyJoinUsingColumn none column) '.'=none := splitOnce_none hplain
  rw [resolveColumnIndex,hsplit] at hindex
  obtain ⟨hlt,hget⟩ := List.getElem?_eq_some_iff.mp hentry
  have hmem : place∈columns.findIdxs fun entry => entry.hidden==false &&
      (entry.outputName==column || entry.name==column) := by
    rw [List.mem_findIdxs_iff_pos_getElem hlt,hget]
    simp [hshown,hname]
  have hfound := List.ne_nil_of_mem hmem
  exact theIndex_unique ((if_neg hfound).symm.trans hindex) hmem

/-- Both sides have a `USING` column, and the names of the sources, which are without dots, are
those of its columns. -/
structure UsingNames (left right : List ColumnMeta) (leftQualifier rightQualifier : Option String)
    (column : String) : Prop where
  plain : '.'∉column.toList ∧ ∀ qualifier,
    leftQualifier=some qualifier ∨ rightQualifier=some qualifier → '.'∉qualifier.toList
  leftPlaced : ∃ index entry, leftPlace left column=some index ∧ left[index]?=some entry ∧
    ∀ qualifier, leftQualifier=some qualifier → Carries qualifier entry
  rightPlaced : ∃ index entry, rightPlace right column=some index ∧ right[index]?=some entry ∧
    ∀ qualifier, rightQualifier=some qualifier → Carries qualifier entry

/-- Both names that a `USING` column is compared by lead somewhere: neither is unknown or
ambiguous. -/
def NamesFound (left right : List ColumnMeta) (leftQualifier rightQualifier : Option String)
    (columns : List String) (column : String) : Prop :=
  (∃ index, resolveColumnIndex (joinedColumns left right columns)
    (qualifyJoinUsingColumn leftQualifier column)=.ok index) ∧
  ∃ index, resolveColumnIndex (joinedColumns left right columns)
    (qualifyJoinUsingColumn rightQualifier column)=.ok index

section Lead

variable {leftQualifier rightQualifier : Option String} {columns : List String} {column : String}

/-- The left name of a comparison leads to the left column. -/
theorem UsingNames.leads_left (h : UsingNames left right leftQualifier rightQualifier column)
    (hfound : NamesFound left right leftQualifier rightQualifier columns column) {index : ℕ}
    (hplace : leftPlace left column=some index) :
    resolveColumnIndex (joinedColumns left right columns)
      (qualifyJoinUsingColumn leftQualifier column)=.ok index := by
  obtain ⟨place,entry,hleft,hentry,hcarries⟩ := h.leftPlaced
  obtain rfl : index=place := Option.some.inj (hplace.symm.trans hleft)
  obtain ⟨shown,hshown,hhidden,hname⟩ := leftPlace_some hplace
  obtain rfl : shown=entry := Option.some.inj (hshown.symm.trans hentry)
  have hlt : index < left.length := (List.getElem?_eq_some_iff.mp hentry).1
  have hjoined : (joinedColumns left right columns)[index]?=some shown := by
    rw [joinedColumns,List.getElem?_append_left hlt,hentry]
  obtain ⟨found,hfound⟩ := hfound.1
  have hsame : found=index := by
    cases leftQualifier with
    | none => exact resolve_unqualified h.plain.1 hfound hjoined hhidden hname
    | some qualifier =>
      exact resolve_qualified (h.plain.2 qualifier (Or.inl rfl)) hfound hjoined
        (hcarries qualifier rfl) hname
  rw [hfound,hsame]

/-- The right name leads to the right column, where the right side has a name. -/
theorem UsingNames.leads_right {qualifier : String}
    (h : UsingNames left right leftQualifier (some qualifier) column)
    (hfound : NamesFound left right leftQualifier (some qualifier) columns column) {index : ℕ}
    (hplace : rightPlace right column=some index) :
    resolveColumnIndex (joinedColumns left right columns)
      (qualifyJoinUsingColumn (some qualifier) column)=.ok (left.length+index) := by
  obtain ⟨place,entry,hright,hentry,hcarries⟩ := h.rightPlaced
  obtain rfl : index=place := Option.some.inj (hplace.symm.trans hright)
  obtain ⟨named,hnamed,hname⟩ := rightPlace_some hplace
  obtain rfl : named=entry := Option.some.inj (hnamed.symm.trans hentry)
  have hjoined : (joinedColumns left right columns)[left.length+index]?=
      some (hideUsing columns named) := by
    rw [joinedColumns,List.getElem?_append_right (Nat.le_add_right _ _),Nat.add_sub_cancel_left,
      List.getElem?_map,hentry]
    rfl
  have hhide : (hideUsing columns named).name=named.name ∧
      (Carries qualifier named → Carries qualifier (hideUsing columns named)) := by
    unfold hideUsing Carries
    split
    · exact ⟨rfl,id⟩
    · exact ⟨rfl,id⟩
  obtain ⟨found,hfound⟩ := hfound.2
  rw [hfound,resolve_qualified (h.plain.2 qualifier (Or.inr rfl)) hfound hjoined
    (hhide.2 (hcarries qualifier rfl)) (hhide.1.trans hname)]

/-- Without a name for the right side, the right name leads to the left column. -/
theorem UsingNames.misleads (h : UsingNames left right leftQualifier none column)
    (hfound : NamesFound left right leftQualifier none columns column) {index : ℕ}
    (hplace : leftPlace left column=some index) :
    resolveColumnIndex (joinedColumns left right columns) (qualifyJoinUsingColumn none column)=
      .ok index := by
  obtain ⟨entry,hentry,hhidden,hname⟩ := leftPlace_some hplace
  have hlt : index < left.length := (List.getElem?_eq_some_iff.mp hentry).1
  have hjoined : (joinedColumns left right columns)[index]?=some entry := by
    rw [joinedColumns,List.getElem?_append_left hlt,hentry]
  obtain ⟨found,hfound⟩ := hfound.2
  rw [hfound,resolve_unqualified h.plain.1 hfound hjoined hhidden hname]

/-- Names that lead somewhere lead to the columns they are about, where the right side has a
name. -/
theorem denotes_of_found {S : Type} {qualifier : String}
    (h : ∀ column∈columns, UsingNames left right leftQualifier (some qualifier) column)
    (hfound : ∀ column∈columns,
      NamesFound left right leftQualifier (some qualifier) columns column) :
    (JoinConstraint.merging leftQualifier (some qualifier) columns :
      JoinConstraint S).Denotes left right := by
  intro column hcolumn
  have hnames := h column hcolumn
  obtain ⟨leftIndex,_,hleft,-,-⟩ := hnames.leftPlaced
  obtain ⟨rightIndex,_,hright,-,-⟩ := hnames.rightPlaced
  exact ⟨leftIndex,rightIndex,hleft,hright,hnames.leads_left (hfound column hcolumn) hleft,
    hnames.leads_right (hfound column hcolumn) hright⟩

end Lead

end Names

/-! ## The result -/

section Result

variable {S : Type} (operators : Operators) (executeSubqueryRows : SubqueryRows S)
  (transactionId : TransactionId) (currentTxn : Option TransactionId)
  (outer : Option (RowSet × Row))

/-- A filter keeps some of the rows. -/
theorem filterM_subset {α : Type} {keep : α → Except DbError Bool} {xs kept rows : List α}
    (h : xs.filterAuxM keep kept=.ok rows) : ∀ x∈rows, x∈xs ∨ x∈kept := by
  induction xs generalizing kept with
  | nil =>
    rw [←Except.ok.inj h]
    exact fun x hx => Or.inr hx
  | cons y xs ih =>
    obtain ⟨kept',hkept,h⟩ := except_bind_ok h
    intro x hx
    cases ih h x hx with
    | inl hmem => exact Or.inl (List.mem_cons_of_mem y hmem)
    | inr hmem =>
      cases kept' with
      | true =>
        cases List.mem_cons.mp hmem with
        | inl hsame => exact Or.inl (hsame▸List.mem_cons_self)
        | inr hold => exact Or.inr hold
      | false => exact Or.inr hmem

/-- Filtered rows fit their columns. -/
theorem filterJoined_fits {filter : Option (Expr S)} {current result : RowSet}
    (hfits : current.Fits)
    (h : filterJoined operators executeSubqueryRows transactionId currentTxn outer filter current=
      .ok result) : result.Fits := by
  cases filter with
  | none =>
    rw [←Except.ok.inj h]
    exact hfits
  | some filter =>
    obtain ⟨rows,hrows,h⟩ := except_bind_ok h
    obtain ⟨kept,hkept,hreverse⟩ := except_bind_ok hrows
    cases h
    obtain rfl := Except.ok.inj hreverse
    intro row hrow
    cases filterM_subset hkept row (List.mem_reverse.mp hrow) with
    | inl hmem => exact hfits row hmem
    | inr hmem => cases hmem

/-- Two rows of integers. -/
def integers (width : ℕ) (value : Int64) : Row := List.replicate width (.integer value)

/-- All values of the row are the same. -/
theorem integers_getElem? {width index : ℕ} (value : Int64) (h : index < width) :
    (integers width value)[index]?=some (.integer value) := by
  rw [integers,List.getElem?_replicate,if_pos h]

/-- Without a name for the right side the condition compares the left columns with
themselves. -/
theorem unnamed_matches {left right : List ColumnMeta} {leftQualifier : Option String}
    {columns : List String}
    (h : ∀ column∈columns, UsingNames left right leftQualifier none column)
    (hfound : ∀ column∈columns, NamesFound left right leftQualifier none columns column) :
    matchesOn operators executeSubqueryRows transactionId currentTxn outer
      (joinedColumns left right columns) (joinUsingExpr leftQualifier none columns : Expr S)
      (integers left.length 1) (integers right.length 2)=.ok true := by
  rw [joinUsingExpr_matches operators executeSubqueryRows transactionId currentTxn outer
    (fun column hcolumn => ?_ : ∀ column∈columns, _=Except.ok ((fun _ => true) column))]
  · simp
  · obtain ⟨index,_,hplace,-,-⟩ := (h column hcolumn).leftPlaced
    obtain ⟨entry,hentry,-,-⟩ := leftPlace_some hplace
    have hlt : index < left.length := (List.getElem?_eq_some_iff.mp hentry).1
    have hvalue : (integers left.length 1++integers right.length 2)[index]?=
        some (.integer 1) := by
      rw [List.getElem?_append_left (by rwa [integers,List.length_replicate])]
      exact integers_getElem? 1 hlt
    rw [usingTerm_matches operators executeSubqueryRows transactionId currentTxn outer
      ((h column hcolumn).leads_left (hfound column hcolumn) hplace)
      ((h column hcolumn).misleads (hfound column hcolumn) hplace) hvalue hvalue]
    rfl

/-- But the rows do not agree. -/
theorem integers_disagree {left right : List ColumnMeta} {column : String}
    {leftIndex rightIndex : ℕ} (hleft : leftPlace left column=some leftIndex)
    (hright : rightPlace right column=some rightIndex) :
    agreesIn operators left right (integers left.length 1) (integers right.length 2) column=
      false := by
  obtain ⟨leftEntry,hleftEntry,-,-⟩ := leftPlace_some hleft
  obtain ⟨rightEntry,hrightEntry,-⟩ := rightPlace_some hright
  have hx := integers_getElem? 1 (List.getElem?_eq_some_iff.mp hleftEntry).1
  have hy := integers_getElem? 2 (List.getElem?_eq_some_iff.mp hrightEntry).1
  simp only [agreesIn,hleft,hright,hx,hy,Option.getD_some]
  rfl

/-- A `USING` clause whose right side has no name goes wrong for some rows. -/
theorem unnamed_differs {left right : List ColumnMeta} {leftQualifier : Option String}
    {columns : List String} {column : String} (kind : JoinKind)
    (h : ∀ column∈columns, UsingNames left right leftQualifier none column)
    (hfound : ∀ column∈columns, NamesFound left right leftQualifier none columns column)
    (hcolumn : column∈columns) :
    executeJoin operators executeSubqueryRows transactionId currentTxn outer
        ⟨left,[integers left.length 1]⟩ (JoinClause.plan (S := S)
          ⟨kind,.ok ⟨right,[integers right.length 2]⟩,.merging leftQualifier none columns⟩)≠
      relationalJoin operators executeSubqueryRows transactionId currentTxn outer
        ⟨left,[integers left.length 1]⟩
        ⟨kind,.ok ⟨right,[integers right.length 2]⟩,.merging leftQualifier none columns⟩ := by
  obtain ⟨leftIndex,_,hleft,-,-⟩ := (h column hcolumn).leftPlaced
  obtain ⟨rightIndex,_,hright,-,-⟩ := (h column hcolumn).rightPlaced
  obtain ⟨leftEntry,hleftEntry,-,hname⟩ := leftPlace_some hleft
  obtain ⟨rightEntry,hrightEntry,-⟩ := rightPlace_some hright
  have hleftLt : leftIndex < left.length := (List.getElem?_eq_some_iff.mp hleftEntry).1
  have hrightLt : rightIndex < right.length := (List.getElem?_eq_some_iff.mp hrightEntry).1
  have hmatches := unnamed_matches (S := S) operators executeSubqueryRows transactionId currentTxn
    outer h hfound
  have hfails : columns.all (agreesIn operators left right (integers left.length 1)
      (integers right.length 2))=false := by
    rw [List.all_eq_false]
    exact ⟨column,hcolumn,by rw [integers_disagree operators hleft hright]; exact
      Bool.false_ne_true⟩
  have hcode : executeJoin operators executeSubqueryRows transactionId currentTxn outer
      ⟨left,[integers left.length 1]⟩ (JoinClause.plan (S := S)
        ⟨kind,.ok ⟨right,[integers right.length 2]⟩,.merging leftQualifier none columns⟩)=
      .ok ⟨joinedColumns left right columns,
        [integers left.length 1++integers right.length 2]⟩ := by
    rw [executeJoin]
    simp only [JoinClause.plan,JoinConstraint.usingColumns,bind,Except.bind]
    rw [nestedLoop_eq,testedJoin_single _ _ _ _ hmatches]
    rfl
  have hrelation : relationalJoin operators executeSubqueryRows transactionId currentTxn outer
      ⟨left,[integers left.length 1]⟩
      ⟨kind,.ok ⟨right,[integers right.length 2]⟩,.merging leftQualifier none columns⟩=
      .ok ⟨joinedColumns left right columns,
        (if kind.keepsLeft then some (integers left.length 1++List.replicate right.length .null)
          else none).toList++
        (if kind.keepsRight then some (mergedValues left right columns (integers right.length 2)++
          integers right.length 2) else none).toList⟩ := by
    rw [relationalJoin]
    simp only [JoinConstraint.usingColumns,bind,Except.bind]
    rw [testedJoin_single _ _ _ _ (congrArg Except.ok hfails)]
    rfl
  rw [hcode,hrelation]
  intro hsame
  have hrows := congrArg RowSet.rows (Except.ok.inj hsame)
  have hpadded : integers left.length 1++integers right.length 2≠
      integers left.length 1++List.replicate right.length .null := by
    intro hpad
    have hvalues := List.append_cancel_left hpad
    have hvalue := congrArg (fun row : Row => row[rightIndex]?) hvalues
    simp only [integers_getElem? 2 hrightLt,List.getElem?_replicate,if_pos hrightLt] at hvalue
    cases hvalue
  have hmerged : integers left.length 1++integers right.length 2≠
      mergedValues left right columns (integers right.length 2)++integers right.length 2 := by
    intro hmerge
    have hvalues := List.append_cancel_right hmerge
    have hvalue := congrArg (fun row : Row => row[leftIndex]?) hvalues
    simp only [integers_getElem? 1 hleftLt,mergedValues,List.getElem?_map,List.getElem?_zipIdx,
      hleftEntry,Option.map_some,Nat.zero_add,hname,hleft,hcolumn,hright,Option.bind_some,
      integers_getElem? 2 hrightLt] at hvalue
    simp at hvalue
  cases kind with
  | inner => cases hrows
  | left => exact hpadded (List.singleton_inj.mp hrows)
  | right => exact hmerged (List.singleton_inj.mp hrows)
  | full => simp [JoinKind.keepsLeft,JoinKind.keepsRight] at hrows

/-! ### Names that lead nowhere -/

/-- A name leads to a column that is there. -/
theorem theIndex_mem {column : String} {indexes : List ℕ} {index : ℕ}
    (h : theIndex column indexes=.ok index) : index∈indexes := by
  match indexes, h with
  | [only], h =>
    obtain rfl := Except.ok.inj h
    exact List.mem_singleton_self only

/-- A resolved column is there. -/
theorem resolveColumnIndex_lt {columns : List ColumnMeta} {column : String} {index : ℕ}
    (h : resolveColumnIndex columns column=.ok index) : index < columns.length := by
  have hfound {p : ColumnMeta → Bool} (hmem : index∈columns.findIdxs p) :
      index < columns.length := by
    obtain ⟨hlt,-⟩ := List.mem_findIdxs_iff_exists_getElem_pos.mp hmem
    exact hlt
  unfold resolveColumnIndex at h
  split at h
  · exact hfound (theIndex_mem h)
  · dsimp only at h
    split at h
    · exact hfound (theIndex_mem h)
    · exact hfound (theIndex_mem h)

section Nowhere

variable {left right : List ColumnMeta} {columns : List ColumnMeta} {row : Row}

/-- Outside a query a name that leads nowhere is an error. -/
theorem lookupWithCollation_error {scope : Scope} {column : String} (houter : scope.outer=none)
    (h : ∀ index, resolveColumnIndex scope.source.columns column≠.ok index) :
    ∃ error, scope.lookupWithCollation column=.error error := by
  cases hindex : resolveColumnIndex scope.source.columns column with
  | ok index => exact absurd hindex (h index)
  | error error =>
    have hlookup : lookupValue scope.source.columns scope.row column=.error error := by
      simp only [lookupValue,hindex,bind,Except.bind]
    refine ⟨error,?_⟩
    simp only [Scope.lookupWithCollation,hlookup,houter]

/-- On rows that hold ones only, a comparison is true where its names lead somewhere, and an
error otherwise. -/
theorem usingTerm_ones {leftQualifier rightQualifier : Option String} {column : String}
    {leftRow rightRow : Row}
    (hones : ∀ index < columns.length, (leftRow++rightRow)[index]?=some (.integer 1)) :
    matchesOn operators executeSubqueryRows transactionId currentTxn none columns
        (usingTerm leftQualifier rightQualifier column : Expr S) leftRow rightRow=.ok true ∧
      (∃ index, resolveColumnIndex columns (qualifyJoinUsingColumn leftQualifier column)=
        .ok index) ∧
      (∃ index, resolveColumnIndex columns (qualifyJoinUsingColumn rightQualifier column)=
        .ok index) ∨
    ∃ error, matchesOn operators executeSubqueryRows transactionId currentTxn none columns
      (usingTerm leftQualifier rightQualifier column : Expr S) leftRow rightRow=.error error := by
  have hnowhere {qualifier : Option String} (hnone : ∀ index, resolveColumnIndex columns
      (qualifyJoinUsingColumn qualifier column)≠.ok index) :=
    @lookupWithCollation_error ⟨⟨columns,[]⟩,leftRow++rightRow,none⟩ _ rfl hnone
  cases hleft : resolveColumnIndex columns (qualifyJoinUsingColumn leftQualifier column) with
  | error error =>
    obtain ⟨found,hfound⟩ := hnowhere fun index h => by rw [hleft] at h; cases h
    refine Or.inr ⟨found,?_⟩
    rw [matchesOn,usingTerm,matchesFilter,hfound]
    rfl
  | ok first =>
    have hx := hones first (resolveColumnIndex_lt hleft)
    cases hright : resolveColumnIndex columns (qualifyJoinUsingColumn rightQualifier column) with
    | error error =>
      obtain ⟨found,hfound⟩ := hnowhere fun index h => by rw [hright] at h; cases h
      refine Or.inr ⟨found,?_⟩
      rw [matchesOn,usingTerm,matchesFilter,
        @lookupWithCollation_ok ⟨⟨columns,[]⟩,leftRow++rightRow,none⟩ _ _ _ hleft hx,hfound]
      rfl
    | ok second =>
      refine Or.inl ⟨?_,⟨first,rfl⟩,second,rfl⟩
      rw [usingTerm_matches operators executeSubqueryRows transactionId currentTxn none hleft hright
        hx (hones second (resolveColumnIndex_lt hright))]
      rfl

/-- A condition with an error in one comparison, and no false one, is an error. -/
theorem joinUsingExpr_fails {leftQualifier rightQualifier : Option String}
    {usingColumns : List String} {leftRow rightRow : Row}
    (h : ∀ column∈usingColumns, matchesOn operators executeSubqueryRows transactionId currentTxn
        outer columns (usingTerm leftQualifier rightQualifier column : Expr S) leftRow rightRow=
        .ok true ∨
      ∃ error, matchesOn operators executeSubqueryRows transactionId currentTxn outer columns
        (usingTerm leftQualifier rightQualifier column : Expr S) leftRow rightRow=.error error)
    (hfails : ∃ column∈usingColumns, ∃ error, matchesOn operators executeSubqueryRows transactionId
      currentTxn outer columns (usingTerm leftQualifier rightQualifier column : Expr S) leftRow
      rightRow=.error error) :
    ∃ error, matchesOn operators executeSubqueryRows transactionId currentTxn outer columns
      (joinUsingExpr leftQualifier rightQualifier usingColumns : Expr S) leftRow rightRow=
      .error error := by
  have hfold : ∀ (rest : List String) (expr : Expr S),
      (∀ column∈rest, matchesOn operators executeSubqueryRows transactionId currentTxn outer columns
          (usingTerm leftQualifier rightQualifier column) leftRow rightRow=.ok true ∨
        ∃ error, matchesOn operators executeSubqueryRows transactionId currentTxn outer columns
          (usingTerm leftQualifier rightQualifier column) leftRow rightRow=.error error) →
      (∃ error, matchesOn operators executeSubqueryRows transactionId currentTxn outer columns expr
        leftRow rightRow=.error error) ∨
      (matchesOn operators executeSubqueryRows transactionId currentTxn outer columns expr leftRow
          rightRow=.ok true ∧
        ∃ column∈rest, ∃ error, matchesOn operators executeSubqueryRows transactionId currentTxn
          outer columns (usingTerm leftQualifier rightQualifier column) leftRow rightRow=
          .error error) →
      ∃ error, matchesOn operators executeSubqueryRows transactionId currentTxn outer columns
        (rest.foldl (fun expr column => .and expr (usingTerm leftQualifier rightQualifier column))
          expr) leftRow rightRow=.error error := by
    intro rest
    induction rest with
    | nil =>
      rintro expr - (herror | ⟨-,column,hcolumn,-⟩)
      · exact herror
      · cases hcolumn
    | cons other rest ih =>
      intro expr hterms hexpr
      refine ih _ (fun column hcolumn => hterms column (List.mem_cons_of_mem other hcolumn)) ?_
      rcases hexpr with ⟨error,herror⟩ | ⟨htrue,column,hcolumn,hfailing⟩
      · refine Or.inl ⟨error,?_⟩
        unfold matchesOn at herror ⊢
        rw [matchesFilter,herror]
        rfl
      · -- the conjunction is what the comparison says
        have hand : matchesOn operators executeSubqueryRows transactionId currentTxn outer columns
            (.and expr (usingTerm leftQualifier rightQualifier other)) leftRow rightRow=
            matchesOn operators executeSubqueryRows transactionId currentTxn outer columns
              (usingTerm leftQualifier rightQualifier other) leftRow rightRow := by
          unfold matchesOn at htrue ⊢
          rw [matchesFilter,htrue]
          rfl
        rw [hand]
        rcases hterms other List.mem_cons_self with hother | hother
        · refine Or.inr ⟨hother,column,?_,hfailing⟩
          refine (List.mem_cons.mp hcolumn).resolve_left ?_
          rintro rfl
          obtain ⟨error,herror⟩ := hfailing
          rw [hother] at herror
          cases herror
        · exact Or.inl hother
  obtain ⟨column,hcolumn,hfailing⟩ := hfails
  cases usingColumns with
  | nil => cases hcolumn
  | cons first rest =>
    rw [joinUsingExpr]
    refine hfold rest _ (fun other hother => h other (List.mem_cons_of_mem first hother)) ?_
    rcases h first List.mem_cons_self with hfirst | hfirst
    · refine Or.inr ⟨hfirst,column,?_,hfailing⟩
      refine (List.mem_cons.mp hcolumn).resolve_left ?_
      rintro rfl
      obtain ⟨error,herror⟩ := hfailing
      rw [hfirst] at herror
      cases herror
    · exact Or.inl hfirst

/-- A `USING` clause with a name that leads nowhere fails, where it joins rows at all. -/
theorem unfound_differs {leftQualifier rightQualifier : Option String} {usingColumns : List String}
    {column : String} (kind : JoinKind) (hcolumn : column∈usingColumns)
    (hfound : ¬NamesFound left right leftQualifier rightQualifier usingColumns column) :
    executeJoin operators executeSubqueryRows transactionId currentTxn none
        ⟨left,[integers left.length 1]⟩ (JoinClause.plan (S := S)
          ⟨kind,.ok ⟨right,[integers right.length 1]⟩,
            .merging leftQualifier rightQualifier usingColumns⟩)≠
      relationalJoin operators executeSubqueryRows transactionId currentTxn none
        ⟨left,[integers left.length 1]⟩
        ⟨kind,.ok ⟨right,[integers right.length 1]⟩,
          .merging leftQualifier rightQualifier usingColumns⟩ := by
  have hones : ∀ index < (joinedColumns left right usingColumns).length,
      (integers left.length 1++integers right.length 1)[index]?=some (.integer 1) := by
    intro index hindex
    have hsame : integers left.length 1++integers right.length 1=
        integers (left.length+right.length) 1 := List.replicate_append_replicate
    rw [hsame]
    refine integers_getElem? 1 ?_
    rwa [joinedColumns,List.length_append,List.length_map] at hindex
  obtain ⟨error,herror⟩ := joinUsingExpr_fails (S := S) operators executeSubqueryRows transactionId
    currentTxn none
    (fun other _ => (usingTerm_ones (S := S) operators executeSubqueryRows transactionId currentTxn
      hones).imp_left And.left)
    ⟨column,hcolumn,(usingTerm_ones operators executeSubqueryRows transactionId currentTxn
      hones).resolve_left fun h => hfound h.2⟩
  have hcode : executeJoin operators executeSubqueryRows transactionId currentTxn none
      ⟨left,[integers left.length 1]⟩ (JoinClause.plan (S := S)
        ⟨kind,.ok ⟨right,[integers right.length 1]⟩,
          .merging leftQualifier rightQualifier usingColumns⟩)=.error error := by
    rw [executeJoin]
    simp only [JoinClause.plan,JoinConstraint.usingColumns,bind,Except.bind]
    rw [nestedLoop_eq,testedJoin]
    simp only [List.mapM_cons,herror]
    rfl
  rw [hcode,relationalJoin]
  simp only [JoinConstraint.usingColumns,bind,Except.bind]
  rw [testedJoin_single _ _ _ _ rfl]
  exact fun h => by cases h

end Nowhere

end Result

/-- A table `t` with one column, tables `u` and `v` with two, and a subquery without a name. -/
def namedTable : RowSet := ⟨[⟨some "t",some "t","a","a",none,false⟩],[[.integer 1],[.integer 2]]⟩

def secondTable : RowSet :=
  ⟨[⟨some "u",some "u","a","a",none,false⟩,⟨some "u",some "u","x","x",none,false⟩],
    [[.integer 1,.integer 10],[.integer 3,.integer 30]]⟩

def thirdTable : RowSet :=
  ⟨[⟨some "v",some "v","a","a",none,false⟩,⟨some "v",some "v","y","y",none,false⟩],
    [[.integer 3,.integer 5]]⟩

def unnamedSource : RowSet := ⟨[⟨none,none,"a","a",none,false⟩],[[.integer 1]]⟩

/-- `t FULL JOIN u USING(a) LEFT JOIN v USING(a)`, as the parser writes it. -/
def mergingClauses : List (JoinClause Unit) :=
  [⟨.full,.ok secondTable,.merging (some "t") (some "u") ["a"]⟩,
    ⟨.left,.ok thirdTable,.merging (some "t") (some "v") ["a"]⟩]

end RustSql.Sql
