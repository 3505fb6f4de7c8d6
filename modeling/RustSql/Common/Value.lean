import Mathlib.Data.List.Basic
import Mathlib.Data.List.Lex
import Mathlib.Data.Prod.Lex
import Mathlib.Data.String.Basic
import RustSql.Base.Bytes
import RustSql.Common.Error

/-!
# Values, rows and index metadata

The logical types shared by every storage engine. Reals are kept as the bits of
the 64-bit float, which is how the engine compares them for equality.
-/

namespace RustSql

/-- `Value`. -/
inductive Value where
  | null
  | boolean (value : Bool)
  | integer (value : Int64)
  /-- The bits of the float. -/
  | real (bits : UInt64)
  | blob (bytes : Bytes)
  | text (value : String)
  deriving DecidableEq

/-- A row is one value per column. -/
abbrev Row := List Value

/-- Row numbers; the code's `RowId(u64)`. -/
abbrev RowId := ℕ

/-- Comparison operators of the SQL front end. -/
inductive CompareOp where
  | eq
  | ne
  | gt
  | gte
  | lt
  | lte
  deriving DecidableEq, Repr

/-- Lexicographic comparison of two lists (`Ord for Vec`). -/
def compareLists {α : Type} (cmp : α → α → Ordering) : List α → List α → Ordering
  | [], [] => .eq
  | [], _ :: _ => .lt
  | _ :: _, [] => .gt
  | x :: xs, y :: ys => (cmp x y).then (compareLists cmp xs ys)

/-- The rank of a value's type in the total order. -/
def Value.rank : Value → ℕ
  | .null => 0
  | .boolean _ => 1
  | .integer _ => 2
  | .real _ => 3
  | .blob _ => 4
  | .text _ => 5

/-- The place of a float in `f64::total_cmp`: negative floats count down from
the sign bit, the others up from it. -/
def realOrderKey (bits : UInt64) : ℕ :=
  if bits.toNat < 2^63 then 2^63+bits.toNat else 2^64-1-bits.toNat

/-- `Ord for Value`. -/
def Value.cmp : Value → Value → Ordering
  | .null, .null => .eq
  | .boolean left, .boolean right => compare left right
  | .integer left, .integer right => compare left.toInt right.toInt
  | .real left, .real right => compare (realOrderKey left) (realOrderKey right)
  | .blob left, .blob right => compareLists (fun x y => compare x.toNat y.toNat) left right
  | .text left, .text right => compare left right
  | left, right => compare left.rank right.rank

/-- `IndexMeta`: an index's name, its columns and whether keys are unique. -/
structure IndexMeta where
  name : String
  columns : List String
  decoratedColumns : Option (List String)
  unique : Bool
  predicate : Option String
  deriving DecidableEq

/-- Keys with a null are never compared for uniqueness. -/
def IndexMeta.enforcesUniqueKey (index : IndexMeta) (key : List Value) : Bool :=
  index.unique && !key.any fun value => value=.null

end RustSql

/-!
## Table schemas

The storage engines use a table's schema through a few operations: its name and
columns, the checks of a row, and the edits of `ALTER TABLE`. What a check
expression means is not needed here, so a schema is any type with these
operations.
-/

namespace RustSql

/-- What a storage engine needs of `Schema` and `ColumnDef`. -/
class TableSchema (S : Type) (C : outParam Type) where
  /-- The `name` field. -/
  name : S → String
  /-- Write the `name` field. -/
  withName : S → String → S
  /-- The names of the columns. -/
  columnNames : S → List String
  /-- Push a column at the end of `columns`. -/
  pushColumn : S → C → S
  /-- The name of a column definition. -/
  columnName : C → String
  /-- The default of a new column, null without one (`default.evaluate()`). -/
  defaultValue : C → Except DbError Value
  validateRowValues : S → Row → Except DbError Unit
  validateCheckConstraints : S → Row → Except DbError Unit
  validatePrimaryKeyUniqueness : S → Row → List Row → Except DbError Unit
  validateConstraintsMetadata : S → Except DbError Unit
  normalizeStrictRowValues : S → Row → Except DbError Row
  /-- The schema without a column, and where the column stood. -/
  dropColumn : S → String → Except DbError (S × ℕ)
  renameColumnReferences : S → String → String → S
  renameForeignKeyRefTable : S → String → String → S
  renameForeignKeyRefColumn : S → String → String → String → S

end RustSql

/-!
## The order of values

`Value::cmp` and the lexicographic order of keys are total orders: comparing two
values is comparing their places in a linear order.
-/

namespace RustSql

/-- A comparison that compares places in a linear order. -/
structure OrderedBy {α β : Type} [LinearOrder β] (cmp : α → α → Ordering) (place : α → β) :
    Prop where
  lt : ∀ x y, cmp x y=.lt ↔ place x < place y
  eq : ∀ x y, cmp x y=.eq ↔ place x=place y

section Comparisons

variable {α β : Type} [LinearOrder β] {cmp : α → α → Ordering} {place : α → β}

theorem OrderedBy.ne_gt (h : OrderedBy cmp place) (x y : α) :
    cmp x y≠.gt ↔ place x ≤ place y := by
  have hlt := h.lt x y
  have heq := h.eq x y
  rw [le_iff_lt_or_eq,←hlt,←heq]
  cases cmp x y with
  | lt => simp
  | eq => simp
  | gt => simp

/-- Lists are compared place by place. -/
theorem OrderedBy.lists (h : OrderedBy cmp place) :
    OrderedBy (compareLists cmp) (List.map place) := by
  have hboth : ∀ xs ys : List α,
      (compareLists cmp xs ys=.lt ↔ xs.map place < ys.map place) ∧
      (compareLists cmp xs ys=.eq ↔ xs.map place=ys.map place) := by
    intro xs
    induction xs with
    | nil =>
      intro ys
      cases ys with
      | nil => simp [compareLists]
      | cons y ys => simp [compareLists]
    | cons x xs ih =>
      intro ys
      cases ys with
      | nil => simp [compareLists]
      | cons y ys =>
        have hlt := h.lt x y
        have heq := h.eq x y
        rw [compareLists,List.map_cons,List.map_cons,List.cons_lt_cons_iff,List.cons.injEq,←hlt,
          ←heq,←(ih ys).1,←(ih ys).2]
        cases cmp x y with
        | lt => simp [Ordering.then]
        | eq => simp [Ordering.then]
        | gt => simp [Ordering.then]
  exact ⟨fun xs ys => (hboth xs ys).1,fun xs ys => (hboth xs ys).2⟩

end Comparisons

/-- The place of a value in the total order: its rank, and a number, a byte string or
a text within the rank. -/
def Value.place : Value → ℕ ×ₗ ℤ ×ₗ List ℕ ×ₗ String
  | .null => toLex (0,toLex (0,toLex ([],"")))
  | .boolean value => toLex (1,toLex ((value.toNat : ℤ),toLex ([],"")))
  | .integer value => toLex (2,toLex (value.toInt,toLex ([],"")))
  | .real bits => toLex (3,toLex ((realOrderKey bits : ℤ),toLex ([],"")))
  | .blob bytes => toLex (4,toLex (0,toLex (bytes.map UInt8.toNat,"")))
  | .text value => toLex (5,toLex (0,toLex ([],value)))

/-- Bytes are compared as numbers. -/
theorem bytes_orderedBy :
    OrderedBy (compareLists fun x y : UInt8 => compare x.toNat y.toNat) (List.map UInt8.toNat) :=
  OrderedBy.lists ⟨fun _ _ => compare_lt_iff_lt,fun _ _ => compare_eq_iff_eq⟩

/-- `false` comes before `true`. -/
theorem bool_place (x y : Bool) : (x.toNat < y.toNat ↔ x < y) ∧ (x.toNat=y.toNat ↔ x=y) := by
  cases x <;> cases y <;> decide

/-- `Value::cmp` is the order of the values' places. -/
theorem Value.cmp_orderedBy : OrderedBy Value.cmp Value.place := by
  have hbytes := bytes_orderedBy
  refine ⟨fun x y => ?_,fun x y => ?_⟩
  · cases x <;> cases y <;>
      simp [Value.cmp,Value.rank,Value.place,Prod.Lex.toLex_lt_toLex,compare_lt_iff_lt,
        hbytes.lt,(bool_place _ _).1]
  · cases x <;> cases y <;>
      simp [Value.cmp,Value.rank,Value.place,hbytes.eq,(bool_place _ _).2]

end RustSql
