import RustSql.Check.Evaluate
import RustSql.Check.Returns

/-!
# Where a condition panics

A condition is evaluated leaf by leaf, up to the first that is refused. A leaf that is not
refused returns, unless it divides the smallest integer by minus one.
-/

namespace RustSql.Check

open Outcome

/-- The comparisons of a condition, in the order they are evaluated in. -/
def CheckExpr.leaves : CheckExpr → List CheckExpr
  | .and left right | .or left right => left.leaves++right.leaves
  | .not expr => expr.leaves
  | leaf => [leaf]

section Leaves

variable (machine : Machine) (schema : Schema) (row : Row)

/-- The column is not one of the table, or the row ends before it. -/
def Missing (column : String) : Prop := ∃ e, schema.valueForColumn row column=.error e

/-- The comparison is refused: its column is missing, its `ESCAPE` is not one character, or its
`REGEXP` has a class without an end where the text gets to it. -/
def Refused : CheckExpr → Prop
  | .concatWsCompare _ none _ _ _ => False
  | .like column _ escape _ => Missing schema row column ∨
      ∃ value e, schema.valueForColumn row column=.ok value ∧ value≠.null ∧
        likeEscape escape=.error e
  | .regexp column pattern _ => Missing schema row column ∨
      ∃ value e, schema.valueForColumn row column=.ok value ∧ value≠.null ∧
        sqliteCheckRegexp pattern (sqliteTextLikeValue machine value)=.err e
  | leaf => ∃ column∈leaf.columns, Missing schema row column

/-- The comparison divides the smallest integer by minus one. -/
def DividesSmallest : CheckExpr → Prop
  | .divideCompare column divisor _ _ =>
    schema.valueForColumn row column=.ok (.integer Int64.minValue) ∧ divisor=.integer (-1)
  | .moduloCompare column divisor _ _ _ =>
    ∃ value, schema.valueForColumn row column=.ok value ∧ RemainderOverflows machine value divisor
  | _ => False

variable {machine schema row} {caseSensitiveLike : Bool}

/-- How the evaluation of a comparison ends. -/
def Ends (machine : Machine) (schema : Schema) (row : Row) (caseSensitiveLike : Bool)
    (leaf : CheckExpr) : Prop :=
  (Refused machine schema row leaf ∧ ¬DividesSmallest machine schema row leaf ∧
    ∃ e, evaluateCheckExpr machine schema row caseSensitiveLike leaf=.err e) ∨
  (¬Refused machine schema row leaf ∧ DividesSmallest machine schema row leaf ∧
    evaluateCheckExpr machine schema row caseSensitiveLike leaf=.stuck) ∨
  (¬Refused machine schema row leaf ∧ ¬DividesSmallest machine schema row leaf ∧
    (evaluateCheckExpr machine schema row caseSensitiveLike leaf).Total)

variable {leaf expr : CheckExpr} {column : String} {test : Value → Outcome (Option Bool)}
    {value : Value}

theorem Ends.refused_iff (h : Ends machine schema row caseSensitiveLike leaf) :
    Refused machine schema row leaf ↔
      ∃ e, evaluateCheckExpr machine schema row caseSensitiveLike leaf=.err e := by
  rcases h with ⟨hrefused,-,he⟩ | ⟨hrefused,-,hstuck⟩ | ⟨hrefused,-,truth,htotal⟩
  · exact iff_of_true hrefused he
  · refine iff_of_false hrefused ?_
    rintro ⟨e,he⟩
    rw [hstuck] at he
    cases he
  · refine iff_of_false hrefused ?_
    rintro ⟨e,he⟩
    rw [htotal] at he
    cases he

theorem Ends.stuck_iff (h : Ends machine schema row caseSensitiveLike leaf) :
    evaluateCheckExpr machine schema row caseSensitiveLike leaf=.stuck ↔
      DividesSmallest machine schema row leaf := by
  rcases h with ⟨-,hdivides,e,he⟩ | ⟨-,hdivides,hstuck⟩ | ⟨-,hdivides,htotal⟩
  · rw [he]
    exact iff_of_false (returns_err e) hdivides
  · exact iff_of_true hstuck hdivides
  · exact iff_of_false htotal.returns hdivides

/-- A comparison of a value that was read. -/
theorem ends_of_test (heval : evaluateCheckExpr machine schema row caseSensitiveLike leaf=
      (columnValue schema row column >>= test))
    (hrefused : Refused machine schema row leaf ↔ Missing schema row column)
    (hmissing : Missing schema row column → ¬DividesSmallest machine schema row leaf)
    (htest : ∀ value, schema.valueForColumn row column=.ok value →
      (DividesSmallest machine schema row leaf ∧ test value=.stuck) ∨
      (¬DividesSmallest machine schema row leaf ∧ (test value).Total)) :
    Ends machine schema row caseSensitiveLike leaf := by
  rw [Ends,heval,hrefused,columnValue]
  cases hvalue : schema.valueForColumn row column with
  | error e => exact Or.inl ⟨⟨e,hvalue⟩,hmissing ⟨e,hvalue⟩,e,rfl⟩
  | ok value =>
    have hfound : ¬Missing schema row column := by
      rintro ⟨e,he⟩
      rw [hvalue] at he
      cases he
    rcases htest value hvalue with ⟨hdivides,hstuck⟩ | ⟨hdivides,htotal⟩
    · exact Or.inr (Or.inl ⟨hfound,hdivides,hstuck⟩)
    · exact Or.inr (Or.inr ⟨hfound,hdivides,htotal⟩)

/-- A comparison that computes a value from that of its column. -/
theorem ends_of_total (heval : evaluateCheckExpr machine schema row caseSensitiveLike leaf=
      (columnValue schema row column >>= test))
    (hrefused : Refused machine schema row leaf ↔ Missing schema row column)
    (hdivides : ¬DividesSmallest machine schema row leaf)
    (htotal : ∀ value, schema.valueForColumn row column=.ok value → (test value).Total) :
    Ends machine schema row caseSensitiveLike leaf :=
  ends_of_test heval hrefused (fun _ => hdivides) fun value hvalue =>
    Or.inr ⟨hdivides,htotal value hvalue⟩

/-- A value that was read is one of the row. -/
theorem valueForColumn_mem (h : schema.valueForColumn row column=.ok value) : value∈row := by
  obtain ⟨index,-,h⟩ := except_bind_ok h
  cases hget : row[index]? with
  | none =>
    rw [hget] at h
    cases h
  | some found =>
    rw [hget] at h
    cases h
    exact List.mem_of_getElem? hget

theorem missing_singleton :
    (∃ other∈[column], Missing schema row other) ↔ Missing schema row column := by
  simp only [List.mem_singleton,exists_eq_left]

/-- The values a test is not asked about. -/
theorem total_unless_null {α : Type} {x : α} {y : Outcome α} (h : y.Total) :
    (if value=.null then .ok x else y).Total := by
  split
  · exact total_ok x
  · exact h

/-- What was read is what a column has. -/
theorem valueForColumn_iff {P : Value → Prop}
    (hvalue : schema.valueForColumn row column=.ok value) :
    (∃ other, schema.valueForColumn row column=.ok other ∧ P other) ↔ P value := by
  rw [hvalue]
  constructor
  · rintro ⟨other,hother,hP⟩
    exact Except.ok.inj hother▸hP
  · exact fun hP => ⟨value,rfl,hP⟩

theorem ends_divide (column : String) (divisor : Value) (op : CheckOp) (value : Value) :
    Ends machine schema row caseSensitiveLike (.divideCompare column divisor op value) := by
  refine ends_of_test rfl missing_singleton ?_ fun left hleft => ?_
  · rintro ⟨e,he⟩ ⟨hvalue,-⟩
    rw [he] at hvalue
    cases hvalue
  · have hdivides : DividesSmallest machine schema row (.divideCompare column divisor op value) ↔
        left=.integer Int64.minValue ∧ divisor=.integer (-1) := by
      rw [DividesSmallest,hleft,Except.ok.injEq]
    rw [hdivides]
    rcases sqliteCheckDivide_cases machine left divisor with ⟨hover,hstuck⟩ | ⟨hover,htotal⟩
    · refine Or.inl ⟨hover,?_⟩
      rw [hstuck]
      rfl
    · exact Or.inr ⟨hover,htotal.bind fun _ _ => total_ok _⟩

theorem ends_modulo (column : String) (divisor : Value) (op : CheckOp) (value : Value)
    (functionForm : Bool) :
    Ends machine schema row caseSensitiveLike
      (.moduloCompare column divisor op value functionForm) := by
  refine ends_of_test rfl missing_singleton ?_ fun left hleft => ?_
  · rintro ⟨e,he⟩ ⟨other,hvalue,-⟩
    rw [he] at hvalue
    cases hvalue
  · have hdivides : DividesSmallest machine schema row
        (.moduloCompare column divisor op value functionForm) ↔
        RemainderOverflows machine left divisor := valueForColumn_iff hleft
    rw [hdivides]
    rcases sqliteCheckModulo_cases machine left divisor with ⟨hover,hstuck⟩ | ⟨hover,htotal⟩
    · refine Or.inl ⟨hover,?_⟩
      rw [hstuck]
      rfl
    · exact Or.inr ⟨hover,htotal.bind fun _ _ => total_ok _⟩

/-- A comparison with a pattern, which may be refused for a value that is not null. -/
theorem ends_of_pattern {negated : Bool} (found : Value → Outcome Bool)
    (heval : evaluateCheckExpr machine schema row caseSensitiveLike leaf=
      (columnValue schema row column >>= fun value =>
        if value=.null then .ok none
        else found value >>= fun found => .ok (some (found ^^ negated))))
    (hrefused : Refused machine schema row leaf ↔ Missing schema row column ∨
      ∃ value e, schema.valueForColumn row column=.ok value ∧ value≠.null ∧ found value=.err e)
    (hdivides : ¬DividesSmallest machine schema row leaf)
    (hreturns : ∀ value, (found value).Returns) :
    Ends machine schema row caseSensitiveLike leaf := by
  rw [Ends,heval,hrefused,columnValue]
  cases hvalue : schema.valueForColumn row column with
  | error e => exact Or.inl ⟨Or.inl ⟨e,hvalue⟩,hdivides,e,rfl⟩
  | ok value =>
    have hthere : ¬Missing schema row column := by
      rintro ⟨e,he⟩
      rw [hvalue] at he
      cases he
    rw [Outcome.ofExcept,bind_ok]
    by_cases hnull : value=.null
    · rw [if_pos hnull]
      refine Or.inr (Or.inr ⟨?_,hdivides,total_ok _⟩)
      rintro (hmissing | ⟨other,e,hother,hnotnull,-⟩)
      · exact hthere hmissing
      · exact hnotnull (Except.ok.inj hother▸hnull)
    · rw [if_neg hnull]
      cases hfound : found value with
      | ok truth =>
        refine Or.inr (Or.inr ⟨?_,hdivides,total_ok _⟩)
        rintro (hmissing | ⟨other,e,hother,-,he⟩)
        · exact hthere hmissing
        · rw [←Except.ok.inj hother,hfound] at he
          cases he
      | err e => exact Or.inl ⟨Or.inr ⟨value,e,rfl,hnull,hfound⟩,hdivides,e,rfl⟩
      | stuck => exact absurd hfound (hreturns value)

theorem ends_like (column pattern : String) (escape : Option String) (negated : Bool) :
    Ends machine schema row caseSensitiveLike (.like column pattern escape negated) := by
  refine ends_of_pattern (fun value => ofExcept (matchesLikePattern
    (sqliteTextLikeValue machine value) pattern escape caseSensitiveLike)) rfl ?_ id
    fun value => returns_ofExcept _
  refine or_congr Iff.rfl (exists_congr fun value => exists_congr fun e => and_congr_right fun _ =>
    and_congr_right fun _ => ?_)
  rw [matchesLikePattern]
  cases likeEscape escape with
  | ok escape => simp [Outcome.ofExcept,bind,Except.bind]
  | error e' => simp [Outcome.ofExcept,bind,Except.bind]

theorem ends_regexp (column pattern : String) (negated : Bool) :
    Ends machine schema row caseSensitiveLike (.regexp column pattern negated) :=
  ends_of_pattern _ rfl Iff.rfl id fun _ => sqliteCheckRegexp_returns _ _

/-- The condition is made of no other conditions. -/
def CheckExpr.isComparison : CheckExpr → Bool
  | .and _ _ | .or _ _ | .not _ => false
  | _ => true

/-- Every comparison ends so. -/
theorem ends_of_comparison (hfits : ∀ value∈row, Fits machine value)
    (h : expr.isComparison=true) : Ends machine schema row caseSensitiveLike expr := by
  cases expr with
  | and left right => cases h
  | or left right => cases h
  | not expr => cases h
  | divideCompare =>
    exact ends_divide _ _ _ _
  | moduloCompare =>
    exact ends_modulo _ _ _ _ _
  | like =>
    exact ends_like _ _ _ _
  | regexp =>
    exact ends_regexp _ _ _
  | concatWsCompare column separator suffix op value =>
    cases separator with
    | none => exact Or.inr (Or.inr ⟨id,id,total_ok _⟩)
    | some separator => exact ends_of_total rfl missing_singleton id fun _ _ => total_ok _
  -- the value of the column is compared as it is, or through a function that has no way to fail
  | compare | isNull | isDistinct | lengthCompare | octetLengthCompare | unicodeCompare
  | unicodeIsNull | signCompare | hexCompare | quoteCompare | nullIfIsNull | replaceCompare
  | replaceColumnCompare | roundingCompare | minMaxColumnCompare | concatCompare
  | unaryMathCompare | binaryMathCompare | typeOfCompare | noCaseCompare | coalesceCompare =>
    exact ends_of_total rfl missing_singleton id fun _ _ => total_ok _
  | caseFoldCompare | trimCompare =>
    exact ends_of_total rfl missing_singleton id fun _ _ => total_unless_null (total_ok _)
  | inList =>
    refine ends_of_total rfl missing_singleton id fun _ _ => total_unless_null ?_
    split_ifs
    · exact total_ok _
    · exact total_ok _
    · exact total_ok _
  | between =>
    refine ends_of_total rfl missing_singleton id fun _ _ => ?_
    split
    · exact total_ok _
    · exact total_ok _
  | glob =>
    exact ends_of_total rfl missing_singleton id fun _ _ =>
      total_unless_null ((matchesGlob_total _ _).bind fun _ _ => total_ok _)
  | isBool =>
    refine ends_of_total rfl missing_singleton id fun value _ => ?_
    dsimp only
    split
    · exact total_ok _
    · exact (sqliteCheckTruthy_total machine value).bind fun _ _ => total_ok _
  | truthy =>
    exact ends_of_total rfl missing_singleton id fun value _ =>
      total_unless_null ((sqliteCheckTruthy_total machine value).bind fun _ _ => total_ok _)
  | roundCompare =>
    exact ends_of_total rfl missing_singleton id fun value _ =>
      (sqliteCheckRound_total machine value _).bind fun _ _ => total_ok _
  | castCompare =>
    exact ends_of_total rfl missing_singleton id fun value _ =>
      (sqliteCheckCast_total machine value _).bind fun _ _ => total_ok _
  | jsonValidCompare column flags compare =>
    refine ends_of_total rfl missing_singleton id fun value _ =>
      (sqliteCheckJsonValid_total machine value _).bind fun valid _ => ?_
    split
    · exact total_ok _
    · exact total_ok _
    · exact total_ok _
  | absCompare =>
    exact ends_of_total rfl missing_singleton id fun value _ =>
      (sqliteCheckAbs_total machine value).bind fun _ _ => total_ok _
  | arithmeticCompare =>
    exact ends_of_total rfl missing_singleton id fun value _ =>
      (sqliteCheckAdd_total machine value _).bind fun _ _ => total_ok _
  | multiplyCompare =>
    exact ends_of_total rfl missing_singleton id fun value _ =>
      (sqliteCheckMultiply_total machine value _).bind fun _ _ => total_ok _
  | instrCompare =>
    exact ends_of_total rfl missing_singleton id fun value hvalue =>
      (sqliteCheckInstr_total (hfits value (valueForColumn_mem hvalue)) _).bind fun _ _ => total_ok _
  | substrCompare =>
    exact ends_of_total rfl missing_singleton id fun value hvalue => total_unless_null
      ((sqliteSubstrText_total (hfits value (valueForColumn_mem hvalue)).1 _ _).bind
        fun _ _ => total_ok _)

theorem ends_of_mem (hfits : ∀ value∈row, Fits machine value)
    (h : leaf∈expr.leaves) : Ends machine schema row caseSensitiveLike leaf := by
  induction expr with
  | and left right ihleft ihright => exact (List.mem_append.mp h).elim ihleft ihright
  | or left right ihleft ihright => exact (List.mem_append.mp h).elim ihleft ihright
  | not expr ih => exact ih h
  | _ =>
    obtain rfl := List.mem_singleton.mp h
    exact ends_of_comparison hfits rfl

/-- The value of a condition left out, it is the sequence of its comparisons. -/
theorem discard_evaluateCheckExpr (expr : CheckExpr) :
    (evaluateCheckExpr machine schema row caseSensitiveLike expr).discard=expr.leaves.forM fun leaf =>
      (evaluateCheckExpr machine schema row caseSensitiveLike leaf).discard := by
  induction expr with
  | and left right ihleft ihright =>
    rw [CheckExpr.leaves,forM_append,←ihleft,←ihright,evaluateCheckExpr]
    exact discard_bind_bind _ _ _
  | or left right ihleft ihright =>
    rw [CheckExpr.leaves,forM_append,←ihleft,←ihright,evaluateCheckExpr]
    exact discard_bind_bind _ _ _
  | not expr ih =>
    rw [CheckExpr.leaves,←ih,evaluateCheckExpr]
    exact discard_bind _ _
  | _ => exact (forM_singleton _ _).symm

/-- A condition returns exactly when each comparison that divides the smallest integer by minus one
stands behind one that is refused. -/
theorem evaluateCheckExpr_returns_iff (hfits : ∀ value∈row, Fits machine value) (expr : CheckExpr) :
    (evaluateCheckExpr machine schema row caseSensitiveLike expr).Returns ↔
      ∀ before leaf after, expr.leaves=before++leaf :: after →
        DividesSmallest machine schema row leaf →
          ∃ other∈before, Refused machine schema row other := by
  have hends : ∀ leaf∈expr.leaves, Ends machine schema row caseSensitiveLike leaf :=
    fun leaf hleaf => ends_of_mem hfits hleaf
  rw [Returns,Ne,←discard_eq_stuck,discard_evaluateCheckExpr,forM_eq_stuck]
  constructor
  · intro h before leaf after hleaves hdivides
    by_contra hnone
    refine h ⟨before,leaf,after,hleaves,fun other hother e he => hnone ⟨other,hother,?_⟩,?_⟩
    · have hmem : other∈expr.leaves := hleaves▸List.mem_append_left _ hother
      exact (hends other hmem).refused_iff.mpr ⟨e,discard_eq_err.mp he⟩
    · have hmem : leaf∈expr.leaves := hleaves▸List.mem_append_right _ List.mem_cons_self
      exact discard_eq_stuck.mpr ((hends leaf hmem).stuck_iff.mpr hdivides)
  · rintro h ⟨before,leaf,after,hleaves,hbefore,hstuck⟩
    have hmem : leaf∈expr.leaves := hleaves▸List.mem_append_right _ List.mem_cons_self
    obtain ⟨other,hother,hrefused⟩ := h before leaf after hleaves
      ((hends leaf hmem).stuck_iff.mp (discard_eq_stuck.mp hstuck))
    have hmem' : other∈expr.leaves := hleaves▸List.mem_append_left _ hother
    obtain ⟨e,he⟩ := (hends other hmem').refused_iff.mp hrefused
    exact hbefore other hother e (discard_eq_err.mpr he)

end Leaves

/-! ## A division that panics -/

/-- A table of one integer column. -/
def numberTable : Schema where
  name := "numbers"
  columns := [⟨"n",.integer,true,false,none,none,[],none⟩]
  checks := []
  foreignKeys := []
  primaryKeyConstraint := none
  uniqueConstraints := []
  strict := false

/-- `CHECK (n / -1 = 0)`. -/
def negatedIsZero : CheckExpr := .divideCompare "n" (.integer (-1)) .eq (.integer 0)

/-- A row of the table panics in its condition. -/
theorem smallest_integer_panics :
    numberTable.validateRowValues [.integer Int64.minValue]=.ok () ∧
    ¬(evaluateCheckExpr integerMachine numberTable [.integer Int64.minValue] false
      negatedIsZero).Returns := by
  refine ⟨rfl,?_⟩
  intro h
  exact h rfl

/-- The condition returns on other rows. -/
theorem negatedIsZero_returns :
    (evaluateCheckExpr integerMachine numberTable [.integer 7] false negatedIsZero).Returns := by
  refine (evaluateCheckExpr_returns_iff ?_ negatedIsZero).mpr ?_
  · intro value hvalue
    obtain rfl := List.mem_singleton.mp hvalue
    refine ⟨by decide,?_⟩
    intro bytes hbytes
    cases hbytes
  · intro before leaf after hleaves hdivides
    cases before with
    | nil =>
      obtain ⟨rfl,-⟩ := List.cons.inj hleaves
      exact absurd hdivides.1 (by decide)
    | cons other before => simp [negatedIsZero,CheckExpr.leaves] at hleaves

end RustSql.Check
