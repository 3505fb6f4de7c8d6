import RustSql.Sql.DistinctOrder

/-!
# Compound queries

`UNION`, `UNION ALL`, `INTERSECT` and `EXCEPT` between any number of selections, which are combined
from the left. Rows are the same when their keys are; how often a key comes out is what each
operator makes of how often it comes in.
-/

namespace RustSql.Sql

open RustSql.V2

/-- `CompoundOperator`. -/
inductive CompoundOperator where
  | union
  | unionAll
  | intersect
  | except
  deriving DecidableEq

/-! ## The combined rows -/

section Rows

variable (operators : Operators)

/-- The step of `deduplicate_rows_keep_last`: the place of each key seen so far, and the rows. -/
def keepLastStep (kept : (List (ℕ × String) → Option ℕ) × List Row) (row : Row) :
    (List (ℕ × String) → Option ℕ) × List Row :=
  let key := rowDedupKey operators row
  match kept.1 key with
  | some index => (kept.1,kept.2.set index row)
  | none => (Function.update kept.1 key (some kept.2.length),kept.2++[row])

/-- `deduplicate_rows_keep_last`. -/
def deduplicateRowsKeepLast (rows : List Row) : List Row :=
  (rows.foldl (keepLastStep operators) (fun _ => none,[])).2

/-- The rows of a `Plan::Union`, before they are put in order. -/
def compoundRows (operator : CompoundOperator) (left right : List Row) : List Row :=
  let rightKeys := right.map (rowDedupKey operators)
  match operator with
  | .unionAll => left++right
  | .union => deduplicateRowsKeepLast operators (left++right)
  | .intersect =>
    deduplicateRows operators (left.filter fun row =>
      rightKeys.contains (rowDedupKey operators row))
  | .except =>
    deduplicateRows operators (left.filter fun row =>
      !rightKeys.contains (rowDedupKey operators row))

variable {S : Type} (projecting : Projecting S) (reverseUnorderedSelects : Bool)

/-- A `Plan::Union` whose branches end in `left` and `right`. -/
def executeUnion (operator : CompoundOperator) (left right : Except DbError RowSet)
    (orderBy : List (OrderBy S)) (limit offset : Option ℕ) : Except DbError RowSet := do
  let left ← left
  let right ← right
  if left.columns.length=right.columns.length then
    sortAndLimitRows operators projecting reverseUnorderedSelects
      ⟨left.columns,compoundRows operators operator left.rows right.rows⟩ orderBy limit offset
  else .error (.plan "compound query output width mismatch")

/-- The plan of `plan_compound_select`: order and limit belong to the last operator. -/
def executeCompound (orderBy : List (OrderBy S)) (limit offset : Option ℕ) :
    Except DbError RowSet → List (CompoundOperator × Except DbError RowSet) →
      Except DbError RowSet
  | plan, [] => plan
  | plan, [compound] => executeUnion operators projecting reverseUnorderedSelects compound.1 plan
    compound.2 orderBy limit offset
  | plan, compound :: next :: compounds => executeCompound orderBy limit offset
    (executeUnion operators projecting reverseUnorderedSelects compound.1 plan compound.2 [] none
      none) (next :: compounds)

end Rows

/-! ## How often a key comes out -/

/-- How often a key comes out, from how often it comes in on either side. -/
def CompoundOperator.times : CompoundOperator → ℕ → ℕ → ℕ
  | .unionAll, left, right => left+right
  | .union, left, right => if 0 < left+right then 1 else 0
  | .intersect, left, right => if 0 < left ∧ 0 < right then 1 else 0
  | .except, left, right => if 0 < left ∧ right=0 then 1 else 0

section Times

variable {operators : Operators}

/-- How often the rows have a key. -/
def timesOf (operators : Operators) (key : List (ℕ × String)) (rows : List Row) : ℕ :=
  (rows.map (rowDedupKey operators)).count key

theorem timesOf_pos {key : List (ℕ × String)} {rows : List Row} :
    0 < timesOf operators key rows ↔ key∈rows.map (rowDedupKey operators) := List.count_pos_iff

theorem timesOf_perm {key : List (ℕ × String)} {rows rows' : List Row} (h : rows.Perm rows') :
    timesOf operators key rows=timesOf operators key rows' := (h.map _).count_eq key

/-- Rows without duplicates have a key once or not at all. -/
theorem timesOf_nodup {key : List (ℕ × String)} {rows : List Row} {p : Prop} [Decidable p]
    (hnodup : (rows.map (rowDedupKey operators)).Nodup)
    (hmem : key∈rows.map (rowDedupKey operators) ↔ p) :
    timesOf operators key rows=if p then 1 else 0 := by
  rw [timesOf]
  split
  · next h => exact List.count_eq_one_of_mem hnodup (hmem.mpr h)
  · next h => exact List.count_eq_zero_of_not_mem fun hkey => h (hmem.mp hkey)

/-- What `deduplicate_rows_keep_last` keeps from step to step: the map has the places of the keys,
which are those of the rows gone through. -/
structure KeepsLast (operators : Operators) (done : List Row)
    (kept : (List (ℕ × String) → Option ℕ) × List Row) : Prop where
  places : ∀ key index, kept.1 key=some index ↔
    (kept.2.map (rowDedupKey operators))[index]?=some key
  keys : ∀ key, key∈kept.2.map (rowDedupKey operators) ↔ key∈done.map (rowDedupKey operators)
  rows : ∀ row∈kept.2, row∈done

theorem KeepsLast.step {done : List Row} {kept : (List (ℕ × String) → Option ℕ) × List Row}
    (h : KeepsLast operators done kept) (row : Row) :
    KeepsLast operators (done++[row]) (keepLastStep operators kept row) := by
  have hdone : ∀ other, other∈done → other∈done++[row] := fun _ => List.mem_append_left [row]
  rw [keepLastStep]
  cases hplace : kept.1 (rowDedupKey operators row) with
  | some index =>
    have hindex := (h.places _ _).mp hplace
    have hsame : (kept.2.set index row).map (rowDedupKey operators)=
        kept.2.map (rowDedupKey operators) := by
      rw [List.map_set]
      obtain ⟨hlt,hkey⟩ := List.getElem?_eq_some_iff.mp hindex
      rw [←hkey,List.set_getElem_self]
    have hold : rowDedupKey operators row∈done.map (rowDedupKey operators) :=
      (h.keys _).mp (List.mem_of_getElem? hindex)
    refine ⟨fun key place => ?_,fun key => ?_,fun other hother => ?_⟩
    · rw [hsame]
      exact h.places key place
    · rw [hsame,h.keys,List.map_append,List.mem_append,List.map_singleton,List.mem_singleton]
      exact ⟨.inl,fun hkey => hkey.elim id fun heq => heq▸hold⟩
    · rcases List.mem_or_eq_of_mem_set hother with hother | rfl
      · exact hdone other (h.rows other hother)
      · exact List.mem_append_right done List.mem_cons_self
  | none =>
    refine ⟨fun key place => ?_,fun key => ?_,fun other hother => ?_⟩
    · simp only [List.map_append,List.map_singleton,Function.update_apply]
      have hlength : (kept.2.map (rowDedupKey operators)).length=kept.2.length := List.length_map _
      by_cases hkey : key=rowDedupKey operators row
      · subst hkey
        rw [if_pos rfl,Option.some.injEq]
        have hfresh := (h.places (rowDedupKey operators row) place).not.mp (by simp [hplace])
        grind
      · rw [if_neg hkey,h.places]
        grind
    · simp only [List.map_append,List.mem_append,h.keys]
    · rcases List.mem_append.mp hother with hother | hother
      · exact hdone other (h.rows other hother)
      · exact List.mem_append_right done hother

theorem keepsLast_rows (rows : List Row) :
    KeepsLast operators rows (rows.foldl (keepLastStep operators) (fun _ => none,[])) := by
  induction rows using List.reverseRecOn with
  | nil => exact ⟨by simp,by simp,by simp⟩
  | append_singleton rows row ih =>
    rw [List.foldl_append]
    exact ih.step row

theorem KeepsLast.nodup {done : List Row} {kept : (List (ℕ × String) → Option ℕ) × List Row}
    (h : KeepsLast operators done kept) : (kept.2.map (rowDedupKey operators)).Nodup := by
  rw [List.nodup_iff_getElem?_ne_getElem?]
  intro i j hij hj heq
  obtain ⟨key,hkey⟩ : ∃ key, (kept.2.map (rowDedupKey operators))[j]?=some key :=
    ⟨_,List.getElem?_eq_getElem hj⟩
  have hi := (h.places key i).mpr (heq.trans hkey)
  rw [(h.places key j).mpr hkey] at hi
  exact hij.ne' (Option.some.inj hi)

/-- What an operator makes of two lists of rows: each key comes out as often as the operator says,
and nothing but rows of the two. -/
theorem compoundRows_times (operator : CompoundOperator) (left right : List Row) :
    (∀ key, timesOf operators key (compoundRows operators operator left right)=
      operator.times (timesOf operators key left) (timesOf operators key right)) ∧
    ∀ row∈compoundRows operators operator left right, row∈left ∨ row∈right := by
  have hright {key : List (ℕ × String)} : timesOf operators key right=0 ↔
      key∉right.map (rowDedupKey operators) := List.count_eq_zero
  cases operator with
  | unionAll =>
    refine ⟨fun key => ?_,fun row => List.mem_append.mp⟩
    rw [compoundRows,timesOf,List.map_append,List.count_append]
    rfl
  | union =>
    have hkeeps := @keepsLast_rows operators (left++right)
    refine ⟨fun key => timesOf_nodup hkeeps.nodup ?_,
      fun row hrow => List.mem_append.mp (hkeeps.rows row hrow)⟩
    rw [Nat.add_pos_iff_pos_or_pos,timesOf_pos,timesOf_pos,←List.mem_append,←List.map_append]
    exact hkeeps.keys key
  | intersect =>
    rw [compoundRows,deduplicateRows_eq]
    refine ⟨fun key => timesOf_nodup (firsts_nodup _) ?_,fun row hrow =>
      .inl (List.mem_of_mem_filter ((firsts_sublist _).subset hrow))⟩
    rw [key_mem_firsts,timesOf_pos,timesOf_pos]
    grind
  | except =>
    rw [compoundRows,deduplicateRows_eq]
    refine ⟨fun key => timesOf_nodup (firsts_nodup _) ?_,fun row hrow =>
      .inl (List.mem_of_mem_filter ((firsts_sublist _).subset hrow))⟩
    rw [key_mem_firsts,timesOf_pos,hright]
    grind

end Times

/-! ## Any number of operators -/

section Chain

variable {operators : Operators} {S : Type} {projecting : Projecting S}
  {reverseUnorderedSelects : Bool} {orderBy : List (OrderBy S)} {limit offset : Option ℕ}
  {start rowset : RowSet} {compounds : List (CompoundOperator × RowSet)}

/-- Branches that all returned. -/
def returned (compounds : List (CompoundOperator × RowSet)) :
    List (CompoundOperator × Except DbError RowSet) :=
  compounds.map fun compound => (compound.1,.ok compound.2)

/-- How often a key comes out of operators applied from the left. -/
def chainTimes (operators : Operators) (key : List (ℕ × String)) (start : RowSet)
    (compounds : List (CompoundOperator × RowSet)) : ℕ :=
  compounds.foldl (fun times compound => compound.1.times times
    (timesOf operators key compound.2.rows)) (timesOf operators key start.rows)

/-- All branches have as many columns. -/
def SameWidth (start : RowSet) (compounds : List (CompoundOperator × RowSet)) : Prop :=
  ∀ compound∈compounds, start.columns.length=compound.2.columns.length

/-- Without an order and limits, the rows stay or are turned around. -/
theorem sortAndLimitRows_unordered (rowset : RowSet) :
    ∃ rows : List Row, rows.Perm rowset.rows ∧
      sortAndLimitRows operators projecting reverseUnorderedSelects rowset [] none none=
        .ok ⟨rowset.columns,rows⟩ := by
  refine ⟨if reverseUnorderedSelects then rowset.rows.reverse else rowset.rows,?_,?_⟩
  · split
    · exact List.reverse_perm rowset.rows
    · exact .refl rowset.rows
  · rw [sortAndLimitRows]
    simp only [List.isEmpty_nil,if_true,bind,Except.bind,applyLimitOffset_eq]
    rfl

theorem executeUnion_eq {operator : CompoundOperator} {left right : RowSet} :
    executeUnion operators projecting reverseUnorderedSelects operator (.ok left) (.ok right)
      orderBy limit offset=
      if left.columns.length=right.columns.length then
        sortAndLimitRows operators projecting reverseUnorderedSelects
          ⟨left.columns,compoundRows operators operator left.rows right.rows⟩ orderBy limit offset
      else .error (.plan "compound query output width mismatch") := rfl

theorem executeCompound_error {e : DbError}
    (compounds : List (CompoundOperator × Except DbError RowSet)) :
    executeCompound operators projecting reverseUnorderedSelects orderBy limit offset (.error e)
      compounds=.error e := by
  induction compounds with
  | nil => rfl
  | cons compound compounds ih =>
    cases compounds with
    | nil => rfl
    | cons next compounds => exact ih

/-- Rows that come from the branches, each key as often as the chain says. -/
structure FromChain (operators : Operators) (start : RowSet)
    (compounds : List (CompoundOperator × RowSet)) (rows : List Row) : Prop where
  times : ∀ key, timesOf operators key rows=chainTimes operators key start compounds
  rows : ∀ row∈rows, row∈start.rows ∨ ∃ compound∈compounds, row∈compound.2.rows

theorem FromChain.cons {compound : CompoundOperator × RowSet} {middle rows : List Row}
    (hmiddle : middle.Perm (compoundRows operators compound.1 start.rows compound.2.rows))
    (h : FromChain operators ⟨start.columns,middle⟩ compounds rows) :
    FromChain operators start (compound :: compounds) rows := by
  obtain ⟨htimes,hrows⟩ := @compoundRows_times operators compound.1 start.rows
    compound.2.rows
  refine ⟨fun key => ?_,fun row hrow => ?_⟩
  · rw [h.times,chainTimes,timesOf_perm hmiddle,htimes]
    rfl
  · rcases h.rows row hrow with hrow | ⟨other,hother,hrow⟩
    · rcases hrows row (hmiddle.mem_iff.mp hrow) with hrow | hrow
      · exact .inl hrow
      · exact .inr ⟨compound,List.mem_cons_self,hrow⟩
    · exact .inr ⟨other,List.mem_cons_of_mem compound hother,hrow⟩

/-- A chain of operators between branches of one width puts in order, and cuts, rows that have
each key as often as the operators applied from the left say. Branches of different widths are
refused. -/
theorem executeCompound_correct (hne : compounds≠[]) :
    (SameWidth start compounds → ∃ combined, FromChain operators start compounds combined ∧
      executeCompound operators projecting reverseUnorderedSelects orderBy limit offset
        (.ok start) (returned compounds)=
        sortAndLimitRows operators projecting reverseUnorderedSelects ⟨start.columns,combined⟩
          orderBy limit offset) ∧
    (¬SameWidth start compounds →
      executeCompound operators projecting reverseUnorderedSelects orderBy limit offset
        (.ok start) (returned compounds)=
        .error (.plan "compound query output width mismatch")) := by
  induction compounds generalizing start with
  | nil => exact absurd rfl hne
  | cons compound compounds ih =>
    have hcons : SameWidth start (compound :: compounds) ↔
        start.columns.length=compound.2.columns.length ∧ SameWidth start compounds :=
      List.forall_mem_cons
    rw [hcons]
    cases compounds with
    | nil =>
      rw [returned,List.map_cons,List.map_nil,executeCompound,executeUnion_eq]
      refine ⟨fun hwidth => ⟨_,FromChain.cons (.refl _) ⟨fun _ => rfl,fun _ => .inl⟩,
        if_pos hwidth.1⟩,fun hwidth => if_neg fun hfirst => hwidth ⟨hfirst,?_⟩⟩
      exact fun _ hother => absurd hother List.not_mem_nil
    | cons next compounds =>
      rw [returned,List.map_cons,List.map_cons,executeCompound,executeUnion_eq]
      by_cases hfirst : start.columns.length=compound.2.columns.length
      · obtain ⟨middle,hmiddle,hunion⟩ := @sortAndLimitRows_unordered operators S projecting
          reverseUnorderedSelects
          ⟨start.columns,compoundRows operators compound.1 start.rows compound.2.rows⟩
        obtain ⟨hsame,hother⟩ := @ih ⟨start.columns,middle⟩ (List.cons_ne_nil _ _)
        rw [if_pos hfirst,hunion]
        refine ⟨fun hwidth => ?_,fun hwidth => hother fun hrest => hwidth ⟨hfirst,hrest⟩⟩
        obtain ⟨combined,hcombined,hresult⟩ := hsame hwidth.2
        exact ⟨combined,hcombined.cons hmiddle,hresult⟩
      · rw [if_neg hfirst,executeCompound_error]
        exact ⟨fun hwidth => absurd hwidth.1 hfirst,fun _ => rfl⟩

end Chain

/-- Three branches, two operators and a limit. -/
theorem executeCompound_correct_textColumn :
    ∃ combined, FromChain plainOperators textColumn
        [(.unionAll,textColumn),(.intersect,textColumn)] combined ∧
      executeCompound plainOperators plainProjecting false [] (some 2) none (.ok textColumn)
        (returned [(.unionAll,textColumn),(.intersect,textColumn)])=
        sortAndLimitRows plainOperators plainProjecting false ⟨textColumn.columns,combined⟩ []
          (some 2) none :=
  (executeCompound_correct (List.cons_ne_nil _ _)).1 (by simp [SameWidth])

end RustSql.Sql
