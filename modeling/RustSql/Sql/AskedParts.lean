import RustSql.Sql.Readings

/-!
# The parts an evaluation asks for

An expression is not always evaluated as a whole: an error ends it, `CASE`, `COALESCE` and
`IIF` leave branches out, and a null pattern decides a `LIKE`. Two readings agree on every
part that an evaluation asks for exactly when they do the same about each of these parts.
-/

namespace RustSql.Sql

variable {S : Type} (operators : Operators)

/-- A row value stands for its expressions, any other expression for itself. -/
def ScalarExpr.elements (expr : ScalarExpr S) : List (ScalarExpr S) :=
  (expr.asTuple).getD [expr]

section Asking

variable (value : ScalarExpr S → Except DbError Value)

/-- Of a sequence, the expressions up to the first that fails. -/
def asksAll : List (ScalarExpr S) → List (ScalarExpr S)
  | [] => []
  | expr :: rest => expr :: (match value expr with
    | .ok _ => asksAll rest
    | .error _ => [])

/-- The expressions up to the first that is not null. -/
def asksFirst : List (ScalarExpr S) → List (ScalarExpr S)
  | [] => []
  | expr :: rest => expr :: (match value expr with
    | .ok .null => asksFirst rest
    | _ => [])

/-- Conditions up to the first that is true, and its value. -/
def asksPairs : List (ScalarExpr S) → List (ScalarExpr S)
  | [] => []
  | [expr] => [expr]
  | condition :: result :: rest =>
    condition :: (match value condition >>= fun found => operators.castValue found .boolean with
      | .ok found => if found==.boolean true then [result] else asksPairs rest
      | .error _ => [])

/-- Whether a clause of `CASE` applies. -/
def clauseApplies (base : Option Value) (whenValue : Value) : Except DbError Bool :=
  match base with
  | some baseValue => .ok (compareValues operators baseValue whenValue==some .eq)
  | none => do
    let condition ← operators.castValue whenValue .boolean
    .ok (condition==.boolean true)

/-- The clauses of `CASE` up to the first that applies, or what stands after `ELSE`. -/
def asksClauses (base : Option Value) (otherwise : List (ScalarExpr S)) :
    List (ScalarExpr S × ScalarExpr S) → List (ScalarExpr S)
  | [] => otherwise
  | (whenExpr,thenExpr) :: rest =>
    whenExpr :: (match value whenExpr >>= clauseApplies operators base with
      | .ok true => [thenExpr]
      | .ok false => asksClauses base otherwise rest
      | .error _ => [])

/-- A pattern, and what is looked at when it is not null. -/
def asksPattern (pattern : ScalarExpr S) (rest : List (ScalarExpr S)) : List (ScalarExpr S) :=
  pattern :: (match value pattern with
    | .ok found => if found=.null then [] else rest
    | .error _ => [])

/-- An escape, and the value that is matched when the escape is not null. -/
def asksEscape (escape : Option (ScalarExpr S)) (expr : ScalarExpr S) : List (ScalarExpr S) :=
  match escape with
  | none => [expr]
  | some escape => escape :: (match value escape >>= likeEscape operators with
    | .ok found => if found=.null then [] else [expr]
    | .error _ => [])

/-- The expressions whose values an expression asks for, when they have these values. -/
def ScalarExpr.asks : ScalarExpr S → List (ScalarExpr S)
  | .unaryPlus expr | .unaryMinus expr | .bitNot expr | .not expr | .cast expr _
  | .collate expr _ | .isBool expr _ _ => [expr]
  | .is left right _ | .compare left _ right =>
    match left.asTuple, right.asTuple with
    | some leftExprs, some rightExprs => asksAll value (leftExprs++rightExprs)
    | _, _ => asksAll value [left,right]
  | .binary left _ right => asksAll value [left,right]
  | .inList expr values _ =>
    match expr.asTuple with
    | some exprs => asksAll value (exprs++values.flatMap elements)
    | none => asksAll value (expr :: values)
  | .inSubquery expr _ _ | .compareSubquery expr _ _ => asksAll value expr.elements
  | .like expr pattern escape _ =>
    asksPattern value pattern (asksEscape operators value escape expr)
  | .glob expr pattern _ => asksPattern value pattern [expr]
  | .between expr low high _ =>
    match expr.asTuple, low.asTuple, high.asTuple with
    | some valueExprs, some lowExprs, some highExprs =>
      asksAll value (valueExprs++lowExprs++highExprs)
    | _, _, _ => asksAll value [expr,low,high]
  | .case base clauses elseExpr =>
    match base with
    | none => asksClauses operators value none elseExpr.toList clauses
    | some base => base :: (match value base with
      | .ok found => asksClauses operators value (some found) elseExpr.toList clauses
      | .error _ => [])
  | .function .coalesce args => if args.length < 2 then [] else asksFirst value args
  | .function .ifNull args => if args.length≠2 then [] else asksFirst value args
  | .function .iif args | .function .if' args =>
    if args.length < 2 then [] else asksPairs operators value args
  | .function _ args => asksAll value args
  | .tuple _ | .literal _ | .column _ | .subquery _ | .windowFunction | .aggregate _ => []

/-! ## What is asked for is below -/

variable {operators value}
variable {expr : ScalarExpr S} {exprs : List (ScalarExpr S)}

/-- What is asked is one of the expressions. -/
theorem mem_of_asksAll (h : expr∈asksAll value exprs) : expr∈exprs := by
  induction exprs with
  | nil => exact h
  | cons first rest ih =>
    rw [asksAll,List.mem_cons] at h
    rcases h with rfl | h
    · exact List.mem_cons_self
    · split at h
      · exact List.mem_cons_of_mem first (ih h)
      · cases h

/-- So it is where one is enough. -/
theorem mem_of_asksFirst (h : expr∈asksFirst value exprs) : expr∈exprs := by
  induction exprs with
  | nil => exact h
  | cons first rest ih =>
    rw [asksFirst,List.mem_cons] at h
    rcases h with rfl | h
    · exact List.mem_cons_self
    · split at h
      · exact List.mem_cons_of_mem first (ih h)
      · cases h

/-- So it is in pairs. -/
theorem mem_of_asksPairs (h : expr∈asksPairs operators value exprs) : expr∈exprs := by
  induction exprs using asksPairs.induct with
  | case1 => exact h
  | case2 only => exact h
  | case3 condition result rest ih =>
    rw [asksPairs,List.mem_cons] at h
    rcases h with rfl | h
    · exact List.mem_cons_self
    · refine List.mem_cons_of_mem condition ?_
      split at h
      · split at h
        · rw [List.mem_singleton.mp h]
          exact List.mem_cons_self
        · exact List.mem_cons_of_mem result (ih h)
      · cases h

/-- So it is in the clauses of a `CASE`. -/
theorem mem_of_asksClauses {base : Option Value} {otherwise : List (ScalarExpr S)}
    {clauses : List (ScalarExpr S × ScalarExpr S)}
    (h : expr∈asksClauses operators value base otherwise clauses) :
    expr∈clauses.map Prod.fst++clauses.map Prod.snd++otherwise := by
  induction clauses with
  | nil => exact h
  | cons clause rest ih =>
    obtain ⟨whenExpr,thenExpr⟩ := clause
    rw [asksClauses,List.mem_cons] at h
    simp only [List.map_cons,List.mem_append,List.mem_cons] at ih ⊢
    rcases h with rfl | h
    · exact .inl (.inl (.inl rfl))
    · split at h
      · exact .inl (.inr (.inl (List.mem_singleton.mp h)))
      · have hrest := ih h
        tauto
      · cases h

/-- So it is around a pattern. -/
theorem mem_of_asksPattern {pattern : ScalarExpr S} (h : expr∈asksPattern value pattern exprs) :
    expr=pattern ∨ expr∈exprs := by
  rw [asksPattern,List.mem_cons] at h
  refine h.imp_right fun h => ?_
  split at h
  · split at h
    · cases h
    · exact h
  · cases h

/-- So it is around an escape. -/
theorem mem_of_asksEscape {escape : Option (ScalarExpr S)} {matched : ScalarExpr S}
    (h : expr∈asksEscape operators value escape matched) :
    expr∈escape.toList ∨ expr=matched := by
  cases escape with
  | none => exact .inr (List.mem_singleton.mp h)
  | some escape =>
    rw [asksEscape,List.mem_cons] at h
    refine h.imp (fun h => List.mem_singleton.mpr h) fun h => ?_
    split at h
    · split at h
      · cases h
      · exact List.mem_singleton.mp h
    · cases h

/-- An element of a row value is below it, any other element is the expression itself. -/
theorem elements_cases {element : ScalarExpr S} (h : element∈expr.elements) :
    element=expr ∨ element∈expr.children := by
  cases expr with
  | tuple exprs => exact .inr h
  | _ => exact .inl (List.mem_singleton.mp h)

/-- The elements of a tuple are its parts. -/
theorem asTuple_children {exprs : List (ScalarExpr S)} (h : expr.asTuple=some exprs) :
    expr.children=exprs := by
  cases expr with
  | tuple own => exact Option.some.inj h
  | _ => cases h

/-- What an expression asks for is one of its children, or of theirs. -/
theorem ScalarExpr.asks_below {asked : ScalarExpr S} (h : asked∈expr.asks operators value) :
    asked∈expr.children ∨ ∃ child∈expr.children, asked∈child.children := by
  -- the elements of row values among the children
  have hsides : ∀ {left right : ScalarExpr S} {xs ys : List (ScalarExpr S)},
      left.asTuple=some xs → right.asTuple=some ys → asked∈asksAll value (xs++ys) →
      ∃ child∈[left,right], asked∈child.children := by
    intro left right xs ys hx hy hasked
    rcases List.mem_append.mp (mem_of_asksAll hasked) with hmem | hmem
    · exact ⟨left,by simp,asTuple_children hx ▸ hmem⟩
    · exact ⟨right,by simp,asTuple_children hy ▸ hmem⟩
  have helements : ∀ {exprs : List (ScalarExpr S)}, asked∈exprs.flatMap elements →
      asked∈exprs ∨ ∃ child∈exprs, asked∈child.children := by
    intro exprs hasked
    obtain ⟨child,hchild,hmem⟩ := List.mem_flatMap.mp hasked
    rcases elements_cases hmem with rfl | hmem
    · exact .inl hchild
    · exact .inr ⟨child,hchild,hmem⟩
  cases expr with
  | is left right negated =>
    simp only [asks] at h
    split at h
    · next xs ys hx hy => exact .inr (hsides hx hy h)
    · exact .inl (mem_of_asksAll h)
  | compare left op right =>
    simp only [asks] at h
    split at h
    · next xs ys hx hy => exact .inr (hsides hx hy h)
    · exact .inl (mem_of_asksAll h)
  | binary left op right => exact .inl (mem_of_asksAll h)
  | inList expr values negated =>
    simp only [asks] at h
    split at h
    · next xs hx =>
      rcases List.mem_append.mp (mem_of_asksAll h) with hmem | hmem
      · exact .inr ⟨expr,List.mem_cons_self,asTuple_children hx ▸ hmem⟩
      · rcases helements hmem with hvalue | ⟨child,hchild,hbelow⟩
        · exact .inl (List.mem_cons_of_mem expr hvalue)
        · exact .inr ⟨child,List.mem_cons_of_mem expr hchild,hbelow⟩
    · exact .inl (mem_of_asksAll h)
  | inSubquery expr query negated =>
    exact helements (List.mem_flatMap.mpr ⟨expr,List.mem_cons_self,mem_of_asksAll h⟩)
  | compareSubquery left op query =>
    exact helements (List.mem_flatMap.mpr ⟨left,List.mem_cons_self,mem_of_asksAll h⟩)
  | like expr pattern escape negated =>
    refine .inl ?_
    rcases mem_of_asksPattern h with rfl | h
    · simp [children]
    · rcases mem_of_asksEscape h with h | rfl
      · exact List.mem_cons_of_mem _ (List.mem_cons_of_mem _ h)
      · exact List.mem_cons_self
  | glob expr pattern negated =>
    refine .inl ?_
    rcases mem_of_asksPattern h with rfl | h
    · simp [children]
    · rw [List.mem_singleton.mp h]
      exact List.mem_cons_self
  | between expr low high negated =>
    simp only [asks] at h
    split at h
    · next xs ys zs hx hy hz =>
      refine .inr ?_
      have hmem := mem_of_asksAll h
      simp only [List.mem_append] at hmem
      rcases hmem with (hmem | hmem) | hmem
      · exact ⟨expr,by simp [children],asTuple_children hx ▸ hmem⟩
      · exact ⟨low,by simp [children],asTuple_children hy ▸ hmem⟩
      · exact ⟨high,by simp [children],asTuple_children hz ▸ hmem⟩
    · exact .inl (mem_of_asksAll h)
  | case base clauses elseExpr =>
    refine .inl ?_
    simp only [asks] at h
    simp only [children,List.mem_append]
    split at h
    · have hmem := mem_of_asksClauses h
      simp only [List.mem_append] at hmem
      tauto
    · rcases List.mem_cons.mp h with rfl | h
      · exact .inl (.inl (.inl (List.mem_singleton.mpr rfl)))
      · split at h
        · have hmem := mem_of_asksClauses h
          simp only [List.mem_append] at hmem
          tauto
        · cases h
  | function func args =>
    refine .inl (show asked∈args from ?_)
    cases func <;> simp only [asks] at h <;> first
      | exact mem_of_asksAll h
      | (split at h
         · cases h
         · first | exact mem_of_asksFirst h | exact mem_of_asksPairs h)
  | unaryPlus | unaryMinus | bitNot | not | cast | collate | isBool => exact .inl h
  | _ => cases h

/-- Asking for a part. -/
def ScalarExpr.Asks (operators : Operators) (value : ScalarExpr S → Except DbError Value)
    (asked expr : ScalarExpr S) : Prop := asked∈expr.asks operators value

/-- Asking for parts comes to an end. -/
theorem ScalarExpr.asks_wellFounded (operators : Operators)
    (value : ScalarExpr S → Except DbError Value) :
    WellFounded (ScalarExpr.Asks operators value) := by
  refine Subrelation.wf (fun {asked expr} h => ?_) child_wellFounded.transGen
  rcases asks_below h with hchild | ⟨child,hchild,hbelow⟩
  · exact .single hchild
  · exact .tail (.single hbelow) hchild

/-- What an evaluation asks for is a part of the expression. -/
theorem ScalarExpr.part_of_asked {part : ScalarExpr S}
    (h : Part (ScalarExpr.Asks operators value) expr part) :
    Part ScalarExpr.IsChild expr part := by
  induction h with
  | refl => exact Part.self expr
  | tail _ hasked ih =>
    rcases asks_below hasked with hchild | ⟨child,hchild,hbelow⟩
    · exact ih.tail hchild
    · exact (ih.tail hchild).tail hbelow

end Asking

/-! ## Agreement on what is asked for -/

section Agreement

variable {operators} {reading other : Reading S} {exprs : List (ScalarExpr S)}
  {expr : ScalarExpr S}

/-- Two programs that agree as far as they run. -/
theorem bind_congr_ok {α β : Type} {x y : Except DbError α} {f g : α → Except DbError β}
    (hxy : x=y) (h : ∀ value, y=.ok value → f value=g value) : (x >>= f)=(y >>= g) := by
  subst hxy
  exact bind_ok_iff.mpr h

/-- Two readings agree on the expressions that are asked for. -/
def Alike (operators : Operators) (reading other : Reading S)
    (asked : List (ScalarExpr S)) : Prop :=
  ∀ expr∈asked, evaluate operators reading expr=evaluate operators other expr

/-- The first and the others are read alike. -/
theorem alike_cons {asked : List (ScalarExpr S)} (h : Alike operators reading other (expr::asked)) :
    evaluate operators reading expr=evaluate operators other expr ∧
      Alike operators reading other asked :=
  ⟨h expr List.mem_cons_self,fun x hx => h x (List.mem_cons_of_mem expr hx)⟩

/-- The rest of a sequence is asked for when its first expression has a value. -/
theorem alike_next {rest : List (ScalarExpr S)} {value : Value}
    (h : Alike operators reading other (asksAll (evaluate operators other) (expr::rest)))
    (hvalue : evaluate operators other expr=.ok value) :
    Alike operators reading other (asksAll (evaluate operators other) rest) := by
  have htail := (alike_cons h).2
  rw [hvalue] at htail
  exact htail

/-- A list, as far as it is read. -/
theorem evaluateAll_asked
    (h : Alike operators reading other (asksAll (evaluate operators other) exprs)) :
    evaluateAll operators reading exprs=evaluateAll operators other exprs := by
  induction exprs with
  | nil => rfl
  | cons expr rest ih =>
    rw [evaluateAll,evaluateAll]
    refine bind_congr_ok (alike_cons h).1 fun value hvalue => ?_
    rw [ih (alike_next h hvalue)]

/-- The second part of a sequence is asked for when the first has its values. -/
theorem alike_append {rest : List (ScalarExpr S)}
    (h : Alike operators reading other (asksAll (evaluate operators other) (exprs++rest))) :
    evaluateAll operators reading exprs=evaluateAll operators other exprs ∧
      ∀ values, evaluateAll operators other exprs=.ok values →
        Alike operators reading other (asksAll (evaluate operators other) rest) := by
  induction exprs with
  | nil => exact ⟨rfl,fun _ _ => h⟩
  | cons expr exprs ih =>
    have hnext : ∀ value, evaluate operators other expr=.ok value →
        Alike operators reading other (asksAll (evaluate operators other) (exprs++rest)) :=
      fun value hvalue => alike_next h hvalue
    constructor
    · rw [evaluateAll,evaluateAll]
      refine bind_congr_ok (alike_cons h).1 fun value hvalue => ?_
      rw [(ih (hnext value hvalue)).1]
    · intro values hvalues
      rw [evaluateAll] at hvalues
      cases hvalue : evaluate operators other expr with
      | error error =>
        rw [hvalue] at hvalues
        cases hvalues
      | ok value =>
        rw [hvalue] at hvalues
        cases hrest : evaluateAll operators other exprs with
        | error error =>
          change (evaluateAll operators other exprs >>= _)=_ at hvalues
          rw [hrest] at hvalues
          cases hvalues
        | ok found => exact (ih (hnext value hvalue)).2 found hrest

/-- The values of a candidate are those of its elements. -/
theorem candidateValues_eq (reading : Reading S) (expr : ScalarExpr S) :
    candidateValues operators reading expr=evaluateAll operators reading expr.elements := by
  cases expr with
  | tuple exprs => rfl
  | _ =>
    simp only [candidateValues,ScalarExpr.elements,ScalarExpr.asTuple,Option.getD_none,
      evaluateAll]
    rfl

/-- A list of tuples, as far as it is read. -/
theorem evaluateTuples_asked (h : Alike operators reading other
      (asksAll (evaluate operators other) (exprs.flatMap ScalarExpr.elements))) :
    evaluateTuples operators reading exprs=evaluateTuples operators other exprs := by
  induction exprs with
  | nil => rfl
  | cons expr rest ih =>
    rw [evaluateTuples_cons,evaluateTuples_cons,candidateValues_eq,candidateValues_eq]
    obtain ⟨hsame,hrest⟩ := alike_append h
    refine bind_congr_ok hsame fun values hvalues => ?_
    rw [ih (hrest values hvalues)]

/-- The first value that is no `NULL`. -/
theorem evaluateFirst_asked
    (h : Alike operators reading other (asksFirst (evaluate operators other) exprs)) :
    evaluateFirst operators reading exprs=evaluateFirst operators other exprs := by
  induction exprs with
  | nil => rfl
  | cons expr rest ih =>
    rw [evaluateFirst,evaluateFirst]
    refine bind_congr_ok (alike_cons h).1 fun value hvalue => ?_
    have hrest := (alike_cons h).2
    rw [hvalue] at hrest
    cases value with
    | null => exact ih hrest
    | _ => rfl

/-- Pairs, as far as they are read. -/
theorem evaluatePairs_asked
    (h : Alike operators reading other (asksPairs operators (evaluate operators other) exprs)) :
    evaluatePairs operators reading exprs=evaluatePairs operators other exprs := by
  induction exprs using asksPairs.induct with
  | case1 => rfl
  | case2 only =>
    rw [evaluatePairs,evaluatePairs]
    exact h only List.mem_cons_self
  | case3 condition result rest ih =>
    rw [evaluatePairs,evaluatePairs]
    refine bind_congr_ok (alike_cons h).1 fun value hvalue => ?_
    refine bind_congr_ok rfl fun found hfound => ?_
    have hrest := (alike_cons h).2
    rw [hvalue,show (Except.ok value >>= fun found => operators.castValue found .boolean)=
      .ok found from hfound] at hrest
    dsimp only at hrest
    split
    · next htrue =>
      rw [if_pos htrue] at hrest
      exact hrest result List.mem_cons_self
    · next hfalse =>
      rw [if_neg hfalse] at hrest
      exact ih hrest

/-- An expression that may be missing. -/
theorem evaluateOption_asked {expr : Option (ScalarExpr S)}
    (h : Alike operators reading other expr.toList) :
    evaluateOption operators reading expr=evaluateOption operators other expr := by
  cases expr with
  | none => rfl
  | some expr => rw [evaluateOption,evaluateOption,h expr List.mem_cons_self]

/-- The first clause applies, or the others are tried. -/
theorem evaluateClauses_cons (reading : Reading S) (base : Option Value)
    (whenExpr thenExpr : ScalarExpr S) (rest : List (ScalarExpr S × ScalarExpr S)) :
    evaluateClauses operators reading base ((whenExpr,thenExpr)::rest)=(do
      let whenValue ← evaluate operators reading whenExpr
      let applies ← clauseApplies operators base whenValue
      if applies then do
        let value ← evaluate operators reading thenExpr
        .ok (some value)
      else evaluateClauses operators reading base rest) := by
  rw [evaluateClauses]
  refine bind_congr fun whenValue => ?_
  cases base with
  | some baseValue => rfl
  | none => simp [clauseApplies]

/-- An escape, if there is one. -/
theorem evaluateEscape_asked {escape : Option (ScalarExpr S)}
    (h : Alike operators reading other escape.toList) :
    evaluateEscape operators reading escape=evaluateEscape operators other escape := by
  cases escape with
  | none => rfl
  | some escape => rw [evaluateEscape,evaluateEscape,h escape List.mem_cons_self]

/-- `CASE` after its base: the clauses, and what stands after `ELSE`. -/
theorem evaluateClauses_asked {base : Option Value} {elseExpr : Option (ScalarExpr S)}
    {clauses : List (ScalarExpr S × ScalarExpr S)}
    (h : Alike operators reading other
      (asksClauses operators (evaluate operators other) base elseExpr.toList clauses)) :
    evaluateClauses operators reading base clauses=
        evaluateClauses operators other base clauses ∧
      (evaluateClauses operators other base clauses=.ok none →
        evaluateOption operators reading elseExpr=evaluateOption operators other elseExpr) := by
  induction clauses with
  | nil => exact ⟨rfl,fun _ => evaluateOption_asked h⟩
  | cons clause rest ih =>
    obtain ⟨whenExpr,thenExpr⟩ := clause
    obtain ⟨hwhen,hasked⟩ := alike_cons h
    rw [evaluateClauses_cons,evaluateClauses_cons,hwhen]
    cases hvalue : evaluate operators other whenExpr with
    | error error => exact ⟨rfl,nofun⟩
    | ok whenValue =>
      rw [hvalue] at hasked
      change Alike operators reading other (match clauseApplies operators base whenValue with
        | .ok true => [thenExpr]
        | .ok false => asksClauses operators (evaluate operators other) base elseExpr.toList rest
        | .error _ => []) at hasked
      change (clauseApplies operators base whenValue >>= _)=
        (clauseApplies operators base whenValue >>= _) ∧
          ((clauseApplies operators base whenValue >>= _)=_ → _)
      cases happlies : clauseApplies operators base whenValue with
      | error error => exact ⟨rfl,nofun⟩
      | ok applies =>
        rw [happlies] at hasked
        cases applies with
        | true =>
          refine ⟨congrArg (· >>= fun value => Except.ok (some value))
            (hasked thenExpr List.mem_cons_self),fun hnone => ?_⟩
          change (evaluate operators other thenExpr >>= fun value =>
            Except.ok (some value))=_ at hnone
          cases hfound : evaluate operators other thenExpr with
          | error error =>
            rw [hfound] at hnone
            cases hnone
          | ok found =>
            rw [hfound] at hnone
            cases hnone
        | false => exact ih hasked

/-- The first two of a sequence. -/
theorem alike_two {left right : ScalarExpr S} {rest : List (ScalarExpr S)}
    (h : Alike operators reading other (asksAll (evaluate operators other) (left::right::rest))) :
    evaluate operators reading left=evaluate operators other left ∧
      ∀ value, evaluate operators other left=.ok value →
        evaluate operators reading right=evaluate operators other right :=
  ⟨(alike_cons h).1,fun _ hvalue => (alike_cons (alike_next h hvalue)).1⟩

/-- Two sides, both as row values or both as single values. -/
theorem sides_asked {α : Type} {left right : ScalarExpr S}
    {tuples : List Value → List Value → Except DbError α}
    {values : Value → Value → Except DbError α}
    (h : Alike operators reading other (match left.asTuple, right.asTuple with
      | some leftExprs, some rightExprs =>
        asksAll (evaluate operators other) (leftExprs++rightExprs)
      | _, _ => asksAll (evaluate operators other) [left,right])) :
    (match left.asTuple, right.asTuple with
      | some leftExprs, some rightExprs => do
        let left ← evaluateAll operators reading leftExprs
        let right ← evaluateAll operators reading rightExprs
        tuples left right
      | _, _ => do
        let left ← evaluate operators reading left
        let right ← evaluate operators reading right
        values left right)=
      (match left.asTuple, right.asTuple with
      | some leftExprs, some rightExprs => do
        let left ← evaluateAll operators other leftExprs
        let right ← evaluateAll operators other rightExprs
        tuples left right
      | _, _ => do
        let left ← evaluate operators other left
        let right ← evaluate operators other right
        values left right) := by
  have hsingle : Alike operators reading other (asksAll (evaluate operators other) [left,right]) →
      (do
        let left ← evaluate operators reading left
        let right ← evaluate operators reading right
        values left right)=
      (do
        let left ← evaluate operators other left
        let right ← evaluate operators other right
        values left right) := by
    intro h
    obtain ⟨hleft,hright⟩ := alike_two h
    exact bind_congr_ok hleft fun value hvalue => by rw [hright value hvalue]
  cases hx : left.asTuple with
  | none =>
    rw [hx] at h
    exact hsingle h
  | some xs =>
    cases hy : right.asTuple with
    | none =>
      rw [hx,hy] at h
      exact hsingle h
    | some ys =>
      rw [hx,hy] at h
      obtain ⟨hleft,hright⟩ := alike_append h
      refine bind_congr_ok hleft fun found hfound => ?_
      rw [evaluateAll_asked (hright found hfound)]

/-- What is left of `LIKE` and `GLOB` once the pattern is known. -/
theorem pattern_asked {α : Type} {pattern : ScalarExpr S} {rest : List (ScalarExpr S)} {null : α}
    {f g : Value → Except DbError α}
    (h : Alike operators reading other (asksPattern (evaluate operators other) pattern rest))
    (hrest : Alike operators reading other rest → ∀ found, f found=g found) :
    (do
      let found ← evaluate operators reading pattern
      if found=Value.null then .ok null else f found)=
    (do
      let found ← evaluate operators other pattern
      if found=Value.null then .ok null else g found) := by
  refine bind_congr_ok (alike_cons h).1 fun found hfound => ?_
  have hasked := (alike_cons h).2
  rw [hfound] at hasked
  split
  · rfl
  · next hne =>
    dsimp only at hasked
    rw [if_neg hne] at hasked
    exact hrest hasked found

/-- What is left of `LIKE` once the escape is known. -/
theorem escape_asked {α : Type} {escape : Option (ScalarExpr S)} {null : α}
    {f : LikeEscapeValue → Value → Except DbError α}
    (h : Alike operators reading other
      (asksEscape operators (evaluate operators other) escape expr)) :
    (do
      let found ← evaluateEscape operators reading escape
      if found=LikeEscapeValue.null then .ok null
      else do
        let value ← evaluate operators reading expr
        f found value)=
    (do
      let found ← evaluateEscape operators other escape
      if found=LikeEscapeValue.null then .ok null
      else do
        let value ← evaluate operators other expr
        f found value) := by
  cases escape with
  | none =>
    have hexpr := h expr List.mem_cons_self
    rw [hexpr]
    rfl
  | some escape =>
    obtain ⟨hescape,hasked⟩ := alike_cons h
    have hsame : evaluateEscape operators reading (some escape)=
        evaluateEscape operators other (some escape) :=
      evaluateEscape_asked fun x hx => by rw [List.mem_singleton.mp hx,hescape]
    refine bind_congr_ok hsame fun found hfound => ?_
    rw [show (evaluate operators other escape >>= likeEscape operators)=.ok found from by
      rw [evaluateEscape] at hfound
      exact hfound] at hasked
    split
    · rfl
    · next hne =>
      dsimp only at hasked
      rw [if_neg hne] at hasked
      rw [hasked expr List.mem_cons_self]

/-- Three sides, all as row values or all as single values. -/
theorem threeSides_asked {α : Type} {low high : ScalarExpr S} (negated : Bool)
    {tuples : List Value → List Value → List Value → Except DbError α}
    {values : Value → Value → Value → Except DbError α}
    (h : Alike operators reading other
      ((ScalarExpr.between expr low high negated).asks operators (evaluate operators other))) :
    (match expr.asTuple, low.asTuple, high.asTuple with
      | some valueExprs, some lowExprs, some highExprs => do
        let value ← evaluateAll operators reading valueExprs
        let low ← evaluateAll operators reading lowExprs
        let high ← evaluateAll operators reading highExprs
        tuples value low high
      | _, _, _ => do
        let value ← evaluate operators reading expr
        let low ← evaluate operators reading low
        let high ← evaluate operators reading high
        values value low high)=
      (match expr.asTuple, low.asTuple, high.asTuple with
      | some valueExprs, some lowExprs, some highExprs => do
        let value ← evaluateAll operators other valueExprs
        let low ← evaluateAll operators other lowExprs
        let high ← evaluateAll operators other highExprs
        tuples value low high
      | _, _, _ => do
        let value ← evaluate operators other expr
        let low ← evaluate operators other low
        let high ← evaluate operators other high
        values value low high) := by
  have hsingle : Alike operators reading other
      (asksAll (evaluate operators other) [expr,low,high]) →
      (do
        let value ← evaluate operators reading expr
        let low ← evaluate operators reading low
        let high ← evaluate operators reading high
        values value low high)=
      (do
        let value ← evaluate operators other expr
        let low ← evaluate operators other low
        let high ← evaluate operators other high
        values value low high) := by
    intro h
    refine bind_congr_ok (alike_cons h).1 fun value hvalue => ?_
    obtain ⟨hlow,hhigh⟩ := alike_two (alike_next h hvalue)
    refine bind_congr_ok hlow fun lowValue hlowValue => ?_
    rw [hhigh lowValue hlowValue]
  rw [ScalarExpr.asks] at h
  cases hx : expr.asTuple with
  | none =>
    rw [hx] at h
    exact hsingle h
  | some xs =>
    cases hy : low.asTuple with
    | none =>
      rw [hx,hy] at h
      exact hsingle h
    | some ys =>
      cases hz : high.asTuple with
      | none =>
        rw [hx,hy,hz] at h
        exact hsingle h
      | some zs =>
        rw [hx,hy,hz] at h
        dsimp only at h
        rw [List.append_assoc] at h
        obtain ⟨hvalues,hrest⟩ := alike_append h
        refine bind_congr_ok hvalues fun values hfound => ?_
        obtain ⟨hlows,hhighs⟩ := alike_append (hrest values hfound)
        refine bind_congr_ok hlows fun lows hlow => ?_
        rw [evaluateAll_asked (hhighs lows hlow)]

/-- Two tests of three values agree on all values the sides have. -/
theorem threeValues_iff {α : Type} {low high : ScalarExpr S}
    {f g : Value → Value → Value → Except DbError α} :
    (do
      let value ← evaluate operators other expr
      let low ← evaluate operators other low
      let high ← evaluate operators other high
      f value low high)=
    (do
      let value ← evaluate operators other expr
      let low ← evaluate operators other low
      let high ← evaluate operators other high
      g value low high) ↔
    ∀ value lowValue highValue, evaluate operators other expr=.ok value →
      evaluate operators other low=.ok lowValue → evaluate operators other high=.ok highValue →
      f value lowValue highValue=g value lowValue highValue := by
  simp only [bind_ok_iff]
  exact ⟨fun h value lowValue highValue hv hl hh => h value hv lowValue hl highValue hh,
    fun h value hv lowValue hl highValue hh => h value lowValue highValue hv hl hh⟩

/-- `BETWEEN` is the same under two readings where they read it alike. -/
theorem between_asked_iff {low high : ScalarExpr S} (negated : Bool)
    (h : Alike operators reading other
      ((ScalarExpr.between expr low high negated).asks operators (evaluate operators other))) :
    evaluate operators reading (.between expr low high negated)=
        evaluate operators other (.between expr low high negated) ↔
      OwnAgree operators reading other (.between expr low high negated) := by
  rw [evaluate_between,evaluate_between,OwnAgree]
  refine (Eq.congr_left (threeSides_asked negated h)).trans ?_
  cases expr.asTuple with
  | none => exact threeValues_iff.trans (by simp only [Except.ok.injEq])
  | some xs =>
    cases low.asTuple with
    | none => exact threeValues_iff.trans (by simp only [Except.ok.injEq])
    | some ys =>
      cases high.asTuple with
      | none => exact threeValues_iff.trans (by simp only [Except.ok.injEq])
      | some zs => exact iff_of_true rfl trivial

/-- `IN` a list. -/
theorem inList_asked {α : Type} {values : List (ScalarExpr S)}
    {tuples : List Value → List (List Value) → Except DbError α}
    {single : Value → List Value → Except DbError α}
    (h : Alike operators reading other (match expr.asTuple with
      | some exprs =>
        asksAll (evaluate operators other) (exprs++values.flatMap ScalarExpr.elements)
      | none => asksAll (evaluate operators other) (expr::values))) :
    (match expr.asTuple with
      | some exprs => do
        let left ← evaluateAll operators reading exprs
        let candidates ← evaluateTuples operators reading values
        tuples left candidates
      | none => do
        let left ← evaluate operators reading expr
        let values ← evaluateAll operators reading values
        single left values)=
      (match expr.asTuple with
      | some exprs => do
        let left ← evaluateAll operators other exprs
        let candidates ← evaluateTuples operators other values
        tuples left candidates
      | none => do
        let left ← evaluate operators other expr
        let values ← evaluateAll operators other values
        single left values) := by
  cases hx : expr.asTuple with
  | none =>
    rw [hx] at h
    refine bind_congr_ok (alike_cons h).1 fun left hleft => ?_
    rw [evaluateAll_asked (alike_next h hleft)]
  | some xs =>
    rw [hx] at h
    obtain ⟨hleft,hvalues⟩ := alike_append h
    refine bind_congr_ok hleft fun left hfound => ?_
    rw [evaluateTuples_asked (hvalues left hfound)]

/-- The left side of a comparison with a subquery, as a row value or as a single value. -/
theorem elements_asked
    (h : Alike operators reading other (asksAll (evaluate operators other) expr.elements)) :
    (expr.asTuple=none → evaluate operators reading expr=evaluate operators other expr) ∧
      ∀ exprs, expr.asTuple=some exprs →
        evaluateAll operators reading exprs=evaluateAll operators other exprs := by
  constructor
  · intro hnone
    rw [ScalarExpr.elements,hnone] at h
    exact (alike_cons h).1
  · intro exprs hexprs
    rw [ScalarExpr.elements,hexprs] at h
    exact evaluateAll_asked h

/-- A function asks for its arguments in its own order. -/
theorem function_asked (func : ScalarFunc) {args : List (ScalarExpr S)}
    (h : Alike operators reading other
      ((ScalarExpr.function func args).asks operators (evaluate operators other))) :
    evaluate operators reading (.function func args)=
      evaluate operators other (.function func args) := by
  cases func with
  | coalesce | ifNull =>
    rw [ScalarExpr.asks] at h
    rw [evaluate,evaluate]
    split at h
    · next hlength => simp only [if_pos hlength]
    · next hlength => simp only [if_neg hlength,evaluateFirst_asked h]
  | iif | if' =>
    rw [ScalarExpr.asks] at h
    rw [evaluate,evaluate]
    split at h
    · next hlength => simp only [if_pos hlength]
    · next hlength => simp only [if_neg hlength,evaluatePairs_asked h]
  | _ =>
    have hall := evaluateAll_asked h
    simp only [evaluate,hall]

/-- `CASE` asks for its base, for clauses until one applies, and for `ELSE` when none does. -/
theorem case_asked {base elseExpr : Option (ScalarExpr S)}
    {clauses : List (ScalarExpr S × ScalarExpr S)}
    (h : Alike operators reading other
      ((ScalarExpr.case base clauses elseExpr).asks operators (evaluate operators other))) :
    evaluate operators reading (.case base clauses elseExpr)=
      evaluate operators other (.case base clauses elseExpr) := by
  have hclauses : ∀ found, Alike operators reading other
      (asksClauses operators (evaluate operators other) found elseExpr.toList clauses) →
      (do
        match ← evaluateClauses operators reading found clauses with
        | some value => .ok value
        | none => do
          let value ← evaluateOption operators reading elseExpr
          .ok (value.getD .null))=
      (do
        match ← evaluateClauses operators other found clauses with
        | some value => .ok value
        | none => do
          let value ← evaluateOption operators other elseExpr
          .ok (value.getD .null)) := by
    intro found hasked
    obtain ⟨hsame,helse⟩ := evaluateClauses_asked hasked
    refine bind_congr_ok hsame fun value hvalue => ?_
    cases value with
    | some value => rfl
    | none =>
      dsimp only
      rw [helse hvalue]
  rw [evaluate,evaluate]
  cases base with
  | none => exact hclauses none h
  | some base =>
    obtain ⟨hbase,hasked⟩ := alike_cons h
    have hsame : evaluateOption operators reading (some base)=
        evaluateOption operators other (some base) := by
      rw [evaluateOption,evaluateOption,hbase]
    refine bind_congr_ok hsame fun found hfound => ?_
    cases hvalue : evaluate operators other base with
    | error error =>
      rw [evaluateOption,hvalue] at hfound
      cases hfound
    | ok value =>
      rw [evaluateOption,hvalue] at hfound
      obtain rfl : some value=found := Except.ok.inj hfound
      rw [hvalue] at hasked
      exact hclauses (some value) hasked

/-- An expression has the same value under two readings that agree on what it asks for, where
they do the same about the expression itself. -/
theorem evaluate_asked_iff
    (h : Alike operators reading other (expr.asks operators (evaluate operators other))) :
    evaluate operators reading expr=evaluate operators other expr ↔
      OwnAgree operators reading other expr := by
  cases expr with
  | column name => exact Iff.rfl
  | aggregate name => exact Iff.rfl
  | subquery query => exact Iff.rfl
  | between expr low high negated => exact between_asked_iff negated h
  | inSubquery expr query negated =>
    obtain ⟨hsame,htuple⟩ := elements_asked h
    rw [evaluate_inSubquery,evaluate_inSubquery,OwnAgree]
    cases hexpr : expr.asTuple with
    | none =>
      dsimp only
      rw [hsame hexpr]
    | some exprs =>
      dsimp only
      rw [htuple exprs hexpr]
  | compareSubquery left op query =>
    obtain ⟨hsame,htuple⟩ := elements_asked h
    rw [evaluate_compareSubquery,evaluate_compareSubquery,OwnAgree]
    cases hexpr : left.asTuple with
    | none =>
      dsimp only
      rw [hsame hexpr]
    | some exprs =>
      dsimp only
      rw [htuple exprs hexpr]
  -- the other cases are the same for every reading
  | literal value => exact iff_of_true rfl trivial
  | windowFunction => exact iff_of_true rfl trivial
  | tuple exprs => exact iff_of_true rfl trivial
  | compare left op right =>
    refine iff_of_true ?_ trivial
    rw [evaluate_compare,evaluate_compare]
    exact sides_asked h
  | is left right negated =>
    refine iff_of_true ?_ trivial
    rw [evaluate_is,evaluate_is]
    exact sides_asked h
  | inList expr values negated =>
    refine iff_of_true ?_ trivial
    rw [evaluate_inList,evaluate_inList]
    exact inList_asked h
  | case base clauses elseExpr => exact iff_of_true (case_asked h) trivial
  | function func args => exact iff_of_true (function_asked func h) trivial
  | binary left op right =>
    obtain ⟨hleft,hright⟩ := alike_two h
    refine iff_of_true ?_ trivial
    rw [evaluate,evaluate]
    exact bind_congr_ok hleft fun value hvalue => by rw [hright value hvalue]
  | like expr pattern escape negated =>
    refine iff_of_true ?_ trivial
    rw [evaluate,evaluate]
    exact pattern_asked h fun hrest found => escape_asked hrest
  | glob expr pattern negated =>
    refine iff_of_true ?_ trivial
    rw [evaluate,evaluate]
    exact pattern_asked h fun hrest found => by rw [hrest expr List.mem_cons_self]
  | _ =>
    have hchild := (alike_cons h).1
    refine iff_of_true ?_ trivial
    rw [evaluate,evaluate,hchild]

/-- Two readings agree on all parts an evaluation asks for when they do the same about each. -/
theorem asked_agree_iff (expr : ScalarExpr S) :
    (∀ part, Part (ScalarExpr.Asks operators (evaluate operators other)) expr part →
        evaluate operators reading part=evaluate operators other part) ↔
      ∀ part, Part (ScalarExpr.Asks operators (evaluate operators other)) expr part →
        OwnAgree operators reading other part :=
  parts_iff (ScalarExpr.asks_wellFounded operators (evaluate operators other))
    (fun _ hbelow => evaluate_asked_iff fun child hchild =>
      hbelow child hchild child (Part.self child)) expr

end Agreement

end RustSql.Sql
