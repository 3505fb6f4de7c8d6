import RustSql.Sql.ArithmeticLimits
import RustSql.Sql.IndexTerms
import RustSql.Sql.SameValues

/-!
# Expressions of one key

Expressions of one key need not be the same; they are where every operand is a plain name, a
plain literal or stands in brackets. There the pieces of a key can be taken off one after the
other.
-/

namespace RustSql.Sql

open RustSql.V2 Separated

/-- The characters of a text are gone through, not all there are. -/
local instance decidableAllChars (chars : List Char) (p : Char → Prop) [DecidablePred p] :
    Decidable (∀ char∈chars, p char) := List.decidableBAll p chars

local instance decidableAnyChar (chars : List Char) (p : Char → Prop) [DecidablePred p] :
    Decidable (∃ char∈chars, p char) := List.decidableBEx p chars

local instance decidableFirstChar (first : Option Char) (p : Char → Prop) [DecidablePred p] :
    Decidable (∀ char∈first, p char) :=
  decidable_of_iff (∀ char∈first.toList, p char) (by simp)

/-! ## Names and literals -/

section Leaves

variable {S : Type} {realToString : UInt64 → String} {aggregateExprKey : String → String}

/-- A character of a name or of a literal. -/
def isLeafChar (char : Char) : Bool := isNameChar char || char== '\''

/-- A character that neither ends an operand nor opens a bracket. -/
def IsRunChar (char : Char) : Prop := char≠ ' ' ∧ char≠ ',' ∧ char≠ ')' ∧ char≠ '('

/-- Characters of a leaf are those of a run. -/
theorem leafChar_run {char : Char} (h : isLeafChar char) : IsRunChar char := by
  refine ⟨?_,?_,?_,?_⟩ <;>
    · rintro rfl
      exact absurd h (by decide)

/-- They are no operators. -/
theorem leafChar_sign {char : Char} (h : isLeafChar char) : char∉signs := by
  intro hmem
  have hall : ∀ char∈signs, isLeafChar char=false := by decide
  rw [hall char hmem] at h
  cases h

/-- Hexadecimal digits are characters of names. -/
theorem hexDigitsOfWidth_nameChar (width value : ℕ) :
    ∀ char∈hexDigitsOfWidth width value, isNameChar char := by
  have hdigit : ∀ n < 16, isNameChar (Nat.digitChar n).toUpper := by decide
  induction width generalizing value with
  | zero =>
    intro char hchar
    cases hchar
  | succ width ih =>
    intro char hchar
    rw [hexDigitsOfWidth,List.mem_append,List.mem_singleton] at hchar
    rcases hchar with hchar | rfl
    · exact ih (value/16) char hchar
    · exact hdigit (value%16) (Nat.mod_lt value (by omega))

/-- The text of a blob. -/
theorem blob_text (bytes : Bytes) : ("X'"++bytesHex bytes++"'").toList=
    'X' :: '\'' :: (bytes.flatMap fun byte => hexDigitsOfWidth 2 byte.toNat)++['\''] := by
  simp [bytesHex]

/-- A text with another character is no integer. -/
theorem integer_ne {value : Int64} (hvalue : 0 ≤ value.toInt) {text : String}
    (h : ∃ char∈text.toList, char.isDigit=false) : text≠toString value.toInt := by
  rintro rfl
  obtain ⟨char,hchar,hfalse⟩ := h
  rw [integer_text hvalue] at hchar
  rw [digits_isDigit char hchar] at hfalse
  cases hfalse

/-- A text without a quote is no blob. -/
theorem blob_ne (bytes : Bytes) {text : String} (h : '\''∉text.toList) :
    text≠"X'"++bytesHex bytes++"'" := by
  rintro rfl
  refine h ?_
  rw [blob_text]
  simp

/-- An integer has no quote. -/
theorem integer_noQuote {value : Int64} (hvalue : 0 ≤ value.toInt) :
    '\''∉(toString value.toInt).toList := by
  intro hquote
  rw [integer_text hvalue] at hquote
  exact absurd (digits_isDigit _ hquote) (by decide)

variable (realToString aggregateExprKey) in
/-- A plain leaf is a run of its characters and no word of a key. -/
theorem leaf_text {expr : ScalarExpr S} (h : expr.IsPlainLeaf) :
    (∀ char∈keyText realToString aggregateExprKey expr, isLeafChar char) ∧
      keyText realToString aggregateExprKey expr≠[] ∧
      scalarExprKey realToString aggregateExprKey expr∉keyWords := by
  cases expr with
  | column name =>
    rw [keyText,scalarExprKey]
    refine ⟨fun char hchar => ?_,?_,h.word⟩
    · rw [isLeafChar,h.chars char hchar,Bool.true_or]
    · obtain ⟨char,hchar,-⟩ := h.first
      exact List.ne_nil_of_mem (List.mem_of_mem_head? hchar)
  | literal value =>
    rw [keyText,scalarExprKey]
    cases value with
    | null =>
      rw [valueToString]
      decide
    | boolean value =>
      rw [valueToString]
      cases value <;> decide
    | integer value =>
      rw [valueToString,integer_text h]
      refine ⟨fun char hchar => ?_,Nat.toDigits_ne_nil,fun hmem => ?_⟩
      · have hdigit := digits_isDigit char hchar
        simp [isLeafChar,isNameChar,Char.isAlphanum,hdigit]
      · have hall : ∀ word∈keyWords, ∃ char∈word.toList, char.isDigit=false := by decide
        exact integer_ne h (hall _ hmem) rfl
    | blob bytes =>
      rw [valueToString,blob_text]
      refine ⟨fun char hchar => ?_,by simp,fun hmem => ?_⟩
      · simp only [List.cons_append,List.mem_cons,List.mem_append,List.mem_flatMap,
          List.not_mem_nil,or_false] at hchar
        rcases hchar with rfl | rfl | ⟨byte,-,hchar⟩ | rfl
        · decide
        · decide
        · rw [isLeafChar,hexDigitsOfWidth_nameChar 2 byte.toNat char hchar,Bool.true_or]
        · decide
      · have hall : ∀ word∈keyWords, '\''∉word.toList := by decide
        exact blob_ne bytes (hall _ hmem) rfl
    | _ => cases h
  | _ => cases h

/-- A plain name is none of the literals. -/
theorem name_ne_literal {name : String} {value : Value} (hname : PlainName name)
    (hvalue : (ScalarExpr.literal (S := S) value).IsPlainLeaf) :
    name≠valueToString realToString value := by
  cases value with
  | null =>
    rintro rfl
    exact hname.operand (by rw [valueToString]; decide)
  | boolean value =>
    rintro rfl
    exact hname.operand (by rw [valueToString]; cases value <;> decide)
  | integer value =>
    obtain ⟨char,hchar,hfirst⟩ := hname.first
    exact integer_ne hvalue ⟨char,List.mem_of_mem_head? hchar,hfirst⟩
  | blob bytes =>
    refine blob_ne bytes fun hquote => ?_
    exact absurd (hname.chars _ hquote) (by decide)
  | _ => cases hvalue

/-- Plain literals are told apart by their texts. -/
theorem literal_injective {a b : Value} (ha : (ScalarExpr.literal (S := S) a).IsPlainLeaf)
    (hb : (ScalarExpr.literal (S := S) b).IsPlainLeaf)
    (h : valueToString realToString a=valueToString realToString b) : a=b := by
  cases a with
  | null =>
    rw [valueToString] at h
    cases b with
    | null => rfl
    | boolean b =>
      rw [valueToString] at h
      cases b <;> exact absurd h (by decide)
    | integer b => exact absurd h (integer_ne hb (by decide))
    | blob b => exact absurd h (blob_ne b (by decide))
    | _ => cases hb
  | boolean a =>
    rw [valueToString] at h
    cases b with
    | null =>
      rw [valueToString] at h
      cases a <;> exact absurd h (by decide)
    | boolean b =>
      rw [valueToString] at h
      cases a <;> cases b <;> first | rfl | exact absurd h (by decide)
    | integer b => cases a <;> exact absurd h (integer_ne hb (by decide))
    | blob b => cases a <;> exact absurd h (blob_ne b (by decide))
    | _ => cases hb
  | integer a =>
    cases b with
    | null =>
      rw [valueToString,valueToString] at h
      exact absurd h.symm (integer_ne ha (by decide))
    | boolean b =>
      rw [valueToString,valueToString] at h
      cases b <;> exact absurd h.symm (integer_ne ha (by decide))
    | integer b =>
      have hdigits := congrArg String.toList h
      rw [valueToString,valueToString,integer_text ha,integer_text hb] at hdigits
      have hnumber := congrArg (fun digits => Nat.ofDigitChars 10 digits 0) hdigits
      simp only [Nat.ofDigitChars_toDigits (by omega : 1 < 10) (by omega)] at hnumber
      have hequal : a.toInt=b.toInt := by
        have ha : 0 ≤ a.toInt := ha
        have hb : 0 ≤ b.toInt := hb
        omega
      rw [Int64.toInt_inj.mp hequal]
    | blob b => exact absurd h (blob_ne b (integer_noQuote ha))
    | _ => cases hb
  | blob a =>
    cases b with
    | null =>
      rw [valueToString,valueToString] at h
      exact absurd h.symm (blob_ne a (by decide))
    | boolean b =>
      rw [valueToString,valueToString] at h
      cases b <;> exact absurd h.symm (blob_ne a (by decide))
    | integer b => exact absurd h.symm (blob_ne a (integer_noQuote hb))
    | blob b =>
      have htext := (String.append_left_inj "'").mp h
      rw [bytesHex_inj.mp ((String.append_right_inj "X'").mp htext)]
    | _ => cases hb
  | _ => cases ha

/-- Plain leaves are told apart by their texts. -/
theorem leaf_injective {a b : ScalarExpr S} (ha : a.IsPlainLeaf) (hb : b.IsPlainLeaf)
    (h : scalarExprKey realToString aggregateExprKey a=
      scalarExprKey realToString aggregateExprKey b) : a=b := by
  cases a with
  | column name =>
    cases b with
    | column other =>
      rw [scalarExprKey,scalarExprKey] at h
      rw [h]
    | literal value =>
      rw [scalarExprKey,scalarExprKey] at h
      exact absurd h (name_ne_literal ha hb)
    | _ => cases hb
  | literal value =>
    cases b with
    | column other =>
      rw [scalarExprKey,scalarExprKey] at h
      exact absurd h.symm (name_ne_literal hb ha)
    | literal other =>
      rw [scalarExprKey,scalarExprKey] at h
      rw [literal_injective ha hb h]
    | _ => cases hb
  | _ => cases ha

end Leaves

/-! ## Taking a key apart -/

section Cancel

variable {S : Type} {realToString : UInt64 → String} {aggregateExprKey : String → String}

/-- What may follow an operand. -/
def EndsOperand (rest : List Char) : Prop := ∀ char∈rest.head?, char= ' ' ∨ char= ',' ∨ char= ')'

/-- What may follow an expression between brackets and commas. -/
def EndsWhole (rest : List Char) : Prop := ∀ char∈rest.head?, char= ',' ∨ char= ')'

/-- What may follow the last of a list of arguments. -/
def EndsList (rest : List Char) : Prop := rest.head?=some ')'

/-- What ends a whole expression ends an operand. -/
theorem EndsWhole.operand {rest : List Char} (h : EndsWhole rest) : EndsOperand rest :=
  fun char hchar => Or.inr (h char hchar)

/-- What ends a list ends its last expression. -/
theorem EndsList.whole {rest : List Char} (h : EndsList rest) : EndsWhole rest := by
  intro char hchar
  rw [EndsList] at h
  rw [h] at hchar
  exact Or.inr (Option.some.inj hchar).symm

/-- The word that an operand opens its brackets behind. -/
def opening : ScalarExpr S → Option String
  | .tuple _ => some ""
  | .function func _ => some func.display
  | .cast _ _ => some "CAST"
  | _ => none

/-- The pieces between the brackets of a cast. -/
def castItems (expr : ScalarExpr S) (ty : ColumnType) : List (Item S) :=
  items expr++[.word "AS",.part (.column ty.name)]

/-- What stands between the brackets of an operand, with what closes them. -/
def bracketText (realToString : UInt64 → String) (aggregateExprKey : String → String) :
    ScalarExpr S → List Char
  | .tuple exprs | .function _ exprs =>
    [',',' '].intercalate (exprs.map (keyText realToString aggregateExprKey))++[')']
  | .cast expr ty =>
    [' '].intercalate ((castItems expr ty).map (itemText realToString aggregateExprKey))++[')']
  | _ => []

/-- A text with an opening word, a bracket and what is in it. -/
theorem keyText_opening {expr : ScalarExpr S} {word : String} (h : opening expr=some word) :
    keyText realToString aggregateExprKey expr=
      word.toList++ '(' :: bracketText realToString aggregateExprKey expr := by
  cases expr with
  | tuple exprs =>
    obtain rfl := Option.some.inj h
    rw [keyText,scalarExprKey,String.toList_append,String.toList_append,arguments_toList]
    rfl
  | function func args =>
    obtain rfl := Option.some.inj h
    rw [keyText,scalarExprKey,String.toList_append,String.toList_append,String.toList_append,
      arguments_toList]
    simp [bracketText]
  | cast expr ty =>
    obtain rfl := Option.some.inj h
    have hjoined : [' '].intercalate ((castItems expr ty).map
        (itemText realToString aggregateExprKey))=
        keyText realToString aggregateExprKey expr++" AS ".toList++ty.name.toList := by
      have hne := items_ne_nil expr
      rw [keyText_items,castItems]
      cases hitems : items expr with
      | nil => exact absurd hitems hne
      | cons item rest =>
        rw [List.cons_append,List.map_cons,List.map_cons,intercalate_cons_flatMap,
          intercalate_cons_flatMap,List.map_append,List.flatMap_append]
        simp [itemText,keyText,scalarExprKey]
    rw [bracketText,hjoined]
    simp [keyText,scalarExprKey]
  | _ => cases h

/-- The run of characters an operand starts with. -/
def operandRun (realToString : UInt64 → String) (aggregateExprKey : String → String)
    (expr : ScalarExpr S) : List Char :=
  match opening expr with
  | some word => word.toList
  | none => keyText realToString aggregateExprKey expr

/-- What follows the run of an operand. -/
def operandRest (realToString : UInt64 → String) (aggregateExprKey : String → String)
    (expr : ScalarExpr S) : List Char :=
  match opening expr with
  | some _ => '(' :: bracketText realToString aggregateExprKey expr
  | none => []

/-- A text is a run of characters and what follows it. -/
theorem keyText_run (expr : ScalarExpr S) :
    keyText realToString aggregateExprKey expr=
      operandRun realToString aggregateExprKey expr++
        operandRest realToString aggregateExprKey expr := by
  rw [operandRun,operandRest]
  cases h : opening expr with
  | none => exact (List.append_nil _).symm
  | some word => exact keyText_opening h

/-- A plain function's name is plain. -/
theorem display_plain {func : ScalarFunc} (h : func.IsPlain) : PlainName func.display := by
  cases func with
  | other name => exact h.1
  | _ => exact ⟨by decide,⟨_,rfl,by decide⟩,by decide,by decide⟩

/-- Plain functions are told apart by their names. -/
theorem display_injective {a b : ScalarFunc} (ha : a.IsPlain) (hb : b.IsPlain)
    (h : a.display=b.display) : a=b := by
  cases a with
  | other name =>
    cases b with
    | other other => rw [show name=other from h]
    | _ =>
      refine absurd ha.2 (not_not_intro ?_)
      rw [show name=_ from h]
      decide
  | _ =>
    cases b with
    | other other =>
      refine absurd hb.2 (not_not_intro ?_)
      rw [show other=_ from h.symm]
      decide
    | _ => first | rfl | exact absurd h (by decide)

/-- The name of a type is plain and tells the type. -/
theorem typeName_plain (ty : ColumnType) : PlainName ty.name := by
  cases ty <;> exact ⟨by decide,⟨_,rfl,by decide⟩,by decide,by decide⟩

/-- Types have different names. -/
theorem typeName_injective {a b : ColumnType} (h : a.name=b.name) : a=b := by
  cases a <;> cases b <;> first | rfl | exact absurd h (by decide)

/-- A leaf has no opening word. -/
theorem leaf_opening {expr : ScalarExpr S} (h : expr.IsPlainLeaf) : opening expr=none := by
  cases expr with
  | tuple | function | cast => cases h
  | _ => rfl

variable (realToString aggregateExprKey) in
/-- The run of a plain operand is one of leaf characters, and a leaf where nothing follows
it. -/
theorem operandRun_plain {expr : ScalarExpr S} (h : IsPlain .operand expr) :
    (∀ char∈operandRun realToString aggregateExprKey expr, isLeafChar char) ∧
      (operandRest realToString aggregateExprKey expr=[] → expr.IsPlainLeaf) := by
  cases h with
  | leaf h =>
    rw [operandRun,leaf_opening h]
    exact ⟨(leaf_text realToString aggregateExprKey h).1,fun _ => h⟩
  | tuple h => exact ⟨fun char hchar => absurd hchar List.not_mem_nil,fun h => by cases h⟩
  | function hfunc h =>
    refine ⟨fun char hchar => ?_,fun h => by cases h⟩
    rw [isLeafChar,(display_plain hfunc).chars char hchar,Bool.true_or]
  | cast h =>
    have hcast : ∀ char∈"CAST".toList, isLeafChar char := by decide
    exact ⟨hcast,fun h => by cases h⟩

/-- A piece of a plain expression. -/
def Item.IsPlain (item : Item S) : Prop :=
  item.IsKnown ∧ ∀ part∈item.operand, RustSql.Sql.IsPlain .operand part

/-- The run of characters a piece starts with, and what follows it. -/
def itemRun (realToString : UInt64 → String) (aggregateExprKey : String → String) :
    Item S → List Char
  | .word text => text.toList
  | .part expr => operandRun realToString aggregateExprKey expr
  | .signed mark expr => mark :: operandRun realToString aggregateExprKey expr

def itemRest (realToString : UInt64 → String) (aggregateExprKey : String → String) :
    Item S → List Char
  | .word _ => []
  | .part expr | .signed _ expr => operandRest realToString aggregateExprKey expr

/-- An item is a run and what follows it. -/
theorem itemText_run (item : Item S) :
    itemText realToString aggregateExprKey item=
      itemRun realToString aggregateExprKey item++
        itemRest realToString aggregateExprKey item := by
  cases item with
  | word text => exact (List.append_nil _).symm
  | part expr => exact keyText_run expr
  | signed mark expr => exact congrArg (List.cons mark) (keyText_run expr)

variable (realToString aggregateExprKey) in
/-- The run of a plain item has characters of runs. -/
theorem itemRun_chars {item : Item S} (h : item.IsPlain) :
    ∀ char∈itemRun realToString aggregateExprKey item, IsRunChar char := by
  cases item with
  | word text =>
    have hall : ∀ word∈keyWords, ∀ char∈word.toList,
        char≠ ' ' ∧ char≠ ',' ∧ char≠ ')' ∧ char≠ '(' := by decide
    exact hall text h.1
  | part expr =>
    have hrun := (operandRun_plain realToString aggregateExprKey (h.2 expr rfl)).1
    exact fun char hchar => leafChar_run (hrun char hchar)
  | signed mark expr =>
    have hall : ∀ char∈signs, char≠ ' ' ∧ char≠ ',' ∧ char≠ ')' ∧ char≠ '(' := by decide
    intro char hchar
    rcases List.mem_cons.mp hchar with rfl | hchar
    · exact hall char h.1
    · have hrun := (operandRun_plain realToString aggregateExprKey (h.2 expr rfl)).1
      exact leafChar_run (hrun char hchar)

variable (realToString aggregateExprKey) in
/-- Nothing follows the run of a piece, or a bracket does. -/
theorem itemRest_cases (item : Item S) :
    itemRest realToString aggregateExprKey item=[] ∨
      ∃ rest, itemRest realToString aggregateExprKey item= '(' :: rest := by
  have hoperand : ∀ expr : ScalarExpr S, operandRest realToString aggregateExprKey expr=[] ∨
      ∃ rest, operandRest realToString aggregateExprKey expr= '(' :: rest := by
    intro expr
    rw [operandRest]
    cases opening expr with
    | none => exact Or.inl rfl
    | some word => exact Or.inr ⟨_,rfl⟩
  cases item with
  | word text => exact Or.inl rfl
  | part expr => exact hoperand expr
  | signed mark expr => exact hoperand expr

/-- The runs of two pieces are told apart, and a bracket follows both or none. -/
theorem itemRun_cancel {a b : Item S} {s t : List Char} (ha : a.IsPlain) (hb : b.IsPlain)
    (hs : EndsOperand s) (ht : EndsOperand t)
    (h : itemText realToString aggregateExprKey a++s=itemText realToString aggregateExprKey b++t) :
    itemRun realToString aggregateExprKey a=itemRun realToString aggregateExprKey b ∧
      (itemRest realToString aggregateExprKey a=[] ↔
        itemRest realToString aggregateExprKey b=[]) ∧
      itemRest realToString aggregateExprKey a++s=
        itemRest realToString aggregateExprKey b++t := by
  have hhead : ∀ (item : Item S) (rest : List Char), EndsOperand rest →
      ∀ char∈(itemRest realToString aggregateExprKey item++rest).head?, ¬IsRunChar char := by
    intro item rest hrest char hchar hrun
    rcases itemRest_cases realToString aggregateExprKey item with hitem | ⟨more,hitem⟩
    · rw [hitem,List.nil_append] at hchar
      rcases hrest char hchar with rfl | rfl | rfl
      · exact hrun.1 rfl
      · exact hrun.2.1 rfl
      · exact hrun.2.2.1 rfl
    · rw [hitem] at hchar
      obtain rfl := Option.some.inj hchar
      exact hrun.2.2.2 rfl
  have hbracket : ∀ rest more : List Char, EndsOperand rest → rest≠ '(' :: more := by
    rintro rest more hrest rfl
    have hfalse := hrest '(' rfl
    revert hfalse
    decide
  rw [itemText_run,itemText_run,List.append_assoc,List.append_assoc] at h
  have hcancel := run_cancel (itemRun_chars realToString aggregateExprKey ha)
    (itemRun_chars realToString aggregateExprKey hb) (hhead a s hs) (hhead b t ht) h
  refine ⟨hcancel.1,?_,hcancel.2⟩
  have hrest := hcancel.2
  rcases itemRest_cases realToString aggregateExprKey a with ha | ⟨more,ha⟩ <;>
    rcases itemRest_cases realToString aggregateExprKey b with hb | ⟨other,hb⟩
  · exact iff_of_true ha hb
  · rw [ha,hb] at hrest
    exact absurd hrest (hbracket s _ hs)
  · rw [ha,hb] at hrest
    exact absurd hrest.symm (hbracket t _ ht)
  · rw [ha,hb]
    simp

/-- No word of a key reads as a sign in front of a name or a literal. -/
theorem word_ne_signed {text : String} (hword : text∈keyWords) {mark : Char} (hmark : mark∈signs)
    {run : List Char} (hrun : ∀ char∈run, isLeafChar char) (hne : run≠[]) :
    text.toList≠mark :: run := by
  have hall : ∀ word∈keyWords, ∀ char∈word.toList.head?, char∈signs →
      ∀ next∈word.toList.tail.head?, isLeafChar next=false := by decide
  intro htext
  cases run with
  | nil => exact hne rfl
  | cons char run =>
    have hfalse := hall text hword mark (by rw [htext]; rfl) hmark char (by rw [htext]; rfl)
    rw [hrun char List.mem_cons_self] at hfalse
    cases hfalse

/-- A leaf is all run. -/
theorem leaf_run {expr : ScalarExpr S} (h : expr.IsPlainLeaf) :
    operandRun realToString aggregateExprKey expr=keyText realToString aggregateExprKey expr := by
  rw [operandRun,leaf_opening h]

/-- A piece can be taken off where its operand can. -/
theorem item_cancelsAt {a : Item S} (ha : a.IsPlain)
    (hoperand : ∀ part∈a.operand,
      CancelsAt (keyText realToString aggregateExprKey) EndsOperand (IsPlain .operand) part) :
    CancelsAt (itemText realToString aggregateExprKey) EndsOperand Item.IsPlain a := by
  intro b s t hb hs ht h
  obtain ⟨hrun,hnil,hrest⟩ := itemRun_cancel ha hb hs ht h
  -- a word against an operand, or a sign in front of one, that is a run alone
  have hword : ∀ (text : String) (part : ScalarExpr S), text∈keyWords →
      IsPlain .operand part → operandRest realToString aggregateExprKey part=[] →
      text.toList≠operandRun realToString aggregateExprKey part ∧
        ∀ mark∈signs, text.toList≠mark :: operandRun realToString aggregateExprKey part := by
    intro text part htext hpart hnone
    have hleaf := (operandRun_plain realToString aggregateExprKey hpart).2 hnone
    have hfound := leaf_text realToString aggregateExprKey hleaf
    rw [leaf_run hleaf]
    refine ⟨fun htexts => hfound.2.2 ?_,fun mark hmark => ?_⟩
    · rwa [← String.toList_injective htexts]
    · exact word_ne_signed htext hmark hfound.1 hfound.2.1
  -- an operand starts with no sign
  have hsign : ∀ (part : ScalarExpr S) (mark : Char) (run : List Char), mark∈signs →
      IsPlain .operand part → operandRun realToString aggregateExprKey part≠mark :: run := by
    intro part mark run hmark hpart hfirst
    refine leafChar_sign
      ((operandRun_plain realToString aggregateExprKey hpart).1 mark ?_) hmark
    rw [hfirst]
    exact List.mem_cons_self
  cases a with
  | word text =>
    have hbnil : itemRest realToString aggregateExprKey b=[] := hnil.mp rfl
    cases b with
    | word other => exact ⟨by rw [String.toList_injective hrun],hrest⟩
    | part expr => exact absurd hrun (hword text expr ha.1 (hb.2 expr rfl) hbnil).1
    | signed mark expr =>
      exact absurd hrun ((hword text expr ha.1 (hb.2 expr rfl) hbnil).2 mark hb.1)
  | part expr =>
    cases b with
    | word text => exact absurd hrun.symm (hword text expr hb.1 (ha.2 expr rfl) (hnil.mpr rfl)).1
    | part other =>
      have hfound := hoperand expr rfl other s t (hb.2 other rfl) hs ht h
      exact ⟨by rw [hfound.1],hfound.2⟩
    | signed mark other => exact absurd hrun (hsign expr mark _ hb.1 (ha.2 expr rfl))
  | signed mark expr =>
    cases b with
    | word text =>
      exact absurd hrun.symm ((hword text expr hb.1 (ha.2 expr rfl) (hnil.mpr rfl)).2 mark ha.1)
    | part other => exact absurd hrun.symm (hsign other mark _ ha.1 (hb.2 other rfl))
    | signed mark' other =>
      have hcons := List.cons.inj h
      have hfound := hoperand expr rfl other s t (hb.2 other rfl) hs ht hcons.2
      exact ⟨by rw [hcons.1,hfound.1],hfound.2⟩

/-- The pieces of a plain expression can be taken off one after the other. -/
theorem items_cancel {as bs : List (Item S)} {s t : List Char} (hs : EndsWhole s)
    (ht : EndsWhole t) (has : ∀ item∈as, item.IsPlain)
    (hoperands : ∀ item∈as, ∀ part∈item.operand,
      CancelsAt (keyText realToString aggregateExprKey) EndsOperand (IsPlain .operand) part)
    (hbs : ∀ item∈bs, item.IsPlain) (hnas : as≠[]) (hnbs : bs≠[])
    (h : [' '].intercalate (as.map (itemText realToString aggregateExprKey))++s=
      [' '].intercalate (bs.map (itemText realToString aggregateExprKey))++t) :
    as=bs ∧ s=t := by
  have hblank : ∀ rest, EndsOperand ([' ']++rest) :=
    fun rest char hchar => Or.inl (Option.some.inj hchar).symm
  have hgoes : ∀ rest, ¬EndsWhole ([' ']++rest) := by
    intro rest hrest
    have hfalse := hrest ' ' rfl
    revert hfalse
    decide
  exact joined_cancel _ EndsOperand EndsWhole Item.IsPlain hblank (fun rest => EndsWhole.operand)
    hgoes hs ht (fun item hitem => item_cancelsAt (has item hitem) (hoperands item hitem)) hbs
    hnas hnbs h

variable (realToString aggregateExprKey) in
/-- A piece starts with a character that closes nothing. -/
theorem item_head {item : Item S} (h : item.IsPlain) :
    ∃ char rest, itemText realToString aggregateExprKey item=char :: rest ∧ char≠ ')' := by
  have hchars := itemRun_chars realToString aggregateExprKey h
  rw [itemText_run]
  cases hrun : itemRun realToString aggregateExprKey item with
  | cons char run =>
    rw [hrun] at hchars
    exact ⟨char,_,rfl,(hchars char List.mem_cons_self).2.2.1⟩
  | nil =>
    rcases itemRest_cases realToString aggregateExprKey item with hrest | ⟨rest,hrest⟩
    · -- a word has letters, and so has a leaf
      exfalso
      cases item with
      | word text =>
        have hall : ∀ word∈keyWords, word.toList≠[] := by decide
        exact hall text h.1 hrun
      | part expr =>
        have hleaf := (operandRun_plain realToString aggregateExprKey (h.2 expr rfl)).2 hrest
        refine (leaf_text realToString aggregateExprKey hleaf).2.1 ?_
        rw [← leaf_run hleaf]
        exact hrun
      | signed mark expr => cases hrun
    · rw [hrest]
      exact ⟨'(',rest,rfl,by decide⟩

/-- The items of a plain expression are plain. -/
theorem items_plain {expr : ScalarExpr S} (h : IsPlain .whole expr) :
    ∀ item∈items expr, item.IsPlain := by
  cases h with
  | whole h => exact fun item hitem => ⟨items_known expr item hitem,h item hitem⟩

/-- A plain expression does not close a list. -/
theorem endsList_ne {expr : ScalarExpr S} (h : IsPlain .whole expr) {text rest : List Char}
    (htext : EndsList text) : text≠keyText realToString aggregateExprKey expr++rest := by
  have hitems := items_plain h
  rintro rfl
  rw [keyText_items,EndsList] at htext
  cases hfound : items expr with
  | nil => exact absurd hfound (items_ne_nil expr)
  | cons item more =>
    rw [hfound] at hitems
    obtain ⟨char,more,hitem,hchar⟩ :=
      item_head realToString aggregateExprKey (hitems item List.mem_cons_self)
    rw [hfound,List.map_cons,intercalate_cons_flatMap,hitem] at htext
    exact hchar (Option.some.inj htext)

/-- Lists of arguments are told apart. -/
theorem arguments_cancel {as bs : List (ScalarExpr S)} {s t : List Char}
    (has : ∀ expr∈as, IsPlain .whole expr)
    (hcancels : ∀ expr∈as,
      CancelsAt (keyText realToString aggregateExprKey) EndsWhole (IsPlain .whole) expr)
    (hbs : ∀ expr∈bs, IsPlain .whole expr)
    (h : [',',' '].intercalate (as.map (keyText realToString aggregateExprKey))++[')']++s=
      [',',' '].intercalate (bs.map (keyText realToString aggregateExprKey))++[')']++t) :
    as=bs ∧ s=t := by
  rw [List.append_assoc,List.append_assoc] at h
  cases as with
  | nil =>
    cases bs with
    | nil => exact ⟨rfl,List.append_cancel_left h⟩
    | cons b bs =>
      rw [List.map_cons,intercalate_cons_flatMap,List.append_assoc] at h
      exact absurd h (endsList_ne (hbs b List.mem_cons_self) rfl)
  | cons a as =>
    cases bs with
    | nil =>
      rw [List.map_cons,intercalate_cons_flatMap,List.append_assoc] at h
      exact absurd h.symm (endsList_ne (has a List.mem_cons_self) rfl)
    | cons b bs =>
      have hcomma : ∀ rest, EndsWhole ([',',' ']++rest) :=
        fun rest char hchar => Or.inl (Option.some.inj hchar).symm
      have hfound := joined_cancel _ EndsWhole EndsList (IsPlain .whole) hcomma
        (fun rest hrest => hrest.whole) (fun rest hrest => by cases hrest)
        (show EndsList ([')']++s) from rfl) (show EndsList ([')']++t) from rfl) hcancels hbs
        (List.cons_ne_nil a as) (List.cons_ne_nil b bs) h
      exact ⟨hfound.1,List.append_cancel_left hfound.2⟩

/-- What a plain expression can be taken off in front of. -/
def Place.Ends : Place → List Char → Prop
  | .operand => EndsOperand
  | .whole => EndsWhole

/-- The runs of two operands are told apart, and a bracket follows both or none. -/
theorem operandRun_cancel {a b : ScalarExpr S} {s t : List Char} (ha : IsPlain .operand a)
    (hb : IsPlain .operand b) (hs : EndsOperand s) (ht : EndsOperand t)
    (h : keyText realToString aggregateExprKey a++s=keyText realToString aggregateExprKey b++t) :
    operandRun realToString aggregateExprKey a=operandRun realToString aggregateExprKey b ∧
      (operandRest realToString aggregateExprKey a=[] ↔
        operandRest realToString aggregateExprKey b=[]) ∧
      operandRest realToString aggregateExprKey a++s=
        operandRest realToString aggregateExprKey b++t := by
  have hpart : ∀ {expr : ScalarExpr S}, IsPlain .operand expr → (Item.part expr).IsPlain := by
    intro expr hexpr
    refine ⟨trivial,fun part hpart => ?_⟩
    obtain rfl := Option.some.inj hpart
    exact hexpr
  exact itemRun_cancel (hpart ha) (hpart hb) hs ht h

/-- A leaf is read back from its text. -/
theorem leaf_cancelsAt {a : ScalarExpr S} (ha : a.IsPlainLeaf) :
    CancelsAt (keyText realToString aggregateExprKey) EndsOperand (IsPlain .operand) a := by
  intro b s t hb hs ht h
  obtain ⟨hrun,hnil,hrest⟩ := operandRun_cancel (.leaf ha) hb hs ht h
  have hanil : operandRest realToString aggregateExprKey a=[] := by
    rw [operandRest,leaf_opening ha]
  have hbnil := hnil.mp hanil
  have hbleaf := (operandRun_plain realToString aggregateExprKey hb).2 hbnil
  rw [leaf_run ha,leaf_run hbleaf] at hrun
  rw [hanil,hbnil] at hrest
  exact ⟨leaf_injective ha hbleaf (String.toList_injective hrun),hrest⟩

/-- Two operands with brackets: the same word opens them, and the brackets can be compared. -/
theorem opening_cancel {a b : ScalarExpr S} {s t : List Char} {word : String}
    (ha : IsPlain .operand a) (hb : IsPlain .operand b) (hs : EndsOperand s)
    (ht : EndsOperand t) (hopening : opening a=some word)
    (h : keyText realToString aggregateExprKey a++s=keyText realToString aggregateExprKey b++t) :
    opening b=some word ∧
      bracketText realToString aggregateExprKey a++s=
        bracketText realToString aggregateExprKey b++t := by
  obtain ⟨hrun,hnil,hrest⟩ := operandRun_cancel ha hb hs ht h
  rw [operandRest,operandRest,hopening] at hrest hnil
  rw [operandRun,operandRun,hopening] at hrun
  cases hother : opening b with
  | none =>
    rw [hother] at hnil
    exact absurd (hnil.mpr rfl) (List.cons_ne_nil _ _)
  | some other =>
    rw [hother] at hrun hrest
    exact ⟨by rw [String.toList_injective hrun],(List.cons.inj hrest).2⟩

/-- A plain function has a name of its own. -/
theorem display_ne {func : ScalarFunc} (h : func.IsPlain) :
    func.display≠"" ∧ func.display≠"CAST" := by
  have hname := display_plain h
  refine ⟨fun hempty => ?_,fun hcast => ?_⟩
  · obtain ⟨char,hchar,-⟩ := hname.first
    rw [hempty] at hchar
    cases hchar
  · refine hname.operand ?_
    rw [hcast]
    decide

/-- So are those of a plain cast. -/
theorem castItems_plain {expr : ScalarExpr S} {ty : ColumnType}
    (h : ∀ item∈items expr, ∀ part∈item.operand, IsPlain .operand part) :
    ∀ item∈castItems expr ty, item.IsPlain := by
  intro item hitem
  rw [castItems,List.mem_append,List.mem_cons,List.mem_singleton] at hitem
  rcases hitem with hitem | rfl | rfl
  · exact ⟨items_known expr item hitem,h item hitem⟩
  · exact ⟨show "AS"∈keyWords by decide,fun part hpart => by cases hpart⟩
  · refine ⟨trivial,fun part hpart => ?_⟩
    obtain rfl := Option.some.inj hpart
    exact .leaf (typeName_plain ty)

/-- The brackets of casts are told apart. -/
theorem castItems_cancel {a b : ScalarExpr S} {x y : ColumnType} {s t : List Char}
    (ha : ∀ item∈items a, ∀ part∈item.operand, IsPlain .operand part)
    (hcancels : ∀ item∈items a, ∀ part∈item.operand,
      CancelsAt (keyText realToString aggregateExprKey) EndsOperand (IsPlain .operand) part)
    (hb : ∀ item∈items b, ∀ part∈item.operand, IsPlain .operand part)
    (h : bracketText realToString aggregateExprKey (.cast a x)++s=
      bracketText realToString aggregateExprKey (.cast b y)++t) : a=b ∧ x=y ∧ s=t := by
  have hends : ∀ rest, EndsWhole ([')']++rest) :=
    fun rest char hchar => Or.inr (Option.some.inj hchar).symm
  have hparts : ∀ item∈castItems a x, ∀ part∈item.operand,
      CancelsAt (keyText realToString aggregateExprKey) EndsOperand (IsPlain .operand) part := by
    intro item hitem part hpart
    rw [castItems,List.mem_append,List.mem_cons,List.mem_singleton] at hitem
    rcases hitem with hitem | rfl | rfl
    · exact hcancels item hitem part hpart
    · cases hpart
    · obtain rfl := Option.some.inj hpart
      exact leaf_cancelsAt (typeName_plain x)
  rw [bracketText,bracketText,List.append_assoc,List.append_assoc] at h
  have hfound := items_cancel (hends s) (hends t) (castItems_plain ha) hparts (castItems_plain hb)
    (List.append_ne_nil_of_right_ne_nil _ (List.cons_ne_nil _ _))
    (List.append_ne_nil_of_right_ne_nil _ (List.cons_ne_nil _ _)) h
  have hsplit := List.append_inj' hfound.1 rfl
  have hname : x.name=y.name := by
    have hlast := (List.cons.inj hsplit.2).2
    simp only [List.cons.injEq,Item.part.injEq,ScalarExpr.column.injEq,and_true] at hlast
    exact hlast
  exact ⟨items_injective hsplit.1,typeName_injective hname,
    List.append_cancel_left hfound.2⟩

/-- The key of a plain expression can be taken off in front of what ends it. -/
theorem plain_cancelsAt {place : Place} {a : ScalarExpr S} (ha : IsPlain place a) :
    CancelsAt (keyText realToString aggregateExprKey) place.Ends (IsPlain place) a := by
  induction ha with
  | leaf h => exact leaf_cancelsAt h
  | tuple h ih =>
    intro b s t hb hs ht htext
    obtain ⟨hopening,hbracket⟩ := opening_cancel (.tuple h) hb hs ht rfl htext
    cases hb with
    | leaf hleaf =>
      rw [leaf_opening hleaf] at hopening
      cases hopening
    | tuple hother =>
      have hfound := arguments_cancel h ih hother hbracket
      exact ⟨by rw [hfound.1],hfound.2⟩
    | function hfunc hother => exact absurd (Option.some.inj hopening) (display_ne hfunc).1
    | cast hother => exact absurd (Option.some.inj hopening) (by decide)
  | function hfunc h ih =>
    intro b s t hb hs ht htext
    obtain ⟨hopening,hbracket⟩ := opening_cancel (.function hfunc h) hb hs ht rfl htext
    cases hb with
    | leaf hleaf =>
      rw [leaf_opening hleaf] at hopening
      cases hopening
    | tuple hother => exact absurd (Option.some.inj hopening).symm (display_ne hfunc).1
    | function hfunc' hother =>
      have hfound := arguments_cancel h ih hother hbracket
      rw [hfound.1,display_injective hfunc hfunc' (Option.some.inj hopening).symm]
      exact ⟨rfl,hfound.2⟩
    | cast hother => exact absurd (Option.some.inj hopening).symm (display_ne hfunc).2
  | cast h ih => 
    rename_i expr ty
    intro b s t hb hs ht htext
    obtain ⟨hopening,hbracket⟩ := opening_cancel (.cast h) hb hs ht rfl htext
    cases hb with
    | leaf hleaf =>
      rw [leaf_opening hleaf] at hopening
      cases hopening
    | tuple hother => exact absurd (Option.some.inj hopening).symm (by decide)
    | function hfunc hother => exact absurd (Option.some.inj hopening) (display_ne hfunc).2
    | cast hother =>
      have hfound := castItems_cancel h ih hother hbracket
      exact ⟨by rw [hfound.1,hfound.2.1],hfound.2.2⟩
  | whole h ih =>
    rename_i expr
    intro b s t hb hs ht htext
    rw [keyText_items,keyText_items] at htext
    have hfound := items_cancel hs ht
      (fun item hitem => ⟨items_known expr item hitem,h item hitem⟩) ih (items_plain hb)
      (items_ne_nil expr) (items_ne_nil b) htext
    exact ⟨items_injective hfound.1,hfound.2⟩

end Cancel

/-! ## The expressions of one key -/

section Terms

variable {S : Type} (operators : Operators) (realToString : UInt64 → String)
  (aggregateExprKey : String → String)

/-- Two expressions with one value on every row. -/
def EvaluateAlike (expr other : ScalarExpr S) : Prop :=
  ∀ columns row, evaluateScalarExpr operators columns row expr=
    evaluateScalarExpr operators columns row other

/-- A table of one column. -/
def oneColumn (name : String) : List ColumnMeta := [⟨none,none,name,name,none,false⟩]

/-- The only column is found. -/
theorem lookupValue_oneColumn (name : String) (value : Value) :
    lookupValue (oneColumn name) [value] name=.ok value := by
  have hfound : resolveColumnIndex (oneColumn name) name=.ok 0 := by
    rw [resolveColumnIndex]
    cases splitOnce name '.' with
    | none => simp [oneColumn,theIndex,List.findIdxs]
    | some split => simp [oneColumn,theIndex,List.findIdxs]
  rw [lookupValue,hfound]
  rfl

/-- A column and the text of its name have one key and differ on a row. -/
theorem column_text_differ (name : String) :
    scalarExprKey realToString aggregateExprKey (.literal (.text name) : ScalarExpr S)=
        scalarExprKey realToString aggregateExprKey (.column name : ScalarExpr S) ∧
      ¬EvaluateAlike operators (S := S) (.literal (.text name)) (.column name) := by
  refine ⟨?_,fun h => ?_⟩
  · rw [scalarExprKey,scalarExprKey,valueToString]
  · have hrow := h (oneColumn name) [.null]
    change .ok _=lookupValue (oneColumn name) [.null] name at hrow
    rw [lookupValue_oneColumn] at hrow
    cases hrow

/-- Whatever an expression is, another one has its key and another value; plain expressions of
one key are the same. -/
theorem scalarExprKey_identifies :
    (∀ expr : ScalarExpr S, ¬∀ other, scalarExprKey realToString aggregateExprKey expr=
        scalarExprKey realToString aggregateExprKey other → EvaluateAlike operators expr other) ∧
      ∀ expr other : ScalarExpr S, IsPlain .whole expr → IsPlain .whole other →
        scalarExprKey realToString aggregateExprKey expr=
          scalarExprKey realToString aggregateExprKey other →
        expr=other ∧ EvaluateAlike operators expr other := by
  constructor
  · intro expr h
    obtain ⟨hkey,hdiffer⟩ := column_text_differ (S := S) operators realToString aggregateExprKey
      (scalarExprKey realToString aggregateExprKey expr)
    have hcolumn := h (.column (scalarExprKey realToString aggregateExprKey expr))
      (by rw [scalarExprKey])
    have htext := h (.literal (.text (scalarExprKey realToString aggregateExprKey expr)))
      (by rw [hkey,scalarExprKey])
    exact hdiffer fun columns row => (htext columns row).symm.trans (hcolumn columns row)
  · intro expr other hexpr hother hkey
    have hends : EndsWhole [] := fun char hchar => by cases hchar
    have htext : keyText realToString aggregateExprKey expr++[]=
        keyText realToString aggregateExprKey other++[] := by
      rw [keyText,keyText,hkey]
    have hfound := plain_cancelsAt hexpr other [] [] hother hends hends htext
    rw [hfound.1]
    exact ⟨rfl,fun _ _ => rfl⟩

end Terms

/-- The columns `a`, `b` and `c`. -/
def threeColumns : List ColumnMeta :=
  ["a","b","c"].map fun name => ⟨none,none,name,name,none,false⟩

/-- A connection that computes with integers. -/
def integerOperators : Operators :=
  { plainOperators with
    evaluateBinaryScalar := fun op left right =>
      match Arithmetic.evaluateBinaryScalar Arithmetic.wordMachine (fun _ left _ => .ok left) op
        left right with
      | .ok value => .ok value
      | .err error => .error error
      | _ => .error rowValueMisused }

/-- A key in a program without floats. -/
def plainKey (expr : ScalarExpr Unit) : String := scalarExprKey (fun _ => "0") id expr

/-- `-` between two expressions. -/
def minus (left right : ScalarExpr Unit) : ScalarExpr Unit := .binary left .subtract right

/-- A difference of plain operands is plain. -/
theorem minus_plain {left right : ScalarExpr Unit} (hleft : IsPlain .operand left)
    (hright : IsPlain .operand right) : IsPlain .whole (minus left right) := by
  refine .whole fun item hitem part hpart => ?_
  simp only [minus,items,List.mem_cons,List.not_mem_nil,or_false] at hitem
  rcases hitem with rfl | rfl | rfl
  · obtain rfl := Option.some.inj hpart
    exact hleft
  · cases hpart
  · obtain rfl := Option.some.inj hpart
    exact hright

/-- `a-b` and `b-a` are plain, so that their keys differ. -/
theorem scalarExprKey_identifies_minus :
    plainKey (minus (.column "a") (.column "b"))≠plainKey (minus (.column "b") (.column "a")) := by
  have hname : ∀ name∈["a","b"], PlainName name := by
    intro name hname
    simp only [List.mem_cons,List.not_mem_nil,or_false] at hname
    rcases hname with rfl | rfl <;>
      exact ⟨by decide,⟨_,rfl,by decide⟩,by decide,by decide⟩
  have ha : IsPlain .operand (.column "a" : ScalarExpr Unit) := .leaf (hname "a" (by decide))
  have hb : IsPlain .operand (.column "b" : ScalarExpr Unit) := .leaf (hname "b" (by decide))
  intro hkey
  have hfound := (scalarExprKey_identifies integerOperators (fun _ => "0") id).2 _ _
    (minus_plain ha hb) (minus_plain hb ha) hkey
  simp [minus] at hfound

/-- `a-(b-c)` and `(a-b)-c` have one key, and so have a text and a column; their values differ
on a row. -/
theorem one_key_two_values :
    plainKey (minus (.column "a") (minus (.column "b") (.column "c")))=
      plainKey (minus (minus (.column "a") (.column "b")) (.column "c")) ∧
    evaluateScalarExpr integerOperators threeColumns [.integer 1,.integer 1,.integer 1]
      (minus (.column "a") (minus (.column "b") (.column "c")))=.ok (.integer 1) ∧
    evaluateScalarExpr integerOperators threeColumns [.integer 1,.integer 1,.integer 1]
      (minus (minus (.column "a") (.column "b")) (.column "c"))=.ok (.integer (-1)) ∧
    plainKey (.literal (.text "a"))=plainKey (.column "a") ∧
    evaluateScalarExpr integerOperators threeColumns [.integer 1,.integer 1,.integer 1]
      (.literal (.text "a") : ScalarExpr Unit)=.ok (.text "a") ∧
    evaluateScalarExpr integerOperators threeColumns [.integer 1,.integer 1,.integer 1]
      (.column "a" : ScalarExpr Unit)=.ok (.integer 1) :=
  ⟨rfl,rfl,rfl,rfl,rfl,rfl⟩

end RustSql.Sql
