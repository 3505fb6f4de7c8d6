import RustSql.Base.Separated
import RustSql.Sql.Projection

/-!
# The keys of index terms

An index on an expression is found by a text rendered from the expression, without brackets and
without quotes. The text is a list of pieces with blanks between them, and the pieces tell the
expression.
-/

namespace RustSql.Sql

open RustSql.V2 Separated

/-! ## The key -/

/-- `Display for Value`. -/
def valueToString (realToString : UInt64 → String) : Value → String
  | .null => "NULL"
  | .boolean value => if value then "true" else "false"
  | .integer value => toString value.toInt
  | .real value => realToString value
  | .blob value => "X'"++bytesHex value++"'"
  | .text value => value

/-- The sign of a comparison. -/
def compareOpSign : CompareOp → String
  | .eq => "="
  | .ne => "!="
  | .gt => ">"
  | .gte => ">="
  | .lt => "<"
  | .lte => "<="

/-- The sign of an operator. -/
def binaryOpSign : ScalarBinaryOp → String
  | .add => "+"
  | .subtract => "-"
  | .multiply => "*"
  | .divide => "/"
  | .modulo => "%"
  | .bitAnd => "&"
  | .bitOr => "|"
  | .shiftLeft => "<<"
  | .shiftRight => ">>"
  | .concat => "||"
  | .jsonExtract => "->"
  | .jsonExtractText => "->>"

/-- The name of a function in a key. -/
def ScalarFunc.display : ScalarFunc → String
  | .coalesce => "COALESCE"
  | .ifNull => "IFNULL"
  | .iif => "IIF"
  | .if' => "IF"
  | .other name => name

/-- `if *negated { "NOT " } else { "" }`. -/
def notText (negated : Bool) : String := if negated then "NOT " else ""

section Key

variable {S : Type} (realToString : UInt64 → String) (aggregateExprKey : String → String)

mutual

/-- `scalar_expr_key`, with the texts of floats and of aggregates from elsewhere. -/
def scalarExprKey : ScalarExpr S → String
  | .literal value => valueToString realToString value
  | .column name => name
  | .unaryPlus expr => "+"++scalarExprKey expr
  | .unaryMinus expr => "-"++scalarExprKey expr
  | .bitNot expr => "~"++scalarExprKey expr
  | .not expr => "NOT "++scalarExprKey expr
  | .collate expr collation => scalarExprKey expr++" COLLATE "++collation
  | .cast expr ty => "CAST("++scalarExprKey expr++" AS "++ty.name++")"
  | .is left right negated =>
    scalarExprKey left++" IS "++notText negated++scalarExprKey right
  | .isBool expr value negated =>
    scalarExprKey expr++" IS "++notText negated++(if value then "TRUE" else "FALSE")
  | .inList expr values negated =>
    scalarExprKey expr++" "++notText negated++"IN ("++
      ", ".intercalate (scalarExprKeys values)++")"
  | .inSubquery expr _ negated => scalarExprKey expr++" "++notText negated++"IN (SELECT ...)"
  | .subquery _ => "(SELECT ...)"
  | .like expr pattern escape negated =>
    scalarExprKey expr++" "++notText negated++"LIKE "++scalarExprKey pattern++
      match optionKey escape with
      | some escape => " ESCAPE "++escape
      | none => ""
  | .glob expr pattern negated =>
    scalarExprKey expr++" "++notText negated++"GLOB "++scalarExprKey pattern
  | .between expr low high negated =>
    scalarExprKey expr++" "++notText negated++"BETWEEN "++scalarExprKey low++" AND "++
      scalarExprKey high
  | .compare left op right =>
    scalarExprKey left++" "++compareOpSign op++" "++scalarExprKey right
  | .compareSubquery left op _ =>
    scalarExprKey left++" "++compareOpSign op++" (SELECT ...)"
  | .case base clauses elseExpr =>
    " ".intercalate ("CASE" :: (optionKey base).toList++clauseKeys clauses++
      ((optionKey elseExpr).map fun key => "ELSE "++key).toList++["END"])
  | .binary left op right =>
    scalarExprKey left++" "++binaryOpSign op++" "++scalarExprKey right
  | .function func args => func.display++"("++", ".intercalate (scalarExprKeys args)++")"
  | .windowFunction => "ROW_NUMBER()"
  | .aggregate name => aggregateExprKey name
  | .tuple values => "("++", ".intercalate (scalarExprKeys values)++")"

def scalarExprKeys : List (ScalarExpr S) → List String
  | [] => []
  | expr :: rest => scalarExprKey expr :: scalarExprKeys rest

def optionKey : Option (ScalarExpr S) → Option String
  | none => none
  | some expr => some (scalarExprKey expr)

/-- The clauses of a `CASE`. -/
def clauseKeys : List (ScalarExpr S × ScalarExpr S) → List String
  | [] => []
  | (whenExpr,thenExpr) :: rest =>
    ("WHEN "++scalarExprKey whenExpr++" THEN "++scalarExprKey thenExpr) :: clauseKeys rest

end

end Key

/-! ## Plain expressions -/

/-- A character of a plain name. -/
def isNameChar (char : Char) : Bool :=
  char.isAlphanum || char== '_' || char== '.' || 128 ≤ char.toNat

/-- The words that stand in a key between its operands. -/
def keyWords : List String :=
  ["NOT","COLLATE","IS","IN","LIKE","ESCAPE","GLOB","BETWEEN","AND","CASE","WHEN","THEN","ELSE",
    "END","AS","TRUE","FALSE","=","!=",">",">=","<","<=","+","-","*","/","%","&","|","<<",">>",
    "||","->","->>"]

/-- The words that a key starts an operand with, or that are an operand. -/
def operandWords : List String := ["CAST","NULL","true","false"]

/-- A name that a key cannot have for another reason. -/
structure PlainName (name : String) : Prop where
  chars : ∀ char∈name.toList, isNameChar char
  first : ∃ char∈name.toList.head?, char.isDigit=false
  word : name∉keyWords
  operand : name∉operandWords

section Plain

variable {S : Type}

/-- A piece of a key between blanks: a word, an operand, or a sign in front of an operand. -/
inductive Item (S : Type) where
  | word (word : String)
  | part (expr : ScalarExpr S)
  | signed (sign : Char) (expr : ScalarExpr S)

/-- `NOT` between two operands. -/
def notWord (negated : Bool) : List (Item S) := if negated then [.word "NOT"] else []

/-- The pieces of an operator's key; names stand as columns do. All other expressions are one
piece. -/
def items : ScalarExpr S → List (Item S)
  | .unaryPlus expr => [.signed '+' expr]
  | .unaryMinus expr => [.signed '-' expr]
  | .bitNot expr => [.signed '~' expr]
  | .not expr => [.word "NOT",.part expr]
  | .collate expr collation => [.part expr,.word "COLLATE",.part (.column collation)]
  | .is left right negated => .part left :: .word "IS" :: notWord negated++[.part right]
  | .isBool expr value negated =>
    .part expr :: .word "IS" :: notWord negated++[.word (if value then "TRUE" else "FALSE")]
  | .inList expr values negated =>
    .part expr :: notWord negated++[.word "IN",.part (.tuple values)]
  | .like expr pattern none negated =>
    .part expr :: notWord negated++[.word "LIKE",.part pattern]
  | .like expr pattern (some escape) negated =>
    .part expr :: notWord negated++[.word "LIKE",.part pattern,.word "ESCAPE",.part escape]
  | .glob expr pattern negated => .part expr :: notWord negated++[.word "GLOB",.part pattern]
  | .between expr low high negated =>
    .part expr :: notWord negated++[.word "BETWEEN",.part low,.word "AND",.part high]
  | .compare left op right => [.part left,.word (compareOpSign op),.part right]
  | .binary left op right => [.part left,.word (binaryOpSign op),.part right]
  | .case base clauses elseExpr =>
    .word "CASE" :: base.toList.map .part++
      (clauses.flatMap fun clause =>
        [.word "WHEN",.part clause.1,.word "THEN",.part clause.2])++
      (elseExpr.toList.flatMap fun expr => [.word "ELSE",.part expr])++[.word "END"]
  | expr => [.part expr]

/-- The operand of a piece. -/
def Item.operand : Item S → Option (ScalarExpr S)
  | .word _ => none
  | .part expr | .signed _ expr => some expr

/-- A name or a literal that a key cannot have for another reason. -/
def ScalarExpr.IsPlainLeaf : ScalarExpr S → Prop
  | .column name => PlainName name
  | .literal .null | .literal (.boolean _) | .literal (.blob _) => True
  | .literal (.integer value) => 0 ≤ value.toInt
  | _ => False

/-- Where an expression stands: between blanks, or between brackets and commas. -/
inductive Place where
  | operand
  | whole

/-- A function that a key cannot name for another reason. -/
def ScalarFunc.IsPlain : ScalarFunc → Prop
  | .other name => PlainName name ∧ name∉["COALESCE","IFNULL","IIF","IF"]
  | _ => True

/-- Expressions whose operators have plain operands: names and literals, and what has brackets
of its own. -/
inductive IsPlain : Place → ScalarExpr S → Prop where
  | leaf {expr : ScalarExpr S} (h : expr.IsPlainLeaf) : IsPlain .operand expr
  | tuple {exprs : List (ScalarExpr S)} (h : ∀ expr∈exprs, IsPlain .whole expr) :
    IsPlain .operand (.tuple exprs)
  | function {func : ScalarFunc} {args : List (ScalarExpr S)} (hfunc : func.IsPlain)
    (h : ∀ expr∈args, IsPlain .whole expr) : IsPlain .operand (.function func args)
  | cast {expr : ScalarExpr S} {ty : ColumnType}
    (h : ∀ item∈items expr, ∀ part∈item.operand, IsPlain .operand part) :
    IsPlain .operand (.cast expr ty)
  | whole {expr : ScalarExpr S}
    (h : ∀ item∈items expr, ∀ part∈item.operand, IsPlain .operand part) : IsPlain .whole expr

end Plain

/-! ## The pieces of a key -/

section Pieces

variable {S : Type} (realToString : UInt64 → String) (aggregateExprKey : String → String)

/-- The characters of a key. -/
def keyText (expr : ScalarExpr S) : List Char :=
  (scalarExprKey realToString aggregateExprKey expr).toList

/-- The characters of a piece. -/
def itemText : Item S → List Char
  | .word word => word.toList
  | .part expr => keyText realToString aggregateExprKey expr
  | .signed sign expr => sign :: keyText realToString aggregateExprKey expr

variable {realToString aggregateExprKey}

theorem scalarExprKeys_eq (exprs : List (ScalarExpr S)) :
    scalarExprKeys realToString aggregateExprKey exprs=
      exprs.map (scalarExprKey realToString aggregateExprKey) := by
  induction exprs with
  | nil => rw [scalarExprKeys,List.map_nil]
  | cons expr exprs ih => rw [scalarExprKeys,List.map_cons,ih]

theorem optionKey_eq (expr : Option (ScalarExpr S)) :
    optionKey realToString aggregateExprKey expr=
      expr.map (scalarExprKey realToString aggregateExprKey) := by
  cases expr <;> rw [optionKey] <;> rfl

/-- Between brackets stands the list of arguments, with commas. -/
theorem arguments_toList (exprs : List (ScalarExpr S)) :
    (", ".intercalate (scalarExprKeys realToString aggregateExprKey exprs)).toList=
      [',',' '].intercalate (exprs.map (keyText realToString aggregateExprKey)) := by
  rw [String.toList_intercalate,scalarExprKeys_eq,List.map_map]
  rfl

theorem clauseKeys_flatMap (clauses : List (ScalarExpr S × ScalarExpr S)) :
    ((clauseKeys realToString aggregateExprKey clauses).map String.toList).flatMap
        (fun text => [' ']++text)=
      ((clauses.flatMap fun clause => ([.word "WHEN",.part clause.1,.word "THEN",
        .part clause.2] : List (Item S))).map (itemText realToString aggregateExprKey)).flatMap
          fun text => [' ']++text := by
  induction clauses with
  | nil => rw [clauseKeys]; rfl
  | cons clause clauses ih =>
    rw [clauseKeys,List.map_cons,List.flatMap_cons,ih,List.flatMap_cons,List.map_append,
      List.flatMap_append]
    simp [itemText,keyText]

/-- A key is its pieces with blanks between them. -/
theorem keyText_items (expr : ScalarExpr S) :
    keyText realToString aggregateExprKey expr=
      [' '].intercalate ((items expr).map (itemText realToString aggregateExprKey)) := by
  cases expr with
  | case base clauses elseExpr =>
    rw [keyText,scalarExprKey,String.toList_intercalate,items]
    simp only [List.cons_append,List.map_cons,List.map_append,optionKey_eq]
    change [' '].intercalate _=_
    rw [intercalate_cons_flatMap,intercalate_cons_flatMap]
    simp only [List.flatMap_append]
    rw [clauseKeys_flatMap]
    cases base <;> cases elseExpr <;> simp [itemText,keyText]
  | like expr pattern escape negated =>
    cases escape <;> cases negated <;>
      simp [keyText,scalarExprKey,items,notWord,notText,itemText,optionKey,
        List.intercalate_cons_cons]
  | is left right negated | isBool left right negated | glob left right negated
  | between left low right negated =>
    cases negated <;>
      simp [keyText,scalarExprKey,items,notWord,notText,itemText,List.intercalate_cons_cons]
  | inList expr values negated =>
    cases negated <;>
      simp [keyText,scalarExprKey,items,notWord,notText,itemText,List.intercalate_cons_cons]
  | _ => simp [keyText,scalarExprKey,items,itemText,List.intercalate_cons_cons]

/-- The clauses that pieces stand for, and the pieces behind them. -/
def readClauses : List (Item S) → List (ScalarExpr S × ScalarExpr S) × List (Item S)
  | .word "WHEN" :: .part whenExpr :: .word "THEN" :: .part thenExpr :: rest =>
    ((whenExpr,thenExpr) :: (readClauses rest).1,(readClauses rest).2)
  | rest => ([],rest)

/-- The `CASE` that pieces stand for, without the word itself. -/
def readCase (base : Option (ScalarExpr S)) (rest : List (Item S)) : Option (ScalarExpr S) :=
  match readClauses rest with
  | (clauses,[.word "END"]) => some (.case base clauses none)
  | (clauses,[.word "ELSE",.part expr,.word "END"]) => some (.case base clauses (some expr))
  | _ => none

/-- The sign between two operands. -/
def readSign (left right : ScalarExpr S) (sign : String) : Option (ScalarExpr S) :=
  match [.eq,.ne,.gt,.gte,.lt,.lte].find? fun op => compareOpSign op=sign with
  | some op => some (.compare left op right)
  | none =>
    ([.add,.subtract,.multiply,.divide,.modulo,.bitAnd,.bitOr,.shiftLeft,.shiftRight,.concat,
      .jsonExtract,.jsonExtractText].find? fun op => binaryOpSign op=sign).map
        fun op => .binary left op right

/-- The operator behind its first operand. -/
def readOperator (expr : ScalarExpr S) (negated : Bool) : List (Item S) → Option (ScalarExpr S)
  | [] => some expr
  | [.word "COLLATE",.part (.column collation)] => some (.collate expr collation)
  | [.word "IS",.part right] => some (.is expr right false)
  | [.word "IS",.word "NOT",.part right] => some (.is expr right true)
  | [.word "IS",.word word] => some (.isBool expr (word=="TRUE") false)
  | [.word "IS",.word "NOT",.word word] => some (.isBool expr (word=="TRUE") true)
  | [.word "IN",.part (.tuple values)] => some (.inList expr values negated)
  | [.word "LIKE",.part pattern] => some (.like expr pattern none negated)
  | [.word "LIKE",.part pattern,.word "ESCAPE",.part escape] =>
    some (.like expr pattern (some escape) negated)
  | [.word "GLOB",.part pattern] => some (.glob expr pattern negated)
  | [.word "BETWEEN",.part low,.word "AND",.part high] => some (.between expr low high negated)
  | [.word sign,.part right] => readSign expr right sign
  | _ => none

/-- The expression that pieces stand for. -/
def readItems : List (Item S) → Option (ScalarExpr S)
  | [.signed '+' expr] => some (.unaryPlus expr)
  | [.signed '-' expr] => some (.unaryMinus expr)
  | [.signed '~' expr] => some (.bitNot expr)
  | [.word "NOT",.part expr] => some (.not expr)
  | .word "CASE" :: .part base :: rest => readCase (some base) rest
  | .word "CASE" :: rest => readCase none rest
  | .part expr :: .word "NOT" :: rest => readOperator expr true rest
  | .part expr :: rest => readOperator expr false rest
  | _ => none

theorem readClauses_flatMap (clauses : List (ScalarExpr S × ScalarExpr S)) {rest : List (Item S)}
    (h : readClauses rest=([],rest)) :
    readClauses ((clauses.flatMap fun clause =>
      [.word "WHEN",.part clause.1,.word "THEN",.part clause.2])++rest)=(clauses,rest) := by
  induction clauses with
  | nil => exact h
  | cons clause clauses ih =>
    rw [List.flatMap_cons,List.append_assoc]
    simp only [List.cons_append,List.nil_append,readClauses,ih]

theorem readItems_items (expr : ScalarExpr S) : readItems (items expr)=some expr := by
  cases expr with
  | case base clauses elseExpr =>
    have hread : ∀ base : Option (ScalarExpr S), readCase base
        ((clauses.flatMap fun clause =>
          [.word "WHEN",.part clause.1,.word "THEN",.part clause.2])++
          (elseExpr.toList.flatMap fun expr => [.word "ELSE",.part expr])++[.word "END"])=
        some (.case base clauses elseExpr) := by
      intro base
      rw [List.append_assoc,readCase,readClauses_flatMap]
      · cases elseExpr <;> rfl
      · cases elseExpr <;> rfl
    cases base with
    | none => 
      refine Eq.trans ?_ (hread none)
      cases clauses <;> cases elseExpr <;> rfl
    | some base => exact hread (some base)
  | like expr pattern escape negated => cases escape <;> cases negated <;> rfl
  | compare left op right => cases op <;> rfl
  | binary left op right => cases op <;> rfl
  | isBool expr value negated => cases value <;> cases negated <;> rfl
  | is _ _ negated | inList _ _ negated | glob _ _ negated | between _ _ _ negated =>
    cases negated <;> rfl
  | _ => rfl

/-- The pieces tell the expression. -/
theorem items_injective {expr other : ScalarExpr S} (h : items expr=items other) :
    expr=other := by
  have hread := readItems_items expr
  rw [h,readItems_items] at hread
  exact (Option.some.inj hread).symm

theorem items_ne_nil (expr : ScalarExpr S) : items expr≠[] := by
  cases expr with
  | like expr pattern escape negated => cases escape <;> exact List.cons_ne_nil _ _
  | case base clauses elseExpr =>
    rw [items]
    exact List.append_ne_nil_of_right_ne_nil _ (List.cons_ne_nil _ _)
  | _ => exact List.cons_ne_nil _ _

/-- The signs in front of an operand. -/
def signs : List Char := ['+','-','~']

/-- A piece of which everything but the operand is known. -/
def Item.IsKnown : Item S → Prop
  | .word text => text∈keyWords
  | .part _ => True
  | .signed mark _ => mark∈signs

theorem items_known (expr : ScalarExpr S) : ∀ item∈items expr, item.IsKnown := by
  have hcompare : ∀ op, compareOpSign op∈keyWords := by
    intro op
    cases op <;> decide
  have hbinary : ∀ op, binaryOpSign op∈keyWords := by
    intro op
    cases op <;> decide
  cases expr with
  | case base clauses elseExpr =>
    intro item hitem
    simp only [items,List.mem_append,List.mem_cons,List.mem_map,List.mem_flatMap,
      List.not_mem_nil,or_false] at hitem
    rcases hitem with
      (((rfl | ⟨_,-,rfl⟩) | ⟨_,-,rfl | rfl | rfl | rfl⟩) | ⟨_,-,rfl | rfl⟩) | rfl <;>
      simp [Item.IsKnown,keyWords]
  | like expr pattern escape negated =>
    cases escape <;> cases negated <;> simp [items,notWord,Item.IsKnown,keyWords]
  | is _ _ negated | inList _ _ negated | glob _ _ negated | between _ _ _ negated =>
    cases negated <;> simp [items,notWord,Item.IsKnown,keyWords]
  | isBool expr value negated =>
    cases value <;> cases negated <;> simp [items,notWord,Item.IsKnown,keyWords]
  | compare left op right => simp [items,Item.IsKnown,hcompare]
  | binary left op right => simp [items,Item.IsKnown,hbinary]
  | _ => simp [items,Item.IsKnown,keyWords,signs]

end Pieces

end RustSql.Sql
