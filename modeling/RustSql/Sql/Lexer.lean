import RustSql.Base.Text
import RustSql.Check.Texts

/-!
# The lexer

The lexer walks over the bytes of a statement. What it looks at is a slice of the text from its
offset on, so an offset inside a character panics, and so does a literal that is cut at one.
-/

namespace RustSql.Sql

open Text (len sliceFrom)
open Check (isWhitespace parseI64)

/-- `TokenKind`. -/
inductive TokenKind where
  | create | alter | add | rename | replace | drop | table | column | to | unique | index | on
  | off | conflict | «do» | nothing | insert | into | values | select | delete | update | set
  | «from» | «where» | group | having | order | «by» | limit | offset | «with» | recursive
  | union | intersect | except | all | «as» | inner | cross | left | right | full | outer
  | natural | join | «using» | asc | desc | and | or | like | glob | regexp | «match» | escape
  | between | «begin» | start | transaction | isolation | level | read | committed | repeatable
  | serializable | commit | rollback | savepoint | release | case | when | «then» | «else»
  | «end» | «if» | not | «in» | is | «exists» | explain | query | plan | pragma | analyze
  | reindex | vacuum | distinct | default | returning | check | collate | constraint | foreign
  | references | generated | always | stored | virtual | isNull | notNull | nulls | first | last
  | primary | key | strict | autoincrement | integerType | textType | blobType | booleanType
  | «true» | «false» | null
  | identifier (name : String)
  | integer (value : Int64)
  | real (value : UInt64)
  | string (value : String)
  | blobLiteral (bytes : Bytes)
  | star | comma | semicolon | lParen | rParen | eq | ne | gt | gte | lt | lte | plus | minus
  | slash | percent | ampersand | pipe | shiftLeft | shiftRight | tilde | pipePipe | arrow
  | arrowText | dot | eof

/-- `Token`. -/
structure Token where
  kind : TokenKind
  position : ℕ

/-- The words `lex_word` knows, in upper case. -/
def keywords : List (String × TokenKind) := [
  ("CREATE",.create), ("ALTER",.alter), ("ADD",.add), ("RENAME",.rename), ("REPLACE",.replace),
  ("DROP",.drop), ("TABLE",.table), ("COLUMN",.column), ("TO",.to), ("UNIQUE",.unique),
  ("INDEX",.index), ("ON",.on), ("OFF",.off), ("CONFLICT",.conflict), ("DO",.«do»),
  ("NOTHING",.nothing), ("INSERT",.insert), ("INTO",.into), ("VALUES",.values),
  ("SELECT",.select), ("DELETE",.delete), ("UPDATE",.update), ("SET",.set), ("FROM",.«from»),
  ("WHERE",.«where»), ("GROUP",.group), ("HAVING",.having), ("ORDER",.order), ("BY",.«by»),
  ("LIMIT",.limit), ("OFFSET",.offset), ("WITH",.«with»), ("RECURSIVE",.recursive),
  ("UNION",.union), ("INTERSECT",.intersect), ("EXCEPT",.except), ("ALL",.all), ("AS",.«as»),
  ("INNER",.inner), ("CROSS",.cross), ("LEFT",.left), ("RIGHT",.right), ("FULL",.full),
  ("OUTER",.outer), ("NATURAL",.natural), ("JOIN",.join), ("USING",.«using»), ("ASC",.asc),
  ("DESC",.desc), ("AND",.and), ("OR",.or), ("LIKE",.like), ("GLOB",.glob), ("REGEXP",.regexp),
  ("MATCH",.«match»), ("ESCAPE",.escape), ("BETWEEN",.between), ("BEGIN",.«begin»),
  ("START",.start), ("TRANSACTION",.transaction), ("ISOLATION",.isolation), ("LEVEL",.level),
  ("READ",.read), ("COMMITTED",.committed), ("REPEATABLE",.repeatable),
  ("SERIALIZABLE",.serializable), ("COMMIT",.commit), ("ROLLBACK",.rollback),
  ("SAVEPOINT",.savepoint), ("RELEASE",.release), ("CASE",.case), ("WHEN",.when),
  ("THEN",.«then»), ("ELSE",.«else»), ("END",.«end»), ("IF",.«if»), ("NOT",.not), ("IN",.«in»),
  ("IS",.is), ("EXISTS",.«exists»), ("EXPLAIN",.explain), ("QUERY",.query), ("PLAN",.plan),
  ("PRAGMA",.pragma), ("ANALYZE",.analyze), ("REINDEX",.reindex), ("VACUUM",.vacuum),
  ("DISTINCT",.distinct), ("DEFAULT",.default), ("RETURNING",.returning), ("CHECK",.check),
  ("COLLATE",.collate), ("CONSTRAINT",.constraint), ("FOREIGN",.foreign),
  ("REFERENCES",.references), ("GENERATED",.generated), ("ALWAYS",.always), ("STORED",.stored),
  ("VIRTUAL",.virtual), ("ISNULL",.isNull), ("NOTNULL",.notNull), ("NULLS",.nulls),
  ("FIRST",.first), ("LAST",.last), ("PRIMARY",.primary), ("KEY",.key), ("STRICT",.strict),
  ("AUTOINCREMENT",.autoincrement), ("INTEGER",.integerType), ("TEXT",.textType),
  ("BLOB",.blobType), ("BOOLEAN",.booleanType), ("TRUE",.«true»), ("FALSE",.«false»),
  ("NULL",.null)]

/-! ## Texts of digits -/

/-- `char::to_digit(16)`. -/
def hexDigitValue (char : Char) : Option ℕ :=
  if '0' ≤ char ∧ char ≤ '9' then some (char.toNat- '0'.toNat)
  else if 'a' ≤ char ∧ char ≤ 'f' then some (char.toNat- 'a'.toNat+10)
  else if 'A' ≤ char ∧ char ≤ 'F' then some (char.toNat- 'A'.toNat+10)
  else none

/-- The digits of `from_str_radix`, for an integer type with `bound` values. -/
def hexNumber (bound : ℕ) : List Char → ℕ → Except String ℕ
  | [], value => .ok value
  | char :: text, value =>
    match hexDigitValue char with
    | none => .error "invalid digit found in string"
    | some digit =>
      if value*16+digit < bound then hexNumber bound text (value*16+digit)
      else .error "number too large to fit in target type"

/-- `from_str_radix` of an unsigned integer, for the radix 16. -/
def fromStrRadix16 (bound : ℕ) : List Char → Except String ℕ
  | [] => .error "cannot parse integer from empty string"
  | first :: text =>
    if text=[] ∧ (first= '+' ∨ first= '-') then .error "invalid digit found in string"
    else if first= '+' then hexNumber bound text 0
    else hexNumber bound (first :: text) 0

/-- `replace('_', "")`. -/
def withoutUnderscores (text : List Char) : List Char := text.filter fun char => char != '_'

/-- `parse::<f64>`, with the text of its error. -/
def parseF64 (parseReal : String → Option UInt64) (text : List Char) : Except String UInt64 :=
  match parseReal (String.ofList text) with
  | some value => .ok value
  | none =>
    .error (if text=[] then "cannot parse float from empty string" else "invalid float literal")

/-- `'0'..='9'`, also with `_`. -/
def isNumberChar (char : Char) : Bool := char.isDigit || char == '_'
def isHexChar (char : Char) : Bool := (hexDigitValue char).isSome || char == '_'

/-- `is_identifier_start` and `is_identifier_continue`. -/
def isIdentifierStart (char : Char) : Bool := char.isAlpha || char == '_'
def isIdentifierContinue (char : Char) : Bool := char.isAlphanum || char == '_'

namespace Lexer

variable (parseReal : String → Option UInt64) (input : List Char)

/-! ## Looking and moving on -/

/-- `peek`. -/
def peek (offset : ℕ) : Outcome (Option Char) := do
  let rest ← sliceFrom input offset
  .ok rest.head?

/-- `peek_next`. -/
def peekNext (offset : ℕ) : Outcome (Option Char) := do
  let rest ← sliceFrom input offset
  .ok rest.tail.head?

/-- `advance_char`: the character and the offset behind it. -/
def advanceChar (offset : ℕ) : Outcome (Option Char × ℕ) := do
  let char ← peek input offset
  match char with
  | none => .ok (none,offset)
  | some char => .ok (some char,offset+char.utf8Size)

/-- A loop that advances while the next character matches. -/
def advanceWhile (accepts : Char → Bool) : ℕ → ℕ → Outcome ℕ
  | 0, _ => .stuck
  | fuel+1, offset => do
    let char ← peek input offset
    if char.any accepts then do
      let (_,offset) ← advanceChar input offset
      advanceWhile accepts fuel offset
    else .ok offset

/-- The rounds that any loop needs at most. -/
def rounds : ℕ := len input+1

/-! ## Comments -/

/-- The loop of `skip_line_comment`. -/
def lineCommentLoop : ℕ → ℕ → Outcome ℕ
  | 0, _ => .stuck
  | fuel+1, offset => do
    let char ← peek input offset
    match char with
    | none => .ok offset
    | some char => do
      let (_,offset) ← advanceChar input offset
      if char= '\n' then .ok offset else lineCommentLoop fuel offset

/-- `skip_line_comment`. -/
def skipLineComment (offset : ℕ) : Outcome ℕ := do
  let (_,offset) ← advanceChar input offset
  let (_,offset) ← advanceChar input offset
  lineCommentLoop input (rounds input) offset

/-- The loop of `skip_block_comment`. -/
def blockCommentLoop : ℕ → ℕ → Outcome ℕ
  | 0, _ => .stuck
  | fuel+1, offset => do
    let (char,offset) ← advanceChar input offset
    match char with
    | none => .err (.sql "unterminated block comment")
    | some char => do
      let next ← peek input offset
      if char= '*' ∧ next=some '/' then do
        let (_,offset) ← advanceChar input offset
        .ok offset
      else blockCommentLoop fuel offset

/-- `skip_block_comment`. -/
def skipBlockComment (offset : ℕ) : Outcome ℕ := do
  let (_,offset) ← advanceChar input offset
  let (_,offset) ← advanceChar input offset
  blockCommentLoop input (rounds input) offset

/-! ## Literals and names -/

/-- The loop of `lex_string` and of `lex_quoted_identifier`: the text up to the closer, where a
doubled closer stands for one if it may be doubled. -/
def quotedLoop (closer : Char) (doubled : Bool) (unterminated : String) :
    ℕ → List Char → ℕ → Outcome (List Char × ℕ)
  | 0, _, _ => .stuck
  | fuel+1, value, offset => do
    let (char,offset) ← advanceChar input offset
    match char with
    | none => .err (.sql unterminated)
    | some char =>
      if char=closer then do
        let next ← peek input offset
        if doubled ∧ next=some closer then do
          let (_,offset) ← advanceChar input offset
          quotedLoop closer doubled unterminated fuel (value++[closer]) offset
        else .ok (value,offset)
      else quotedLoop closer doubled unterminated fuel (value++[char]) offset

/-- The text of the literal that `lex_string` reads. -/
def lexStringText (offset : ℕ) : Outcome (List Char × ℕ) := do
  let (_,offset) ← advanceChar input offset
  quotedLoop input '\'' true "unterminated string literal" (rounds input) [] offset

/-- `lex_string`. -/
def lexString (offset : ℕ) : Outcome (TokenKind × ℕ) := do
  let (value,offset) ← lexStringText input offset
  .ok (.string (String.ofList value),offset)

/-- `lex_quoted_identifier`. -/
def lexQuotedIdentifier (opener closer : Char) (offset : ℕ) : Outcome (TokenKind × ℕ) := do
  let (_,offset) ← advanceChar input offset
  let (value,offset) ← quotedLoop input closer (opener == '"') "unterminated quoted identifier"
    (rounds input) [] offset
  .ok (.identifier (String.ofList value),offset)

/-- The hexadecimal branch of `lex_number`. -/
def lexHexNumber (offset : ℕ) : Outcome (TokenKind × ℕ) := do
  let (_,offset) ← advanceChar input offset
  let (_,hexStart) ← advanceChar input offset
  let offset ← advanceWhile input isHexChar (rounds input) hexStart
  if offset=hexStart then .err (.sql "invalid hexadecimal integer literal '0x'")
  else do
    let text ← Text.slice input hexStart offset
    match fromStrRadix16 (2^64) (withoutUnderscores text) with
    | .error error => .err (.sql
        s!"invalid hexadecimal integer literal '0x{String.ofList text}': {error}")
    | .ok value => .ok (.integer (Int64.ofNat value),offset)

/-- The digits before the point and the fraction, of a number that begins at `start`: whether
there is a point, and the offset behind. -/
def lexFraction (start : ℕ) : Outcome (Bool × ℕ) := do
  let offset ← advanceWhile input isNumberChar (rounds input) start
  let char ← peek input offset
  if char=some '.' then do
    let next ← peekNext input offset
    if start < offset ∨ next.any Char.isDigit then do
      let (_,offset) ← advanceChar input offset
      let offset ← advanceWhile input isNumberChar (rounds input) offset
      .ok (true,offset)
    else .ok (false,offset)
  else .ok (false,offset)

/-- The sign of an exponent. -/
def lexSign (offset : ℕ) : Outcome ℕ := do
  let sign ← peek input offset
  if sign=some '+' ∨ sign=some '-' then do
    let (_,offset) ← advanceChar input offset
    .ok offset
  else .ok offset

/-- The exponent, from `exponent_start`: whether there is one, and the offset behind. -/
def lexExponent (exponentStart : ℕ) : Outcome (Bool × ℕ) := do
  let char ← peek input exponentStart
  if char=some 'e' ∨ char=some 'E' then do
    let (_,offset) ← advanceChar input exponentStart
    let offset ← lexSign input offset
    let digit ← peek input offset
    if digit.any Char.isDigit then do
      let offset ← advanceWhile input isNumberChar (rounds input) offset
      .ok (true,offset)
    else .ok (false,exponentStart)
  else .ok (false,exponentStart)

/-- The token of a number without a base. -/
def numberKind (text : List Char) (isReal : Bool) : Except DbError TokenKind :=
  let normalized := withoutUnderscores text
  if isReal then
    match parseF64 parseReal normalized with
    | .ok value => .ok (.real value)
    | .error error => .error (.sql s!"invalid real literal '{String.ofList text}': {error}")
  else
    match parseI64 normalized with
    | some value => .ok (.integer value)
    | none =>
      match parseF64 parseReal normalized with
      | .ok value => .ok (.real value)
      | .error error => .error (.sql s!"invalid integer literal '{String.ofList text}': {error}")

/-- `lex_number`. -/
def lexNumber (start : ℕ) : Outcome (TokenKind × ℕ) := do
  let char ← peek input start
  let next ← peekNext input start
  if char=some '0' ∧ (next=some 'x' ∨ next=some 'X') then lexHexNumber input start
  else do
    let (point,offset) ← lexFraction input start
    let (exponent,offset) ← lexExponent input offset
    let text ← Text.slice input start offset
    let kind ← Outcome.ofExcept (numberKind parseReal text (point || exponent))
    .ok (kind,offset)

/-- The loop of `lex_blob_literal` over the digits of the literal, from `index` on. -/
def blobBytes (hex : List Char) : ℕ → ℕ → Outcome Bytes
  | 0, _ => .stuck
  | fuel+1, index =>
    if index < len hex then do
      let pair ← Text.slice hex index (index+2)
      match fromStrRadix16 256 pair with
      | .error _ => .err (.sql s!"invalid blob literal hex byte '{String.ofList pair}'")
      | .ok byte => do
        let bytes ← blobBytes hex fuel (index+2)
        .ok (UInt8.ofNat byte :: bytes)
    else .ok []

/-- `lex_blob_literal`. -/
def lexBlobLiteral (offset : ℕ) : Outcome (TokenKind × ℕ) := do
  let (_,offset) ← advanceChar input offset
  let (hex,offset) ← lexStringText input offset
  if len hex%2≠0 then .err (.sql "blob literal must contain an even number of hex digits")
  else do
    let bytes ← blobBytes hex (len hex+1) 0
    .ok (.blobLiteral bytes,offset)

/-- `lex_word`. -/
def lexWord (start : ℕ) : Outcome (TokenKind × ℕ) := do
  let offset ← advanceWhile input isIdentifierContinue (rounds input) start
  let text ← Text.slice input start offset
  .ok ((keywords.lookup (String.ofList (text.map Char.toUpper))).getD
    (.identifier (String.ofList text)),offset)

/-! ## Tokens -/

/-- A token of the characters that were passed. -/
def accept (kind : TokenKind) (offset : ℕ) : Outcome (TokenKind × ℕ) := do
  let (_,offset) ← advanceChar input offset
  .ok (kind,offset)

/-- The characters that are tokens wherever a token begins. -/
def punctuation : List (Char × TokenKind) := [
  ('(',.lParen), (')',.rParen), (',',.comma), ('*',.star), ('+',.plus), ('%',.percent),
  ('&',.ampersand), ('~',.tilde), (';',.semicolon), ('/',.slash)]

/-- The tokens that begin with `=`, `>` and `<`. -/
def lexComparison (char : Char) (offset : ℕ) : Outcome (TokenKind × ℕ) := do
  let (_,offset) ← advanceChar input offset
  let next ← peek input offset
  if char= '=' then
    if next=some '=' then accept input .eq offset else .ok (.eq,offset)
  else if char= '>' then
    if next=some '=' then accept input .gte offset
    else if next=some '>' then accept input .shiftRight offset
    else .ok (.gt,offset)
  else
    if next=some '=' then accept input .lte offset
    else if next=some '>' then accept input .ne offset
    else if next=some '<' then accept input .shiftLeft offset
    else .ok (.lt,offset)

/-- The tokens that begin with `-`. -/
def lexMinus (offset : ℕ) : Outcome (TokenKind × ℕ) := do
  let (_,offset) ← advanceChar input offset
  let next ← peek input offset
  if next=some '>' then do
    let (_,offset) ← advanceChar input offset
    let next ← peek input offset
    if next=some '>' then accept input .arrowText offset else .ok (.arrow,offset)
  else .ok (.minus,offset)

/-- A token of two characters. -/
def acceptTwo (kind : TokenKind) (offset : ℕ) : Outcome (TokenKind × ℕ) := do
  let (_,offset) ← advanceChar input offset
  accept input kind offset

/-- The refusal of a character. -/
def unexpected (char : Char) (position : ℕ) : DbError :=
  .sql s!"unexpected character '{char}' at position {position}"

/-- The character 0x60. -/
def backtick : Char := Char.ofNat 0x60

/-- The token that begins with a character. -/
def lexToken (char : Char) (position : ℕ) : Outcome (TokenKind × ℕ) := do
  let next ← peekNext input position
  match punctuation.lookup char with
  | some kind => accept input kind position
  | none =>
    if char= '.' then
      if next.any Char.isDigit then lexNumber parseReal input position
      else accept input .dot position
    else if char= '=' ∨ char= '>' ∨ char= '<' then lexComparison input char position
    else if char= '!' then
      if next=some '=' then acceptTwo input .ne position else .err (unexpected char position)
    else if char= '-' then lexMinus input position
    else if char= '|' then
      if next=some '|' then acceptTwo input .pipePipe position else accept input .pipe position
    else if char= '\'' then lexString input position
    else if char= '"' then lexQuotedIdentifier input '"' '"' position
    else if char=backtick then lexQuotedIdentifier input backtick backtick position
    else if char= '[' then lexQuotedIdentifier input '[' ']' position
    else if char.isDigit then lexNumber parseReal input position
    else if (char= 'x' ∨ char= 'X') ∧ next=some '\'' then lexBlobLiteral input position
    else if isIdentifierStart char then lexWord input position
    else .err (unexpected char position)

/-- One round of `lex` at a character: a token, or none where something is skipped. -/
def lexStep (char : Char) (position : ℕ) : Outcome (Option Token × ℕ) := do
  let next ← peekNext input position
  if isWhitespace char then do
    let (_,offset) ← advanceChar input position
    .ok (none,offset)
  else if char= '-' ∧ next=some '-' then do
    let offset ← skipLineComment input position
    .ok (none,offset)
  else if char= '/' ∧ next=some '*' then do
    let offset ← skipBlockComment input position
    .ok (none,offset)
  else do
    let (kind,offset) ← lexToken parseReal input char position
    .ok (some ⟨kind,position⟩,offset)

/-- The loop of `lex` from an offset on. -/
def lexLoop : ℕ → ℕ → Outcome (List Token)
  | 0, _ => .stuck
  | fuel+1, offset => do
    let char ← peek input offset
    match char with
    | none => .ok [⟨.eof,len input⟩]
    | some char => do
      let (token,offset) ← lexStep parseReal input char offset
      let tokens ← lexLoop fuel offset
      .ok (token.toList++tokens)

end Lexer

/-- `lex`. -/
def lex (parseReal : String → Option UInt64) (input : List Char) : Outcome (List Token) :=
  Lexer.lexLoop parseReal input (Lexer.rounds input) 0

end RustSql.Sql
