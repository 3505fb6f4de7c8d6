import RustSql.Base.Text
import RustSql.Check.Numbers

/-!
# Texts of values

The text a value is compared as, the number a text begins with, and the string functions of
the condition evaluator.
-/

namespace RustSql.Check

/-- `char::is_whitespace`. -/
def isWhitespace (char : Char) : Bool :=
  let code := char.toNat
  (9 ≤ code && code ≤ 13) || code==0x20 || code==0x85 || code==0xA0 || code==0x1680 ||
    (0x2000 ≤ code && code ≤ 0x200A) || code==0x2028 || code==0x2029 || code==0x202F ||
    code==0x205F || code==0x3000

/-- `str::trim_start_matches`, `str::trim_end_matches` and `str::trim_matches`. -/
def trimStartMatches (matched : Char → Bool) (text : List Char) : List Char :=
  text.dropWhile matched
def trimEndMatches (matched : Char → Bool) (text : List Char) : List Char :=
  (text.reverse.dropWhile matched).reverse
def trimMatches (matched : Char → Bool) (text : List Char) : List Char :=
  trimEndMatches matched (trimStartMatches matched text)

/-- `str::trim`. -/
def trim (text : String) : List Char := trimMatches isWhitespace text.toList

/-- `str::trim_start`. -/
def trimStart (text : List Char) : List Char := trimStartMatches isWhitespace text

section Texts

variable (machine : Machine)

/-- `sqlite_real_to_text`. -/
def sqliteRealToText (value : UInt64) : String :=
  if realEq value realInfinity then "Inf"
  else if realEq value realNegInfinity then "-Inf"
  else
    let rendered := machine.realToString value
    if rendered.toList.any fun char => char == '.' || char == 'e' || char == 'E' then rendered
    else rendered++".0"

/-- `sqlite_real_to_text_for_quote`. -/
def sqliteRealToTextForQuote (value : UInt64) : String :=
  if realEq value realInfinity then "9.0e+999"
  else if realEq value realNegInfinity then "-9.0e+999"
  else
    let rendered := machine.realToString value
    if rendered.toList.any fun char => char == '.' || char == 'e' || char == 'E' then rendered
    else rendered++".0"

/-- `sqlite_text_like_value`. -/
def sqliteTextLikeValue : Value → String
  | .null => ""
  | .boolean value => if value then "1" else "0"
  | .integer value => toString value.toInt
  | .real value =>
    if realEq value realInfinity then "Inf"
    else if realEq value realNegInfinity then "-Inf"
    else machine.realToString value
  | .blob value => machine.fromUtf8Lossy value
  | .text value => value

/-- `sqlite_text_prefix_before_nul`. -/
def sqliteTextPrefixBeforeNul (value : String) : List Char :=
  value.toList.takeWhile (· != '\x00')

/-! ## The number a text begins with -/

/-- Where a scan of a number stands: the position and text it goes on from, where the number
ends so far, and whether a digit and a dot were seen. -/
structure NumberScan where
  index : ℕ
  rest : List Char
  stop : ℕ
  sawDigit : Bool
  sawDot : Bool

/-- The digits and the dot. -/
def scanDigits (index : ℕ) : List Char → ℕ → Bool → Bool → NumberScan
  | [], stop, sawDigit, sawDot => ⟨index,[],stop,sawDigit,sawDot⟩
  | char :: rest, stop, sawDigit, sawDot =>
    let next := index+char.utf8Size
    if char.isDigit then scanDigits next rest next true sawDot
    else if char == '.' && !sawDot then scanDigits next rest next sawDigit true
    else ⟨index,char :: rest,stop,sawDigit,sawDot⟩

/-- The digits of an exponent: where they end, and whether there was one. -/
def scanExponentDigits (index : ℕ) : List Char → ℕ → Bool → ℕ × Bool
  | [], stop, sawDigit => (stop,sawDigit)
  | char :: rest, stop, sawDigit =>
    let next := index+char.utf8Size
    if char.isDigit then scanExponentDigits next rest next true else (stop,sawDigit)

/-- The exponent: where it ends, when it has a digit. -/
def scanExponent (index : ℕ) : List Char → Option ℕ
  | [] => none
  | exp :: rest =>
    if exp == 'e' || exp == 'E' then
      let start := index+exp.utf8Size
      let found :=
        match rest with
        | sign :: digits =>
          if sign == '+' || sign == '-' then scanExponentDigits (start+sign.utf8Size) digits start false
          else scanExponentDigits start rest start false
        | [] => (start,false)
      if found.2 then some found.1 else none
    else none

/-- The sign at the front: its end, and the rest. -/
def scanSign : List Char → ℕ × List Char
  | [] => (0,[])
  | char :: rest =>
    if char == '+' || char == '-' then (char.utf8Size,rest) else (0,char :: rest)

/-- `sqlite_text_numeric_prefix`. -/
def sqliteTextNumericPrefix (value : String) : Outcome UInt64 := do
  let trimmed := trimStart value.toList
  let sign := scanSign trimmed
  let scan := scanDigits sign.1 sign.2 sign.1 false false
  if !scan.sawDigit then .ok 0
  else
    let exponent := scanExponent scan.index scan.rest
    let found ← Text.sliceTo trimmed (exponent.getD scan.stop)
    if scan.sawDot || exponent.isSome then
      .ok ((machine.parseReal (String.ofList found)).getD 0)
    else .ok (((parseI64 found).map machine.toReal).getD 0)

/-- `sqlite_text_integer_prefix`. -/
def sqliteTextIntegerPrefix (value : String) : Outcome Int64 := do
  let numeric ← sqliteTextNumericPrefix machine value
  if isNan numeric then .ok 0
  else if realLe (machine.toReal Int64.maxValue) numeric then .ok Int64.maxValue
  else if realLe numeric (machine.toReal Int64.minValue) then .ok Int64.minValue
  else .ok (realToI64 numeric)

/-- `sqlite_text_real_prefix`. -/
def sqliteTextRealPrefix (value : String) : Outcome UInt64 := sqliteTextNumericPrefix machine value

/-- `sqlite_text_numeric_value`. -/
def sqliteTextNumericValue (value : String) : Outcome Value := do
  let numeric ← sqliteTextNumericPrefix machine value
  if isFinite numeric && isWhole numeric then .ok (.integer (realToI64 numeric))
  else .ok (.real numeric)

/-- `sqlite_check_numeric_real`. -/
def sqliteCheckNumericReal : Value → Outcome UInt64
  | .null => .ok 0
  | .boolean value => .ok (if value then realOne else 0)
  | .integer value => .ok (machine.toReal value)
  | .real value => .ok value
  | .text value => sqliteTextNumericPrefix machine value
  | .blob value => sqliteTextNumericPrefix machine (machine.fromUtf8Lossy value)

/-- `sqlite_check_truthy`. -/
def sqliteCheckTruthy : Value → Outcome Bool
  | .null => .ok false
  | .boolean value => .ok value
  | .integer value => .ok (value≠0)
  | .real value => .ok (!realEq value 0)
  | .text value => do
    let numeric ← sqliteTextNumericPrefix machine value
    .ok (!realEq numeric 0)
  | .blob value => do
    let numeric ← sqliteTextNumericPrefix machine (machine.fromUtf8Lossy value)
    .ok (!realEq numeric 0)

/-! ## String functions -/

/-- `sqlite_hex_bytes`. -/
def sqliteHexBytes (bytes : Bytes) : String :=
  String.ofList (bytes.flatMap fun byte =>
    [(Nat.digitChar (byte.toNat/16)).toUpper,(Nat.digitChar (byte.toNat%16)).toUpper])

/-- `str::as_bytes`. -/
def asBytes (text : String) : Bytes := text.toUTF8.data.toList

/-- `sqlite_ascii_lower` and `sqlite_ascii_upper`. -/
def sqliteAsciiLower (value : String) : String := value.map Char.toLower
def sqliteAsciiUpper (value : String) : String := value.map Char.toUpper

/-- `sqlite_trim`. -/
def sqliteTrim (value : String) (side : TrimSide) (characters : Option String) : String :=
  let matched := fun char => (characters.getD " ").toList.contains char
  match side with
  | .both => String.ofList (trimMatches matched value.toList)
  | .start => String.ofList (trimStartMatches matched value.toList)
  | .stop => String.ofList (trimEndMatches matched value.toList)

/-- The index a substring starts at, before it is brought into the text. -/
def substrStartIndex (len start : Int64) : Outcome Int64 :=
  if 0 < start then subI64 start 1 else if start < 0 then addI64 len start else .ok 0

/-- `sqlite_substr_text`. -/
def sqliteSubstrText (value : String) (start : Int64) (length : Option Int64) : Outcome String := do
  if length.any fun length => length ≤ 0 then .ok ""
  else
    let chars := value.toList
    let len := countAsI64 chars.length
    let startIndex ← substrStartIndex len start
    -- `i64::clamp` panics when its bounds are the wrong way round
    Outcome.check ((0 : Int64) ≤ len)
    let first := (max 0 (min startIndex.toInt len.toInt)).toNat
    let tail := chars.drop first
    .ok (String.ofList (length.elim tail fun length => tail.take length.toInt.toNat))

/-- The place of the first window of a byte string that is the needle. -/
def findBytes (needle : Bytes) : Bytes → Option ℕ
  | [] => none
  | byte :: rest =>
    if needle.isPrefixOf (byte :: rest) then some 0 else (findBytes needle rest).map (·+1)

/-- `sqlite_check_instr`. -/
def sqliteCheckInstr (value needle : Value) : Outcome (Option Int64) := do
  if value=.null ∨ needle=.null then .ok none
  else
    match value, needle with
    | .blob haystack, .blob needle =>
      if needle=[] then .ok (some 1)
      else
        match findBytes needle haystack with
        | some index => do
          let position ← addI64 (countAsI64 index) 1
          .ok (some position)
        | none => .ok (some 0)
    | value, needle =>
      let haystack := (sqliteTextLikeValue machine value).toList
      let needle := (sqliteTextLikeValue machine needle).toList
      if needle=[] then .ok (some 1)
      else
        match Text.find needle haystack with
        | some byteIndex => do
          let front ← Text.sliceTo haystack byteIndex
          let position ← addI64 (countAsI64 front.length) 1
          .ok (some position)
        | none => .ok (some 0)

end Texts

end RustSql.Check
