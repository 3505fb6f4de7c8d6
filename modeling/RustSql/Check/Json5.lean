import RustSql.Check.Texts

/-!
# JSON5 texts

`json_valid` rewrites a JSON5 text as JSON before it is read: comments go, quotes become double
ones, names of members get quotes and commas before a closing bracket go. The scan keeps the
position of the characters it takes, where it slices the names out of the text.
-/

namespace RustSql.Check

/-- `is_json5_identifier_start`. -/
def isJson5IdentifierStart (char : Char) : Bool := char == '_' || char == '$' || char.isAlpha

/-- `is_json5_identifier_continue`. -/
def isJson5IdentifierContinue (char : Char) : Bool := isJson5IdentifierStart char || char.isDigit

/-- What follows a comment `/* */`. -/
def skipBlockComment (prev : Char) : List Char → List Char
  | [] => []
  | char :: rest => if prev == '*' && char == '/' then rest else skipBlockComment char rest

/-- A text in single quotes: what is written for it, and what follows it. -/
def scanQuoted (escaped : Bool) (out : List Char) : List Char → List Char × List Char
  | [] => (out,[])
  | char :: rest =>
    if escaped then scanQuoted false (out++[char]) rest
    else if char = '\\' then scanQuoted true (out++[char]) rest
    else if char = '\'' then (out++['"'],rest)
    else if char = '"' then scanQuoted false (out++['\\',char]) rest
    else scanQuoted false (out++[char]) rest

theorem skipBlockComment_suffix (prev : Char) (text : List Char) :
    skipBlockComment prev text <:+ text := by
  induction text generalizing prev with
  | nil => exact List.suffix_rfl
  | cons char rest ih =>
    rw [skipBlockComment]
    split
    · exact List.suffix_cons char rest
    · exact (ih char).trans (List.suffix_cons char rest)

theorem scanQuoted_suffix (escaped : Bool) (out text : List Char) :
    (scanQuoted escaped out text).2 <:+ text := by
  induction text generalizing escaped out with
  | nil => exact List.suffix_rfl
  | cons char rest ih =>
    have hrest := List.suffix_cons char rest
    rw [scanQuoted]
    split_ifs
    · exact (ih _ _).trans hrest
    · exact (ih _ _).trans hrest
    · exact hrest
    · exact (ih _ _).trans hrest
    · exact (ih _ _).trans hrest

/-- The loop of `sqlite_json5_to_json` over what is left of the text. The position of the next
character is the length of the text before it. -/
def json5Loop (json : List Char) (out : List Char) : List Char → Outcome (List Char)
  | [] => .ok out
  | '/' :: '/' :: rest =>
    let behind := rest.dropWhile (· != '\n')
    json5Loop json (if behind=[] then out else out++['\n']) (behind.drop 1)
  | '/' :: '*' :: rest => json5Loop json out (skipBlockComment '\x00' rest)
  | char :: rest =>
    if char = '\'' then
      let quoted := scanQuoted false (out++['"']) rest
      json5Loop json quoted.1 quoted.2
    else if isJson5IdentifierStart char then do
      let start := Text.len json-Text.len (char :: rest)
      let stop := start+char.utf8Size+Text.len (rest.takeWhile isJson5IdentifierContinue)
      let ident ← Text.slice json start stop
      let behind ← Text.sliceFrom json stop
      if (trimStart behind).head?=some ':' then
        json5Loop json (out++['"']++ident++['"']) (rest.dropWhile isJson5IdentifierContinue)
      else json5Loop json (out++ident) (rest.dropWhile isJson5IdentifierContinue)
    else json5Loop json (out++[char]) rest
  termination_by text => text.length
  decreasing_by
    · have := (List.dropWhile_suffix (l := rest) (· != '\n')).length_le
      simp only [List.length_drop,List.length_cons]
      omega
    · have := (skipBlockComment_suffix '\x00' rest).length_le
      simp only [List.length_cons]
      omega
    · have := (scanQuoted_suffix false (out++['"']) rest).length_le
      simp only [List.length_cons]
      omega
    · have := (List.dropWhile_suffix (l := rest) isJson5IdentifierContinue).length_le
      simp only [List.length_cons]
      omega
    · have := (List.dropWhile_suffix (l := rest) isJson5IdentifierContinue).length_le
      simp only [List.length_cons]
      omega
    · simp

/-- The loop of `strip_json5_trailing_commas`. -/
def stripCommas (inString escaped : Bool) : List Char → List Char
  | [] => []
  | char :: rest =>
    if inString then
      char :: (if escaped then stripCommas true false rest
        else if char = '\\' then stripCommas true true rest
        else stripCommas (char ≠ '"') false rest)
    else if char = '"' then char :: stripCommas true escaped rest
    else if char = ',' ∧ ((rest.dropWhile isWhitespace).head?=some '}' ∨
        (rest.dropWhile isWhitespace).head?=some ']') then
      stripCommas false escaped rest
    else char :: stripCommas false escaped rest

/-- `strip_json5_trailing_commas`. -/
def stripJson5TrailingCommas (json : List Char) : List Char := stripCommas false false json

/-- `sqlite_json5_to_json`. -/
def sqliteJson5ToJson (json : String) : Outcome (Option String) := do
  let out ← json5Loop json.toList [] json.toList
  let normalized := String.ofList (stripJson5TrailingCommas out)
  .ok (if normalized≠json then some normalized else none)

/-- `sqlite_check_json_valid`. -/
def sqliteCheckJsonValid (machine : Machine) (value : Value) (flags : Option Int64) :
    Outcome (Option Bool) :=
  if value=.null then .ok none
  else
    let json := sqliteTextLikeValue machine value
    if flags.any fun flags => flags &&& 2≠0 then
      if machine.readsJson json then .ok (some true)
      else do
        let rewritten ← sqliteJson5ToJson json
        .ok (some (rewritten.any machine.readsJson))
    else .ok (some (machine.readsJson json))

end RustSql.Check
