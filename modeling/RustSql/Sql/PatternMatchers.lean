import RustSql.Check.Patterns

/-!
# The other pattern matchers

`LIKE` and `GLOB` as the executor and the triggers match them. The executor fills a table of
the matches of the pattern's beginnings with the text's and stops the text at a NUL; the
triggers' recursions follow the text and the pattern.
-/

namespace RustSql.Sql

/-! ## The executor's `LIKE` -/

/-- `LikeToken`. -/
inductive LikeToken where
  | any
  | one
  | literal (char : Char)
  deriving DecidableEq

/-- The token of a character that is not escaped. -/
def likeToken (char : Char) : LikeToken :=
  if char = '%' then .any else if char = '_' then .one else .literal char

/-- `like_tokens`: an escape at the end stands for itself. -/
def likeTokens (escape : Option Char) : List Char → List LikeToken
  | [] => []
  | [char] => if escape=some char then [.literal char] else [likeToken char]
  | char :: next :: rest =>
    if escape=some char then .literal next :: likeTokens escape rest
    else likeToken char :: likeTokens escape (next :: rest)

/-- `sqlite_like_chars_equal`. -/
def sqliteLikeCharsEqual : Char → Char → Bool → Bool := Check.charEq

/-- The row of the table for no text, from an entry on. -/
def firstLikeRow (before : Bool) : List LikeToken → List Bool
  | [] => [before]
  | token :: tokens => before :: firstLikeRow (token == .any && before) tokens

/-- An entry of the table, over the one before it, the one above that and the one above it. -/
def likeEntry (char : Char) (caseSensitive before aboveBefore above : Bool) :
    LikeToken → Bool
  | .any => before || above
  | .one => aboveBefore
  | .literal literal => aboveBefore && sqliteLikeCharsEqual char literal caseSensitive

/-- The row of the table for one more character, from an entry on. -/
def nextLikeRow (char : Char) (caseSensitive before : Bool) :
    List LikeToken → List Bool → List Bool
  | token :: tokens, aboveBefore :: above :: row =>
    before :: nextLikeRow char caseSensitive
      (likeEntry char caseSensitive before aboveBefore above token) tokens (above :: row)
  | _, _ => [before]

/-- The table's last entry. -/
def likeTable (caseSensitive : Bool) (value : List Char) (tokens : List LikeToken) : Bool :=
  (value.foldl (fun row char => nextLikeRow char caseSensitive false tokens row)
    (firstLikeRow true tokens)).getLastD false

/-- `like_escape_char`. -/
def likeEscapeChar : Option String → Except DbError (Option Char)
  | none => .ok none
  | some escape =>
    match escape.toList with
    | [char] => .ok (some char)
    | _ => .error (.plan "ESCAPE expression must be a single character")

/-- `matches_like_pattern` of the executor. -/
def matchesLikePattern (value pattern : String) (escape : Option String) (caseSensitive : Bool) :
    Except DbError Bool := do
  let escape ← likeEscapeChar escape
  .ok (likeTable caseSensitive (Check.sqliteTextPrefixBeforeNul value)
    (likeTokens escape pattern.toList))

/-! ## The executor's `GLOB` -/

/-- The members of a class, from an index on: a bracket closes it behind one member at least. -/
def globClassMembers (char : Char) (negated : Bool) :
    List Char → ℕ → Bool → Bool → Option (Bool × ℕ)
  | [], _, _, _ => none
  | first :: '-' :: last :: rest, index, matched, sawMember =>
    if first = ']' ∧ sawMember then some (matched ^^ negated,index+1)
    else if last = ']' then
      globClassMembers char negated ('-' :: last :: rest) (index+1) (matched || first==char) true
    else
      globClassMembers char negated rest (index+3)
        (matched || (first.toNat ≤ char.toNat && char.toNat ≤ last.toNat)) true
  | first :: rest, index, matched, sawMember =>
    if first = ']' ∧ sawMember then some (matched ^^ negated,index+1)
    else globClassMembers char negated rest (index+1) (matched || first==char) true

/-- `matches_char_class` of the executor. -/
def globCharClass (pattern : List Char) (char : Char) : Option (Bool × ℕ) :=
  match pattern.drop 1 with
  | '^' :: members => globClassMembers char true members 2 false false
  | members => globClassMembers char false members 1 false false

/-- `matches`, over the reader of a class: whether it matches, and the index behind it. -/
def globMatches (charClass : List Char → Char → Option (Bool × ℕ)) (value pattern : List Char) :
    Outcome Bool :=
  match pattern with
  | [] => .ok value.isEmpty
  | '*' :: rest => do
    let found ← globMatches charClass value rest
    if found then .ok true
    else
      match value with
      | [] => .ok false
      | _ :: tail => globMatches charClass tail ('*' :: rest)
  | '?' :: rest =>
    match value with
    | [] => .ok false
    | _ :: tail => globMatches charClass tail rest
  | '[' :: rest =>
    match value with
    | [] => .ok false
    | char :: tail =>
      match charClass ('[' :: rest) char with
      | none => .ok false
      | some (matched,next) => do
        if !matched then .ok false
        else
          Outcome.check (next ≤ rest.length+1)
          globMatches charClass tail (('[' :: rest).drop next)
  | char :: rest =>
    match value with
    | [] => .ok false
    | first :: tail => if first=char then globMatches charClass tail rest else .ok false
  termination_by value.length+pattern.length
  decreasing_by
    all_goals simp_wf
    all_goals omega

/-- `matches_glob_pattern` of the executor. -/
def matchesGlobPattern (value pattern : String) : Outcome Bool :=
  globMatches globCharClass (Check.sqliteTextPrefixBeforeNul value) pattern.toList

/-! ## The triggers' matchers -/

/-- `inner` of `trigger_like_matches`. -/
def triggerLike (escape : Option Char) (value pattern : List Char) : Bool :=
  match pattern with
  | [] => value.isEmpty
  | char :: rest =>
    if escape=some char then
      match rest, value with
      | literal :: rest, first :: tail =>
        Check.charEq first literal false && triggerLike escape tail rest
      | _, _ => false
    else if char = '%' then
      triggerLike escape value rest ||
        match value with
        | [] => false
        | _ :: tail => triggerLike escape tail (char :: rest)
    else
      match value with
      | [] => false
      | first :: tail =>
        if char = '_' then triggerLike escape tail rest
        else Check.charEq first char false && triggerLike escape tail rest
  termination_by value.length+pattern.length
  decreasing_by
    all_goals simp_wf
    all_goals omega

/-- `trigger_like_matches`. -/
def triggerLikeMatches (value pattern : String) (escape : Option Char) : Bool :=
  triggerLike escape value.toList pattern.toList

/-- The loop over a class's members, which ends with the first that contains the character. -/
def triggerClassContains (char : Char) : List Char → Bool
  | [] => false
  | first :: '-' :: last :: rest =>
    if first.toNat ≤ char.toNat ∧ char.toNat ≤ last.toNat then true
    else triggerClassContains char rest
  | first :: rest => if first=char then true else triggerClassContains char rest

/-- Whether a class between its brackets contains a character. -/
def triggerClassMatches (char : Char) : List Char → Bool
  | '^' :: members => triggerClassContains char members ^^ true
  | members => triggerClassContains char members ^^ false

/-- `inner` of `trigger_glob_matches`: a class ends with the first bracket, and one that does not
end is a bracket. -/
def triggerGlob (value pattern : List Char) : Bool :=
  match pattern with
  | [] => value.isEmpty
  | char :: rest =>
    if char = '*' then
      triggerGlob value rest ||
        match value with
        | [] => false
        | _ :: tail => triggerGlob tail (char :: rest)
    else
      match value with
      | [] => false
      | first :: tail =>
        if char = '?' then triggerGlob tail rest
        else if char = '[' then
          match rest.findIdx? fun char => char == ']' with
          | none => first = '[' && triggerGlob tail rest
          | some stop =>
            triggerClassMatches first (rest.take stop) && triggerGlob tail (rest.drop (stop+1))
        else first=char && triggerGlob tail rest
  termination_by value.length+pattern.length
  decreasing_by
    all_goals simp_wf
    all_goals omega

/-- `trigger_glob_matches`. -/
def triggerGlobMatches (value pattern : String) : Bool :=
  triggerGlob value.toList pattern.toList

end RustSql.Sql
