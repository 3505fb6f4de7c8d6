import RustSql.Check.Texts

/-!
# Patterns

`GLOB`, `REGEXP` and `LIKE` as the condition evaluator matches them, on vectors of
characters. An index that the code does not compare with the length first panics when it is
out of range.
-/

namespace RustSql.Check

/-- `chars[index]`. -/
def charAt (chars : List Char) (index : ℕ) : Outcome Char :=
  match chars[index]? with
  | some char => .ok char
  | none => .stuck

/-! ## `GLOB` -/

/-- The members of a character class, from an index on: whether one matched, and the index
after the bracket. -/
def matchesClassMembers (char : Char) (negated : Bool) : List Char → ℕ → Bool → Option (Bool × ℕ)
  | [], _, _ => none
  | ']' :: _, index, matched => some (matched ^^ negated,index+1)
  | first :: '-' :: last :: rest, index, matched =>
    if last = ']' then
      matchesClassMembers char negated ('-' :: last :: rest) (index+1) (matched || first==char)
    else
      matchesClassMembers char negated rest (index+3)
        (matched || (first.toNat ≤ char.toNat && char.toNat ≤ last.toNat))
  | first :: rest, index, matched =>
    matchesClassMembers char negated rest (index+1) (matched || first==char)

/-- `matches_char_class`, for a pattern that starts with the bracket. -/
def matchesCharClass (pattern : List Char) (char : Char) : Option (Bool × ℕ) :=
  match pattern.drop 1 with
  | '^' :: members => matchesClassMembers char true members 2 false
  | members => matchesClassMembers char false members 1 false

/-- `inner` of `matches_glob_pattern`. -/
def matchesGlob (value pattern : List Char) : Outcome Bool :=
  match pattern with
  | [] => .ok value.isEmpty
  | '*' :: rest => do
    let found ← matchesGlob value rest
    if found then .ok true
    else
      match value with
      | [] => .ok false
      | _ :: tail => matchesGlob tail ('*' :: rest)
  | '?' :: rest =>
    match value with
    | [] => .ok false
    | _ :: tail => matchesGlob tail rest
  | '[' :: rest =>
    match value with
    | [] => .ok false
    | char :: tail =>
      match matchesCharClass ('[' :: rest) char with
      | none => .ok false
      | some (matched,next) => do
        if !matched then .ok false
        else
          Outcome.check (next ≤ rest.length+1)
          matchesGlob tail (('[' :: rest).drop next)
  | char :: rest =>
    match value with
    | [] => .ok false
    | first :: tail => if first=char then matchesGlob tail rest else .ok false
  termination_by value.length+pattern.length
  decreasing_by
    all_goals simp_wf
    all_goals omega

/-- `matches_glob_pattern`. -/
def matchesGlobPattern (value pattern : String) : Outcome Bool :=
  matchesGlob value.toList pattern.toList

/-! ## `REGEXP` -/

/-- The error of a class that does not end. -/
def unclosedClass : DbError := .storage "unclosed '['"

/-- The members of a class: one at least, up to the bracket. -/
def regexpClassMembers (value : Char) (negated : Bool) :
    List Char → ℕ → Bool → Bool → Outcome (Bool × ℕ)
  | [], _, _, _ => .err unclosedClass
  | first :: '-' :: last :: rest, cursor, matched, sawMember =>
    if first = ']' ∧ sawMember then .ok (matched ^^ negated,cursor+1)
    else if last = ']' then
      regexpClassMembers value negated ('-' :: last :: rest) (cursor+1) (matched || first==value)
        true
    else
      regexpClassMembers value negated rest (cursor+3)
        (matched || (first.toNat ≤ value.toNat && value.toNat ≤ last.toNat)) true
  | first :: rest, cursor, matched, sawMember =>
    if first = ']' ∧ sawMember then .ok (matched ^^ negated,cursor+1)
    else regexpClassMembers value negated rest (cursor+1) (matched || first==value) true

/-- `regexp_atom_matches`. -/
def regexpAtomMatches (pattern : List Char) (index : ℕ) (value : Char) : Outcome (Bool × ℕ) := do
  let first ← charAt pattern index
  if first = '.' then .ok (true,index+1)
  else if first ≠ '[' then .ok (first==value,index+1)
  else if pattern[index+1]?=some '^' then
    regexpClassMembers value true (pattern.drop (index+2)) (index+2) false false
  else regexpClassMembers value false (pattern.drop (index+1)) (index+1) false false

/-- `regexp_match_star`: the rest of the pattern is tried after each match of the atom. -/
def regexpMatchStar (matchRest : ℕ → Outcome Bool) (pattern : List Char) (atomIndex : ℕ) :
    List Char → ℕ → Outcome Bool
  | [], index => matchRest index
  | char :: rest, index => do
    let found ← matchRest index
    if found then .ok true
    else
      let (matched,_) ← regexpAtomMatches pattern atomIndex char
      if matched then regexpMatchStar matchRest pattern atomIndex rest (index+1) else .ok false

/-- `regexp_match_here`; the first argument bounds how deep the calls go. -/
def regexpMatchHere : ℕ → List Char → ℕ → List Char → ℕ → Outcome Bool
  | 0, _, _, _, _ => .stuck
  | depth+1, pattern, index, value, valueIndex =>
    if index=pattern.length then .ok true
    else do
      let first ← charAt pattern index
      if first = '$' ∧ index+1=pattern.length then .ok (valueIndex=value.length)
      else
        let (_,next) ← regexpAtomMatches pattern index '\x00'
        if pattern[next]?=some '*' then
          regexpMatchStar (fun start => regexpMatchHere depth pattern (next+1) value start) pattern
            index (value.drop valueIndex) valueIndex
        else
          match value[valueIndex]? with
          | none => .ok false
          | some char => do
            let (matched,next) ← regexpAtomMatches pattern index char
            if matched then regexpMatchHere depth pattern next value (valueIndex+1) else .ok false

/-- The places where a match is tried, from the first. -/
def regexpMatchFrom (matchAt : ℕ → Outcome Bool) : List ℕ → Outcome Bool
  | [] => .ok false
  | index :: rest => do
    let found ← matchAt index
    if found then .ok true else regexpMatchFrom matchAt rest

/-- `sqlite_check_regexp`. -/
def sqliteCheckRegexp (pattern value : String) : Outcome Bool :=
  let pattern := pattern.toList
  let value := sqliteTextPrefixBeforeNul value
  let depth := pattern.length+1
  if pattern.head?=some '^' then regexpMatchHere depth pattern 1 value 0
  else regexpMatchFrom (regexpMatchHere depth pattern 0 value) (List.range (value.length+1))

/-! ## `LIKE` -/

/-- `char_eq`. -/
def charEq (left right : Char) (caseSensitive : Bool) : Bool :=
  if !caseSensitive && left.toNat < 128 && right.toNat < 128 then left.toLower==right.toLower
  else left==right

/-- `inner` of `matches_like_pattern`. -/
def matchesLike (escape : Option Char) (caseSensitive : Bool) : List Char → List Char → Bool
  | value, [] => value.isEmpty
  | value, [char] =>
    if escape=some char then false
    else
      match char, value with
      | '%', value => value.tails.any fun rest => matchesLike escape caseSensitive rest []
      | _, [] => false
      | '_', _ :: tail => matchesLike escape caseSensitive tail []
      | char, first :: tail =>
        charEq first char caseSensitive && matchesLike escape caseSensitive tail []
  | value, char :: literal :: rest =>
    if escape=some char then
      match value with
      | [] => false
      | first :: tail =>
        charEq first literal caseSensitive && matchesLike escape caseSensitive tail rest
    else
      match char, value with
      | '%', value =>
        value.tails.any fun rest' => matchesLike escape caseSensitive rest' (literal :: rest)
      | _, [] => false
      | '_', _ :: tail => matchesLike escape caseSensitive tail (literal :: rest)
      | char, first :: tail =>
        charEq first char caseSensitive && matchesLike escape caseSensitive tail (literal :: rest)

/-- The error of an escape that is not one character. -/
def escapeNotOneCharacter : DbError := .storage "ESCAPE expression must be a single character"

/-- The escape of `matches_like_pattern`. -/
def likeEscape : Option String → Except DbError (Option Char)
  | none => .ok none
  | some escape =>
    match escape.toList with
    | [char] => .ok (some char)
    | _ => .error escapeNotOneCharacter

/-- `matches_like_pattern`. -/
def matchesLikePattern (value pattern : String) (escape : Option String) (caseSensitive : Bool) :
    Except DbError Bool := do
  let escape ← likeEscape escape
  .ok (matchesLike escape caseSensitive value.toList pattern.toList)

end RustSql.Check
