import RustSql.Base.JsonFields
import RustSql.Sql.Jsonb

/-!
# Paths into JSON values

`json_path_lookup`, `json_write_path` and `json_remove_path` read a path from the front and go
down into the value as they read it.
-/

namespace RustSql.Sql

open Jsonb (objectKeyPath arrayIndexPath stringFromStr)

/-! ## The parts of a path -/

/-- The error of a text that is no path. -/
def invalidPath : DbError := .plan "invalid JSON path"

/-- The error of a path that does not begin at the root. -/
def pathStart : DbError := .plan "JSON path must start with '$'"

/-- The error of brackets that hold no index. -/
def invalidIndex : DbError := .plan "invalid JSON array index"

/-- `usize::from_str`: a plus sign or none, and digits. -/
def parseUsize (text : List Char) : Option ℕ :=
  let digits := if text.head?=some '+' then text.drop 1 else text
  if digits=[] ∨ digits.any (fun digit => !digit.isDigit) then none
  else
    let value := Nat.ofDigitChars 10 digits 0
    if value < 2^64 then some value else none

/-- The key up to its closing quote, with the quote, and what stands behind it. -/
def quotedKeyEnd : Bool → List Char → Option (List Char × List Char)
  | _, [] => none
  | escaped, char :: rest =>
    if !escaped && char== '"' then some ([char],rest)
    else
      (quotedKeyEnd (!escaped && char== '\\') rest).map fun found => (char :: found.1,found.2)

/-- What stands at the front of a path: a key behind a dot, or what is between brackets. -/
inductive PathHead where
  | key (name : String)
  | index (token : List Char)
  deriving DecidableEq

section Code

variable {N : Type} (serde : SerdeJson N)

/-- `json_path_object_key`. -/
def jsonPathObjectKey (rest : List Char) : Except DbError (String × List Char) :=
  match rest with
  | '"' :: inner =>
    match quotedKeyEnd false inner with
    | none => .error invalidPath
    | some (found,tail) =>
      match stringFromStr serde ('"' :: found) with
      | some key => .ok (key,tail)
      | none => .error invalidPath
  | _ =>
    let key := rest.takeWhile fun char => char≠ '.' && char≠ '['
    if key=[] then .error invalidPath
    else .ok (String.ofList key,rest.dropWhile fun char => char≠ '.' && char≠ '[')

/-- The front of a path, as the three walks below take it off. -/
def pathHead (remaining : List Char) : Except DbError (PathHead × List Char) :=
  match remaining with
  | '.' :: rest => do
    let (key,tail) ← jsonPathObjectKey serde rest
    .ok (.key key,tail)
  | '[' :: rest =>
    match rest.dropWhile fun char => char≠ ']' with
    | _ :: tail => .ok (.index (rest.takeWhile fun char => char≠ ']'),tail)
    | [] => .error invalidPath
  | _ => .error invalidPath

/-- The items of an array; other values have none. -/
def jsonItems : JsonValue N → Option (List (JsonValue N))
  | .array items => some items
  | _ => none

/-- `json_path_array_index`. -/
def jsonPathArrayIndex (value : JsonValue N) (index : List Char) : Except DbError (Option ℕ) :=
  if index=['#'] then .ok none
  else if index.head?=some '"' ∧ (stringFromStr serde index).isSome then .ok none
  else
    match index with
    | '#' :: '-' :: tail =>
      match parseUsize tail with
      | none => .error invalidIndex
      | some offset =>
        match jsonItems value with
        | none => .ok none
        | some items => .ok (if offset ≤ items.length then some (items.length-offset) else none)
    | _ =>
      match parseUsize index with
      | none => .error invalidIndex
      | some index => .ok (some index)

/-! ## Looking up -/

/-- The error at the end of the recursion, which is not reached: every step shortens the path. -/
def noSteps : DbError := .plan "recursion"

/-- The loop of `json_path_lookup`. -/
def jsonPathLookupFrom : ℕ → JsonValue N → List Char → Except DbError (Option (JsonValue N))
  | _, current, [] => .ok (some current)
  | 0, _, _ => .error noSteps
  | fuel+1, current, remaining => do
    let (head,tail) ← pathHead serde remaining
    match head with
    | .key key =>
      match current.fields.lookup key with
      | none => .ok none
      | some next => jsonPathLookupFrom fuel next tail
    | .index token => do
      let index ← jsonPathArrayIndex serde current token
      match index.bind fun index => (jsonItems current).bind fun items => items[index]? with
      | none => .ok none
      | some next => jsonPathLookupFrom fuel next tail

/-- `json_path_lookup`. -/
def jsonPathLookup (value : JsonValue N) (path : List Char) :
    Except DbError (Option (JsonValue N)) :=
  match path with
  | '$' :: remaining => jsonPathLookupFrom serde remaining.length value remaining
  | _ => .error pathStart

/-! ## Removing -/

/-- A member of an object is changed in its place. -/
def setField (name : String) (value : JsonValue N) (fields : List (String × JsonValue N)) :
    List (String × JsonValue N) :=
  fields.map fun field => if field.1=name then (name,value) else field

/-- `json_remove_path_tail`, with the value it leaves behind. -/
def jsonRemovePathTail : ℕ → JsonValue N → List Char → Except DbError (JsonValue N)
  | 0, _, _ => .error noSteps
  | fuel+1, value, remaining => do
    let (head,tail) ← pathHead serde remaining
    match head with
    | .key key =>
      match value with
      | .object fields =>
        if tail=[] then .ok (.object (removeField key fields))
        else
          match fields.lookup key with
          | none => .ok value
          | some next => do
            let next ← jsonRemovePathTail fuel next tail
            .ok (.object (setField key next fields))
      | _ => .ok value
    | .index token => do
      let index ← jsonPathArrayIndex serde value token
      match index, value with
      | some index, .array items =>
        if tail=[] then .ok (.array (items.eraseIdx index))
        else
          match items[index]? with
          | none => .ok value
          | some next => do
            let next ← jsonRemovePathTail fuel next tail
            .ok (.array (items.set index next))
      | _, _ => .ok value

/-- The error of a path that the callers take care of. -/
def rootPath : DbError := .plan "root path is handled by caller"

/-- `json_remove_path`. -/
def jsonRemovePath (value : JsonValue N) (path : List Char) : Except DbError (JsonValue N) :=
  match path with
  | ['$'] => .error rootPath
  | '$' :: remaining => jsonRemovePathTail serde remaining.length value remaining
  | _ => .error pathStart

/-! ## Writing -/

/-- `JsonWriteMode`. -/
inductive JsonWriteMode where
  | set
  | insert
  | replace
  deriving DecidableEq

/-- The write puts something where nothing was. -/
def JsonWriteMode.adds (mode : JsonWriteMode) : Bool := mode≠.replace

/-- The write changes what was there. -/
def JsonWriteMode.changes (mode : JsonWriteMode) : Bool := mode≠.insert

/-- `json_container_for_path_tail`. -/
def jsonContainerForPathTail (tail : List Char) : JsonValue N :=
  if tail.head?=some '[' then .array [] else .object []

/-- What a key is written into: the fields of an object; where something is added, any other
value makes way for an object. -/
def writableFields (mode : JsonWriteMode) : JsonValue N → Option (List (String × JsonValue N))
  | .object fields => some fields
  | _ => if mode.adds then some [] else none

/-- The index that a write goes to, with the end of an array for `[#]`. -/
def jsonWriteIndex (value : JsonValue N) (token : List Char) : Except DbError (Option ℕ) :=
  if token=['#'] then .ok ((jsonItems value).map List.length)
  else jsonPathArrayIndex serde value token

/-- `json_write_path_tail`, with the value it leaves behind and the keys it has created. -/
def jsonWritePathTail (replacement : JsonValue N) (mode : JsonWriteMode) :
    ℕ → JsonValue N → List Char → String → Except DbError (JsonValue N × List String)
  | 0, _, _, _ => .error noSteps
  | fuel+1, value, remaining, currentPath => do
    let (head,tail) ← pathHead serde remaining
    match head with
    | .key key =>
      let keyPath := objectKeyPath currentPath key
      match writableFields mode value with
      | none => .ok (value,[])
      | some fields =>
        match fields.lookup key with
        | some next =>
          if tail=[] then
            .ok (.object (if mode.changes then insertField key replacement fields else fields),[])
          else do
            let (next,created) ← jsonWritePathTail replacement mode fuel next tail keyPath
            .ok (.object (setField key next fields),created)
        | none =>
          if !mode.adds then .ok (.object fields,[])
          else if tail=[] then .ok (.object (insertField key replacement fields),[keyPath])
          else do
            let (next,created) ← jsonWritePathTail replacement mode fuel
              (jsonContainerForPathTail tail) tail keyPath
            .ok (.object (insertField key next fields),keyPath :: created)
    | .index token => do
      let index ← jsonWriteIndex serde value token
      match index, value with
      | some index, .array items =>
        if index=items.length then
          if !mode.adds then .ok (value,[])
          else if tail=[] then .ok (.array (items++[replacement]),[])
          else do
            let (next,created) ← jsonWritePathTail replacement mode fuel
              (jsonContainerForPathTail tail) tail (arrayIndexPath currentPath index)
            .ok (.array (items++[next]),created)
        else
          match items[index]? with
          | none => .ok (value,[])
          | some next =>
            if tail=[] then
              .ok (.array (if mode.changes then items.set index replacement else items),[])
            else do
              let (next,created) ← jsonWritePathTail replacement mode fuel next tail
                (arrayIndexPath currentPath index)
              .ok (.array (items.set index next),created)
      | _, _ => .ok (value,[])

/-- `json_write_path_with_created_keys`. -/
def jsonWritePathWithCreatedKeys (value : JsonValue N) (path : List Char)
    (replacement : JsonValue N) (mode : JsonWriteMode) :
    Except DbError (JsonValue N × List String) :=
  match path with
  | ['$'] => .error rootPath
  | '$' :: remaining =>
    jsonWritePathTail serde replacement mode remaining.length value remaining ""
  | _ => .error pathStart

/-- `json_write_path`. -/
def jsonWritePath (value : JsonValue N) (path : List Char) (replacement : JsonValue N)
    (mode : JsonWriteMode) : Except DbError (JsonValue N) := do
  let (value,_) ← jsonWritePathWithCreatedKeys serde value path replacement mode
  .ok value

/-! ## The paths of the functions -/

/-- The error of the functions for a path that a walk does not take. -/
def badJsonPath (path : List Char) : DbError :=
  .plan ("bad JSON path: '"++String.ofList path++"'")

/-- What `json_write_value` does for a path and its replacement. -/
def jsonWriteValueStep (value : JsonValue N) (path : List Char) (replacement : JsonValue N)
    (mode : JsonWriteMode) : Except DbError (JsonValue N) :=
  if path=['$'] then .ok (if mode.changes then replacement else value)
  else (jsonWritePath serde value path replacement mode).mapError fun _ => badJsonPath path

/-- What `json_remove_value` does for a path, which is `NULL` where the whole value goes. -/
def jsonRemoveValueStep (value : JsonValue N) (path : List Char) :
    Except DbError (Option (JsonValue N)) :=
  if path=['$'] then .ok none
  else ((jsonRemovePath serde value path).mapError fun _ => badJsonPath path).map some

end Code

end RustSql.Sql
