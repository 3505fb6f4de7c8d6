import Mathlib.Data.List.Basic
import Mathlib.Data.String.Basic
import Mathlib.Tactic

/-!
# JSON values and their texts

How objects keep their fields, what is known of a library that reads and writes JSON, and texts
that are put together from the texts of their parts. Numbers, the quoting of strings and the
reading of texts are left open: they are the library's.
-/

namespace RustSql

/-! ## Values -/

/-- A JSON value over a type of numbers. -/
inductive JsonValue (N : Type) where
  | null
  | bool (value : Bool)
  | number (value : N)
  | string (value : String)
  | array (items : List (JsonValue N))
  | object (fields : List (String × JsonValue N))

/-- A field is put into an object, whose fields are sorted: one with the same name is replaced. -/
def insertField {V : Type} (name : String) (value : V) :
    List (String × V) → List (String × V)
  | [] => [(name,value)]
  | field :: fields =>
    if name < field.1 then (name,value) :: field :: fields
    else if name=field.1 then (name,value) :: fields
    else field :: insertField name value fields

/-- The object of a list of fields. -/
def fromFields {V : Type} (fields : List (String × V)) : List (String × V) :=
  fields.foldl (fun object field => insertField field.1 field.2 object) []

section Fields

variable {V : Type}

/-- A field behind all others goes to the end. -/
theorem insertField_last {name : String} {value : V} {fields : List (String × V)}
    (h : ∀ field∈fields, field.1 < name) :
    insertField name value fields=fields++[(name,value)] := by
  induction fields with
  | nil => rfl
  | cons field fields ih =>
    have hfield := h field List.mem_cons_self
    rw [insertField,if_neg (lt_asymm hfield),if_neg (ne_of_gt hfield),
      ih fun other hother => h other (List.mem_cons_of_mem field hother)]
    rfl

/-- Fields in order are an object as they stand. -/
theorem fromFields_sorted {fields : List (String × V)}
    (h : fields.Pairwise fun first second => first.1 < second.1) : fromFields fields=fields := by
  have hrun : ∀ (object rest : List (String × V)),
      (object++rest).Pairwise (fun first second => first.1 < second.1) →
      rest.foldl (fun object field => insertField field.1 field.2 object) object=object++rest := by
    intro object rest
    induction rest generalizing object with
    | nil => exact fun _ => (List.append_nil object).symm
    | cons field rest ih =>
      intro hsorted
      have hbefore : ∀ other∈object, other.1 < field.1 := fun other hother =>
        (List.pairwise_append.mp hsorted).2.2 other hother field List.mem_cons_self
      have hmoved : (object++[(field.1,field.2)])++rest=object++field :: rest := by simp
      rw [List.foldl_cons,insertField_last hbefore,ih _ (by rwa [hmoved]),hmoved]
  exact hrun [] fields h

end Fields

section Depth

variable {N : Type}

mutual

/-- How many arrays and objects stand around the innermost part of a value. -/
def JsonValue.depth : JsonValue N → ℕ
  | .null | .bool _ | .number _ | .string _ => 0
  | .array items => JsonValue.depths items+1
  | .object fields => JsonValue.fieldDepths fields+1

def JsonValue.depths : List (JsonValue N) → ℕ
  | [] => 0
  | item :: items => max (JsonValue.depth item) (JsonValue.depths items)

def JsonValue.fieldDepths : List (String × JsonValue N) → ℕ
  | [] => 0
  | (_,value) :: fields => max (JsonValue.depth value) (JsonValue.fieldDepths fields)

end

end Depth

/-! ## Texts -/

/-- What is taken from the library: which numbers are floats, how a text is read, with `none` for
an error, and how a value is written. -/
structure SerdeJson (N : Type) where
  isF64 : N → Bool
  fromStr : List Char → Option (JsonValue N)
  toString : JsonValue N → List Char

/-- Parts with commas between them. -/
def commaJoin : List (List Char) → List Char
  | [] => []
  | [text] => text
  | text :: texts => text++ ',' :: commaJoin texts

theorem commaJoin_cons (text next : List Char) (texts : List (List Char)) :
    commaJoin (text :: next :: texts)=text++ ',' :: commaJoin (next :: texts) := rfl

/-- The parts of a text. A number stands in it as a text of its own. -/
inductive JsonParts (N : Type) where
  | null
  | bool (value : Bool)
  | number (text : List Char) (value : N)
  | string (value : String)
  | array (items : List (JsonParts N))
  | object (fields : List (String × JsonParts N))

namespace JsonParts

variable {N : Type}

mutual

/-- The value that the parts mean; of two fields of one name the later one counts. -/
def value : JsonParts N → JsonValue N
  | .null => .null
  | .bool value => .bool value
  | .number _ value => .number value
  | .string value => .string value
  | .array items => .array (values items)
  | .object fields => .object (fromFields (fieldValues fields))

def values : List (JsonParts N) → List (JsonValue N)
  | [] => []
  | item :: items => value item :: values items

def fieldValues : List (String × JsonParts N) → List (String × JsonValue N)
  | [] => []
  | (name,item) :: fields => (name,value item) :: fieldValues fields

end

mutual

/-- How many arrays and objects stand around the innermost part of a text. -/
def depth : JsonParts N → ℕ
  | .null | .bool _ | .number _ _ | .string _ => 0
  | .array items => depths items+1
  | .object fields => fieldDepths fields+1

def depths : List (JsonParts N) → ℕ
  | [] => 0
  | item :: items => max (depth item) (depths items)

def fieldDepths : List (String × JsonParts N) → ℕ
  | [] => 0
  | (_,item) :: fields => max (depth item) (fieldDepths fields)

end

section Library

variable (serde : SerdeJson N)

mutual

/-- The text of the parts. -/
def text : JsonParts N → List Char
  | .null => ['n', 'u', 'l', 'l']
  | .bool true => ['t', 'r', 'u', 'e']
  | .bool false => ['f', 'a', 'l', 's', 'e']
  | .number text _ => text
  | .string value => serde.toString (.string value)
  | .array items => '[' :: commaJoin (texts items)++[']']
  | .object fields => '{' :: commaJoin (fieldTexts fields)++['}']

def texts : List (JsonParts N) → List (List Char)
  | [] => []
  | item :: items => text item :: texts items

def fieldTexts : List (String × JsonParts N) → List (List Char)
  | [] => []
  | (name,item) :: fields =>
    (serde.toString (.string name)++ ':' :: text item) :: fieldTexts fields

end

mutual

/-- The texts of the numbers are read as these numbers. -/
def Reads : JsonParts N → Prop
  | .null | .bool _ | .string _ => True
  | .number text value => serde.fromStr text=some (.number value)
  | .array items => AllRead items
  | .object fields => FieldsRead fields

def AllRead : List (JsonParts N) → Prop
  | [] => True
  | item :: items => Reads item ∧ AllRead items

def FieldsRead : List (String × JsonParts N) → Prop
  | [] => True
  | (_,item) :: fields => Reads item ∧ FieldsRead fields

end

end Library

end JsonParts

/-- What the library promises: a string is written in quotes, and what begins with a quote is
read as a string or not at all; a number that was written is read back; and a text is read as
what its parts mean, unless 128 arrays and objects or more stand in one another. -/
structure SerdeJson.Lawful {N : Type} (serde : SerdeJson N) : Prop where
  quoted (text : String) : ∃ inner, serde.toString (.string text)= '"' :: inner++['"']
  string_only {text : List Char} {value : JsonValue N} :
    serde.fromStr ('"' :: text)=some value → ∃ found, value=.string found
  fromStr_number (n : N) : serde.fromStr (serde.toString (.number n))=some (.number n)
  fromStr_text (parts : JsonParts N) : parts.Reads serde →
    serde.fromStr (parts.text serde)=if parts.depth < 128 then some parts.value else none

/-- A string that was written is read back. -/
theorem SerdeJson.Lawful.fromStr_string {N : Type} {serde : SerdeJson N} (h : serde.Lawful)
    (text : String) : serde.fromStr (serde.toString (.string text))=some (.string text) :=
  h.fromStr_text (.string text) trivial

end RustSql
