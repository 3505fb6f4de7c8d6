import Mathlib.Algebra.Ring.Int.Defs
import Mathlib.Algebra.Ring.Nat
import Mathlib.Data.Int.Notation
import Mathlib.Data.List.Basic

/-!
# JSON values and their texts

What is known of a library that writes JSON values and reads them back, and one such library.
Its texts are sequences of tokens; a number or a string is one token, so how digits and escapes
are written is not part of a text there.
-/

namespace RustSql

/-- A JSON value. A number is an integer or the bits of a finite float. -/
inductive Json where
  | null
  | bool (value : Bool)
  | integer (value : ℤ)
  | real (bits : UInt64)
  | string (value : String)
  | array (items : List Json)
  | object (fields : List (String × Json))

/-- The float with these bits is finite. -/
def isFiniteReal (bits : UInt64) : Bool := bits.toNat/2^52%2^11≠2047

/-- Numbers are 64-bit integers or finite floats, and no more than so many arrays and objects
stand in one another. -/
def Json.Printable : ℕ → Json → Prop
  | _, .null | _, .bool _ | _, .string _ => True
  | _, .integer value => -2^63 ≤ value ∧ value < 2^64
  | _, .real bits => isFiniteReal bits=true
  | 0, .array _ | 0, .object _ => False
  | levels+1, .array items => ∀ item∈items, item.Printable levels
  | levels+1, .object fields => ∀ field∈fields, field.2.Printable levels

/-- A 64-bit integer can be printed anywhere. -/
theorem Json.Printable.integer {levels : ℕ} {value : ℤ} (hlow : -2^63 ≤ value)
    (hhigh : value < 2^64) : (Json.integer value).Printable levels := by
  cases levels <;> exact ⟨hlow,hhigh⟩

/-- Fewer levels can be printed where more can. -/
theorem Json.Printable.mono {levels more : ℕ} {value : Json} (h : value.Printable levels)
    (hle : levels ≤ more) : value.Printable more := by
  induction levels generalizing more value with
  | zero =>
    cases value with
    | array items => cases h
    | object fields => cases h
    | _ => cases more <;> exact h
  | succ levels ih =>
    obtain ⟨more,rfl⟩ : ∃ n, more=n+1 := ⟨more-1,by omega⟩
    cases value with
    | array items => exact fun item hitem => ih (h item hitem) (Nat.le_of_succ_le_succ hle)
    | object fields => exact fun field hfield => ih (h field hfield) (Nat.le_of_succ_le_succ hle)
    | _ => exact h

/-- What is taken from the library: its texts, how values are written, and how texts are read. -/
structure JsonLibrary where
  Text : Type
  write : Json → Text
  read : Text → Option Json

/-- A value that was written is read back, unless 128 arrays and objects or more stand in one
another. -/
def JsonLibrary.Lawful (library : JsonLibrary) : Prop :=
  ∀ value : Json, value.Printable 127 → library.read (library.write value)=some value

/-- A token of a text. -/
inductive JsonToken where
  | null
  | bool (value : Bool)
  | integer (value : ℤ)
  | real (bits : UInt64)
  | string (value : String)
  | openArray
  | closeArray
  | openObject
  | closeObject
  | comma
  | colon
  deriving DecidableEq

/-- A JSON text. -/
abbrev JsonText := List JsonToken

namespace Json

mutual

/-- The text of a value. -/
def write : Json → JsonText
  | .null => [.null]
  | .bool value => [.bool value]
  | .integer value => [.integer value]
  | .real bits => [.real bits]
  | .string value => [.string value]
  | .array [] => [.openArray,.closeArray]
  | .array (item::items) => .openArray::(write item++writeItems items)
  | .object [] => [.openObject,.closeObject]
  | .object (field::fields) => .openObject::(writeField field++writeFields fields)

/-- The other items of an array, and its end. -/
def writeItems : List Json → JsonText
  | [] => [.closeArray]
  | item::items => .comma::(write item++writeItems items)

/-- A field of an object. -/
def writeField : String × Json → JsonText
  | (name,value) => .string name::.colon::write value

/-- The other fields of an object, and its end. -/
def writeFields : List (String × Json) → JsonText
  | [] => [.closeObject]
  | field::fields => .comma::(writeField field++writeFields fields)

end

mutual

/-- Read a value off the front of a text. -/
def readValue : ℕ → JsonText → Option (Json × JsonText)
  | 0, _ => none
  | _+1, .null::rest => some (.null,rest)
  | _+1, .bool value::rest => some (.bool value,rest)
  | _+1, .integer value::rest => some (.integer value,rest)
  | _+1, .real bits::rest => some (.real bits,rest)
  | _+1, .string value::rest => some (.string value,rest)
  | _+1, .openArray::.closeArray::rest => some (.array [],rest)
  | fuel+1, .openArray::rest => do
    let (item,rest) ← readValue fuel rest
    let (items,rest) ← readItems fuel rest
    some (.array (item::items),rest)
  | _+1, .openObject::.closeObject::rest => some (.object [],rest)
  | fuel+1, .openObject::rest => do
    let (field,rest) ← readField fuel rest
    let (fields,rest) ← readFields fuel rest
    some (.object (field::fields),rest)
  | _+1, _ => none

/-- Read the other items of an array, to its end. -/
def readItems : ℕ → JsonText → Option (List Json × JsonText)
  | 0, _ => none
  | _+1, .closeArray::rest => some ([],rest)
  | fuel+1, .comma::rest => do
    let (item,rest) ← readValue fuel rest
    let (items,rest) ← readItems fuel rest
    some (item::items,rest)
  | _+1, _ => none

/-- Read a field of an object. -/
def readField : ℕ → JsonText → Option ((String × Json) × JsonText)
  | 0, _ => none
  | fuel+1, .string name::.colon::rest => do
    let (value,rest) ← readValue fuel rest
    some ((name,value),rest)
  | _+1, _ => none

/-- Read the other fields of an object, to its end. -/
def readFields : ℕ → JsonText → Option (List (String × Json) × JsonText)
  | 0, _ => none
  | _+1, .closeObject::rest => some ([],rest)
  | fuel+1, .comma::rest => do
    let (field,rest) ← readField fuel rest
    let (fields,rest) ← readFields fuel rest
    some (field::fields,rest)
  | _+1, _ => none

end

/-- Read a text: one value and nothing behind it. -/
def read (text : JsonText) : Option Json :=
  match readValue (text.length+1) text with
  | some (value,[]) => some value
  | _ => none

/-! ## Reading back what was written -/

variable {fuel : ℕ} {token : JsonToken} {text rest : JsonText}

/-- A value does not begin with a closing bracket. -/
theorem write_head (value : Json) : ∃ token text, write value=token::text ∧
    token≠.closeArray ∧ token≠.closeObject := by
  cases value with
  | null => exact ⟨_,_,rfl,by decide,by decide⟩
  | bool value => exact ⟨_,_,rfl,by simp,by simp⟩
  | integer value => exact ⟨_,_,rfl,by simp,by simp⟩
  | real bits => exact ⟨_,_,rfl,by simp,by simp⟩
  | string value => exact ⟨_,_,rfl,by simp,by simp⟩
  | array items => cases items <;> exact ⟨_,_,rfl,by simp,by simp⟩
  | object fields => cases fields <;> exact ⟨_,_,rfl,by simp,by simp⟩

/-- An array with an item. -/
theorem readValue_openArray (h : token≠.closeArray) :
    readValue (fuel+1) (.openArray::token::text)=(do
      let (item,rest) ← readValue fuel (token::text)
      let (items,rest) ← readItems fuel rest
      some (.array (item::items),rest)) := by
  cases token with
  | closeArray => exact absurd rfl h
  | _ => rfl

/-- An object with a field. -/
theorem readValue_openObject {name : String} :
    readValue (fuel+1) (.openObject::.string name::text)=(do
      let (field,rest) ← readField fuel (.string name::text)
      let (fields,rest) ← readFields fuel rest
      some (.object (field::fields),rest)) := rfl

mutual

/-- What is written is read, whatever stands behind it. -/
theorem readValue_write (value : Json) (rest : JsonText) (fuel : ℕ)
    (h : (write value).length ≤ fuel) : readValue fuel (write value++rest)=some (value,rest) := by
  have hpos : 0 < (write value).length := by
    obtain ⟨token,text,hwrite,-,-⟩ := write_head value
    rw [hwrite]
    exact Nat.zero_lt_succ _
  obtain ⟨fuel,rfl⟩ : ∃ n, fuel=n+1 := ⟨fuel-1,by omega⟩
  match value with
  | .null => rfl
  | .bool value => rfl
  | .integer value => rfl
  | .real bits => rfl
  | .string value => rfl
  | .array [] => rfl
  | .object [] => rfl
  | .array (item::items) =>
    have hsize : (write item).length+(writeItems items).length ≤ fuel := by
      simp only [write,List.length_cons,List.length_append] at h
      omega
    have hitem := readValue_write item (writeItems items++rest) fuel (by omega)
    have hitems := readItems_write items rest fuel (by omega)
    obtain ⟨token,text,hwrite,htoken,-⟩ := write_head item
    rw [hwrite] at hitem
    simp only [write,hwrite,List.cons_append,List.append_assoc] at hitem ⊢
    rw [readValue_openArray htoken,hitem]
    simp only [Option.bind_eq_bind,Option.bind_some,hitems]
  | .object ((name,field)::fields) =>
    have hsize : (writeField (name,field)).length+(writeFields fields).length ≤ fuel := by
      simp only [write,List.length_cons,List.length_append] at h
      omega
    have hfield := readField_write (name,field) (writeFields fields++rest) fuel (by omega)
    have hfields := readFields_write fields rest fuel (by omega)
    simp only [write,writeField,List.cons_append,List.append_assoc] at hfield ⊢
    rw [readValue_openObject,hfield]
    simp only [Option.bind_eq_bind,Option.bind_some,hfields]

theorem readItems_write (items : List Json) (rest : JsonText) (fuel : ℕ)
    (h : (writeItems items).length ≤ fuel) :
    readItems fuel (writeItems items++rest)=some (items,rest) := by
  match items with
  | [] =>
    obtain ⟨fuel,rfl⟩ : ∃ n, fuel=n+1 := ⟨fuel-1,by simp [writeItems] at h; omega⟩
    rfl
  | item::items =>
    have hsize : (write item).length+(writeItems items).length+1 ≤ fuel := by
      simp only [writeItems,List.length_cons,List.length_append] at h
      omega
    obtain ⟨fuel,rfl⟩ : ∃ n, fuel=n+1 := ⟨fuel-1,by omega⟩
    have hitem := readValue_write item (writeItems items++rest) fuel (by omega)
    have hitems := readItems_write items rest fuel (by omega)
    simp only [writeItems,List.cons_append,List.append_assoc,readItems,hitem,hitems,
      Option.bind_eq_bind,Option.bind_some]

theorem readField_write (field : String × Json) (rest : JsonText) (fuel : ℕ)
    (h : (writeField field).length ≤ fuel) :
    readField fuel (writeField field++rest)=some (field,rest) := by
  obtain ⟨name,value⟩ := field
  have hsize : (write value).length+2 ≤ fuel := by
    simp only [writeField,List.length_cons] at h
    omega
  obtain ⟨fuel,rfl⟩ : ∃ n, fuel=n+1 := ⟨fuel-1,by omega⟩
  have hvalue := readValue_write value rest fuel (by omega)
  simp only [writeField,List.cons_append,readField,hvalue,Option.bind_eq_bind,Option.bind_some]

theorem readFields_write (fields : List (String × Json)) (rest : JsonText) (fuel : ℕ)
    (h : (writeFields fields).length ≤ fuel) :
    readFields fuel (writeFields fields++rest)=some (fields,rest) := by
  match fields with
  | [] =>
    obtain ⟨fuel,rfl⟩ : ∃ n, fuel=n+1 := ⟨fuel-1,by simp [writeFields] at h; omega⟩
    rfl
  | field::fields =>
    have hsize : (writeField field).length+(writeFields fields).length+1 ≤ fuel := by
      simp only [writeFields,List.length_cons,List.length_append] at h
      omega
    obtain ⟨fuel,rfl⟩ : ∃ n, fuel=n+1 := ⟨fuel-1,by omega⟩
    have hfield := readField_write field (writeFields fields++rest) fuel (by omega)
    have hfields := readFields_write fields rest fuel (by omega)
    simp only [writeFields,List.cons_append,List.append_assoc,readFields,hfield,hfields,
      Option.bind_eq_bind,Option.bind_some]

end

/-- A text that was written is read back. -/
theorem read_write (value : Json) : read (write value)=some value := by
  have hread := readValue_write value [] ((write value).length+1) (Nat.le_succ _)
  rw [List.append_nil] at hread
  unfold read
  rw [hread]

end Json

/-- The library whose texts are sequences of tokens. -/
def tokenTexts : JsonLibrary where
  Text := JsonText
  write := Json.write
  read := Json.read

theorem tokenTexts_lawful : tokenTexts.Lawful := fun value _ => Json.read_write value

end RustSql
