import RustSql.Base.Bytes
import RustSql.Base.JsonTexts
import RustSql.Common.Error

/-!
# JSONB

A JSON value as bytes: elements of a header and a payload, where the header gives the type and
the length of the payload in one of five widths. `encode` writes values; `decode` reads them
back, and `to_json_text` turns them into JSON texts without going through values.
-/

namespace RustSql.Jsonb

/-! ## Texts as bytes -/

/-- `str::as_bytes`. -/
def asBytes (text : String) : Bytes := text.toByteArray.data.toList

/-- `str::from_utf8`. -/
def fromUtf8 (bytes : Bytes) : Option String := String.fromUTF8? ⟨bytes.toArray⟩

theorem fromUtf8_asBytes (text : String) : fromUtf8 (asBytes text)=some text := by
  have hbytes : (⟨(asBytes text).toArray⟩ : ByteArray)=text.toByteArray := rfl
  rw [fromUtf8,hbytes,String.fromUTF8?,dif_pos text.isValidUTF8]
  rfl

/-! ## Elements -/

def jsonbNull : UInt8 := 0
def jsonbTrue : UInt8 := 1
def jsonbFalse : UInt8 := 2
def jsonbInt : UInt8 := 3
def jsonbFloat : UInt8 := 5
def jsonbText : UInt8 := 7
def jsonbTextEscaped : UInt8 := 8
def jsonbTextRaw : UInt8 := 10
def jsonbArray : UInt8 := 11
def jsonbObject : UInt8 := 12

/-- The kinds of elements: arrays, objects, and those that hold no others. -/
def byElementType {α : Type} (elementType : UInt8) (array object leaf : α) : α :=
  if elementType=jsonbArray then array else if elementType=jsonbObject then object else leaf

/-- The error of bytes that are no element. -/
def malformed : DbError := .plan "malformed JSONB"

/-- The error of a payload whose length does not fit eight bytes. -/
def tooLarge : DbError := .plan "JSONB payload length is too large"

/-- `write_element`, as the bytes it adds. -/
def writeElement (elementType : UInt8) (payload : Bytes) : Except DbError Bytes :=
  let length := payload.length
  if elementType > 0x0f then .error (.plan "invalid JSONB element type")
  else if length ≤ 11 then .ok ((UInt8.ofNat length <<< 4 ||| elementType) :: payload)
  else if length < 2^8 then .ok ((0xc0 ||| elementType) :: encodeBe 1 length++payload)
  else if length < 2^16 then .ok ((0xd0 ||| elementType) :: encodeBe 2 length++payload)
  else if length < 2^32 then .ok ((0xe0 ||| elementType) :: encodeBe 4 length++payload)
  else if length < 2^64 then .ok ((0xf0 ||| elementType) :: encodeBe 8 length++payload)
  else .error tooLarge

/-- `read_be_length`. -/
def readBeLength (bytes : Bytes) (start width : ℕ) : Except DbError ℕ :=
  match window bytes start (start+width) with
  | none => .error malformed
  | some raw => .ok (decodeBe raw)

/-- The match on the length marker in `read_header`: where the payload begins, and its
length. -/
def payloadPlace (bytes : Bytes) (offset lengthMarker : ℕ) : Except DbError (ℕ × ℕ) :=
  let behind (width : ℕ) :=
    (readBeLength bytes (offset+1) width).map fun length => (offset+1+width,length)
  if lengthMarker ≤ 11 then .ok (offset+1,lengthMarker)
  else if lengthMarker=12 then behind 1
  else if lengthMarker=13 then behind 2
  else if lengthMarker=14 then behind 4
  else behind 8

/-- `read_header`: the type, and where the payload begins and ends. -/
def readHeader (bytes : Bytes) (offset : ℕ) : Except DbError (UInt8 × ℕ × ℕ) :=
  match bytes[offset]? with
  | none => .error malformed
  | some header => do
    let (payloadStart,payloadLen) ← payloadPlace bytes offset (header >>> 4).toNat
    if payloadStart+payloadLen > bytes.length then .error malformed
    else .ok (header &&& 0x0f,payloadStart,payloadStart+payloadLen)

/-! ## Writing -/

/-- `object_key_path`. -/
def objectKeyPath (parent key : String) : String := s!"{parent}K{key.utf8ByteSize}:{key}"

/-- `array_index_path`. -/
def arrayIndexPath (parent : String) (index : ℕ) : String := s!"{parent}I{index};"

/-- `strip_prefix` and `strip_suffix` with a quote. -/
def stripQuotes : List Char → Option (List Char)
  | '"' :: rest => if rest.getLast?=some '"' then some rest.dropLast else none
  | _ => none

/-- `encode_raw_string`. -/
def encodeRawString (value : String) : Except DbError Bytes :=
  writeElement jsonbTextRaw (asBytes value)

section Code

variable {N : Type} (serde : SerdeJson N)

/-- `encode_string`. -/
def encodeString (value : String) : Except DbError Bytes :=
  match stripQuotes (serde.toString (.string value)) with
  | none => .error (.plan "failed to render JSONB string")
  | some inner =>
    if String.ofList inner=value then writeElement jsonbText (asBytes value)
    else writeElement jsonbTextEscaped (asBytes (String.ofList inner))

mutual

/-- `encode_value`, as the bytes it adds. -/
def encodeValue (rawObjectKeys : String → Bool) : JsonValue N → String → Except DbError Bytes
  | .null, _ => writeElement jsonbNull []
  | .bool true, _ => writeElement jsonbTrue []
  | .bool false, _ => writeElement jsonbFalse []
  | .number value, _ =>
    writeElement (if serde.isF64 value then jsonbFloat else jsonbInt)
      (asBytes (String.ofList (serde.toString (.number value))))
  | .string value, _ => encodeString serde value
  | .array values, path => do
    let payload ← encodeItems rawObjectKeys values path 0
    writeElement jsonbArray payload
  | .object fields, path => do
    let payload ← encodeFields rawObjectKeys fields path
    writeElement jsonbObject payload

/-- The items of an array. -/
def encodeItems (rawObjectKeys : String → Bool) :
    List (JsonValue N) → String → ℕ → Except DbError Bytes
  | [], _, _ => .ok []
  | value :: values, path, index => do
    let first ← encodeValue rawObjectKeys value (arrayIndexPath path index)
    let rest ← encodeItems rawObjectKeys values path (index+1)
    .ok (first++rest)

/-- The fields of an object. -/
def encodeFields (rawObjectKeys : String → Bool) :
    List (String × JsonValue N) → String → Except DbError Bytes
  | [], _ => .ok []
  | (key,value) :: fields, path => do
    let keyPath := objectKeyPath path key
    let first ← if rawObjectKeys keyPath then encodeRawString key else encodeString serde key
    let second ← encodeValue rawObjectKeys value keyPath
    let rest ← encodeFields rawObjectKeys fields path
    .ok (first++second++rest)

end

/-- `encode_with_raw_object_keys`; without raw keys it is `encode`. -/
def encodeWithRawObjectKeys (value : JsonValue N) (rawObjectKeys : String → Bool) :
    Except DbError Bytes :=
  encodeValue serde rawObjectKeys value ""

/-! ## Reading -/

/-- `require_empty_payload`. -/
def requireEmptyPayload {α : Type} (payload : Bytes) (value : α) : Except DbError α :=
  if payload.isEmpty then .ok value else .error malformed

/-- The values of elements that hold no others. -/
def decodeLeaf (elementType : UInt8) (payload : Bytes) : Except DbError (JsonValue N) :=
  if elementType=jsonbNull then requireEmptyPayload payload .null
  else if elementType=jsonbTrue then requireEmptyPayload payload (.bool true)
  else if elementType=jsonbFalse then requireEmptyPayload payload (.bool false)
  else if elementType=jsonbInt ∨ elementType=jsonbFloat then
    match fromUtf8 payload with
    | none => .error (.plan "malformed JSONB number")
    | some text =>
      match serde.fromStr text.toList with
      | some (.number value) => .ok (.number value)
      | _ => .error (.plan "malformed JSONB number")
  else if elementType=jsonbText ∨ elementType=jsonbTextRaw then
    match fromUtf8 payload with
    | none => .error (.plan "malformed JSONB text")
    | some text => .ok (.string text)
  else if elementType=jsonbTextEscaped then
    match fromUtf8 payload with
    | none => .error (.plan "malformed JSONB text")
    | some text =>
      match serde.fromStr ('"' :: text.toList++['"']) with
      | none => .error (.plan "malformed JSONB text")
      | some value => .ok value
  else .error (.plan "unsupported JSONB element type")

/-- The error at the end of the recursion, which is not reached from `decode`. -/
def noFuel : DbError := .plan "recursion"

mutual

/-- `decode_at`. -/
def decodeAt : ℕ → Bytes → ℕ → Except DbError (JsonValue N × ℕ)
  | 0, _, _ => .error noFuel
  | fuel+1, bytes, offset => do
    let (elementType,payloadStart,payloadEnd) ← readHeader bytes offset
    let payload := slice bytes payloadStart (payloadEnd-payloadStart)
    let value ← byElementType elementType ((decodeArray fuel payload 0).map JsonValue.array)
      ((decodeObject fuel payload 0 []).map JsonValue.object)
      (decodeLeaf serde elementType payload)
    .ok (value,payloadEnd)

/-- The loop of `decode_array`. -/
def decodeArray : ℕ → Bytes → ℕ → Except DbError (List (JsonValue N))
  | 0, _, _ => .error noFuel
  | fuel+1, payload, offset =>
    if offset < payload.length then do
      let (value,consumed) ← decodeAt fuel payload offset
      let values ← decodeArray fuel payload consumed
      .ok (value :: values)
    else .ok []

/-- The loop of `decode_object`, with the fields so far. -/
def decodeObject :
    ℕ → Bytes → ℕ → List (String × JsonValue N) → Except DbError (List (String × JsonValue N))
  | 0, _, _, _ => .error noFuel
  | fuel+1, payload, offset, object =>
    if offset < payload.length then do
      let (key,consumedKey) ← decodeAt fuel payload offset
      match key with
      | .string key =>
        if consumedKey ≥ payload.length then .error (.plan "malformed JSONB object")
        else do
          let (value,consumedValue) ← decodeAt fuel payload consumedKey
          decodeObject fuel payload consumedValue (insertField key value object)
      | _ => .error (.plan "malformed JSONB object key")
    else .ok object

end

/-- Steps of the recursion that are enough for some bytes. -/
def enough (bytes : Bytes) : ℕ := 2*bytes.length+1

/-- `decode`. -/
def decode (bytes : Bytes) : Except DbError (JsonValue N) := do
  let (value,consumed) ← decodeAt serde (enough bytes) bytes 0
  if consumed≠bytes.length then .error malformed else .ok value

/-! ## Texts -/

/-- `serde_json::from_str` for a string. -/
def stringFromStr (text : List Char) : Option String :=
  match serde.fromStr text with
  | some (.string value) => some value
  | _ => none

/-- The texts of elements that hold no others. -/
def renderLeaf (elementType : UInt8) (payload : Bytes) : Except DbError (List Char) :=
  if elementType=jsonbNull then requireEmptyPayload payload ['n', 'u', 'l', 'l']
  else if elementType=jsonbTrue then requireEmptyPayload payload ['t', 'r', 'u', 'e']
  else if elementType=jsonbFalse then requireEmptyPayload payload ['f', 'a', 'l', 's', 'e']
  else if elementType=jsonbInt ∨ elementType=jsonbFloat then
    match fromUtf8 payload with
    | none => .error (.plan "malformed JSONB number")
    | some text => .ok text.toList
  else if elementType=jsonbText ∨ elementType=jsonbTextRaw then
    match fromUtf8 payload with
    | none => .error (.plan "malformed JSONB text")
    | some text => .ok (serde.toString (.string text))
  else if elementType=jsonbTextEscaped then
    match fromUtf8 payload with
    | none => .error (.plan "malformed JSONB text")
    | some text =>
      match stringFromStr serde ('"' :: text.toList++['"']) with
      | none => .error (.plan "malformed JSONB text")
      | some decoded => .ok (serde.toString (.string decoded))
  else .error (.plan "unsupported JSONB element type")

mutual

/-- `render_at`. -/
def renderAt : ℕ → Bytes → ℕ → Except DbError (List Char × ℕ)
  | 0, _, _ => .error noFuel
  | fuel+1, bytes, offset => do
    let (elementType,payloadStart,payloadEnd) ← readHeader bytes offset
    let payload := slice bytes payloadStart (payloadEnd-payloadStart)
    let rendered ← byElementType elementType
      ((renderArray fuel payload 0).map fun values => '[' :: commaJoin values++[']'])
      ((renderObject fuel payload 0).map fun fields => '{' :: commaJoin fields++['}'])
      (renderLeaf serde elementType payload)
    .ok (rendered,payloadEnd)

/-- The loop of `render_array`. -/
def renderArray : ℕ → Bytes → ℕ → Except DbError (List (List Char))
  | 0, _, _ => .error noFuel
  | fuel+1, payload, offset =>
    if offset < payload.length then do
      let (value,consumed) ← renderAt fuel payload offset
      let values ← renderArray fuel payload consumed
      .ok (value :: values)
    else .ok []

/-- The loop of `render_object`. -/
def renderObject : ℕ → Bytes → ℕ → Except DbError (List (List Char))
  | 0, _, _ => .error noFuel
  | fuel+1, payload, offset =>
    if offset < payload.length then do
      let (key,consumedKey) ← renderAt fuel payload offset
      if consumedKey ≥ payload.length then .error (.plan "malformed JSONB object")
      else do
        let (value,consumedValue) ← renderAt fuel payload consumedKey
        let fields ← renderObject fuel payload consumedValue
        .ok ((key++ ':' :: value) :: fields)
    else .ok []

end

/-- `to_json_text`. -/
def toJsonText (bytes : Bytes) : Except DbError (List Char) := do
  let (rendered,consumed) ← renderAt serde (enough bytes) bytes 0
  if consumed≠bytes.length then .error malformed else .ok rendered

end Code

end RustSql.Jsonb
