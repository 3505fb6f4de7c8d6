import RustSql.Common.Value
import RustSql.Sqlite3.Varint

/-!
# Records

A record is a header of serial types, preceded by its own length, and the
values' bytes. A boolean is written as the integer zero or one. The decoders of
index and table records differ in the texts of their errors only.
-/

namespace RustSql.Sqlite3

/-- The bytes of a text. -/
def textBytes (text : String) : Bytes := text.toUTF8.data.toList

/-- `str::from_utf8`. -/
def textOfBytes (bytes : Bytes) : Option String := String.fromUTF8? ⟨bytes.toArray⟩

/-- `i64::to_be_bytes`. -/
def integerBytes (value : Int64) : Bytes := encodeBe 8 value.toUInt64.toNat

/-- `integer_len`. -/
def integerLen : ℕ → ℕ
  | 1 => 1
  | 2 => 2
  | 3 => 3
  | 4 => 4
  | 5 => 6
  | 6 => 8
  | _ => 0

/-- `integer_serial_type`. -/
def integerSerialType (value : Int64) : ℕ :=
  let n := value.toInt
  if n=0 then 8
  else if n=1 then 9
  else if -128 ≤ n ∧ n ≤ 127 then 1
  else if -32768 ≤ n ∧ n ≤ 32767 then 2
  else if -8388608 ≤ n ∧ n ≤ 8388607 then 3
  else if -2147483648 ≤ n ∧ n ≤ 2147483647 then 4
  else if -140737488355328 ≤ n ∧ n ≤ 140737488355327 then 5
  else 6

/-- The serial type of a blob or a text of a length, by its parity. -/
def lengthSerialType (length base : ℕ) (message : String) : Except DbError ℕ :=
  if 2*length+base < 2^64 then .ok (2*length+base) else .error (.storage message)

/-- The serial type of a value. -/
def serialType : Value → Except DbError ℕ
  | .null => .ok 0
  | .boolean false => .ok 8
  | .boolean true => .ok 9
  | .integer value => .ok (integerSerialType value)
  | .real _ => .ok 7
  | .blob bytes => lengthSerialType bytes.length 12 "sqlite blob serial type overflow"
  | .text text => lengthSerialType (textBytes text).length 13 "sqlite text serial type overflow"

/-- The bytes a value puts behind the header. -/
def valuePayload : Value → Bytes
  | .null => []
  | .boolean _ => []
  | .integer value => (integerBytes value).drop (8-integerLen (integerSerialType value))
  | .real bits => encodeBe 8 bits.toNat
  | .blob bytes => bytes
  | .text text => textBytes text

/-- The loop that finds the header's length, its own varint included. -/
def recordHeaderSize (headerLen : ℕ) : ℕ → ℕ → ℕ
  | 0, size => size
  | fuel+1, size =>
    if headerLen+(encodeVarint size).length=size then size
    else recordHeaderSize headerLen fuel (headerLen+(encodeVarint size).length)

/-- `encode_record`. -/
def encodeRecord (values : List Value) : Except DbError Bytes := do
  let serials ← values.mapM serialType
  let header := serials.flatMap encodeVarint
  let headerSize := recordHeaderSize header.length 9 (header.length+1)
  .ok (encodeVarint headerSize++header++values.flatMap valuePayload)

/-- `decode_integer`: the sign is spread over the missing bytes. -/
def decodeInteger (bytes : Bytes) : Int64 :=
  let sign : UInt8 := if 128 ≤ (bytes.headD 0).toNat then 0xff else 0
  (UInt64.ofNat (decodeBe (List.replicate (8-bytes.length) sign++bytes))).toInt64

/-- The serial types of a record's header. -/
def decodeSerials : ℕ → Bytes → Except DbError (List ℕ)
  | 0, _ => .ok []
  | fuel+1, header =>
    if header=[] then .ok []
    else do
      let (serial,consumed) ← decodeVarint header
      let rest ← decodeSerials fuel (header.drop consumed)
      .ok (serial :: rest)

/-- `decode_record_header`: the serial types and where the header ends. -/
def decodeRecordHeader (bytes : Bytes) : Except DbError (List ℕ × ℕ) := do
  let (headerEnd,firstLen) ← decodeVarint bytes
  if bytes.length < headerEnd ∨ headerEnd < firstLen then
    .error (.storage "invalid sqlite record header size")
  else
    let serials ← decodeSerials headerEnd (slice bytes firstLen (headerEnd-firstLen))
    .ok (serials,headerEnd)

/-- The bytes of a value, or the error of its kind. -/
def valueBytes (bytes : Bytes) (cursor length : ℕ) (message : String) : Except DbError Bytes :=
  match window bytes cursor (cursor+length) with
  | some part => .ok part
  | none => .error (.storage message)

/-- The decoder of one value in an index or a table record (`kind`): the value and
the place behind its bytes. -/
def decodeSerialValue (kind : String) (bytes : Bytes) (cursor serial : ℕ) :
    Except DbError (Value × ℕ) :=
  if serial=0 then .ok (.null,cursor)
  else if serial ≤ 6 then do
    let part ← valueBytes bytes cursor (integerLen serial) "invalid sqlite integer record length"
    .ok (.integer (decodeInteger part),cursor+integerLen serial)
  else if serial=7 then do
    let part ← valueBytes bytes cursor 8 "invalid sqlite real record length"
    .ok (.real (UInt64.ofNat (decodeBe part)),cursor+8)
  else if serial=8 then .ok (.integer 0,cursor)
  else if serial=9 then .ok (.integer 1,cursor)
  else if 12 ≤ serial ∧ serial%2=0 then do
    let part ← valueBytes bytes cursor ((serial-12)/2) "invalid sqlite blob record length"
    .ok (.blob part,cursor+(serial-12)/2)
  else if 13 ≤ serial ∧ serial%2=1 then do
    let part ← valueBytes bytes cursor ((serial-13)/2) "invalid sqlite text record length"
    match textOfBytes part with
    | some text => .ok (.text text,cursor+(serial-13)/2)
    | none => .error (.storage "invalid utf-8 in sqlite text record")
  else .error (.storage s!"unsupported sqlite {kind} serial type {serial}")

/-- The loop over the serial types. -/
def decodeSerialValues (kind : String) (bytes : Bytes) :
    List ℕ → ℕ → Except DbError (List Value × ℕ)
  | [], cursor => .ok ([],cursor)
  | serial :: serials, cursor => do
    let (value,cursor) ← decodeSerialValue kind bytes cursor serial
    let (values,cursor) ← decodeSerialValues kind bytes serials cursor
    .ok (value :: values,cursor)

/-- The decoder of a whole record of a kind, with its name in the last error. -/
def decodeRecord (kind name : String) (bytes : Bytes) : Except DbError (List Value) := do
  let (serials,headerEnd) ← decodeRecordHeader bytes
  let (values,cursor) ← decodeSerialValues kind bytes serials headerEnd
  if cursor≠bytes.length then
    .error (.storage s!"invalid sqlite {name}: trailing bytes after payload")
  else .ok values

/-- `decode_index_record`. -/
def decodeIndexRecord : Bytes → Except DbError (List Value) := decodeRecord "index" "index record"

/-- `decode_table_record`. -/
def decodeTableRecord : Bytes → Except DbError (List Value) := decodeRecord "table" "record"

example : encodeRecord [.text "a",.integer 2]=.ok [3,15,1,97,2] := by decide +kernel

end RustSql.Sqlite3
