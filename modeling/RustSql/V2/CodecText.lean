import RustSql.Base.Json
import RustSql.V2.Codec

/-!
# The texts of rows and index keys

Rows, row versions and index keys are stored as JSON texts. A value is written as its
variant's name and contents, a float that is not finite as `null`; a stored row is a bare
list of values or a list of versions, and reading tries the two in that order. What the
library's errors say about the place in the text is left out.
-/

namespace RustSql.V2

/-- `as f64`: the float closest to an integer below 2⁶⁴, ties to an even mantissa. -/
def realOfInteger (value : ℤ) : UInt64 :=
  let n := value.natAbs
  let sign := if value < 0 then 2^63 else 0
  if n=0 then 0
  else
    let exponent := n.log2
    let mantissa :=
      if exponent ≤ 52 then n*2^(52-exponent)
      else
        let unit := 2^(exponent-52)
        let kept := n/unit
        if unit < 2*(n%unit) ∨ (unit=2*(n%unit) ∧ kept%2=1) then kept+1 else kept
    (sign+(exponent+1022)*2^52+mantissa).toUInt64

/-- The error of a text that is not what is read. -/
def invalidType : DbError := .serde "invalid type"

/-- The error of a text that is neither shape of a stored row. -/
def noVariant : DbError :=
  .serde "data did not match any variant of untagged enum StoredRow"

/-- `Serialize for f64`. -/
def realToJson (bits : UInt64) : Json := if isFiniteReal bits then .real bits else .null

/-- `Serialize for Value`. -/
def valueToJson : Value → Json
  | .null => .string "Null"
  | .boolean value => .object [("Boolean",.bool value)]
  | .integer value => .object [("Integer",.integer value.toInt)]
  | .real bits => .object [("Real",realToJson bits)]
  | .blob bytes => .object [("Blob",.array (bytes.map fun byte => .integer byte.toNat))]
  | .text value => .object [("Text",.string value)]

/-- `Deserialize for u8`. -/
def byteOfJson : Json → Except DbError UInt8
  | .integer value =>
    if 0 ≤ value ∧ value < 2^8 then .ok value.toNat.toUInt8 else .error invalidType
  | _ => .error invalidType

/-- `Deserialize for u64`. -/
def u64OfJson : Json → Except DbError ℕ
  | .integer value => if 0 ≤ value ∧ value < 2^64 then .ok value.toNat else .error invalidType
  | _ => .error invalidType

/-- `Deserialize for Option<u64>`. -/
def optionOfJson : Json → Except DbError (Option ℕ)
  | .null => .ok none
  | value => (u64OfJson value).map some

/-- Read every item of a list. -/
def listOfJson {α : Type} (item : Json → Except DbError α) : Json → Except DbError (List α)
  | .array items => items.mapM item
  | _ => .error invalidType

/-- The contents of a variant of `Value`. -/
def variantOfJson (variant : String) (content : Json) : Except DbError Value :=
  match variant,content with
  | "Null",.null => .ok .null
  | "Boolean",.bool value => .ok (.boolean value)
  | "Integer",.integer value =>
    if -2^63 ≤ value ∧ value < 2^63 then .ok (.integer (Int64.ofInt value))
    else .error invalidType
  | "Real",.real bits => .ok (.real bits)
  | "Real",.integer value => .ok (.real (realOfInteger value))
  | "Blob",content => (listOfJson byteOfJson content).map .blob
  | "Text",.string value => .ok (.text value)
  | _,_ => .error invalidType

/-- `Deserialize for Value`. -/
def valueOfJson : Json → Except DbError Value
  | .string variant => if variant="Null" then .ok .null else .error invalidType
  | .object [(variant,content)] => variantOfJson variant content
  | _ => .error invalidType

/-- A row as a list of values. -/
def rowToJson (row : Row) : Json := .array (row.map valueToJson)

/-- Read a list of values. -/
def rowOfJson : Json → Except DbError Row := listOfJson valueOfJson

/-- A number that may be missing. -/
def optionToJson : Option ℕ → Json
  | none => .null
  | some value => .integer value

/-- The fields of a `RowVersion`. -/
def versionFields (v : RowVersion) : List (String × Json) :=
  [("row",rowToJson v.row),("created_by_txn",.integer v.createdByTxn),
    ("created_commit_ts",optionToJson v.createdCommitTs),
    ("deleted_by_txn",optionToJson v.deletedByTxn),
    ("deleted_commit_ts",optionToJson v.deletedCommitTs)]

/-- `Serialize for RowVersion`. -/
def versionToJson (v : RowVersion) : Json := .object (versionFields v)

/-- A field of a struct: fields with other names are skipped, a name twice is refused. -/
def fieldOfJson (fields : List (String × Json)) (name : String) : Except DbError (Option Json) :=
  match fields.filter fun field => field.1=name with
  | [] => .ok none
  | [(_,value)] => .ok (some value)
  | _ => .error (.serde s!"duplicate field {name}")

/-- A field that has to be there. -/
def requiredField {α : Type} (fields : List (String × Json)) (name : String)
    (read : Json → Except DbError α) : Except DbError α := do
  match ← fieldOfJson fields name with
  | some value => read value
  | none => .error (.serde s!"missing field {name}")

/-- A field that is `None` when it is not there. -/
def optionalField (fields : List (String × Json)) (name : String) : Except DbError (Option ℕ) := do
  match ← fieldOfJson fields name with
  | some value => optionOfJson value
  | none => .ok none

/-- `Deserialize for RowVersion`, from a map or from a sequence. -/
def versionOfJson : Json → Except DbError RowVersion
  | .object fields => do
    let row ← requiredField fields "row" rowOfJson
    let createdByTxn ← requiredField fields "created_by_txn" u64OfJson
    let createdCommitTs ← optionalField fields "created_commit_ts"
    let deletedByTxn ← optionalField fields "deleted_by_txn"
    let deletedCommitTs ← optionalField fields "deleted_commit_ts"
    .ok ⟨row,createdByTxn,createdCommitTs,deletedByTxn,deletedCommitTs⟩
  | .array [row,createdByTxn,createdCommitTs,deletedByTxn,deletedCommitTs] => do
    let row ← rowOfJson row
    let createdByTxn ← u64OfJson createdByTxn
    let createdCommitTs ← optionOfJson createdCommitTs
    let deletedByTxn ← optionOfJson deletedByTxn
    let deletedCommitTs ← optionOfJson deletedCommitTs
    .ok ⟨row,createdByTxn,createdCommitTs,deletedByTxn,deletedCommitTs⟩
  | _ => .error invalidType

/-- `Deserialize for VersionedRow`, from a map or from a sequence. -/
def versionedOfJson : Json → Except DbError VersionedRow
  | .object fields => do
    let versions ← requiredField fields "versions" (listOfJson versionOfJson)
    .ok ⟨versions⟩
  | .array [versions] => do
    let versions ← listOfJson versionOfJson versions
    .ok ⟨versions⟩
  | _ => .error invalidType

/-- `Serialize for StoredRow`. -/
def storedToJson : StoredRow → Json
  | .legacy row => rowToJson row
  | .versioned rows => .object [("versions",.array (rows.versions.map versionToJson))]

/-- `Deserialize for StoredRow`: the first shape that fits. -/
def storedOfJson (tree : Json) : Except DbError StoredRow :=
  match rowOfJson tree with
  | .ok row => .ok (.legacy row)
  | .error _ =>
    match versionedOfJson tree with
    | .ok rows => .ok (.versioned rows)
    | .error _ => .error noVariant

section Texts

variable (library : JsonLibrary)

/-- `serde_json::from_slice`. -/
def fromSlice {α : Type} (read : Json → Except DbError α) (text : library.Text) :
    Except DbError α :=
  match library.read text with
  | some tree => read tree
  | none => .error (.serde "expected value")

namespace CodecText

/-- The text of a stored row. -/
def storedText (stored : StoredRow) : library.Text := library.write (storedToJson stored)

/-- `encode_row`. -/
def encodeRow (row : Row) : library.Text := storedText library (V2.encodeRow row)

/-- `encode_uncommitted_row_version`. -/
def encodeUncommittedRowVersion (row : Row) (txnId : ℕ) : library.Text :=
  storedText library (V2.encodeUncommittedRowVersion row txnId)

/-- `decode_versioned_row`. -/
def decodeVersionedRow (text : library.Text) : Except DbError VersionedRow :=
  (fromSlice library storedOfJson text).map V2.decodeVersionedRow

/-- `decode_row`. -/
def decodeRow (text : library.Text) : Except DbError Row :=
  (fromSlice library storedOfJson text).map V2.decodeRow

/-- `encode_index_key`. -/
def encodeIndexKey (values : List Value) : library.Text := library.write (rowToJson values)

/-- `decode_index_key`. -/
def decodeIndexKey (text : library.Text) : Except DbError (List Value) :=
  fromSlice library rowOfJson text

end CodecText

end Texts

/-! ## Finite rows are read back -/

/-- No float that is not finite. -/
def FiniteValue : Value → Prop
  | .real bits => isFiniteReal bits=true
  | _ => True

instance instDecidableFiniteValue : (value : Value) → Decidable (FiniteValue value)
  | .real bits => inferInstanceAs (Decidable (isFiniteReal bits=true))
  | .null => .isTrue trivial
  | .integer _ => .isTrue trivial
  | .boolean _ => .isTrue trivial
  | .text _ => .isTrue trivial
  | .blob _ => .isTrue trivial

/-- The numbers of a version are in the range of `u64`. -/
structure RowVersion.InRange (v : RowVersion) : Prop where
  createdByTxn : v.createdByTxn < 2^64
  createdCommitTs : ∀ n, v.createdCommitTs=some n → n < 2^64
  deletedByTxn : ∀ n, v.deletedByTxn=some n → n < 2^64
  deletedCommitTs : ∀ n, v.deletedCommitTs=some n → n < 2^64

section Lists

variable {α : Type} {read : Json → Except DbError α} {write : α → Json} {xs : List α}

/-- A list is read item by item. -/
theorem listOfJson_cons (x : α) : listOfJson read (.array ((x::xs).map write))=(do
    let y ← read (write x)
    let ys ← listOfJson read (.array (xs.map write))
    .ok (y::ys)) := by
  change (write x::xs.map write).mapM read=_
  rw [List.mapM_cons]
  rfl

/-- A list is read back when every item of it is. -/
theorem listOfJson_ok (h : ∀ x∈xs, read (write x)=.ok x) :
    listOfJson read (.array (xs.map write))=.ok xs := by
  induction xs with
  | nil => rfl
  | cons x xs ih =>
    have hrest := ih fun y hmem => h y (List.mem_cons_of_mem x hmem)
    rw [listOfJson_cons,h x List.mem_cons_self,hrest]
    rfl

/-- A list with an item that cannot be read cannot be read. -/
theorem listOfJson_error {x : α} {e : DbError} (hmem : x∈xs) (h : read (write x)=.error e) :
    ∃ e', listOfJson read (.array (xs.map write))=.error e' := by
  induction xs with
  | nil => exact absurd hmem List.not_mem_nil
  | cons y xs ih =>
    rw [listOfJson_cons]
    rcases List.mem_cons.mp hmem with rfl | hmem
    · rw [h]
      exact ⟨e,rfl⟩
    · obtain ⟨e',hrest⟩ := ih hmem
      rw [hrest]
      cases read (write y) with
      | error e'' => exact ⟨e'',rfl⟩
      | ok y' => exact ⟨e',rfl⟩

end Lists

/-- A byte is read back. -/
theorem byteOfJson_ok (byte : UInt8) : byteOfJson (.integer byte.toNat)=.ok byte := by
  have hrange : (0 : ℤ) ≤ (byte.toNat : ℤ) ∧ (byte.toNat : ℤ) < 2^8 := by
    have hlt := byte.toNat_lt
    omega
  simp only [byteOfJson]
  rw [if_pos hrange,Int.toNat_natCast]
  exact congrArg Except.ok UInt8.ofNat_toNat

/-- A finite value is read back. -/
theorem valueOfJson_ok {value : Value} (h : FiniteValue value) :
    valueOfJson (valueToJson value)=.ok value := by
  cases value with
  | null => rfl
  | boolean value => rfl
  | integer value =>
    have hrange : -2^63 ≤ value.toInt ∧ value.toInt < 2^63 :=
      ⟨value.le_toInt,value.toInt_lt⟩
    change (if -2^63 ≤ value.toInt ∧ value.toInt < 2^63 then
      Except.ok (Value.integer (Int64.ofInt value.toInt)) else _)=_
    rw [if_pos hrange,Int64.ofInt_toInt]
  | real bits =>
    have hjson : realToJson bits=.real bits := if_pos h
    change variantOfJson "Real" (realToJson bits)=_
    rw [hjson]
    rfl
  | blob bytes =>
    have hbytes : listOfJson byteOfJson (.array (bytes.map fun byte => .integer byte.toNat))=
        .ok bytes :=
      listOfJson_ok fun byte _ => byteOfJson_ok byte
    change (listOfJson byteOfJson _).map Value.blob=_
    rw [hbytes]
    rfl
  | text value => rfl

/-- Any other value is an error. -/
theorem valueOfJson_error {value : Value} (h : ¬FiniteValue value) :
    valueOfJson (valueToJson value)=.error invalidType := by
  cases value with
  | real bits =>
    have hjson : realToJson bits=.null := if_neg h
    change variantOfJson "Real" (realToJson bits)=_
    rw [hjson]
    rfl
  | _ => exact absurd trivial h

/-- No value of a row is a float that is not finite. -/
def FiniteRow (row : Row) : Prop := ∀ value∈row, FiniteValue value

instance (row : Row) : Decidable (FiniteRow row) :=
  inferInstanceAs (Decidable (∀ value∈row, FiniteValue value))

/-- A finite row is read back. -/
theorem rowOfJson_ok {row : Row} (h : FiniteRow row) : rowOfJson (rowToJson row)=.ok row :=
  listOfJson_ok fun value hmem => valueOfJson_ok (h value hmem)

/-- Any other row is an error. -/
theorem rowOfJson_error {row : Row} (h : ¬FiniteRow row) :
    ∃ e, rowOfJson (rowToJson row)=.error e := by
  unfold FiniteRow at h
  push Not at h
  obtain ⟨value,hmem,hvalue⟩ := h
  exact listOfJson_error hmem (valueOfJson_error hvalue)

/-- A 64-bit number is read back. -/
theorem u64OfJson_ok {n : ℕ} (h : n < 2^64) : u64OfJson (.integer n)=.ok n := by
  have hrange : (0 : ℤ) ≤ (n : ℤ) ∧ (n : ℤ) < 2^64 := by omega
  simp only [u64OfJson]
  rw [if_pos hrange,Int.toNat_natCast]

/-- So is one that may be missing. -/
theorem optionOfJson_ok {value : Option ℕ} (h : ∀ n, value=some n → n < 2^64) :
    optionOfJson (optionToJson value)=.ok value := by
  cases value with
  | none => rfl
  | some n =>
    change (u64OfJson (.integer n)).map some=_
    rw [u64OfJson_ok (h n rfl)]
    rfl

/-- A field that is there is read. -/
theorem requiredField_eq {α : Type} {fields : List (String × Json)} {name : String} {value : Json}
    (read : Json → Except DbError α) (h : fieldOfJson fields name=.ok (some value)) :
    requiredField fields name read=read value := by
  unfold requiredField
  rw [h]
  rfl

/-- So is an optional one. -/
theorem optionalField_eq {fields : List (String × Json)} {name : String} {value : Json}
    (h : fieldOfJson fields name=.ok (some value)) :
    optionalField fields name=optionOfJson value := by
  unfold optionalField
  rw [h]
  rfl

/-- The fields of a version are found under their names. -/
theorem fieldOfJson_version (v : RowVersion) :
    fieldOfJson (versionFields v) "row"=.ok (some (rowToJson v.row)) ∧
    fieldOfJson (versionFields v) "created_by_txn"=.ok (some (.integer v.createdByTxn)) ∧
    fieldOfJson (versionFields v) "created_commit_ts"=
      .ok (some (optionToJson v.createdCommitTs)) ∧
    fieldOfJson (versionFields v) "deleted_by_txn"=.ok (some (optionToJson v.deletedByTxn)) ∧
    fieldOfJson (versionFields v) "deleted_commit_ts"=
      .ok (some (optionToJson v.deletedCommitTs)) := by
  simp [fieldOfJson,versionFields]

/-- A version is read when its row is. -/
theorem versionOfJson_eq {v : RowVersion} (h : v.InRange) :
    versionOfJson (versionToJson v)=
      (rowOfJson (rowToJson v.row)).map fun row => {v with row := row} := by
  obtain ⟨hrow,hcreated,hcreatedTs,hdeleted,hdeletedTs⟩ := fieldOfJson_version v
  unfold versionToJson
  simp only [versionOfJson]
  rw [requiredField_eq rowOfJson hrow,requiredField_eq u64OfJson hcreated,
    optionalField_eq hcreatedTs,optionalField_eq hdeleted,optionalField_eq hdeletedTs,
    u64OfJson_ok h.createdByTxn,optionOfJson_ok h.createdCommitTs,
    optionOfJson_ok h.deletedByTxn,optionOfJson_ok h.deletedCommitTs]
  cases rowOfJson (rowToJson v.row) <;> rfl

/-! ## Stored rows -/

/-- Every row of a version list is finite. -/
def FiniteVersions (rows : VersionedRow) : Prop := ∀ v∈rows.versions, FiniteRow v.row

/-- A bare row is not a version list, whatever its values. -/
theorem versionedOfJson_row (row : Row) : ∃ e, versionedOfJson (rowToJson row)=.error e := by
  cases row with
  | nil => exact ⟨invalidType,rfl⟩
  | cons value rest =>
    cases rest with
    | nil => cases value <;> exact ⟨invalidType,rfl⟩
    | cons other rest => exact ⟨invalidType,rfl⟩

/-- A finite legacy row is read back. -/
theorem storedOfJson_legacy_ok {row : Row} (h : FiniteRow row) :
    storedOfJson (storedToJson (.legacy row))=.ok (.legacy row) := by
  unfold storedOfJson
  rw [show storedToJson (.legacy row)=rowToJson row from rfl,rowOfJson_ok h]

/-- Any other legacy row fits no variant. -/
theorem storedOfJson_legacy_error {row : Row} (h : ¬FiniteRow row) :
    storedOfJson (storedToJson (.legacy row))=.error noVariant := by
  obtain ⟨e,hrow⟩ := rowOfJson_error h
  obtain ⟨e',hversions⟩ := versionedOfJson_row row
  unfold storedOfJson
  rw [show storedToJson (.legacy row)=rowToJson row from rfl,hrow]
  dsimp only
  rw [hversions]

/-- A version list is read as the list of its versions. -/
theorem versionedOfJson_eq (rows : VersionedRow) :
    versionedOfJson (storedToJson (.versioned rows))=
      (listOfJson versionOfJson (.array (rows.versions.map versionToJson))).map
        VersionedRow.mk := by
  have hfield : fieldOfJson [("versions",.array (rows.versions.map versionToJson))] "versions"=
      .ok (some (.array (rows.versions.map versionToJson))) := rfl
  unfold storedToJson
  simp only [versionedOfJson]
  rw [requiredField_eq _ hfield]
  cases listOfJson versionOfJson (.array (rows.versions.map versionToJson)) <;> rfl

/-- Finite versions are read back. -/
theorem storedOfJson_versioned_ok {rows : VersionedRow} (hrange : ∀ v∈rows.versions, v.InRange)
    (h : FiniteVersions rows) :
    storedOfJson (storedToJson (.versioned rows))=.ok (.versioned rows) := by
  have hlist : listOfJson versionOfJson (.array (rows.versions.map versionToJson))=
      .ok rows.versions := by
    refine listOfJson_ok fun v hmem => ?_
    rw [versionOfJson_eq (hrange v hmem),rowOfJson_ok (h v hmem)]
    rfl
  have hversions := versionedOfJson_eq rows
  rw [hlist] at hversions
  have hrow : rowOfJson (storedToJson (.versioned rows))=.error invalidType := rfl
  unfold storedOfJson
  rw [hrow]
  dsimp only
  rw [hversions]
  rfl

/-- Other versions fit no variant. -/
theorem storedOfJson_versioned_error {rows : VersionedRow} (hrange : ∀ v∈rows.versions, v.InRange)
    (h : ¬FiniteVersions rows) :
    storedOfJson (storedToJson (.versioned rows))=.error noVariant := by
  unfold FiniteVersions at h
  push Not at h
  obtain ⟨v,hmem,hv⟩ := h
  obtain ⟨e,hrow⟩ := rowOfJson_error hv
  have hversion : versionOfJson (versionToJson v)=.error e := by
    rw [versionOfJson_eq (hrange v hmem),hrow]
    rfl
  obtain ⟨e',hlist⟩ := listOfJson_error hmem hversion
  have hversions := versionedOfJson_eq rows
  rw [hlist] at hversions
  have hbare : rowOfJson (storedToJson (.versioned rows))=.error invalidType := rfl
  unfold storedOfJson
  rw [hbare]
  dsimp only
  rw [hversions]
  rfl

/-! ## Keys that share a text -/

/-- Another float that is not finite. -/
def otherInfinity (bits : UInt64) : UInt64 :=
  if bits=0x7FF0000000000000 then 0xFFF0000000000000 else 0x7FF0000000000000

/-- Replace every float that is not finite by another one. -/
def swapInfinity : Value → Value
  | .real bits => if isFiniteReal bits then .real bits else .real (otherInfinity bits)
  | value => value

/-- The other infinity is another float that is not finite. -/
theorem otherInfinity_spec (bits : UInt64) :
    isFiniteReal (otherInfinity bits)=false ∧ otherInfinity bits≠bits := by
  unfold otherInfinity
  split
  · next h => exact ⟨by decide,by rw [h]; decide⟩
  · next h => exact ⟨by decide,fun heq => h heq.symm⟩

/-- Both infinities are written the same. -/
theorem valueToJson_swap (value : Value) : valueToJson (swapInfinity value)=valueToJson value := by
  cases value with
  | real bits =>
    unfold swapInfinity
    dsimp only
    split
    · rfl
    · next h =>
      have hnull : realToJson bits=.null := if_neg h
      have hother : realToJson (otherInfinity bits)=.null :=
        if_neg (by rw [(otherInfinity_spec bits).1]; simp)
      change Json.object [("Real",realToJson (otherInfinity bits))]=
        .object [("Real",realToJson bits)]
      rw [hnull,hother]
  | _ => rfl

/-- But they are not the same value. -/
theorem swapInfinity_ne {value : Value} (h : ¬FiniteValue value) : swapInfinity value≠value := by
  cases value with
  | real bits =>
    have hbits : ¬isFiniteReal bits=true := h
    unfold swapInfinity
    dsimp only
    rw [if_neg hbits]
    exact fun heq => (otherInfinity_spec bits).2 (Value.real.inj heq)
  | _ => exact absurd trivial h

/-! ## What is written can be printed -/

/-- A float is printed at any depth. -/
theorem realToJson_printable (levels : ℕ) (bits : UInt64) :
    (realToJson bits).Printable levels := by
  unfold realToJson
  split
  · next h => cases levels <;> exact h
  · cases levels <;> exact trivial

/-- A value takes two levels. -/
theorem valueToJson_printable (value : Value) : (valueToJson value).Printable 2 := by
  cases value with
  | null => exact trivial
  | boolean value =>
    intro field hfield
    obtain rfl := List.mem_singleton.mp hfield
    exact trivial
  | integer value =>
    intro field hfield
    obtain rfl := List.mem_singleton.mp hfield
    exact .integer value.le_toInt (value.toInt_lt.trans (by decide))
  | real bits =>
    intro field hfield
    obtain rfl := List.mem_singleton.mp hfield
    exact realToJson_printable 1 bits
  | blob bytes =>
    intro field hfield
    obtain rfl := List.mem_singleton.mp hfield
    intro item hitem
    obtain ⟨byte,-,rfl⟩ := List.mem_map.mp hitem
    have hbyte := byte.toNat_lt
    exact .integer (by omega) (by omega)
  | text value =>
    intro field hfield
    obtain rfl := List.mem_singleton.mp hfield
    exact trivial

/-- A row takes three. -/
theorem rowToJson_printable (row : Row) : (rowToJson row).Printable 3 := by
  intro item hitem
  obtain ⟨value,-,rfl⟩ := List.mem_map.mp hitem
  exact valueToJson_printable value

/-- A number that may be missing is printed. -/
theorem optionToJson_printable {value : Option ℕ} (h : ∀ n, value=some n → n < 2^64) :
    (optionToJson value).Printable 3 := by
  cases value with
  | none => exact trivial
  | some n =>
    have hn := h n rfl
    exact .integer (by omega) (by omega)

/-- A version takes four levels. -/
theorem versionToJson_printable {v : RowVersion} (h : v.InRange) :
    (versionToJson v).Printable 4 := by
  intro field hfield
  have hcreated := h.createdByTxn
  simp only [versionFields,List.mem_cons,List.not_mem_nil,or_false] at hfield
  rcases hfield with rfl | rfl | rfl | rfl | rfl
  · exact rowToJson_printable v.row
  · exact .integer (by omega) (by omega)
  · exact optionToJson_printable h.createdCommitTs
  · exact optionToJson_printable h.deletedByTxn
  · exact optionToJson_printable h.deletedCommitTs

/-- Stored versions take six. -/
theorem storedToJson_printable {rows : VersionedRow} (h : ∀ v∈rows.versions, v.InRange) :
    (storedToJson (.versioned rows)).Printable 6 := by
  intro field hfield
  obtain rfl := List.mem_singleton.mp hfield
  intro item hitem
  obtain ⟨v,hmem,rfl⟩ := List.mem_map.mp hitem
  exact versionToJson_printable (h v hmem)

namespace CodecText

section Back

variable {library : JsonLibrary}

/-- What a lawful library has written is read as the tree it was. -/
theorem fromSlice_write (hlibrary : library.Lawful) {α : Type} (read : Json → Except DbError α)
    {tree : Json} {levels : ℕ} (h : tree.Printable levels) (hle : levels ≤ 127) :
    fromSlice library read (library.write tree)=read tree := by
  unfold fromSlice
  rw [hlibrary tree (h.mono hle)]

/-- A bare row is read back if and only if its floats are finite. -/
theorem decodeRow_encodeRow (hlibrary : library.Lawful) (row : Row) :
    decodeRow library (encodeRow library row)=.ok row ↔ FiniteRow row := by
  unfold decodeRow encodeRow storedText V2.encodeRow
  have hrow : (storedToJson (.legacy row)).Printable 3 := rowToJson_printable row
  rw [fromSlice_write hlibrary storedOfJson hrow (by decide)]
  by_cases h : FiniteRow row
  · rw [storedOfJson_legacy_ok h]
    exact iff_of_true rfl h
  · rw [storedOfJson_legacy_error h]
    exact iff_of_false (by simp [Except.map]) h

/-- A version list is read back if and only if the floats of its rows are finite. -/
theorem decodeVersionedRow_text (hlibrary : library.Lawful) {rows : VersionedRow}
    (hrange : ∀ v∈rows.versions, v.InRange) :
    decodeVersionedRow library (storedText library (.versioned rows))=.ok rows ↔
      FiniteVersions rows := by
  unfold decodeVersionedRow storedText
  rw [fromSlice_write hlibrary storedOfJson (storedToJson_printable hrange) (by decide)]
  by_cases h : FiniteVersions rows
  · rw [storedOfJson_versioned_ok hrange h]
    exact iff_of_true rfl h
  · rw [storedOfJson_versioned_error hrange h]
    exact iff_of_false (by simp [Except.map]) h

/-- A key is read back if and only if its floats are finite. -/
theorem decodeIndexKey_encodeIndexKey (hlibrary : library.Lawful) (key : List Value) :
    decodeIndexKey library (encodeIndexKey library key)=.ok key ↔ FiniteRow key := by
  unfold decodeIndexKey encodeIndexKey
  rw [fromSlice_write hlibrary rowOfJson (rowToJson_printable key) (by decide)]
  by_cases h : FiniteRow key
  · exact iff_of_true (rowOfJson_ok h) h
  · obtain ⟨e,herror⟩ := rowOfJson_error h
    rw [herror]
    exact iff_of_false (by simp) h

/-- A key is the only one with its text if and only if its floats are finite. -/
theorem encodeIndexKey_unique (hlibrary : library.Lawful) (key : List Value) :
    (∀ other, encodeIndexKey library other=encodeIndexKey library key → other=key) ↔
      FiniteRow key := by
  constructor
  · intro hunique
    by_contra hkey
    have hsame : encodeIndexKey library (key.map swapInfinity)=encodeIndexKey library key := by
      unfold encodeIndexKey rowToJson
      rw [List.map_map]
      exact congrArg _ (congrArg Json.array
        (List.map_congr_left fun value _ => valueToJson_swap value))
    have hmap := hunique _ hsame
    refine hkey fun value hmem => ?_
    by_contra hvalue
    obtain ⟨i,hi,rfl⟩ := List.getElem_of_mem hmem
    have hget := congrArg (fun values => values[i]?) hmap
    simp only [List.getElem?_map,List.getElem?_eq_getElem hi,Option.map_some,Option.some.injEq]
      at hget
    exact swapInfinity_ne hvalue hget
  · intro hkey other hsame
    have hread := rowOfJson_ok hkey
    have hwritten (values : List Value) :
        library.read (library.write (rowToJson values))=some (rowToJson values) :=
      hlibrary _ (Json.Printable.mono (rowToJson_printable values) (by decide))
    have htree : rowToJson other=rowToJson key :=
      Option.some.inj ((hwritten other).symm.trans
        ((congrArg library.read hsame).trans (hwritten key)))
    rw [←htree] at hread
    by_cases hother : FiniteRow other
    · exact Except.ok.inj ((rowOfJson_ok hother).symm.trans hread)
    · obtain ⟨e,herror⟩ := rowOfJson_error hother
      rw [herror] at hread
      cases hread

/-- Rows, row versions and index keys survive their texts, and no two keys share one, if
and only if no float is infinite or not a number. -/
theorem codec_keeps_finite (hlibrary : library.Lawful) (row key : Row) (rows : VersionedRow)
    (hrange : ∀ v∈rows.versions, v.InRange) :
    (decodeRow library (encodeRow library row)=.ok row ↔ FiniteRow row) ∧
    (decodeVersionedRow library (storedText library (.versioned rows))=.ok rows ↔
      FiniteVersions rows) ∧
    (decodeIndexKey library (encodeIndexKey library key)=.ok key ↔ FiniteRow key) ∧
    ((∀ other, encodeIndexKey library other=encodeIndexKey library key → other=key) ↔
      FiniteRow key) :=
  ⟨decodeRow_encodeRow hlibrary row,decodeVersionedRow_text hlibrary hrange,
    decodeIndexKey_encodeIndexKey hlibrary key,encodeIndexKey_unique hlibrary key⟩

end Back

/-- A new version of a row is read back. -/
theorem codec_keeps_finite_oneVersion :
    decodeVersionedRow tokenTexts
        (encodeUncommittedRowVersion tokenTexts [.integer 7,.text "a"] 3)=
      .ok ⟨[.fresh [.integer 7,.text "a"] 3]⟩ := by
  have hrange : ∀ v∈[RowVersion.fresh [.integer 7,.text "a"] 3], v.InRange := by
    intro v hmem
    obtain rfl := List.mem_singleton.mp hmem
    exact ⟨by decide,by simp [RowVersion.fresh],by simp [RowVersion.fresh],
      by simp [RowVersion.fresh]⟩
  have hfinite : FiniteVersions ⟨[.fresh [.integer 7,.text "a"] 3]⟩ := by
    intro v hmem value hvalue
    obtain rfl := List.mem_singleton.mp hmem
    simp only [RowVersion.fresh,List.mem_cons,List.not_mem_nil,or_false] at hvalue
    rcases hvalue with rfl | rfl <;> exact trivial
  exact (codec_keeps_finite tokenTexts_lawful [] [] ⟨[.fresh [.integer 7,.text "a"] 3]⟩
    hrange).2.1.mpr hfinite

/-- A row with an infinite float cannot be read back, and the two infinities have one
index key between them. -/
theorem infinity_is_lost :
    decodeRow tokenTexts (encodeRow tokenTexts [.real 0x7FF0000000000000])=.error noVariant ∧
    encodeIndexKey tokenTexts [.real 0x7FF0000000000000]=
      encodeIndexKey tokenTexts [.real 0xFFF0000000000000] ∧
    decodeIndexKey tokenTexts (encodeIndexKey tokenTexts [.real 0x7FF0000000000000])=
      .error invalidType := by
  exact ⟨rfl,rfl,rfl⟩

end CodecText

end RustSql.V2
