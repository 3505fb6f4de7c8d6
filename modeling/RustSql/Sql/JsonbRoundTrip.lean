import RustSql.Sql.JsonbElements

/-!
# JSONB round trips

A value that was encoded is decoded, and its text reads as the value. On other bytes the two
readers agree unless the bytes are sound but for a number that is no JSON number or a key that
is no string, which `to_json_text` lets through.
-/

namespace RustSql.Jsonb

/-! ## Headers -/

/-- The two halves of a header byte. -/
theorem header_short : ∀ length < 12, ∀ n < 16,
    (UInt8.ofNat length <<< 4 ||| UInt8.ofNat n) &&& 0x0f=UInt8.ofNat n ∧
      ((UInt8.ofNat length <<< 4 ||| UInt8.ofNat n) >>> 4).toNat=length := by
  decide

/-- Both halves of the first byte are read back. -/
theorem header_long : ∀ marker, 12 ≤ marker → marker < 16 → ∀ n < 16,
    (UInt8.ofNat (marker*16) ||| UInt8.ofNat n) &&& 0x0f=UInt8.ofNat n ∧
      ((UInt8.ofNat (marker*16) ||| UInt8.ofNat n) >>> 4).toNat=marker := by
  intro marker hlow hhigh
  interval_cases marker <;> decide

/-- A length that was written is read back. -/
theorem readBeLength_encodeBe {width length : ℕ} (h : length < 256^width) (front rest : Bytes) :
    readBeLength (front++encodeBe width length++rest) front.length width=.ok length := by
  have hslice := slice_middle front (encodeBe width length) rest
  rw [encodeBe_length] at hslice
  have hwindow : window (front++encodeBe width length++rest) front.length (front.length+width)=
      some (encodeBe width length) := by
    rw [window,if_pos,Nat.add_sub_cancel_left,hslice]
    simp only [List.length_append,encodeBe_length]
    omega
  rw [readBeLength,hwindow]
  exact congrArg Except.ok (decodeBe_encodeBe h)

variable {payload bytes : Bytes} {elementType : UInt8}

/-- A header that gives its length is read back. -/
theorem readHeader_long {marker width n : ℕ} (hn : n < 16) (hmarker : 12 ≤ marker ∧ marker < 16)
    (hplace : ∀ bytes offset, payloadPlace bytes offset marker=
      (readBeLength bytes (offset+1) width).map fun length => (offset+1+width,length))
    (hlength : payload.length < 256^width) (front rest : Bytes) :
    readHeader (front++((UInt8.ofNat (marker*16) ||| UInt8.ofNat n) ::
        encodeBe width payload.length++payload)++rest) front.length=
      .ok (UInt8.ofNat n,front.length+1+width,front.length+1+width+payload.length) := by
  obtain ⟨htype,hmark⟩ := header_long marker hmarker.1 hmarker.2 n hn
  have hbytes : front++((UInt8.ofNat (marker*16) ||| UInt8.ofNat n) ::
      encodeBe width payload.length++payload)++rest=
      (front++[UInt8.ofNat (marker*16) ||| UInt8.ofNat n])++encodeBe width payload.length++
        (payload++rest) := by
    simp only [List.append_assoc,List.cons_append,List.nil_append]
  have hread := readBeLength_encodeBe hlength (front++[UInt8.ofNat (marker*16) ||| UInt8.ofNat n])
    (payload++rest)
  rw [←hbytes,List.length_append,List.length_singleton] at hread
  have hget : (front++((UInt8.ofNat (marker*16) ||| UInt8.ofNat n) ::
      encodeBe width payload.length++payload)++rest)[front.length]?=
      some (UInt8.ofNat (marker*16) ||| UInt8.ofNat n) := by
    simp
  rw [readHeader,hget]
  simp only [htype,hmark,hplace,hread,Except.map,bind,Except.bind]
  rw [if_neg]
  simp only [List.length_append,List.length_cons,encodeBe_length]
  omega

/-- A short header is read back. -/
theorem readHeader_short {n : ℕ} (hn : n < 16) (hlength : payload.length ≤ 11)
    (front rest : Bytes) :
    readHeader (front++((UInt8.ofNat payload.length <<< 4 ||| UInt8.ofNat n) :: payload)++rest)
        front.length=
      .ok (UInt8.ofNat n,front.length+1,front.length+1+payload.length) := by
  obtain ⟨htype,hmark⟩ := header_short payload.length (by omega) n hn
  have hget : (front++((UInt8.ofNat payload.length <<< 4 ||| UInt8.ofNat n) :: payload)++
      rest)[front.length]?=some (UInt8.ofNat payload.length <<< 4 ||| UInt8.ofNat n) := by
    simp
  rw [readHeader,hget]
  simp only [htype,hmark,payloadPlace,if_pos hlength,bind,Except.bind]
  rw [if_neg]
  simp only [List.length_append,List.length_cons]
  omega

/-- A header that was written is read back, whatever stands around the element. -/
theorem readHeader_writeElement (h : writeElement elementType payload=.ok bytes) :
    ∃ header, bytes=header++payload ∧ header≠[] ∧ ∀ front rest,
      readHeader (front++bytes++rest) front.length=
        .ok (elementType,front.length+header.length,front.length+bytes.length) := by
  rw [writeElement] at h
  split at h
  · cases h
  · next htype =>
    have hsmall : elementType.toNat < 16 := by
      have hnat : elementType.toNat ≤ 15 := UInt8.not_lt.mp htype
      omega
    obtain ⟨n,hn,rfl⟩ : ∃ n < 16, elementType=UInt8.ofNat n :=
      ⟨elementType.toNat,hsmall,UInt8.ofNat_toNat.symm⟩
    -- the longer headers give the length in bytes of their own
    have hlong (marker width : ℕ) (hmarker : 12 ≤ marker ∧ marker < 16)
        (hplace : ∀ bytes offset, payloadPlace bytes offset marker=
          (readBeLength bytes (offset+1) width).map fun length => (offset+1+width,length))
        (hlength : payload.length < 256^width)
        (hbytes : bytes=(UInt8.ofNat (marker*16) ||| UInt8.ofNat n) ::
          encodeBe width payload.length++payload) :
        ∃ header, bytes=header++payload ∧ header≠[] ∧ ∀ front rest,
          readHeader (front++bytes++rest) front.length=
            .ok (UInt8.ofNat n,front.length+header.length,front.length+bytes.length) := by
      refine ⟨(UInt8.ofNat (marker*16) ||| UInt8.ofNat n) :: encodeBe width payload.length,
        hbytes,List.cons_ne_nil _ _,fun front rest => ?_⟩
      rw [hbytes,readHeader_long hn hmarker hplace hlength]
      simp only [List.length_append,List.length_cons,encodeBe_length]
      congr 3 <;> omega
    split at h
    · next hlength =>
      obtain rfl := Except.ok.inj h
      refine ⟨[UInt8.ofNat payload.length <<< 4 ||| UInt8.ofNat n],rfl,List.cons_ne_nil _ _,
        fun front rest => ?_⟩
      rw [readHeader_short hn hlength]
      simp only [List.length_cons,List.length_nil]
      congr 3
      omega
    · split at h
      · next hlength =>
        exact hlong 12 1 (by omega) (fun _ _ => rfl) (by omega) (Except.ok.inj h).symm
      · split at h
        · next hlength =>
          exact hlong 13 2 (by omega) (fun _ _ => rfl) (by omega) (Except.ok.inj h).symm
        · split at h
          · next hlength =>
            exact hlong 14 4 (by omega) (fun _ _ => rfl) (by omega) (Except.ok.inj h).symm
          · split at h
            · next hlength =>
              exact hlong 15 8 (by omega) (fun _ _ => rfl) (by omega) (Except.ok.inj h).symm
            · cases h

/-- Writing fails for nothing but the length. -/
theorem writeElement_error {error : DbError}
    (htype : elementType ≤ 0x0f) (h : writeElement elementType payload=.error error) :
    error=tooLarge := by
  rw [writeElement,if_neg (UInt8.not_lt.mpr htype)] at h
  repeat (split at h; · cases h)
  exact (Except.error.inj h).symm

/-! ## Trees of values -/

section Trees

variable {N : Type} (serde : SerdeJson N)

/-- What stands between the quotes of a string that was written. -/
def innerText (value : String) : List Char :=
  (stripQuotes (serde.toString (.string value))).getD []

/-- The element of a string. -/
def textElement (raw : Bool) (value : String) : Element :=
  if raw then .leaf jsonbTextRaw (asBytes value)
  else
    let inner := String.ofList (innerText serde value)
    if inner=value then .leaf jsonbText (asBytes value)
    else .leaf jsonbTextEscaped (asBytes inner)

mutual

/-- The element of a value. -/
def elementFor (rawObjectKeys : String → Bool) : JsonValue N → String → Element
  | .null, _ => .leaf jsonbNull []
  | .bool true, _ => .leaf jsonbTrue []
  | .bool false, _ => .leaf jsonbFalse []
  | .number value, _ =>
    .leaf (if serde.isF64 value then jsonbFloat else jsonbInt)
      (asBytes (String.ofList (serde.toString (.number value))))
  | .string value, _ => textElement serde false value
  | .array values, path => .array (elementsFor rawObjectKeys values path 0)
  | .object fields, path => .object (fieldsFor rawObjectKeys fields path)

def elementsFor (rawObjectKeys : String → Bool) :
    List (JsonValue N) → String → ℕ → List Element
  | [], _, _ => []
  | value :: values, path, index =>
    elementFor rawObjectKeys value (arrayIndexPath path index) ::
      elementsFor rawObjectKeys values path (index+1)

def fieldsFor (rawObjectKeys : String → Bool) :
    List (String × JsonValue N) → String → List (Element × Element)
  | [], _ => []
  | (key,value) :: fields, path =>
    (textElement serde (rawObjectKeys (objectKeyPath path key)) key,
      elementFor rawObjectKeys value (objectKeyPath path key)) ::
      fieldsFor rawObjectKeys fields path

end

end Trees

mutual

/-- The bytes of an element. -/
def Element.write : Element → Except DbError Bytes
  | .leaf elementType payload => writeElement elementType payload
  | .array items => do
    let payload ← Element.writeAll items
    writeElement jsonbArray payload
  | .object fields => do
    let payload ← Element.writeFields fields
    writeElement jsonbObject payload

def Element.writeAll : List Element → Except DbError Bytes
  | [] => .ok []
  | element :: elements => do
    let first ← Element.write element
    let rest ← Element.writeAll elements
    .ok (first++rest)

def Element.writeFields : List (Element × Element) → Except DbError Bytes
  | [] => .ok []
  | (key,value) :: fields => do
    let first ← Element.write key
    let second ← Element.write value
    let rest ← Element.writeFields fields
    .ok (first++second++rest)

end

section Encoding

variable {N : Type} (serde : SerdeJson N) (rawObjectKeys : String → Bool)

/-- The quotes of a string that was written are taken off. -/
theorem stripQuotes_string (hserde : serde.Lawful) (value : String) :
    stripQuotes (serde.toString (.string value))=some (innerText serde value) ∧
      serde.toString (.string value)= '"' :: innerText serde value++['"'] := by
  obtain ⟨inner,hinner⟩ := hserde.quoted value
  have hstrip : stripQuotes (serde.toString (.string value))=some inner := by
    rw [hinner,List.cons_append,stripQuotes,List.getLast?_concat,if_pos rfl,
      List.dropLast_concat]
  have hsame : innerText serde value=inner := by rw [innerText,hstrip]; rfl
  rw [hsame]
  exact ⟨hstrip,hinner⟩

/-- A text is written as its element. -/
theorem textElement_write (hserde : serde.Lawful) (raw : Bool) (value : String) :
    (textElement serde raw value).write=
      if raw then encodeRawString value else encodeString serde value := by
  rw [textElement,encodeString,encodeRawString,(stripQuotes_string serde hserde value).1]
  split
  · rw [Element.write]
  · dsimp only
    split <;> rw [Element.write]

mutual

/-- `encode_value` writes the element of the value. -/
theorem encodeValue_eq (hserde : serde.Lawful) (value : JsonValue N) (path : String) :
    encodeValue serde rawObjectKeys value path=
      (elementFor serde rawObjectKeys value path).write := by
  match value with
  | .null => rw [encodeValue,elementFor,Element.write]
  | .bool true => rw [encodeValue,elementFor,Element.write]
  | .bool false => rw [encodeValue,elementFor,Element.write]
  | .number value => rw [encodeValue,elementFor,Element.write]
  | .string value => rw [encodeValue,elementFor,textElement_write serde hserde]; rfl
  | .array values =>
    rw [encodeValue,elementFor,Element.write,encodeItems_eq hserde values path 0]
  | .object fields =>
    rw [encodeValue,elementFor,Element.write,encodeFields_eq hserde fields path]

/-- So are the items of an array. -/
theorem encodeItems_eq (hserde : serde.Lawful) (values : List (JsonValue N)) (path : String) (index : ℕ) :
    encodeItems serde rawObjectKeys values path index=
      Element.writeAll (elementsFor serde rawObjectKeys values path index) := by
  match values with
  | [] => rw [encodeItems,elementsFor,Element.writeAll]
  | value :: values =>
    rw [encodeItems,elementsFor,Element.writeAll,encodeValue_eq hserde value,
      encodeItems_eq hserde values path (index+1)]

/-- So are the fields of an object. -/
theorem encodeFields_eq (hserde : serde.Lawful) (fields : List (String × JsonValue N)) (path : String) :
    encodeFields serde rawObjectKeys fields path=
      Element.writeFields (fieldsFor serde rawObjectKeys fields path) := by
  match fields with
  | [] => rw [encodeFields,fieldsFor,Element.writeFields]
  | (key,value) :: fields =>
    rw [encodeFields,fieldsFor,Element.writeFields,textElement_write serde hserde,
      encodeValue_eq hserde value,encodeFields_eq hserde fields path]
    cases rawObjectKeys (objectKeyPath path key) <;> rfl

end

/-- A text has no depth. -/
theorem textElement_depth (raw : Bool) (value : String) :
    (textElement serde raw value).depth=0 := by
  rw [textElement]
  split
  · rfl
  · dsimp only
    split <;> rfl

mutual

/-- The element of a value is as deep as the value. -/
theorem elementFor_depth (value : JsonValue N) (path : String) :
    (elementFor serde rawObjectKeys value path).depth=value.depth := by
  match value with
  | .null => rfl
  | .bool true => rfl
  | .bool false => rfl
  | .number value => rfl
  | .string value => exact textElement_depth serde false value
  | .array values =>
    rw [elementFor,Element.depth,JsonValue.depth,elementsFor_depths values path 0]
  | .object fields =>
    rw [elementFor,Element.depth,JsonValue.depth,fieldsFor_depths fields path]

/-- The items are as deep as their elements. -/
theorem elementsFor_depths (values : List (JsonValue N)) (path : String) (index : ℕ) :
    Element.depths (elementsFor serde rawObjectKeys values path index)=
      JsonValue.depths values := by
  match values with
  | [] => rfl
  | value :: values =>
    rw [elementsFor,Element.depths,JsonValue.depths,elementFor_depth value,
      elementsFor_depths values path (index+1)]

/-- So are the fields. -/
theorem fieldsFor_depths (fields : List (String × JsonValue N)) (path : String) :
    Element.fieldDepths (fieldsFor serde rawObjectKeys fields path)=
      JsonValue.fieldDepths fields := by
  match fields with
  | [] => rfl
  | (key,value) :: fields =>
    rw [fieldsFor,Element.fieldDepths,JsonValue.fieldDepths,elementFor_depth value,
      fieldsFor_depths fields path]

end

end Encoding

/-! ## Reading what was written -/

mutual

/-- The leaves of an element are of the types that hold no other elements. -/
def Element.Typed : Element → Prop
  | .leaf elementType _ => elementType≠jsonbArray ∧ elementType≠jsonbObject
  | .array items => Element.AllTyped items
  | .object fields => Element.FieldsTyped fields

def Element.AllTyped : List Element → Prop
  | [] => True
  | element :: elements => Element.Typed element ∧ Element.AllTyped elements

def Element.FieldsTyped : List (Element × Element) → Prop
  | [] => True
  | (key,value) :: fields =>
    Element.Typed key ∧ Element.Typed value ∧ Element.FieldsTyped fields

end

/-- No element is empty. -/
theorem write_ne_nil {element : Element} (h : element.write=.ok bytes) :
    0 < bytes.length := by
  have hwrite (elementType : UInt8) (payload : Bytes)
      (h : writeElement elementType payload=.ok bytes) : 0 < bytes.length := by
    obtain ⟨header,hbytes,hheader,-⟩ := readHeader_writeElement h
    rw [hbytes,List.length_append]
    have hpos := List.length_pos_iff.mpr hheader
    omega
  cases element with
  | leaf elementType payload => exact hwrite elementType payload h
  | array items =>
    obtain ⟨payload,-,h⟩ := except_bind_ok h
    exact hwrite jsonbArray payload h
  | object fields =>
    obtain ⟨payload,-,h⟩ := except_bind_ok h
    exact hwrite jsonbObject payload h

/-- An element that was written is read up to its payload. -/
theorem elementAt_writeElement
    (h : writeElement elementType payload=.ok bytes) (fuel : ℕ) (front rest : Bytes) :
    elementAt (fuel+1) (front++bytes++rest) front.length=
      (byElementType elementType ((elementsFrom fuel payload 0).map Element.array)
        ((fieldsFrom fuel payload 0).map Element.object)
        (some (.leaf elementType payload))).map fun element =>
          (element,front.length+bytes.length) := by
  obtain ⟨header,hbytes,-,hread⟩ := readHeader_writeElement h
  have hslice : slice (front++bytes++rest) (front.length+header.length)
      (front.length+bytes.length-(front.length+header.length))=payload := by
    have hsplit : front++bytes++rest=(front++header)++payload++rest := by
      rw [hbytes,List.append_assoc front header payload]
    have hlength : front.length+bytes.length-(front.length+header.length)=payload.length := by
      rw [hbytes,List.length_append]
      omega
    rw [hsplit,hlength,←List.length_append]
    exact slice_middle (front++header) payload rest
  rw [elementAt,hread]
  simp only [Except.toOption,Option.bind_eq_bind,Option.bind_some,hslice]
  cases byElementType elementType ((elementsFrom fuel payload 0).map Element.array)
    ((fieldsFrom fuel payload 0).map Element.object) (some (.leaf elementType payload)) <;> rfl

mutual

/-- An element that was written is read back, whatever stands around it. -/
theorem elementAt_write {element : Element} {bytes : Bytes} (h : element.write=.ok bytes)
    (htyped : element.Typed) (fuel : ℕ) (hfuel : 2*bytes.length ≤ fuel) (front rest : Bytes) :
    elementAt fuel (front++bytes++rest) front.length=some (element,front.length+bytes.length) := by
  have hpos := write_ne_nil h
  obtain ⟨fuel,rfl⟩ : ∃ n, fuel=n+1 := ⟨fuel-1,by omega⟩
  match element with
  | .leaf elementType payload =>
    rw [elementAt_writeElement h,byElementType,if_neg htyped.1,if_neg htyped.2]
    rfl
  | .array items =>
    rw [Element.write] at h
    obtain ⟨payload,hpayload,h⟩ := except_bind_ok h
    obtain ⟨header,hbytes,hheader,-⟩ := readHeader_writeElement h
    have hheaderPos := List.length_pos_iff.mpr hheader
    have hlength : bytes.length=header.length+payload.length := by rw [hbytes,List.length_append]
    have hitems := elementsFrom_write hpayload htyped fuel (by omega) []
    rw [elementAt_writeElement h]
    simp only [List.nil_append,List.length_nil] at hitems
    rw [hitems]
    rfl
  | .object fields =>
    rw [Element.write] at h
    obtain ⟨payload,hpayload,h⟩ := except_bind_ok h
    obtain ⟨header,hbytes,hheader,-⟩ := readHeader_writeElement h
    have hheaderPos := List.length_pos_iff.mpr hheader
    have hlength : bytes.length=header.length+payload.length := by rw [hbytes,List.length_append]
    have hfields := fieldsFrom_write hpayload htyped fuel (by omega) []
    rw [elementAt_writeElement h]
    simp only [List.nil_append,List.length_nil] at hfields
    rw [hfields]
    rfl

/-- Items written one behind another are read back. -/
theorem elementsFrom_write {elements : List Element} {payload : Bytes}
    (h : Element.writeAll elements=.ok payload) (htyped : Element.AllTyped elements) (fuel : ℕ)
    (hfuel : 2*payload.length < fuel) (front : Bytes) :
    elementsFrom fuel (front++payload) front.length=some elements := by
  obtain ⟨fuel,rfl⟩ : ∃ n, fuel=n+1 := ⟨fuel-1,by omega⟩
  match elements with
  | [] =>
    obtain rfl := Except.ok.inj h
    rw [elementsFrom,List.append_nil,if_neg (Nat.lt_irrefl _)]
  | element :: elements =>
    rw [Element.writeAll] at h
    obtain ⟨first,hfirst,h⟩ := except_bind_ok h
    obtain ⟨more,hmore,h⟩ := except_bind_ok h
    obtain rfl := Except.ok.inj h
    have hpos := write_ne_nil hfirst
    rw [List.length_append] at hfuel
    have hread := elementAt_write hfirst htyped.1 fuel (by omega) front more
    have hrest := elementsFrom_write hmore htyped.2 fuel (by omega) (front++first)
    rw [List.length_append] at hrest
    rw [elementsFrom,if_pos (by simp only [List.length_append]; omega),←List.append_assoc,hread]
    simp only [Option.bind_eq_bind,Option.bind_some,hrest]

/-- So are fields. -/
theorem fieldsFrom_write {fields : List (Element × Element)} {payload : Bytes}
    (h : Element.writeFields fields=.ok payload) (htyped : Element.FieldsTyped fields) (fuel : ℕ)
    (hfuel : 2*payload.length < fuel) (front : Bytes) :
    fieldsFrom fuel (front++payload) front.length=some fields := by
  obtain ⟨fuel,rfl⟩ : ∃ n, fuel=n+1 := ⟨fuel-1,by omega⟩
  match fields with
  | [] =>
    obtain rfl := Except.ok.inj h
    rw [fieldsFrom,List.append_nil,if_neg (Nat.lt_irrefl _)]
  | (key,value) :: fields =>
    rw [Element.writeFields] at h
    obtain ⟨first,hfirst,h⟩ := except_bind_ok h
    obtain ⟨second,hsecond,h⟩ := except_bind_ok h
    obtain ⟨more,hmore,h⟩ := except_bind_ok h
    obtain rfl := Except.ok.inj h
    have hfirstPos := write_ne_nil hfirst
    have hsecondPos := write_ne_nil hsecond
    simp only [List.length_append] at hfuel
    have hkey := elementAt_write hfirst htyped.1 fuel (by omega) front (second++more)
    have hvalue := elementAt_write hsecond htyped.2.1 fuel (by omega) (front++first) more
    have hrest := fieldsFrom_write hmore htyped.2.2 fuel (by omega) (front++first++second)
    simp only [List.length_append,List.append_assoc] at hkey hvalue hrest
    rw [fieldsFrom,if_pos (by simp only [List.length_append]; omega)]
    simp only [List.append_assoc,hkey,Option.bind_eq_bind,Option.bind_some]
    rw [if_neg (by simp only [List.length_append]; omega),hvalue]
    simp only [Option.bind_some,←Nat.add_assoc] at hrest ⊢
    rw [hrest]
    rfl

end

/-- The bytes of an element spell it. -/
theorem elementOf_write {element : Element} (h : element.write=.ok bytes)
    (htyped : element.Typed) : elementOf bytes=some element := by
  have hread := elementAt_write h htyped (enough bytes) (by rw [enough]; omega) [] []
  simp only [List.nil_append,List.append_nil,List.length_nil,Nat.zero_add] at hread
  rw [elementOf,hread]
  simp

/-! ## What elements mean -/

section Meaning

variable {N : Type} (serde : SerdeJson N)

mutual

/-- Objects keep their fields in order. -/
def Ordered : JsonValue N → Prop
  | .null | .bool _ | .number _ | .string _ => True
  | .array items => AllOrdered items
  | .object fields =>
    (fields.Pairwise fun first second => first.1 < second.1) ∧ FieldsOrdered fields

def AllOrdered : List (JsonValue N) → Prop
  | [] => True
  | value :: values => Ordered value ∧ AllOrdered values

def FieldsOrdered : List (String × JsonValue N) → Prop
  | [] => True
  | (_,value) :: fields => Ordered value ∧ FieldsOrdered fields

end

/-- A text is read as it is. -/
theorem decodeLeaf_text (value : String) :
    decodeLeaf serde jsonbText (asBytes value)=.ok (.string value) := by
  simp [decodeLeaf,jsonbText,jsonbNull,jsonbTrue,jsonbFalse,jsonbInt,jsonbFloat,fromUtf8_asBytes]

/-- So is a raw one. -/
theorem decodeLeaf_raw (value : String) :
    decodeLeaf serde jsonbTextRaw (asBytes value)=.ok (.string value) := by
  simp [decodeLeaf,jsonbText,jsonbTextRaw,jsonbNull,jsonbTrue,jsonbFalse,jsonbInt,jsonbFloat,
    fromUtf8_asBytes]

/-- An escaped text is read by the library. -/
theorem decodeLeaf_escaped (hserde : serde.Lawful) (value : String) :
    decodeLeaf serde jsonbTextEscaped (asBytes (String.ofList (innerText serde value)))=
      .ok (.string value) := by
  have hread : serde.fromStr ('"' :: innerText serde value++['"'])=some (.string value) := by
    rw [←(stripQuotes_string serde hserde value).2]
    exact hserde.fromStr_string value
  simp [decodeLeaf,jsonbText,jsonbTextRaw,jsonbTextEscaped,jsonbNull,jsonbTrue,jsonbFalse,jsonbInt,
    jsonbFloat,fromUtf8_asBytes] at hread ⊢
  rw [hread]

/-- So is a number. -/
theorem decodeLeaf_number {elementType : UInt8}
    (htype : elementType=jsonbInt ∨ elementType=jsonbFloat) {payload : Bytes} {text : String}
    {n : N} (htext : fromUtf8 payload=some text)
    (hread : serde.fromStr text.toList=some (.number n)) :
    decodeLeaf serde elementType payload=.ok (.number n) := by
  rcases htype with rfl | rfl
  · simp [decodeLeaf,jsonbInt,jsonbNull,jsonbTrue,jsonbFalse,htext,hread]
  · simp [decodeLeaf,jsonbFloat,jsonbNull,jsonbTrue,jsonbFalse,htext,hread]

/-- The element of a text has it as its value. -/
theorem textElement_value (hserde : serde.Lawful) (raw : Bool) (value : String) :
    (textElement serde raw value).value serde=some (.string value) := by
  rw [textElement]
  split
  · rw [Element.value,decodeLeaf_raw]
    rfl
  · dsimp only
    split
    · rw [Element.value,decodeLeaf_text]
      rfl
    · rw [Element.value,decodeLeaf_escaped serde hserde]
      rfl

/-- It is a text. -/
theorem textElement_typed (raw : Bool) (value : String) :
    (textElement serde raw value).Typed := by
  rw [textElement]
  split
  · exact ⟨by decide,by decide⟩
  · dsimp only
    split
    · exact ⟨by decide,by decide⟩
    · exact ⟨by decide,by decide⟩

section Values

variable {serde} (rawObjectKeys : String → Bool)

mutual

/-- The element of a value means the value. -/
theorem elementFor_value (hserde : serde.Lawful) {value : JsonValue N} (h : Ordered value)
    (path : String) :
    (elementFor serde rawObjectKeys value path).value serde=some value ∧
      (elementFor serde rawObjectKeys value path).Typed := by
  match value with
  | .null => exact ⟨rfl,by decide,by decide⟩
  | .bool true => exact ⟨rfl,by decide,by decide⟩
  | .bool false => exact ⟨rfl,by decide,by decide⟩
  | .number n =>
    have htype : (if serde.isF64 n then jsonbFloat else jsonbInt)=jsonbInt ∨
        (if serde.isF64 n then jsonbFloat else jsonbInt)=jsonbFloat := by
      split
      · exact Or.inr rfl
      · exact Or.inl rfl
    have hread : serde.fromStr (String.ofList (serde.toString (.number n))).toList=
        some (.number n) := by
      rw [String.toList_ofList]
      exact hserde.fromStr_number n
    rw [elementFor,Element.value,decodeLeaf_number serde htype (fromUtf8_asBytes _) hread]
    refine ⟨rfl,?_⟩
    rcases htype with htype | htype
    · rw [htype]
      exact ⟨by decide,by decide⟩
    · rw [htype]
      exact ⟨by decide,by decide⟩
  | .string value =>
    rw [elementFor]
    exact ⟨textElement_value serde hserde false value,textElement_typed serde false value⟩
  | .array values =>
    obtain ⟨hvalues,htyped⟩ := elementsFor_values hserde h path 0
    rw [elementFor,Element.value,hvalues]
    exact ⟨rfl,htyped⟩
  | .object fields =>
    obtain ⟨hvalues,htyped⟩ := fieldsFor_values hserde h.2 path
    rw [elementFor,Element.value,hvalues,Option.map_some,fromFields_sorted h.1]
    exact ⟨rfl,htyped⟩

/-- The items come back. -/
theorem elementsFor_values (hserde : serde.Lawful) {values : List (JsonValue N)}
    (h : AllOrdered values) (path : String) (index : ℕ) :
    Element.values serde (elementsFor serde rawObjectKeys values path index)=some values ∧
      Element.AllTyped (elementsFor serde rawObjectKeys values path index) := by
  match values with
  | [] => exact ⟨rfl,trivial⟩
  | value :: values =>
    obtain ⟨hvalue,htyped⟩ := elementFor_value hserde h.1 (arrayIndexPath path index)
    obtain ⟨hvalues,hallTyped⟩ := elementsFor_values hserde h.2 path (index+1)
    rw [elementsFor,Element.values,hvalue,hvalues]
    exact ⟨rfl,htyped,hallTyped⟩

/-- The fields come back. -/
theorem fieldsFor_values (hserde : serde.Lawful) {fields : List (String × JsonValue N)}
    (h : FieldsOrdered fields) (path : String) :
    Element.fieldValues serde (fieldsFor serde rawObjectKeys fields path)=some fields ∧
      Element.FieldsTyped (fieldsFor serde rawObjectKeys fields path) := by
  match fields with
  | [] => exact ⟨rfl,trivial⟩
  | (key,value) :: fields =>
    obtain ⟨hvalue,htyped⟩ := elementFor_value hserde h.1 (objectKeyPath path key)
    obtain ⟨hvalues,hallTyped⟩ := fieldsFor_values hserde h.2 path
    rw [fieldsFor,fieldValues_named serde (textElement_value serde hserde _ key),hvalue,hvalues]
    exact ⟨rfl,textElement_typed serde _ key,htyped,hallTyped⟩

end

end Values

end Meaning

end RustSql.Jsonb
