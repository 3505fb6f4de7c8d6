import RustSql.Base.Fallible
import RustSql.Sqlite3.SchemaRows
import RustSql.Sqlite3.VarintCodec

/-!
# Records read back

A record holds its values in the shortest of eleven shapes. Two decoders read booleans as the
integers zero and one, the third reads these integers as booleans, and the decoder of the catalog
knows no reals and no blobs.
-/

namespace RustSql.Sqlite3

/-! ## Integers of few bytes -/

/-- Zeros are zero. -/
theorem decodeBe_zeros (count : ℕ) : decodeBe (List.replicate count 0)=0 := by
  rw [decodeBe,List.reverse_replicate]
  induction count with
  | zero => rfl
  | succ count ih =>
    rw [List.replicate_succ,decodeLe,ih]
    rfl

/-- Ones are the largest number. -/
theorem decodeBe_ones (count : ℕ) : decodeBe (List.replicate count 0xff)+1=256^count := by
  rw [decodeBe,List.reverse_replicate]
  induction count with
  | zero => rfl
  | succ count ih =>
    have hbyte : (0xff : UInt8).toNat=255 := rfl
    rw [List.replicate_succ,decodeLe,hbyte,pow_succ]
    omega

/-- The first byte of an integer's low bytes. -/
theorem encodeBe_head (width n : ℕ) :
    (encodeBe (width+1) n).headD 0=UInt8.ofNat (n/256^width%256) := by
  rw [Nat.add_comm,encodeBe_add]
  rfl

/-- An integer as the word it is stored as. -/
theorem stored_word (value : Int64) : value.toUInt64.toNat < 2^64 ∧
    (0 ≤ value.toInt → (value.toUInt64.toNat : ℤ)=value.toInt) ∧
    (value.toInt < 0 → (value.toUInt64.toNat : ℤ)=2^64+value.toInt) := by
  have hword : value.toUInt64.toNat=value.toBitVec.toNat := rfl
  have hint : value.toInt=value.toBitVec.toInt := rfl
  have hcond := BitVec.toInt_eq_toNat_cond value.toBitVec
  have hlt := value.toUInt64.toNat_lt
  rw [hint,hcond,hword]
  rw [hword] at hlt
  refine ⟨hlt,fun hpos => ?_,fun hneg => ?_⟩
  · split at hpos
    · next hsmall => rw [if_pos hsmall]
    · next hsmall => push_cast at hpos; omega
  · split at hneg
    · next hsmall => omega
    · next hsmall => rw [if_neg hsmall]; push_cast; omega

/-- A stored integer comes back. -/
theorem stored_back (value : Int64) :
    (UInt64.ofNat value.toUInt64.toNat).toInt64=value := by
  rw [UInt64.ofNat_toNat]
  exact Int64.toInt64_toUInt64 value

/-- An integer is read back from its low bytes when they have room for it and its sign. -/
theorem decodeInteger_low {value : Int64} {width : ℕ} (hwidth : width ≤ 7)
    (hlow : -(128*256^width : ℕ) ≤ value.toInt) (hhigh : value.toInt < (128*256^width : ℕ)) :
    decodeInteger ((integerBytes value).drop (8-(width+1)))=value := by
  obtain ⟨hword,hpos,hneg⟩ := stored_word value
  have hbytes : (integerBytes value).drop (8-(width+1))=
      encodeBe (width+1) value.toUInt64.toNat := by
    have hsplit := encodeBe_add (8-(width+1)) (width+1) value.toUInt64.toNat
    have height : 8-(width+1)+(width+1)=8 := by omega
    rw [height] at hsplit
    rw [integerBytes,hsplit]
    exact List.drop_left' (encodeBe_length _ _)
  have hpow : 256^(8-(width+1))*(256*256^width)=2^64 := by
    have height : 8-(width+1)+(width+1)=8 := by omega
    calc 256^(8-(width+1))*(256*256^width)=256^(8-(width+1)+(width+1)) := by ring
      _=2^64 := by rw [height]; norm_num
  have hunit : 0 < 256^width := by positivity
  rw [hbytes,decodeInteger,encodeBe_head,encodeBe_length]
  rw [decodeBe_append,encodeBe_length,decodeBe_low,pow_succ]
  have hbyte : (UInt8.ofNat (value.toUInt64.toNat/256^width%256)).toNat=
      value.toUInt64.toNat/256^width%256 :=
    UInt8.toNat_ofNat_of_lt' (Nat.mod_lt _ (by norm_num [UInt8.size]))
  rw [hbyte]
  by_cases hsign : value.toInt < 0
  · obtain ⟨m,hm⟩ : ∃ m : ℕ, value.toInt=-m := ⟨value.toInt.natAbs,by omega⟩
    have hstored := hneg hsign
    rw [hm] at hsign hlow hstored
    have hmle : m ≤ 128*256^width := by omega
    have hn : value.toUInt64.toNat=2^64-m := by omega
    obtain ⟨rest,hrest⟩ : ∃ rest, 256^(8-(width+1))=rest+1 :=
      ⟨256^(8-(width+1))-1,by have := Nat.one_le_pow (8-(width+1)) 256 (by omega); omega⟩
    rw [hrest] at hpow
    have hparts : value.toUInt64.toNat=256*256^width-m+256*256^width*rest := by
      rw [hn,←hpow]
      have hring : (rest+1)*(256*256^width)=256*256^width+256*256^width*rest := by ring
      rw [hring]
      omega
    have hmod : value.toUInt64.toNat%(256^width*256)=256*256^width-m := by
      rw [hparts,Nat.mul_comm (256^width) 256,Nat.add_mul_mod_self_left]
      exact Nat.mod_eq_of_lt (by omega)
    have hdiv : 128 ≤ value.toUInt64.toNat/256^width%256 := by
      have hquotient : value.toUInt64.toNat/256^width=
          (256*256^width-m)/256^width+256*rest := by
        have hshape : 256*256^width*rest=256^width*(256*rest) := by ring
        rw [hparts,hshape,Nat.add_mul_div_left _ _ hunit]
      have hge : 128 ≤ (256*256^width-m)/256^width :=
        (Nat.le_div_iff_mul_le hunit).mpr (by omega)
      have hlt : (256*256^width-m)/256^width < 256 :=
        Nat.div_lt_of_lt_mul (by rw [Nat.mul_comm]; omega)
      rw [hquotient,Nat.add_mul_mod_self_left]
      omega
    have hones := decodeBe_ones (8-(width+1))
    rw [hrest] at hones
    have hrestOnes : decodeBe (List.replicate (8-(width+1)) 0xff)=rest := by omega
    have hback : rest*(256^width*256)+(256*256^width-m)=value.toUInt64.toNat := by
      rw [hparts]
      ring
    rw [if_pos hdiv,hrestOnes,hmod,hback]
    exact stored_back value
  · have hstored := hpos (by omega)
    have hsmall : value.toUInt64.toNat < 128*256^width := by omega
    have hquotient : value.toUInt64.toNat/256^width < 128 :=
      Nat.div_lt_of_lt_mul (by rw [Nat.mul_comm]; exact hsmall)
    have hmod : value.toUInt64.toNat%(256^width*256)=value.toUInt64.toNat :=
      Nat.mod_eq_of_lt (by omega)
    have hclear : ¬128 ≤ value.toUInt64.toNat/256^width%256 := by
      rw [Nat.mod_eq_of_lt (by omega),not_le]
      exact hquotient
    rw [if_neg hclear,decodeBe_zeros,Nat.zero_mul,Nat.zero_add,hmod]
    exact stored_back value

/-! ## The header's own length -/

/-- The loop ends with a length that counts the bytes it is written in: every round in which it
does not adds a byte to them, and there are nine at most. -/
theorem recordHeaderSize_counts {headerLen fuel extra : ℕ} (hlow : 10 ≤ extra+fuel)
    (hle : extra ≤ (encodeVarint (headerLen+extra)).length) :
    recordHeaderSize headerLen fuel (headerLen+extra)=
      headerLen+(encodeVarint (recordHeaderSize headerLen fuel (headerLen+extra))).length := by
  induction fuel generalizing extra with
  | zero =>
    have hnine := (encodeVarint_length (headerLen+extra)).2
    omega
  | succ fuel ih =>
    rw [recordHeaderSize]
    by_cases hfixed : headerLen+(encodeVarint (headerLen+extra)).length=headerLen+extra
    · rw [if_pos hfixed]
      exact hfixed.symm
    · rw [if_neg hfixed]
      exact ih (by omega) (encodeVarint_length_mono (by omega))

/-- The header's length counts its own varint, whatever the length of the rest. -/
theorem recordHeaderSize_eq (headerLen : ℕ) :
    recordHeaderSize headerLen 9 (headerLen+1)=
      headerLen+(encodeVarint (recordHeaderSize headerLen 9 (headerLen+1))).length :=
  recordHeaderSize_counts (by omega) (encodeVarint_length _).1

/-! ## The header read back -/

variable {fuel serial : ℕ} {serials : List ℕ}
    {read : Bytes → ℕ → ℕ → Except DbError (Value × ℕ)} {change : Value → Value}
    {values : List Value} {record bytes : Bytes} {decoded : List RecordValue}

/-- The serial types are read back from their varints. -/
theorem decodeSerials_flatMap (hserials : ∀ serial∈serials, serial < 2^64)
    (hfuel : (serials.flatMap encodeVarint).length ≤ fuel) :
    decodeSerials fuel (serials.flatMap encodeVarint)=.ok serials := by
  induction serials generalizing fuel with
  | nil => cases fuel <;> rfl
  | cons serial serials ih =>
    have hpos := (encodeVarint_length serial).1
    rw [List.flatMap_cons,List.length_append] at hfuel
    cases fuel with
    | zero => omega
    | succ fuel =>
      have hcons : encodeVarint serial++serials.flatMap encodeVarint≠[] := by
        intro hnil
        have hlength := congrArg List.length hnil
        rw [List.length_append,List.length_nil] at hlength
        omega
      have hrest := ih (fun s hs => hserials s (List.mem_cons_of_mem serial hs))
        (show _ ≤ fuel by omega)
      rw [List.flatMap_cons,decodeSerials,if_neg hcons,
        decodeVarint_encodeVarint (hserials serial List.mem_cons_self)]
      simp only [bind,Except.bind,List.drop_left,hrest]

/-- A record's header is read back, with the place where the values' bytes start. -/
theorem decodeRecordHeader_encoded {payload : Bytes} {headerSize : ℕ}
    (hserials : ∀ serial∈serials, serial < 2^64)
    (hsize : headerSize=
      (serials.flatMap encodeVarint).length+(encodeVarint headerSize).length)
    (hlimit : headerSize < 2^64) :
    decodeRecordHeader (encodeVarint headerSize++serials.flatMap encodeVarint++payload)=
      .ok (serials,headerSize) := by
  have hfirst := decodeVarint_encodeVarint hlimit (serials.flatMap encodeVarint++payload)
  have hlength : ¬((encodeVarint headerSize++serials.flatMap encodeVarint++payload).length <
      headerSize ∨ headerSize < (encodeVarint headerSize).length) := by
    rw [List.length_append,List.length_append]
    omega
  have hrest : headerSize-(encodeVarint headerSize).length=
      (serials.flatMap encodeVarint).length := by omega
  rw [List.append_assoc] at hlength ⊢
  rw [decodeRecordHeader,hfirst]
  simp only [bind,Except.bind]
  rw [if_neg hlength,hrest,←List.append_assoc,slice_middle,
    decodeSerials_flatMap hserials (by omega)]

/-! ## The values read back -/

/-- A value as a record of a table or an index gives it back: booleans as integers. -/
def booleanAsInteger : Value → Value
  | .boolean false => .integer 0
  | .boolean true => .integer 1
  | value => value

/-- A value as `record.rs` gives it back: zero and one as booleans. -/
def integerAsBoolean : Value → Value
  | .integer value =>
    if value=0 then .boolean false else if value=1 then .boolean true else .integer value
  | value => value

/-- A value whose length has a serial type. -/
def EncodableValue : Value → Prop
  | .blob bytes => 2*bytes.length+12 < 2^64
  | .text text => 2*(textBytes text).length+13 < 2^64
  | _ => True

/-- Encodable values have a serial type. -/
theorem serialType_ok {value : Value} : (∃ serial, serialType value=.ok serial) ↔
    EncodableValue value := by
  cases value with
  | null => exact ⟨fun _ => trivial,fun _ => ⟨0,rfl⟩⟩
  | boolean flag => cases flag <;> exact ⟨fun _ => trivial,fun _ => ⟨_,rfl⟩⟩
  | integer n => exact ⟨fun _ => trivial,fun _ => ⟨integerSerialType n,rfl⟩⟩
  | real bits => exact ⟨fun _ => trivial,fun _ => ⟨7,rfl⟩⟩
  | blob bytes =>
    simp only [serialType,lengthSerialType,EncodableValue]
    split
    · next hlimit => exact ⟨fun _ => hlimit,fun _ => ⟨_,rfl⟩⟩
    · next hlimit => exact ⟨fun ⟨_,hserial⟩ => (by cases hserial),fun h => absurd h hlimit⟩
  | text text =>
    simp only [serialType,lengthSerialType,EncodableValue]
    split
    · next hlimit => exact ⟨fun _ => hlimit,fun _ => ⟨_,rfl⟩⟩
    · next hlimit => exact ⟨fun ⟨_,hserial⟩ => (by cases hserial),fun h => absurd h hlimit⟩

/-- An integer that is neither zero nor one is read back from the bytes of its serial type. -/
theorem integerSerialType_reads {value : Int64} (hzero : value≠0) (hone : value≠1) :
    1 ≤ integerSerialType value ∧ integerSerialType value ≤ 6 ∧
      decodeInteger ((integerBytes value).drop (8-integerLen (integerSerialType value)))=value := by
  have hfirst : value.toInt≠0 := fun h => hzero (Int64.toInt_inj.mp h)
  have hsecond : value.toInt≠1 := fun h => hone (Int64.toInt_inj.mp h)
  have hrange := value.toInt_lt
  have hrange' := value.le_toInt
  rw [integerSerialType]
  simp only [if_neg hfirst,if_neg hsecond]
  split
  · exact ⟨by omega,by omega,@decodeInteger_low value 0 (by omega) (by omega) (by omega)⟩
  · split
    · exact ⟨by omega,by omega,@decodeInteger_low value 1 (by omega) (by omega) (by omega)⟩
    · split
      · exact ⟨by omega,by omega,@decodeInteger_low value 2 (by omega) (by omega) (by omega)⟩
      · split
        · exact ⟨by omega,by omega,@decodeInteger_low value 3 (by omega) (by omega) (by omega)⟩
        · split
          · exact ⟨by omega,by omega,@decodeInteger_low value 5 (by omega) (by omega) (by omega)⟩
          · exact ⟨by omega,by omega,@decodeInteger_low value 7 (by omega) (by omega) (by omega)⟩

/-- An integer takes the bytes of its type. -/
theorem integerPayload_length (value : Int64) :
    (valuePayload (.integer value)).length=integerLen (integerSerialType value) := by
  have hle : integerLen (integerSerialType value) ≤ 8 := by
    rw [integerSerialType]
    split_ifs <;> decide
  rw [valuePayload,List.length_drop,integerBytes,encodeBe_length]
  omega

/-- A text comes back from its bytes. -/
theorem textOfBytes_textBytes (text : String) : textOfBytes (textBytes text)=some text := by
  have hbytes : (⟨(textBytes text).toArray⟩ : ByteArray)=text.toUTF8 := rfl
  have hvalid : text.toUTF8.IsValidUTF8 := text.isValidUTF8
  rw [textOfBytes,hbytes,String.fromUTF8?,dif_pos hvalid]
  rfl

/-- Where a value's bytes stand, they are what is read. -/
theorem valueBytes_middle (front part rest : Bytes) (message : String) :
    valueBytes (front++part++rest) front.length part.length message=.ok part := by
  have hinside : front.length+part.length ≤ (front++part++rest).length := by
    rw [List.length_append,List.length_append]
    omega
  rw [valueBytes,window_eq (by omega) hinside,Nat.add_sub_cancel_left,slice_middle]

/-- A value is read back where its bytes stand, booleans as integers. -/
theorem decodeSerialValue_encoded {value : Value} (kind : String) (front rest : Bytes)
    (hserial : serialType value=.ok serial) :
    decodeSerialValue kind (front++valuePayload value++rest) front.length serial=
      .ok (booleanAsInteger value,front.length+(valuePayload value).length) := by
  cases value with
  | null =>
    obtain rfl := Except.ok.inj hserial
    rfl
  | boolean flag =>
    cases flag with
    | false =>
      obtain rfl := Except.ok.inj hserial
      rfl
    | true =>
      obtain rfl := Except.ok.inj hserial
      rfl
  | integer n =>
    obtain rfl := Except.ok.inj hserial
    by_cases hzero : n=0
    · subst hzero
      rfl
    · by_cases hone : n=1
      · subst hone
        rfl
      · obtain ⟨hlow,hhigh,hread⟩ := integerSerialType_reads hzero hone
        rw [decodeSerialValue,if_neg (by omega),if_pos hhigh,←integerPayload_length,
          valueBytes_middle]
        simp only [bind,Except.bind]
        rw [valuePayload,hread]
        rfl
  | real bits =>
    obtain rfl := Except.ok.inj hserial
    have hwidth : (valuePayload (.real bits)).length=8 := encodeBe_length 8 bits.toNat
    have hread : decodeBe (valuePayload (.real bits))=bits.toNat :=
      decodeBe_encodeBe bits.toNat_lt
    rw [decodeSerialValue,if_neg (by omega),if_neg (by omega),if_pos rfl]
    nth_rewrite 1 [←hwidth]
    rw [valueBytes_middle]
    simp only [bind,Except.bind]
    rw [hread,UInt64.ofNat_toNat,hwidth]
    rfl
  | blob bytes =>
    rw [serialType,lengthSerialType] at hserial
    split at hserial
    · obtain rfl := Except.ok.inj hserial
      have hlength : (2*bytes.length+12-12)/2=(valuePayload (.blob bytes)).length := by
        rw [valuePayload]
        omega
      rw [decodeSerialValue,if_neg (by omega),if_neg (by omega),if_neg (by omega),
        if_neg (by omega),if_neg (by omega),if_pos (by omega),hlength,valueBytes_middle]
      rfl
    · cases hserial
  | text text =>
    rw [serialType,lengthSerialType] at hserial
    split at hserial
    · obtain rfl := Except.ok.inj hserial
      have hlength : (2*(textBytes text).length+13-13)/2=(valuePayload (.text text)).length := by
        rw [valuePayload]
        omega
      rw [decodeSerialValue,if_neg (by omega),if_neg (by omega),if_neg (by omega),
        if_neg (by omega),if_neg (by omega),if_neg (by omega),if_pos (by omega),hlength,
        valueBytes_middle]
      simp only [bind,Except.bind]
      rw [valuePayload,textOfBytes_textBytes]
      rfl
    · cases hserial

/-- The loop over the serial types, with a reader of single values. -/
def readSerials (read : ℕ → ℕ → Except DbError (Value × ℕ)) :
    List ℕ → ℕ → Except DbError (List Value × ℕ)
  | [], cursor => .ok ([],cursor)
  | serial :: serials, cursor => do
    let (value,cursor) ← read cursor serial
    let (values,cursor) ← readSerials read serials cursor
    .ok (value :: values,cursor)

/-- The reader of the tables reads one value after another. -/
theorem decodeSerialValues_eq (kind : String) (bytes : Bytes) (serials : List ℕ) (cursor : ℕ) :
    decodeSerialValues kind bytes serials cursor=
      readSerials (decodeSerialValue kind bytes) serials cursor := by
  induction serials generalizing cursor with
  | nil => rfl
  | cons serial serials ih => simp only [decodeSerialValues,readSerials,ih]

/-- A reader that reads back what the writer makes of a value reads back a record's values, up to
its end. -/
theorem readSerials_encoded
    (hread : ∀ {value : Value} {serial : ℕ} (front rest : Bytes), serialType value=.ok serial →
      read (front++valuePayload value++rest) front.length serial=
        .ok (change value,front.length+(valuePayload value).length)) (front : Bytes)
    (hserials : values.mapM serialType=.ok serials) :
    readSerials (read (front++values.flatMap valuePayload)) serials front.length=
      .ok (values.map change,front.length+(values.flatMap valuePayload).length) := by
  have hall := mapM_eq_ok.mp hserials
  clear hserials
  induction hall generalizing front with
  | nil => rfl
  | @cons value serial values serials hserial _ ih =>
    have hvalue := hread front (values.flatMap valuePayload) hserial
    have hrest := ih (front++valuePayload value)
    rw [List.length_append] at hrest
    rw [List.flatMap_cons,←List.append_assoc,readSerials,hvalue]
    simp only [bind,Except.bind]
    rw [hrest,List.length_append,Nat.add_assoc]
    rfl

/-- What the writer makes of values: the header's length, the serial types and the bytes. -/
theorem encodeRecord_shape (h : encodeRecord values=.ok record) : ∃ serials headerSize,
      values.mapM serialType=.ok serials ∧
      headerSize=(serials.flatMap encodeVarint).length+(encodeVarint headerSize).length ∧
      record=encodeVarint headerSize++serials.flatMap encodeVarint++
        values.flatMap valuePayload := by
  cases hserials : values.mapM serialType with
  | error e =>
    rw [encodeRecord,hserials] at h
    cases h
  | ok serials =>
    rw [encodeRecord,hserials] at h
    obtain rfl := Except.ok.inj h
    exact ⟨serials,_,rfl,recordHeaderSize_eq _,rfl⟩

/-- A serial type fits into 64 bits. -/
theorem serialType_lt {value : Value} (h : serialType value=.ok serial) :
    serial < 2^64 := by
  cases value with
  | null => obtain rfl := Except.ok.inj h; omega
  | boolean flag =>
    cases flag with
    | false => obtain rfl := Except.ok.inj h; omega
    | true => obtain rfl := Except.ok.inj h; omega
  | integer n =>
    obtain rfl := Except.ok.inj h
    rw [integerSerialType]
    split_ifs <;> omega
  | real bits => obtain rfl := Except.ok.inj h; omega
  | blob bytes =>
    rw [serialType,lengthSerialType] at h
    split at h
    · obtain rfl := Except.ok.inj h; omega
    · cases h
  | text text =>
    rw [serialType,lengthSerialType] at h
    split at h
    · obtain rfl := Except.ok.inj h; omega
    · cases h

/-- The header and the values' bytes of a record, read back. -/
theorem encodeRecord_reads (h : encodeRecord values=.ok record) (hlimit : record.length < 2^64) :
    ∃ serials headerEnd, values.mapM serialType=.ok serials ∧
      decodeRecordHeader record=.ok (serials,headerEnd) ∧
      ∃ front, record=front++values.flatMap valuePayload ∧ front.length=headerEnd := by
  obtain ⟨serials,headerSize,hserials,hsize,hrecord⟩ := encodeRecord_shape h
  have hfront : (encodeVarint headerSize++serials.flatMap encodeVarint).length=headerSize := by
    rw [List.length_append]
    omega
  have hlength := congrArg List.length hrecord
  rw [List.length_append,hfront] at hlength
  have hsmall : ∀ serial∈serials, serial < 2^64 := by
    intro serial hserial
    obtain ⟨value,_,hvalue⟩ := mapM_source hserials hserial
    exact serialType_lt hvalue
  refine ⟨serials,headerSize,hserials,?_,_,hrecord,hfront⟩
  rw [hrecord]
  exact decodeRecordHeader_encoded hsmall hsize (by omega)

/-- The header of a record that the writer made is read back, and with it the values. -/
theorem readSerials_record
    (hread : ∀ {value : Value} {serial : ℕ} (front rest : Bytes), serialType value=.ok serial →
      read (front++valuePayload value++rest) front.length serial=
        .ok (change value,front.length+(valuePayload value).length)) (h : encodeRecord values=.ok record)
    (hlimit : record.length < 2^64) :
    ∃ serials headerEnd, decodeRecordHeader record=.ok (serials,headerEnd) ∧
      readSerials (read record) serials headerEnd=.ok (values.map change,record.length) := by
  obtain ⟨serials,headerEnd,hserials,hheader,front,hrecord,hfront⟩ := encodeRecord_reads h hlimit
  have hvalues := readSerials_encoded hread front hserials
  have hlength := congrArg List.length hrecord
  rw [List.length_append] at hlength
  rw [←hlength,←hrecord,hfront] at hvalues
  exact ⟨serials,headerEnd,hheader,hvalues⟩

/-- A record is read back whole, with booleans as integers. -/
theorem decodeRecord_encoded (kind name : String)
    (h : encodeRecord values=.ok record) (hlimit : record.length < 2^64) :
    decodeRecord kind name record=.ok (values.map booleanAsInteger) := by
  obtain ⟨serials,headerEnd,hheader,hvalues⟩ :=
    readSerials_record (decodeSerialValue_encoded kind) h hlimit
  rw [decodeRecord,hheader]
  simp only [bind,Except.bind]
  rw [decodeSerialValues_eq,hvalues]
  simp only
  rw [if_neg (by omega)]

/-! ## The decoder beside the encoder -/

namespace Record

/-- The decoder of one value in `record.rs`. -/
def decodeSerialValue (bytes : Bytes) (cursor serial : ℕ) : Except DbError (Value × ℕ) :=
  if serial=0 then .ok (.null,cursor)
  else if serial ≤ 6 then do
    let part ← valueBytes bytes cursor (integerLen serial) "invalid sqlite integer record length"
    .ok (.integer (decodeInteger part),cursor+integerLen serial)
  else if serial=7 then do
    let part ← valueBytes bytes cursor 8 "invalid sqlite real record length"
    .ok (.real (UInt64.ofNat (decodeBe part)),cursor+8)
  else if serial=8 then .ok (.boolean false,cursor)
  else if serial=9 then .ok (.boolean true,cursor)
  else if 12 ≤ serial ∧ serial%2=0 then do
    let part ← valueBytes bytes cursor ((serial-12)/2) "invalid sqlite blob record length"
    .ok (.blob part,cursor+(serial-12)/2)
  else if 13 ≤ serial ∧ serial%2=1 then do
    let part ← valueBytes bytes cursor ((serial-13)/2) "invalid sqlite text record length"
    match textOfBytes part with
    | some text => .ok (.text text,cursor+(serial-13)/2)
    | none => .error (.storage "invalid utf-8 in sqlite text record")
  else .error (.storage s!"unsupported sqlite serial type {serial}")

/-- The loop over the serial types. -/
def decodeSerialValues (bytes : Bytes) : List ℕ → ℕ → Except DbError (List Value × ℕ)
  | [], cursor => .ok ([],cursor)
  | serial :: serials, cursor => do
    let (value,cursor) ← decodeSerialValue bytes cursor serial
    let (values,cursor) ← decodeSerialValues bytes serials cursor
    .ok (value :: values,cursor)

/-- `decode_record`. -/
def decodeRecord (bytes : Bytes) : Except DbError (List Value) := do
  let (serials,headerEnd) ← decodeRecordHeader bytes
  let (values,cursor) ← decodeSerialValues bytes serials headerEnd
  if cursor≠bytes.length then
    .error (.storage "invalid sqlite record: trailing bytes after payload")
  else .ok values

end Record

/-! ## Decoders compared

What a decoder accepts, and the values it gives, without the texts of its errors.
-/

/-- The values that a reader of single values makes of serial types, and where they end. -/
def readValues {α : Type} (read : ℕ → ℕ → Option (α × ℕ)) : List ℕ → ℕ → Option (List α × ℕ)
  | [], cursor => some ([],cursor)
  | serial :: serials, cursor =>
    (read cursor serial).bind fun first =>
      (readValues read serials first.2).map fun rest => (first.1 :: rest.1,rest.2)

/-- Readers that agree on single values, up to a translation, agree on lists of them. -/
theorem readValues_translate {α β : Type} {read : ℕ → ℕ → Option (α × ℕ)}
    {read' : ℕ → ℕ → Option (β × ℕ)} {translate : α → Option β}
    (h : ∀ cursor serial, read' cursor serial=
      (read cursor serial).bind fun first => (translate first.1).map fun value => (value,first.2))
    (serials : List ℕ) (cursor : ℕ) : readValues read' serials cursor=
      (readValues read serials cursor).bind fun result =>
        (result.1.mapM translate).map fun values => (values,result.2) := by
  induction serials generalizing cursor with
  | nil => rfl
  | cons serial serials ih =>
    rw [readValues,readValues,h]
    cases read cursor serial with
    | none => rfl
    | some first =>
      simp only [Option.bind_some]
      cases htranslate : translate first.1 with
      | none =>
        cases readValues read serials first.2 with
        | none => rfl
        | some rest => simp [htranslate]
      | some value =>
        simp only [Option.map_some,Option.bind_some]
        rw [ih]
        cases readValues read serials first.2 with
        | none => rfl
        | some rest =>
          cases hrest : rest.1.mapM translate with
          | none => simp [htranslate,hrest]
          | some values => simp [htranslate,hrest]

/-- Errors forgotten, a step at a time. -/
theorem toOption_bind {α β : Type} (x : Except DbError α) (f : α → Except DbError β) :
    (x >>= f).toOption=x.toOption.bind fun a => (f a).toOption := by
  cases x <;> rfl

/-- Errors forgotten, values are read one after another. -/
theorem readSerials_toOption (read : ℕ → ℕ → Except DbError (Value × ℕ)) (serials : List ℕ)
    (cursor : ℕ) : (readSerials read serials cursor).toOption=
      readValues (fun cursor serial => (read cursor serial).toOption) serials cursor := by
  induction serials generalizing cursor with
  | nil => rfl
  | cons serial serials ih =>
    rw [readSerials,readValues,toOption_bind]
    congr 1
    funext first
    rw [toOption_bind,ih]
    cases readValues _ serials first.2 <;> rfl

/-- So does the reader of the tables. -/
theorem decodeSerialValues_toOption (kind : String) (bytes : Bytes) (serials : List ℕ)
    (cursor : ℕ) : (decodeSerialValues kind bytes serials cursor).toOption=
      readValues (fun cursor serial => (decodeSerialValue kind bytes cursor serial).toOption)
        serials cursor := by
  rw [decodeSerialValues_eq,readSerials_toOption]

/-- The reader of records reads one value after another. -/
theorem Record.decodeSerialValues_eq (bytes : Bytes) (serials : List ℕ) (cursor : ℕ) :
    Record.decodeSerialValues bytes serials cursor=
      readSerials (Record.decodeSerialValue bytes) serials cursor := by
  induction serials generalizing cursor with
  | nil => rfl
  | cons serial serials ih => simp only [Record.decodeSerialValues,readSerials,ih]

/-- Errors forgotten, too. -/
theorem Record.decodeSerialValues_toOption (bytes : Bytes) (serials : List ℕ) (cursor : ℕ) :
    (Record.decodeSerialValues bytes serials cursor).toOption=
      readValues (fun cursor serial => (Record.decodeSerialValue bytes cursor serial).toOption)
        serials cursor := by
  rw [Record.decodeSerialValues_eq,readSerials_toOption]

/-- So does the reader of the schema. -/
theorem decodeSchemaValuesFrom_toOption (bytes : Bytes) (serials : List ℕ) (cursor : ℕ) :
    (decodeSchemaValuesFrom bytes serials cursor).toOption=
      (readValues (fun cursor serial => (decodeSchemaValue bytes cursor serial).toOption)
        serials cursor).map Prod.fst := by
  induction serials generalizing cursor with
  | nil => rfl
  | cons serial serials ih =>
    rw [decodeSchemaValuesFrom,readValues,toOption_bind,Option.map_bind]
    congr 1
    funext first
    rw [toOption_bind,ih,Function.comp_apply]
    cases readValues _ serials first.2 <;> rfl

/-- The decoders of indexes and tables differ in the text of one error. -/
theorem decodeSerialValue_kinds (kind kind' : String) (bytes : Bytes) (cursor serial : ℕ) :
    (decodeSerialValue kind bytes cursor serial).toOption=
      (decodeSerialValue kind' bytes cursor serial).toOption := by
  simp only [decodeSerialValue]
  split_ifs <;> rfl

/-- The integers zero and one apart, `record.rs` reads what the others read. -/
theorem decodeSerialValue_record (kind : String) (bytes : Bytes) (cursor serial : ℕ) :
    (decodeSerialValue kind bytes cursor serial).toOption=
      (Record.decodeSerialValue bytes cursor serial).toOption.bind fun first =>
        (some (booleanAsInteger first.1)).map fun value => (value,first.2) := by
  simp only [decodeSerialValue,Record.decodeSerialValue]
  split_ifs
  · rfl
  · cases valueBytes bytes cursor (integerLen serial) "invalid sqlite integer record length" <;> rfl
  · cases valueBytes bytes cursor 8 "invalid sqlite real record length" <;> rfl
  · rfl
  · rfl
  · cases valueBytes bytes cursor ((serial-12)/2) "invalid sqlite blob record length" <;> rfl
  · cases valueBytes bytes cursor ((serial-13)/2) "invalid sqlite text record length" with
    | error e => rfl
    | ok part =>
      simp only [bind,Except.bind]
      cases textOfBytes part <;> rfl
  · rfl

/-- A value as the catalog's decoder knows it. -/
def schemaValue : Value → Option RecordValue
  | .null => some .null
  | .integer value => some (.integer value)
  | .text value => some (.text value)
  | _ => none

/-- A value of the catalog's decoder. -/
def RecordValue.value : RecordValue → Value
  | .null => .null
  | .integer value => .integer value
  | .text value => .text value

/-- The catalog's decoder reads the nulls, integers and texts among what the others read. -/
theorem decodeSchemaValue_table (kind : String) (bytes : Bytes) (cursor serial : ℕ) :
    (decodeSchemaValue bytes cursor serial).toOption=
      (decodeSerialValue kind bytes cursor serial).toOption.bind fun first =>
        (schemaValue first.1).map fun value => (value,first.2) := by
  by_cases hreal : serial=7
  · subst hreal
    cases hpart : valueBytes bytes cursor 8 "invalid sqlite real record length" <;>
      simp [decodeSchemaValue,decodeSerialValue,hpart,schemaValue,Except.toOption,bind,Except.bind]
  · simp only [decodeSchemaValue,decodeSerialValue,if_neg hreal]
    split_ifs
    · rfl
    · cases valueBytes bytes cursor (integerLen serial) "invalid sqlite integer record length" <;>
        rfl
    · rfl
    · rfl
    · cases valueBytes bytes cursor ((serial-12)/2) "invalid sqlite blob record length" <;> rfl
    · cases valueBytes bytes cursor ((serial-13)/2) "invalid sqlite text record length" with
      | error e => rfl
      | ok part =>
        simp only [bind,Except.bind]
        cases textOfBytes part <;> rfl
    · rfl

/-- Decoders of single values that agree make decoders of records that agree. -/
theorem decodeRecord_kinds (kind name kind' name' : String) (bytes : Bytes) :
    (decodeRecord kind name bytes).toOption=(decodeRecord kind' name' bytes).toOption := by
  rw [decodeRecord,decodeRecord,toOption_bind,toOption_bind]
  congr 1
  funext header
  rw [toOption_bind,toOption_bind,decodeSerialValues_toOption,decodeSerialValues_toOption]
  simp only [decodeSerialValue_kinds kind kind']
  congr 1
  funext result
  split_ifs <;> rfl

/-- Tables read the values of the record, booleans as integers. -/
theorem decodeRecord_record (kind name : String) (bytes : Bytes) :
    (decodeRecord kind name bytes).toOption=
      (Record.decodeRecord bytes).toOption.map (List.map booleanAsInteger) := by
  have hvalues := @readValues_translate Value Value
    (fun cursor serial => (Record.decodeSerialValue bytes cursor serial).toOption) _
    (fun value => some (booleanAsInteger value)) (decodeSerialValue_record kind bytes)
  rw [decodeRecord,Record.decodeRecord,toOption_bind,toOption_bind,Option.map_bind]
  congr 1
  funext header
  rw [Function.comp_apply,toOption_bind,toOption_bind,decodeSerialValues_toOption,
    Record.decodeSerialValues_toOption,hvalues,Option.map_bind]
  cases readValues _ header.1 header.2 with
  | none => rfl
  | some result =>
    have hall : result.1.mapM (fun value => some (booleanAsInteger value))=
        some (result.1.map booleanAsInteger) := List.mapM_pure
    simp only [Option.bind_some,hall,Option.map_some,Function.comp_apply]
    split_ifs <;> rfl

/-- What the catalog's decoder makes of the values that the header's serial types stand for. -/
theorem decodeSchemaRecord_toOption (kind : String) (bytes : Bytes) :
    (decodeSchemaRecord bytes).toOption=
      (decodeRecordHeader bytes).toOption.bind fun header =>
        (decodeSerialValues kind bytes header.1 header.2).toOption.bind fun result =>
          result.1.mapM schemaValue := by
  have hvalues := @readValues_translate Value RecordValue
    (fun cursor serial => (decodeSerialValue kind bytes cursor serial).toOption) _ schemaValue
    (decodeSchemaValue_table kind bytes)
  rw [decodeSchemaRecord,toOption_bind]
  congr 1
  funext header
  rw [decodeSchemaValuesFrom_toOption,hvalues,decodeSerialValues_toOption,Option.map_bind]
  congr 1
  funext result
  rw [Function.comp_apply,Option.map_map]
  exact Option.map_id'

/-- The reader of the schema changes no value. -/
theorem mapM_schemaValue
    (h : values.mapM schemaValue=some decoded) : values=decoded.map RecordValue.value := by
  induction values generalizing decoded with
  | nil =>
    obtain rfl := Option.some.inj h
    rfl
  | cons value values ih =>
    rw [List.mapM_cons] at h
    cases hfirst : schemaValue value with
    | none =>
      rw [hfirst] at h
      cases h
    | some first =>
      cases hrest : values.mapM schemaValue with
      | none =>
        rw [hfirst,hrest] at h
        cases h
      | some rest =>
        rw [hfirst,hrest] at h
        obtain rfl := Option.some.inj h
        have hvalue : value=first.value := by
          cases value <;> cases hfirst <;> rfl
        rw [List.map_cons,←ih hrest,←hvalue]

/-- Of a record of a table the catalog's decoder reads the same, if it knows all the values. -/
theorem decodeSchemaRecord_of_table (h : decodeTableRecord bytes=.ok values) :
    (decodeSchemaRecord bytes).toOption=values.mapM schemaValue := by
  rw [decodeTableRecord,decodeRecord] at h
  rw [decodeSchemaRecord_toOption "table"]
  cases hheader : decodeRecordHeader bytes with
  | error e =>
    rw [hheader] at h
    cases h
  | ok header =>
    rw [hheader] at h
    simp only [bind,Except.bind] at h
    cases hvalues : decodeSerialValues "table" bytes header.1 header.2 with
    | error e =>
      rw [hvalues] at h
      cases h
    | ok result =>
      rw [hvalues] at h
      simp only at h
      split_ifs at h
      obtain rfl := Except.ok.inj h
      simp [Except.toOption,hvalues]

/-- What the catalog's decoder reads, the decoder of tables reads too, or refuses for what
follows it. -/
theorem decodeTableRecord_of_schema (h : decodeSchemaRecord bytes=.ok decoded) :
    decodeTableRecord bytes=.ok (decoded.map RecordValue.value) ∨
      decodeTableRecord bytes=
        .error (.storage "invalid sqlite record: trailing bytes after payload") := by
  have hoption := decodeSchemaRecord_toOption "table" bytes
  rw [h] at hoption
  rw [decodeTableRecord,decodeRecord]
  cases hheader : decodeRecordHeader bytes with
  | error e =>
    rw [hheader] at hoption
    cases hoption
  | ok header =>
    cases hvalues : decodeSerialValues "table" bytes header.1 header.2 with
    | error e =>
      simp [hheader,hvalues,Except.toOption] at hoption
    | ok result =>
      simp only [hheader,hvalues,Except.toOption,Option.bind_some] at hoption
      simp only [bind,Except.bind,hvalues]
      rw [mapM_schemaValue hoption.symm]
      split_ifs
      · exact Or.inr rfl
      · exact Or.inl rfl

/-! ## The codec -/

/-- Off the serial types of zero and one the decoders are the same. -/
theorem Record.decodeSerialValue_eq (kind : String) (bytes : Bytes) (cursor : ℕ)
    (h : serial ≤ 7 ∨ 12 ≤ serial) :
    Record.decodeSerialValue bytes cursor serial=
      RustSql.Sqlite3.decodeSerialValue kind bytes cursor serial := by
  simp only [Record.decodeSerialValue,RustSql.Sqlite3.decodeSerialValue]
  split_ifs
  · rfl
  · rfl
  · rfl
  · omega
  · omega
  · rfl
  · rfl
  · omega

/-- A value of another serial type is neither a boolean nor read as one. -/
theorem serialType_flag {value : Value} (h : serialType value=.ok serial) :
    (value=.boolean false ∨ value=.integer 0) ∨ (value=.boolean true ∨ value=.integer 1) ∨
      (serial ≤ 7 ∨ 12 ≤ serial) ∧ booleanAsInteger value=integerAsBoolean value := by
  cases value with
  | null =>
    obtain rfl := Except.ok.inj h
    exact Or.inr (Or.inr ⟨Or.inl (by omega),rfl⟩)
  | boolean flag =>
    cases flag with
    | false => exact Or.inl (Or.inl rfl)
    | true => exact Or.inr (Or.inl (Or.inl rfl))
  | integer n =>
    obtain rfl := Except.ok.inj h
    by_cases hzero : n=0
    · exact Or.inl (Or.inr (congrArg Value.integer hzero))
    · by_cases hone : n=1
      · exact Or.inr (Or.inl (Or.inr (congrArg Value.integer hone)))
      · have hsmall := (integerSerialType_reads hzero hone).2.1
        have hsame : booleanAsInteger (.integer n)=integerAsBoolean (.integer n) := by
          rw [integerAsBoolean,if_neg hzero,if_neg hone,booleanAsInteger]
          · intro hflag
            cases hflag
          · intro hflag
            cases hflag
        exact Or.inr (Or.inr ⟨Or.inl (by omega),hsame⟩)
  | real bits =>
    obtain rfl := Except.ok.inj h
    exact Or.inr (Or.inr ⟨Or.inl (by omega),rfl⟩)
  | blob bytes =>
    rw [serialType,lengthSerialType] at h
    split at h
    · obtain rfl := Except.ok.inj h
      exact Or.inr (Or.inr ⟨Or.inr (by omega),rfl⟩)
    · cases h
  | text text =>
    rw [serialType,lengthSerialType] at h
    split at h
    · obtain rfl := Except.ok.inj h
      exact Or.inr (Or.inr ⟨Or.inr (by omega),rfl⟩)
    · cases h

/-- A value is read back by `record.rs`, zero and one as booleans. -/
theorem Record.decodeSerialValue_encoded {value : Value} (front rest : Bytes)
    (hserial : serialType value=.ok serial) :
    Record.decodeSerialValue (front++valuePayload value++rest) front.length serial=
      .ok (integerAsBoolean value,front.length+(valuePayload value).length) := by
  rcases serialType_flag hserial with (rfl | rfl) | (rfl | rfl) | ⟨hother,hsame⟩
  · obtain rfl := Except.ok.inj hserial
    rfl
  · obtain rfl := Except.ok.inj hserial
    rfl
  · obtain rfl := Except.ok.inj hserial
    rfl
  · obtain rfl := Except.ok.inj hserial
    rfl
  · rw [Record.decodeSerialValue_eq "table" _ _ hother,←hsame]
    exact RustSql.Sqlite3.decodeSerialValue_encoded "table" front rest hserial

/-- A record that fits is read back. -/
theorem Record.decodeRecord_encoded
    (h : encodeRecord values=.ok record) (hlimit : record.length < 2^64) :
    Record.decodeRecord record=.ok (values.map integerAsBoolean) := by
  obtain ⟨serials,headerEnd,hheader,hvalues⟩ :=
    readSerials_record Record.decodeSerialValue_encoded h hlimit
  rw [Record.decodeRecord,hheader]
  simp only [bind,Except.bind]
  rw [Record.decodeSerialValues_eq,hvalues]
  simp only
  rw [if_neg (by omega)]

/-- Values are written whenever their lengths have serial types. -/
theorem encodeRecord_ok :
    (∃ record, encodeRecord values=.ok record) ↔ ∀ value∈values, EncodableValue value := by
  constructor
  · rintro ⟨record,hrecord⟩ value hvalue
    obtain ⟨serials,_,hserials,_⟩ := encodeRecord_shape hrecord
    exact serialType_ok.mp (mapM_mem hserials hvalue)
  · intro hvalues
    obtain ⟨serials,hserials⟩ :=
      mapM_of_forall fun value hvalue => serialType_ok.mpr (hvalues value hvalue)
    exact ⟨_,by rw [encodeRecord,hserials]; rfl⟩

/-- Values that fit a record are written into one whose header counts itself, and read back by
every decoder, as far as it knows booleans, reals and blobs; on any bytes the decoders of indexes
and tables agree, `record.rs` agrees with them up to its booleans, and the decoder of the catalog
up to the values that it does not know and to bytes behind the record. -/
theorem record_codec (values : List Value) (headerLen : ℕ) (bytes : Bytes) :
    ((∃ record, encodeRecord values=.ok record) ↔ ∀ value∈values, EncodableValue value) ∧
      recordHeaderSize headerLen 9 (headerLen+1)=
        headerLen+(encodeVarint (recordHeaderSize headerLen 9 (headerLen+1))).length ∧
      (∀ record, encodeRecord values=.ok record → record.length < 2^64 →
        decodeIndexRecord record=.ok (values.map booleanAsInteger) ∧
          decodeTableRecord record=.ok (values.map booleanAsInteger) ∧
          Record.decodeRecord record=.ok (values.map integerAsBoolean) ∧
          (decodeSchemaRecord record).toOption=(values.map booleanAsInteger).mapM schemaValue) ∧
      (decodeIndexRecord bytes).toOption=(decodeTableRecord bytes).toOption ∧
      (decodeTableRecord bytes).toOption=
        (Record.decodeRecord bytes).toOption.map (List.map booleanAsInteger) ∧
      (∀ decoded, decodeTableRecord bytes=.ok decoded →
        (decodeSchemaRecord bytes).toOption=decoded.mapM schemaValue) ∧
      ∀ decoded, decodeSchemaRecord bytes=.ok decoded →
        decodeTableRecord bytes=.ok (decoded.map RecordValue.value) ∨
          decodeTableRecord bytes=
            .error (.storage "invalid sqlite record: trailing bytes after payload") := by
  refine ⟨encodeRecord_ok,recordHeaderSize_eq headerLen,fun record hrecord hlimit => ?_,
    decodeRecord_kinds _ _ _ _ bytes,decodeRecord_record _ _ bytes,
    fun decoded => decodeSchemaRecord_of_table,fun decoded => decodeTableRecord_of_schema⟩
  have htable : decodeTableRecord record=.ok (values.map booleanAsInteger) :=
    decodeRecord_encoded "table" "record" hrecord hlimit
  exact ⟨decodeRecord_encoded "index" "index record" hrecord hlimit,htable,
    Record.decodeRecord_encoded hrecord hlimit,decodeSchemaRecord_of_table htable⟩

/-- A record of the integer zero: `record.rs` reads a boolean, and a real is no value of the
catalog's decoder. -/
theorem zero_read_as_flag :
    ¬∀ (values : List Value) (record : Bytes), encodeRecord values=.ok record →
      Record.decodeRecord record=.ok (values.map booleanAsInteger) ∧
        ∃ decoded, decodeSchemaRecord record=.ok decoded := by
  intro h
  have hrecord : encodeRecord [.integer 0]=.ok [2,8] := by decide +kernel
  have hread : Record.decodeRecord [2,8]=.ok [.boolean false] := by decide +kernel
  have hclaim := (h [.integer 0] [2,8] hrecord).1
  rw [hread] at hclaim
  cases hclaim

end RustSql.Sqlite3
