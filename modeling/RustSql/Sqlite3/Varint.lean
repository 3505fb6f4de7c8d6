import RustSql.Base.Bytes
import RustSql.Common.Error

/-!
# Variable-length integers

The SQLite varint: seven bits a byte, most significant group first, every byte
but the last with its high bit set; a ninth byte carries eight bits. The reader
accepts the shortest form only.
-/

namespace RustSql.Sqlite3

/-- `is_canonical_varint`. -/
def isCanonicalVarint (value length : ℕ) : Bool :=
  if length=1 then true
  else if 2 ≤ length ∧ length ≤ 8 then 2^(7*(length-1)) ≤ value
  else if length=9 then 0x00ffffffffffffff < value
  else false

/-- One seven-bit group that another byte follows. -/
def continuationByte (value : ℕ) : UInt8 := UInt8.ofNat (value%128+128)

/-- `count` groups of seven bits, as the nine-byte form writes them. -/
def varintGroups : ℕ → ℕ → Bytes
  | 0, _ => []
  | count+1, value => varintGroups count (value/128)++[continuationByte value]

/-- The groups above the last one: as many as the value needs. -/
def varintHigh : ℕ → ℕ → Bytes
  | 0, _ => []
  | fuel+1, value =>
    if value=0 then [] else varintHigh fuel (value/128)++[continuationByte value]

/-- `encode_varint`. -/
def encodeVarint (value : ℕ) : Bytes :=
  if value ≤ 0x7f then [UInt8.ofNat value]
  else if 0x00ffffffffffffff < value then
    varintGroups 8 (value/256)++[UInt8.ofNat (value%256)]
  else varintHigh 8 (value/128)++[UInt8.ofNat (value%128)]

/-- The loop of `decode_varint`: the value of the bytes read so far, at the
index of the next byte. -/
def decodeVarintFrom : ℕ → ℕ → Bytes → Except DbError (ℕ × ℕ)
  | _, _, [] => .error (.storage "truncated sqlite varint")
  | index, value, byte :: rest =>
    if index=8 then
      if isCanonicalVarint (value*256+byte.toNat) 9 then .ok (value*256+byte.toNat,9)
      else .error (.storage "non-canonical sqlite varint")
    else if byte.toNat < 128 then
      if isCanonicalVarint (value*128+byte.toNat) (index+1) then
        .ok (value*128+byte.toNat,index+1)
      else .error (.storage "non-canonical sqlite varint")
    else decodeVarintFrom (index+1) (value*128+byte.toNat%128) rest

/-- `decode_varint`: the value and the bytes it took. -/
def decodeVarint (bytes : Bytes) : Except DbError (ℕ × ℕ) := decodeVarintFrom 0 0 bytes

/-- The value of continuation groups, after `value`. -/
def groupsValue (value : ℕ) (groups : Bytes) : ℕ :=
  groups.foldl (fun value byte => value*128+byte.toNat%128) value

theorem continuationByte_toNat (value : ℕ) : (continuationByte value).toNat=value%128+128 := by
  have h : value%128+128 < UInt8.size := by norm_num [UInt8.size]; omega
  exact UInt8.toNat_ofNat_of_lt' h

/-- Continuation groups are read one after the other. -/
theorem decodeVarintFrom_groups {groups rest : Bytes} {index value : ℕ}
    (hgroups : ∀ byte∈groups, 128 ≤ byte.toNat) (hlen : index+groups.length ≤ 8) :
    decodeVarintFrom index value (groups++rest)=
      decodeVarintFrom (index+groups.length) (groupsValue value groups) rest := by
  induction groups generalizing index value with
  | nil => rfl
  | cons byte groups ih =>
    have hbyte := hgroups byte List.mem_cons_self
    have hnext : index+1+groups.length=index+(byte :: groups).length := by
      simp only [List.length_cons]; omega
    have hindex : index≠8 := by simp only [List.length_cons] at hlen; omega
    rw [List.cons_append,decodeVarintFrom,if_neg hindex,if_neg (by omega),
      ih (fun b hb => hgroups b (List.mem_cons_of_mem _ hb)) (by omega),hnext]
    rfl

theorem groupsValue_concat (value : ℕ) (groups : Bytes) (byte : UInt8) :
    groupsValue value (groups++[byte])=groupsValue value groups*128+byte.toNat%128 := by
  simp only [groupsValue,List.foldl_append,List.foldl_cons,List.foldl_nil]

theorem varintGroups_length (count value : ℕ) : (varintGroups count value).length=count := by
  induction count generalizing value with
  | zero => rfl
  | succ count ih => simp only [varintGroups,List.length_append,ih,List.length_cons,List.length_nil]

theorem varintGroups_continue {count value : ℕ} {byte : UInt8}
    (h : byte∈varintGroups count value) : 128 ≤ byte.toNat := by
  induction count generalizing value with
  | zero => simp only [varintGroups,List.not_mem_nil] at h
  | succ count ih =>
    rw [varintGroups,List.mem_append,List.mem_singleton] at h
    cases h with
    | inl h => exact ih h
    | inr h =>
      rw [h,continuationByte_toNat]
      omega

theorem groupsValue_varintGroups {count value : ℕ} (h : value < 128^count) :
    groupsValue 0 (varintGroups count value)=value := by
  induction count generalizing value with
  | zero =>
    have hv : value=0 := by simpa using h
    rw [hv]
    rfl
  | succ count ih =>
    have hq : value/128 < 128^count := by
      rw [pow_succ] at h
      exact Nat.div_lt_of_lt_mul (by omega)
    rw [varintGroups,groupsValue_concat,ih hq,continuationByte_toNat]
    omega

theorem varintHigh_continue {fuel value : ℕ} {byte : UInt8}
    (h : byte∈varintHigh fuel value) : 128 ≤ byte.toNat := by
  induction fuel generalizing value with
  | zero => simp only [varintHigh,List.not_mem_nil] at h
  | succ fuel ih =>
    rw [varintHigh] at h
    by_cases hv : value=0
    · rw [if_pos hv] at h
      simp only [List.not_mem_nil] at h
    · rw [if_neg hv,List.mem_append,List.mem_singleton] at h
      cases h with
      | inl h => exact ih h
      | inr h =>
        rw [h,continuationByte_toNat]
        omega

theorem groupsValue_varintHigh {fuel value : ℕ} (h : value < 128^fuel) :
    groupsValue 0 (varintHigh fuel value)=value := by
  induction fuel generalizing value with
  | zero =>
    have hv : value=0 := by simpa using h
    rw [hv]
    rfl
  | succ fuel ih =>
    rw [varintHigh]
    by_cases hv : value=0
    · rw [if_pos hv,hv]
      rfl
    · have hq : value/128 < 128^fuel := by
        rw [pow_succ] at h
        exact Nat.div_lt_of_lt_mul (by omega)
      rw [if_neg hv,groupsValue_concat,ih hq,continuationByte_toNat]
      omega

/-- No group is written that the value does not need. -/
theorem varintHigh_length (fuel : ℕ) {value : ℕ} (hpos : 0 < value) :
    128^(varintHigh fuel value).length ≤ 128*value := by
  induction fuel generalizing value with
  | zero =>
    simp only [varintHigh,List.length_nil,pow_zero]
    omega
  | succ fuel ih =>
    rw [varintHigh,if_neg (by omega),List.length_append,List.length_singleton,pow_succ]
    by_cases hq : value/128=0
    · have hnil : varintHigh fuel (value/128)=[] := by
        rw [hq]
        cases fuel <;> rfl
      rw [hnil,List.length_nil]
      omega
    · have hih := ih (Nat.pos_of_ne_zero hq)
      omega

/-- `decode_varint` reads back what `encode_varint` wrote, and where it ends. -/
theorem decodeVarint_encodeVarint {value : ℕ} (h : value < 2^64) (rest : Bytes) :
    decodeVarint (encodeVarint value++rest)=.ok (value,(encodeVarint value).length) := by
  unfold encodeVarint
  by_cases hsmall : value ≤ 0x7f
  · have hbyte : (UInt8.ofNat value).toNat=value :=
      UInt8.toNat_ofNat_of_lt' (by norm_num [UInt8.size]; omega)
    rw [if_pos hsmall,List.singleton_append,decodeVarint,decodeVarintFrom,if_neg (by omega),hbyte,
      if_pos (by omega)]
    simp [isCanonicalVarint]
  · rw [if_neg hsmall]
    by_cases hbig : 0x00ffffffffffffff < value
    · have hbyte : (UInt8.ofNat (value%256)).toNat=value%256 :=
        UInt8.toNat_ofNat_of_lt' (Nat.mod_lt _ (by norm_num [UInt8.size]))
      have hvalue : groupsValue 0 (varintGroups 8 (value/256))=value/256 :=
        groupsValue_varintGroups (by norm_num at h ⊢; omega)
      have hlen := varintGroups_length 8 (value/256)
      have hsum : value/256*256+value%256=value := by omega
      rw [if_pos hbig,List.append_assoc,decodeVarint,
        decodeVarintFrom_groups (fun _ => varintGroups_continue) (by omega),hlen,hvalue]
      simp only [List.singleton_append,Nat.zero_add,decodeVarintFrom,hbyte,hsum]
      simp [isCanonicalVarint,hbig,hlen]
    · have hbyte : (UInt8.ofNat (value%128)).toNat=value%128 :=
        UInt8.toNat_ofNat_of_lt' (by norm_num [UInt8.size]; omega)
      have hvalue : groupsValue 0 (varintHigh 8 (value/128))=value/128 :=
        groupsValue_varintHigh (by norm_num; omega)
      have hpow := varintHigh_length 8 (Nat.pos_of_ne_zero (by omega) : 0 < value/128)
      have hlen : (varintHigh 8 (value/128)).length < 8 := by
        have hlt : 128^(varintHigh 8 (value/128)).length < 128^8 := by norm_num; omega
        exact (Nat.pow_lt_pow_iff_right (by norm_num)).mp hlt
      have hcanonical : isCanonicalVarint value ((varintHigh 8 (value/128)).length+1) := by
        have hbound : 2^(7*(varintHigh 8 (value/128)).length) ≤ value := by
          rw [pow_mul]
          norm_num
          omega
        unfold isCanonicalVarint
        split
        · rfl
        · rw [if_pos (by omega),Nat.add_sub_cancel]
          exact decide_eq_true hbound
      have hsum : value/128*128+value%128=value := by omega
      rw [if_neg hbig,List.append_assoc,decodeVarint,
        decodeVarintFrom_groups (fun _ => varintHigh_continue) (by omega),hvalue,Nat.zero_add,
        List.singleton_append,decodeVarintFrom,if_neg (by omega),hbyte,if_pos (by omega),hsum,
        if_pos hcanonical,List.length_append,List.length_singleton]

/-- A varint takes one to nine bytes. -/
theorem encodeVarint_length (value : ℕ) :
    1 ≤ (encodeVarint value).length ∧ (encodeVarint value).length ≤ 9 := by
  have hle : ∀ fuel v, (varintHigh fuel v).length ≤ fuel := by
    intro fuel
    induction fuel with
    | zero => exact fun v => le_rfl
    | succ fuel ih =>
      intro v
      rw [varintHigh]
      split
      · exact Nat.zero_le _
      · rw [List.length_append,List.length_singleton]
        have := ih (v/128)
        omega
  unfold encodeVarint
  split
  · exact ⟨le_rfl,by norm_num⟩
  · split
    · rw [List.length_append,List.length_singleton,varintGroups_length]
      omega
    · rw [List.length_append,List.length_singleton]
      have := hle 8 (value/128)
      omega

example : encodeVarint 300=[0x82,0x2c] := by decide

end RustSql.Sqlite3
