import RustSql.Sqlite3.Varint

/-!
# What varints decode to

A varint that is read has the length its value needs, so the encoder's is the shortest. On any
bytes the reader stops within nine of them, or reports that they end or that a shorter form exists.
-/

namespace RustSql.Sqlite3

/-- A value fits the groups of a length: seven bits each, and a ninth of eight. -/
def FitsLength (value length : ℕ) : Prop :=
  if length=9 then value < 2^64 else value < 128^length

/-- What a reading says about the bytes. -/
structure VarintRead (bytes : Bytes) (value length : ℕ) : Prop where
  fits : FitsLength value length
  canonical : isCanonicalVarint value length=true
  pos : 1 ≤ length
  le_nine : length ≤ 9
  inside : length ≤ bytes.length

/-- What is read from the place of a byte on. -/
theorem decodeVarintFrom_cases {bytes : Bytes} {index value : ℕ} (hindex : index ≤ 8)
    (hvalue : value < 128^index) :
    decodeVarintFrom index value bytes=.error (.storage "truncated sqlite varint") ∨
      decodeVarintFrom index value bytes=.error (.storage "non-canonical sqlite varint") ∨
      ∃ total length, decodeVarintFrom index value bytes=.ok (total,length) ∧
        FitsLength total length ∧ isCanonicalVarint total length=true ∧ index < length ∧
        length ≤ 9 ∧ length ≤ index+bytes.length := by
  induction bytes generalizing index value with
  | nil => exact Or.inl rfl
  | cons byte rest ih =>
    have hbyte := byte.toNat_lt
    rw [decodeVarintFrom,List.length_cons]
    by_cases hlast : index=8
    · subst hlast
      rw [if_pos rfl]
      have hfits : FitsLength (value*256+byte.toNat) 9 := by
        rw [FitsLength,if_pos rfl]
        norm_num at hvalue ⊢
        omega
      by_cases hcanonical : isCanonicalVarint (value*256+byte.toNat) 9=true
      · rw [if_pos hcanonical]
        exact Or.inr (Or.inr ⟨_,9,rfl,hfits,hcanonical,by omega,le_rfl,by omega⟩)
      · rw [if_neg hcanonical]
        exact Or.inr (Or.inl rfl)
    · rw [if_neg hlast]
      have hpow : 128^(index+1)=128^index*128 := pow_succ _ _
      by_cases hend : byte.toNat < 128
      · have hfits : FitsLength (value*128+byte.toNat) (index+1) := by
          rw [FitsLength,if_neg (by omega)]
          omega
        rw [if_pos hend]
        by_cases hcanonical : isCanonicalVarint (value*128+byte.toNat) (index+1)=true
        · rw [if_pos hcanonical]
          exact Or.inr (Or.inr ⟨_,index+1,rfl,hfits,hcanonical,by omega,by omega,by omega⟩)
        · rw [if_neg hcanonical]
          exact Or.inr (Or.inl rfl)
      · have hnext : value*128+byte.toNat%128 < 128^(index+1) := by
          have hmod := Nat.mod_lt byte.toNat (show 0 < 128 by omega)
          omega
        rw [if_neg hend]
        rcases ih (by omega) hnext with htruncated | hlonger | ⟨total,length,hread,hrest⟩
        · exact Or.inl htruncated
        · exact Or.inr (Or.inl hlonger)
        · obtain ⟨hfits,hcanonical,hpos,hnine,hinside⟩ := hrest
          exact Or.inr (Or.inr ⟨total,length,hread,hfits,hcanonical,by omega,hnine,by omega⟩)

/-- The reader stops within nine bytes, or says why it does not. -/
theorem decodeVarint_cases (bytes : Bytes) :
    decodeVarint bytes=.error (.storage "truncated sqlite varint") ∨
      decodeVarint bytes=.error (.storage "non-canonical sqlite varint") ∨
      ∃ value length, decodeVarint bytes=.ok (value,length) ∧ VarintRead bytes value length := by
  have hfirst : (0 : ℕ) < 128^0 := by norm_num
  rcases @decodeVarintFrom_cases bytes 0 0 (by omega) hfirst with
    htruncated | hlonger | ⟨value,length,hread,hfits,hcanonical,hpos,hnine,hinside⟩
  · exact Or.inl htruncated
  · exact Or.inr (Or.inl hlonger)
  · exact Or.inr (Or.inr ⟨value,length,hread,hfits,hcanonical,hpos,hnine,by omega⟩)

theorem varintRead_of_decode {bytes : Bytes} {value length : ℕ}
    (h : decodeVarint bytes=.ok (value,length)) : VarintRead bytes value length := by
  rcases decodeVarint_cases bytes with hother | hother | ⟨value',length',hother,hread⟩
  · rw [h] at hother
    cases hother
  · rw [h] at hother
    cases hother
  · rw [h] at hother
    cases hother
    exact hread

/-- Below nine bytes a canonical form needs its last group. -/
theorem canonical_bound {value length : ℕ} (h : isCanonicalVarint value length=true)
    (hlow : 2 ≤ length) (hhigh : length ≤ 8) : 128^(length-1) ≤ value := by
  rw [isCanonicalVarint,if_neg (by omega),if_pos ⟨hlow,hhigh⟩,decide_eq_true_eq,pow_mul] at h
  exact h

theorem canonical_nine {value : ℕ} (h : isCanonicalVarint value 9=true) : 128^8 ≤ value := by
  rw [isCanonicalVarint,if_neg (by omega),if_neg (by omega),if_pos rfl,decide_eq_true_eq] at h
  norm_num
  omega

/-- A canonical form needs every one of its bytes. -/
theorem VarintRead.low {bytes : Bytes} {value length : ℕ} (h : VarintRead bytes value length)
    (hlength : 2 ≤ length) : 128^(length-1) ≤ value := by
  by_cases hnine : length=9
  · have hcanonical := h.canonical
    rw [hnine] at hcanonical ⊢
    exact canonical_nine hcanonical
  · have hle := h.le_nine
    exact canonical_bound h.canonical hlength (by omega)

/-- A smaller value has no longer form. -/
theorem VarintRead.length_le {bytes other : Bytes} {value value' length length' : ℕ}
    (h : VarintRead bytes value length) (h' : VarintRead other value' length')
    (hle : value ≤ value') : length ≤ length' := by
  by_contra hlt
  have hnine := h.le_nine
  have hpos := h'.pos
  have hlow := h.low (by omega)
  have hhigh := h'.fits
  rw [FitsLength,if_neg (by omega)] at hhigh
  have hpow : 128^length' ≤ 128^(length-1) := Nat.pow_le_pow_right (by omega) (by omega)
  omega

theorem encodeVarint_length_mono {value value' : ℕ} (hle : value ≤ value') :
    (encodeVarint value).length ≤ (encodeVarint value').length := by
  by_cases hbig : 0x00ffffffffffffff < value'
  · have hnine : (encodeVarint value').length=9 := by
      rw [encodeVarint,if_neg (by omega),if_pos hbig,List.length_append,varintGroups_length]
      rfl
    rw [hnine]
    exact (encodeVarint_length value).2
  · have hread := decodeVarint_encodeVarint (show value < 2^64 by omega) []
    have hread' := decodeVarint_encodeVarint (show value' < 2^64 by omega) []
    exact (varintRead_of_decode hread).length_le (varintRead_of_decode hread') hle

/-- Every integer, also a signed row id, is read back from its varint, which is the shortest that
is read as it; any bytes are read within nine of them, or refused as too few or too long a form. -/
theorem varint_codec (value : UInt64) (rowId : Int64) (rest bytes : Bytes) :
    decodeVarint (encodeVarint value.toNat++rest)=
        .ok (value.toNat,(encodeVarint value.toNat).length) ∧
      (1 ≤ (encodeVarint value.toNat).length ∧ (encodeVarint value.toNat).length ≤ 9) ∧
      (∀ other length, decodeVarint other=.ok (value.toNat,length) →
        (encodeVarint value.toNat).length ≤ length) ∧
      (∃ stored length, decodeVarint (encodeVarint rowId.toUInt64.toNat++rest)=.ok (stored,length) ∧
        (UInt64.ofNat stored).toInt64=rowId) ∧
      (decodeVarint bytes=.error (.storage "truncated sqlite varint") ∨
        decodeVarint bytes=.error (.storage "non-canonical sqlite varint") ∨
        ∃ read length, decodeVarint bytes=.ok (read,length) ∧ 1 ≤ length ∧ length ≤ 9 ∧
          length ≤ bytes.length) := by
  have hback := decodeVarint_encodeVarint value.toNat_lt []
  refine ⟨decodeVarint_encodeVarint value.toNat_lt rest,encodeVarint_length _,?_,?_,?_⟩
  · intro other length hother
    exact (varintRead_of_decode hback).length_le (varintRead_of_decode hother) le_rfl
  · refine ⟨_,_,decodeVarint_encodeVarint rowId.toUInt64.toNat_lt rest,?_⟩
    rw [UInt64.ofNat_toNat]
    exact Int64.toInt64_toUInt64 rowId
  · rcases decodeVarint_cases bytes with htruncated | hlonger | ⟨read,length,hread,hfacts⟩
    · exact Or.inl htruncated
    · exact Or.inr (Or.inl hlonger)
    · exact Or.inr (Or.inr ⟨read,length,hread,hfacts.pos,hfacts.le_nine,hfacts.inside⟩)

/-- Two bytes that spell zero: neither too few nor read. -/
theorem padded_zero_refused :
    ¬(decodeVarint [0x80,0x00]=.error (.storage "truncated sqlite varint") ∨
      ∃ read length, decodeVarint [0x80,0x00]=.ok (read,length)) := by
  have hrefused : decodeVarint [0x80,0x00]=.error (.storage "non-canonical sqlite varint") := by
    decide
  rw [hrefused]
  rintro (htruncated | ⟨read,length,hread⟩)
  · exact absurd htruncated (by decide)
  · cases hread

end RustSql.Sqlite3
