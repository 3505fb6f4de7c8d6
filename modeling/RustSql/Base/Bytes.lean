import Mathlib.Data.List.Lex
import Mathlib.Data.Nat.Log
import Mathlib.Tactic.Ring
import Mathlib.Tactic.NormNum

/-!
# Byte strings

Fixed-width integers of either byte order and in-place writes into a byte buffer,
the operations every binary format here is made of. A buffer is a list of
bytes; `slice` reads a window of it and `copyInto` overwrites one.
-/

namespace RustSql

/-- Bytes are ordered as numbers, byte strings lexicographically. -/
instance instLinearOrderUInt8 : LinearOrder UInt8 where
  le := (· ≤ ·)
  lt := (· < ·)
  le_refl _ := UInt8.le_refl _
  le_trans _ _ _ := UInt8.le_trans
  le_antisymm _ _ := UInt8.le_antisymm
  le_total _ _ := UInt8.le_total _ _
  toDecidableLE := inferInstance
  toDecidableLT := inferInstance
  lt_iff_le_not_ge _ _ := by
    rw [UInt8.lt_iff_toNat_lt,UInt8.le_iff_toNat_le,UInt8.le_iff_toNat_le]
    omega

/-- A byte buffer. -/
abbrev Bytes := List UInt8

/-- The low `width` bytes of a natural, least significant byte first. -/
def encodeLe : ℕ → ℕ → Bytes
  | 0, _ => []
  | width+1, n => UInt8.ofNat (n%256) :: encodeLe width (n/256)

/-- The natural a little-endian byte string stands for. -/
def decodeLe : Bytes → ℕ
  | [] => 0
  | b :: rest => b.toNat+256*decodeLe rest

/-- An encoded integer has exactly its width. -/
@[simp] theorem encodeLe_length (width n : ℕ) : (encodeLe width n).length=width := by
  induction width generalizing n with
  | zero => rfl
  | succ width ih => simp only [encodeLe,List.length_cons,ih]

variable {width n start at' length : ℕ} {buffer part : Bytes}

/-- Decoding reads back every integer that fits its width. -/
theorem decodeLe_encodeLe (h : n < 256^width) :
    decodeLe (encodeLe width n)=n := by
  induction width generalizing n with
  | zero =>
    have hn : n=0 := by simpa using h
    simp only [encodeLe,decodeLe,hn]
  | succ width ih =>
    have hq : n/256 < 256^width := by
      rw [pow_succ] at h
      exact Nat.div_lt_of_lt_mul (by omega)
    have hb : n%256 < UInt8.size := Nat.mod_lt n (by norm_num [UInt8.size])
    simp only [encodeLe,decodeLe]
    rw [ih hq,UInt8.toNat_ofNat_of_lt' hb]
    omega

/-- The low `width` bytes of a natural, most significant byte first. -/
def encodeBe (width n : ℕ) : Bytes := (encodeLe width n).reverse

/-- The natural a big-endian byte string stands for. -/
def decodeBe (bytes : Bytes) : ℕ := decodeLe bytes.reverse

@[simp] theorem encodeBe_length (width n : ℕ) : (encodeBe width n).length=width := by
  simp only [encodeBe,List.length_reverse,encodeLe_length]

theorem decodeBe_encodeBe (h : n < 256^width) : decodeBe (encodeBe width n)=n := by
  rw [decodeBe,encodeBe,List.reverse_reverse,decodeLe_encodeLe h]

/-! ## Parts of integers -/

theorem encodeLe_add (low high n : ℕ) :
    encodeLe (low+high) n=encodeLe low n++encodeLe high (n/256^low) := by
  induction low generalizing n with
  | zero => rw [Nat.zero_add,pow_zero,Nat.div_one,encodeLe,List.nil_append]
  | succ low ih =>
    have hshape : low+1+high=low+high+1 := by omega
    rw [hshape,encodeLe,ih,encodeLe,List.cons_append,Nat.div_div_eq_div_mul,pow_succ,
      Nat.mul_comm 256]

theorem decodeLe_append (low high : Bytes) :
    decodeLe (low++high)=decodeLe low+256^low.length*decodeLe high := by
  induction low with
  | nil => rw [List.nil_append,decodeLe,List.length_nil,pow_zero,Nat.one_mul,Nat.zero_add]
  | cons byte low ih =>
    rw [List.cons_append,decodeLe,ih,decodeLe,List.length_cons,pow_succ]
    ring

/-- The bytes of an integer are those of its high part and those of its low part. -/
theorem encodeBe_add (high low n : ℕ) :
    encodeBe (high+low) n=encodeBe high (n/256^low)++encodeBe low n := by
  rw [encodeBe,Nat.add_comm,encodeLe_add,List.reverse_append]
  rfl

theorem decodeBe_append (high low : Bytes) :
    decodeBe (high++low)=decodeBe high*256^low.length+decodeBe low := by
  rw [decodeBe,List.reverse_append,decodeLe_append,List.length_reverse]
  change decodeBe low+256^low.length*decodeBe high=_
  ring

/-- The low bytes of an integer. -/
theorem decodeBe_low (width n : ℕ) : decodeBe (encodeBe width n)=n%256^width := by
  have hlow : encodeLe width n=encodeLe width (n%256^width) := by
    induction width generalizing n with
    | zero => rfl
    | succ width ih =>
      have hmod : n%256^(width+1)%256=n%256 :=
        Nat.mod_mod_of_dvd n ⟨256^width,by rw [pow_succ,Nat.mul_comm]⟩
      have hdiv : n%256^(width+1)/256=n/256%256^width := by
        rw [pow_succ,Nat.mul_comm,Nat.mod_mul_right_div_self]
      rw [encodeLe,encodeLe,hmod,hdiv,ih (n/256)]
  have hlt : n%256^width < 256^width := Nat.mod_lt n (by positivity)
  rw [encodeBe,hlow]
  exact decodeBe_encodeBe hlt

/-- A byte string of a width stands for a number of that width. -/
theorem decodeLe_lt (bytes : Bytes) : decodeLe bytes < 256^bytes.length := by
  induction bytes with
  | nil => norm_num [decodeLe]
  | cons b rest ih =>
    have hb := b.toNat_lt
    simp only [decodeLe,List.length_cons,pow_succ]
    omega

theorem decodeBe_lt (bytes : Bytes) : decodeBe bytes < 256^bytes.length := by
  have h := decodeLe_lt bytes.reverse
  rwa [List.length_reverse] at h

/-- `length` bytes of the buffer, starting at `start`. -/
def slice (buffer : Bytes) (start length : ℕ) : Bytes := (buffer.drop start).take length

/-- The bytes from `start` up to `stop`, when the buffer holds them (`get(start..stop)`). -/
def window (buffer : Bytes) (start stop : ℕ) : Option Bytes :=
  if start ≤ stop ∧ stop ≤ buffer.length then some (slice buffer start (stop-start)) else none

/-- The byte at an index; zero past the end. -/
def byteAt (buffer : Bytes) (i : ℕ) : UInt8 := (slice buffer i 1).headD 0

/-- Overwrite the buffer from `start` on (`copy_from_slice`). -/
def copyInto (buffer : Bytes) (start : ℕ) (part : Bytes) : Bytes :=
  buffer.take start++part++buffer.drop (start+part.length)

/-- A write that stays inside the buffer keeps its length. -/
theorem copyInto_length {start total : ℕ}
    (hb : buffer.length=total) (h : start+part.length ≤ total) :
    (copyInto buffer start part).length=total := by
  simp only [copyInto,List.length_append,List.length_take,List.length_drop]
  omega

/-- Reading a window just written gives back what was written. -/
theorem slice_copyInto_same (hw : part.length=width)
    (h : start ≤ buffer.length) : slice (copyInto buffer start part) start width=part := by
  have hl : (buffer.take start).length=start := by simp only [List.length_take]; omega
  unfold slice copyInto
  rw [List.append_assoc,List.drop_left' hl,List.take_left' hw]

/-- A window before the written bytes is unchanged. -/
theorem slice_copyInto_before (hs : start ≤ buffer.length) (h : at'+length ≤ start) :
    slice (copyInto buffer start part) at' length=slice buffer at' length := by
  have hl : (buffer.take start).length=start := by simp only [List.length_take]; omega
  unfold slice copyInto
  rw [List.append_assoc,List.drop_append_of_le_length (by omega),
    List.take_append_of_le_length (by simp only [List.length_drop]; omega),
    List.drop_take,List.take_take]
  congr 1
  omega

/-- A window after the written bytes is unchanged. -/
theorem slice_copyInto_after
    (hs : start+part.length ≤ buffer.length) (h : start+part.length ≤ at') :
    slice (copyInto buffer start part) at' length=slice buffer at' length := by
  have hl : (buffer.take start++part).length=start+part.length := by
    simp only [List.length_append,List.length_take]; omega
  unfold slice copyInto
  rw [List.drop_append,hl,List.drop_eq_nil_of_le (by omega),List.nil_append,List.drop_drop]
  congr 2
  omega

/-- Two writes next to each other are one. -/
theorem copyInto_adjacent {buffer first second : Bytes} (h : start+first.length ≤ buffer.length) :
    copyInto (copyInto buffer start first) (start+first.length) second=
      copyInto buffer start (first++second) := by
  have hl : (buffer.take start++first).length=start+first.length := by
    simp only [List.length_append,List.length_take]; omega
  unfold copyInto
  rw [List.take_left' hl,List.drop_append,hl,List.drop_eq_nil_of_le (by omega),List.nil_append,
    List.drop_drop,List.length_append]
  simp only [List.append_assoc]
  congr 4
  omega

/-- What stands between two parts of a buffer. -/
theorem slice_middle (front part rest : Bytes) :
    slice (front++part++rest) front.length part.length=part := by
  rw [slice,List.append_assoc,List.drop_left' rfl,List.take_left' rfl]

theorem window_eq {start stop : ℕ} (h : start ≤ stop) (hstop : stop ≤ buffer.length) :
    window buffer start stop=some (slice buffer start (stop-start)) :=
  if_pos ⟨h,hstop⟩

/-- What a buffer holds from the place of a part of it on. -/
theorem drop_of_slice (h : slice buffer start part.length=part) :
    buffer.drop start=part++buffer.drop (start+part.length) := by
  have hsplit := List.take_append_drop part.length (buffer.drop start)
  rw [List.drop_drop] at hsplit
  change slice buffer start part.length++_=_ at hsplit
  rw [h] at hsplit
  exact hsplit.symm

/-- A window inside a part of a buffer is a window of the part. -/
theorem window_inside {start first last : ℕ}
    (h : slice buffer start part.length=part) (hinside : start+part.length ≤ buffer.length)
    (hle : first ≤ last) (hlast : last ≤ part.length) :
    window buffer (start+first) (start+last)=some (slice part first (last-first)) := by
  rw [window_eq (by omega) (by omega)]
  have hdrop := congrArg (List.drop first) (drop_of_slice h)
  rw [List.drop_drop,List.drop_append_of_le_length (by omega)] at hdrop
  have hwidth : start+last-(start+first)=last-first := by omega
  rw [hwidth,slice,slice,hdrop,
    List.take_append_of_le_length (by rw [List.length_drop]; omega)]

/-- A part of a buffer made of parts of one width. -/
theorem slice_flatten {parts : List Bytes} {width i : ℕ}
    (hwidth : ∀ part∈parts, part.length=width) (hi : parts[i]?=some part) :
    slice parts.flatten (i*width) width=part ∧ i*width+width ≤ parts.flatten.length := by
  induction parts generalizing i with
  | nil => cases hi
  | cons first parts ih =>
    have hfirst := hwidth first List.mem_cons_self
    rw [List.flatten_cons,List.length_append,hfirst]
    cases i with
    | zero =>
      obtain rfl : first=part := Option.some.inj hi
      refine ⟨?_,by omega⟩
      rw [Nat.zero_mul,slice,List.drop_zero,List.take_left' hfirst]
    | succ i =>
      obtain ⟨hslice,hle⟩ := ih (fun p hp => hwidth p (List.mem_cons_of_mem first hp)) hi
      have hstart : (i+1)*width=width+i*width := by ring
      refine ⟨?_,by omega⟩
      rw [hstart,slice,←List.drop_drop,List.drop_left' hfirst]
      exact hslice

end RustSql
