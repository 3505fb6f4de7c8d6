import Mathlib.Data.Int.Bitwise
import Mathlib.Logic.Function.Iterate
import Mathlib.Tactic.Positivity
import Mathlib.Tactic.NormNum

/-!
# Words and integers

What the operations on the bits of a word do to the integer it stands for, and how a shift by
many places comes out of single shifts.
-/

namespace RustSql.Words

variable {w : ℕ}

/-! ## Shifts -/

/-- A shift to the left by many places is made of single ones. -/
theorem shiftLeft_iterate (x : BitVec w) (n : ℕ) : (fun y : BitVec w => y <<< 1)^[n] x=x <<< n := by
  induction n with
  | zero => rw [Function.iterate_zero_apply,BitVec.shiftLeft_zero]
  | succ n ih => rw [Function.iterate_succ_apply',ih,←BitVec.shiftLeft_add]

/-- A shift to the right that keeps the sign is made of single ones. -/
theorem sshiftRight_iterate (x : BitVec w) (n : ℕ) :
    (fun y : BitVec w => y.sshiftRight 1)^[n] x=x.sshiftRight n := by
  induction n with
  | zero => rw [Function.iterate_zero_apply,BitVec.sshiftRight_zero]
  | succ n ih => rw [Function.iterate_succ_apply',ih,←BitVec.sshiftRight_add]

/-- A shift to the right by the width or more leaves the sign. -/
theorem toInt_sshiftRight_of_le {x : BitVec w} {n : ℕ} (h : w ≤ n) :
    (x.sshiftRight n).toInt=if x.toInt < 0 then -1 else 0 := by
  have hnat : 2^w ≤ 2^n := Nat.pow_le_pow_right (by omega) h
  have hsize : (2 : ℤ)^w ≤ 2^n := by exact_mod_cast hnat
  have hlow := BitVec.le_two_mul_toInt (x := x)
  have hhigh := BitVec.two_mul_toInt_lt (x := x)
  have hpos : (0 : ℤ) < 2^w := by positivity
  rw [BitVec.toInt_sshiftRight,Int.shiftRight_eq_div_pow]
  push_cast
  split_ifs with hneg
  · exact Int.ediv_eq_neg_one_of_neg_of_le hneg (by omega)
  · exact Int.ediv_eq_zero_of_lt (by omega) (by omega)

/-! ## Bits -/

/-- Integers are their bits. -/
theorem eq_of_testBit {m n : ℤ} (h : ∀ i, m.testBit i=n.testBit i) : m=n := by
  -- beyond all its digits a number has zeros and a negative one has ones
  have happart (a b : ℕ) : ¬∀ i, a.testBit i=!b.testBit i := fun hall => by
    have ha : a.testBit (a+b)=false :=
      Nat.testBit_eq_false_of_lt (by have hlt := Nat.lt_two_pow_self (n := a+b); omega)
    have hb : b.testBit (a+b)=false :=
      Nat.testBit_eq_false_of_lt (by have hlt := Nat.lt_two_pow_self (n := a+b); omega)
    have hbit := hall (a+b)
    rw [ha,hb] at hbit
    cases hbit
  cases m with
  | ofNat a =>
    cases n with
    | ofNat b => exact congrArg Int.ofNat (Nat.eq_of_testBit_eq h)
    | negSucc b => exact (happart a b h).elim
  | negSucc a =>
    cases n with
    | ofNat b => exact (happart b a fun i => (h i).symm).elim
    | negSucc b =>
      exact congrArg Int.negSucc (Nat.eq_of_testBit_eq fun i => Bool.not_inj (h i))

/-- The bits of the integer of a word: its own, and from then on the sign. -/
theorem testBit_toInt (x : BitVec w) (i : ℕ) :
    x.toInt.testBit i=if i < w then x.getLsbD i else x.msb := by
  have hlt := x.isLt
  cases hmsb : x.msb with
  | false =>
    rw [BitVec.toInt_eq_toNat_of_msb hmsb]
    change x.toNat.testBit i=_
    rw [BitVec.testBit_toNat]
    split_ifs with hi
    · rfl
    · exact BitVec.getLsbD_of_ge x i (by omega)
  | true =>
    have hneg : x.toInt=Int.negSucc (2^w-(x.toNat+1)) := by
      rw [BitVec.toInt_eq_msb_cond,hmsb,if_pos rfl,Int.negSucc_eq]
      have hsub : 2^w-(x.toNat+1)+(x.toNat+1)=2^w := Nat.sub_add_cancel hlt
      omega
    rw [hneg]
    change (!(2^w-(x.toNat+1)).testBit i)=_
    rw [Nat.testBit_two_pow_sub_succ hlt,BitVec.testBit_toNat]
    split_ifs with hi <;> simp [hi]

/-- The conjunction of two words is that of their integers. -/
theorem toInt_and (x y : BitVec w) : (x &&& y).toInt=Int.land x.toInt y.toInt := by
  refine eq_of_testBit fun i => ?_
  rw [Int.testBit_land,testBit_toInt,testBit_toInt,testBit_toInt]
  split_ifs
  · exact BitVec.getLsbD_and
  · exact BitVec.msb_and

/-- The disjunction of two words is that of their integers. -/
theorem toInt_or (x y : BitVec w) : (x ||| y).toInt=Int.lor x.toInt y.toInt := by
  refine eq_of_testBit fun i => ?_
  rw [Int.testBit_lor,testBit_toInt,testBit_toInt,testBit_toInt]
  split_ifs
  · exact BitVec.getLsbD_or
  · exact BitVec.msb_or

end RustSql.Words
