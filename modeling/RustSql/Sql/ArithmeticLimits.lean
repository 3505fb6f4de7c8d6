import RustSql.Base.Words
import RustSql.Check.Evaluate
import RustSql.Check.Returns
import RustSql.Sql.Arithmetic

/-!
# Arithmetic near the limits

What every operator does at the ends of the 64-bit integers: an operand always becomes a
number, an integer result is exact where it fits, and no operator panics. The one exception is
the negation of the least integer.
-/

namespace RustSql.Sql.Arithmetic

open RustSql.Check Outcome

variable (machine : Machine) (build : Build)
  (texts : ScalarBinaryOp → Value → Value → Except DbError Value)

/-! ## Operands -/

/-- The numeric prefix of a text is always found. -/
theorem sqliteNumericTextPrefix_total (value : String) : (sqliteNumericTextPrefix value).Total := by
  unfold sqliteNumericTextPrefix
  dsimp only
  split
  · exact total_ok _
  · exact (sliceTo_total (number_boundary _)).bind fun found _ => total_ok _

/-- So is its value as a float. -/
theorem sqliteTextRealPrefix_total (value : String) :
    (sqliteTextRealPrefix machine value).Total := by
  unfold sqliteTextRealPrefix
  dsimp only
  split
  · exact total_ok _
  · exact (sliceTo_total (number_boundary _)).bind fun found _ => total_ok _

/-- So is its value as an integer. -/
theorem sqliteTextIntegerPrefix_total (value : String) : (sqliteTextIntegerPrefix value).Total := by
  have hstop := @scanExponentDigits_boundary _ _ _ _ false
    (scanSign_place (trimStart value.toList)) (scanSign_boundary _)
  refine (sliceTo_total hstop).bind fun candidate _ => ?_
  split
  · exact total_ok _
  · exact total_ok _

/-- Numbers. -/
inductive Number : Value → Prop
  | integer (value : Int64) : Number (.integer value)
  | real (bits : UInt64) : Number (.real bits)

/-- A text is a number to arithmetic. -/
theorem coerceSqliteArithmeticText_number (value : String) :
    ∃ number, coerceSqliteArithmeticText machine value=.ok number ∧ Number number := by
  obtain ⟨found,hfound⟩ := sqliteNumericTextPrefix_total value
  unfold coerceSqliteArithmeticText
  rw [hfound,bind_ok]
  cases found with
  | none => exact ⟨_,rfl,.integer 0⟩
  | some found =>
    dsimp only
    split
    · split
      · exact ⟨_,rfl,.integer _⟩
      · exact ⟨_,rfl,.real _⟩
    · exact ⟨_,rfl,.real _⟩

/-- An operand that is not null becomes a number. -/
theorem coerceSqliteNumericValue_number {value : Value} (h : value≠.null) :
    ∃ number, coerceSqliteNumericValue machine value=.ok number ∧ Number number := by
  cases value with
  | null => exact (h rfl).elim
  | boolean value => exact ⟨_,rfl,.integer _⟩
  | integer value => exact ⟨_,rfl,.integer value⟩
  | real bits => exact ⟨_,rfl,.real bits⟩
  | blob bytes => exact coerceSqliteArithmeticText_number machine _
  | text value => exact coerceSqliteArithmeticText_number machine value

/-- A cast to `INTEGER` gives an integer or null. -/
theorem castInteger_total (value : Value) : ∃ cast, castInteger machine value=.ok cast ∧
    (cast=.null ∨ ∃ found, cast=.integer found) := by
  cases value with
  | null => exact ⟨_,rfl,Or.inl rfl⟩
  | boolean value => exact ⟨_,rfl,Or.inr ⟨_,rfl⟩⟩
  | integer value => exact ⟨_,rfl,Or.inr ⟨_,rfl⟩⟩
  | real bits => exact ⟨_,rfl,Or.inr ⟨_,rfl⟩⟩
  | blob bytes =>
    obtain ⟨found,hfound⟩ := sqliteTextIntegerPrefix_total (machine.fromUtf8Lossy bytes)
    exact ⟨_,by rw [castInteger,hfound,bind_ok],Or.inr ⟨found,rfl⟩⟩
  | text value =>
    obtain ⟨found,hfound⟩ := sqliteTextIntegerPrefix_total value
    exact ⟨_,by rw [castInteger,hfound,bind_ok],Or.inr ⟨found,rfl⟩⟩

/-- Every value is an operand of the bitwise operators. -/
theorem sqliteBitwiseIntegerArg_total (value : Value) :
    (sqliteBitwiseIntegerArg machine value).Total := by
  obtain ⟨cast,hcast,rfl | ⟨found,rfl⟩⟩ := castInteger_total machine value
  · rw [sqliteBitwiseIntegerArg,hcast,bind_ok]
    exact total_ok 0
  · rw [sqliteBitwiseIntegerArg,hcast,bind_ok]
    exact total_ok found

/-- A cast to `REAL` gives a real or null. -/
theorem castReal_total (value : Value) : ∃ cast, castReal machine value=.ok cast ∧
    (cast=.null ∨ ∃ found, cast=.real found) := by
  cases value with
  | null => exact ⟨_,rfl,Or.inl rfl⟩
  | boolean value => exact ⟨_,rfl,Or.inr ⟨_,rfl⟩⟩
  | integer value => exact ⟨_,rfl,Or.inr ⟨_,rfl⟩⟩
  | real bits => exact ⟨_,rfl,Or.inr ⟨_,rfl⟩⟩
  | blob bytes =>
    obtain ⟨found,hfound⟩ := sqliteTextRealPrefix_total machine (machine.fromUtf8Lossy bytes)
    exact ⟨_,by rw [castReal,hfound,bind_ok],Or.inr ⟨found,rfl⟩⟩
  | text value =>
    obtain ⟨found,hfound⟩ := sqliteTextRealPrefix_total machine value
    exact ⟨_,by rw [castReal,hfound,bind_ok],Or.inr ⟨found,rfl⟩⟩

/-- Every value has a float. -/
theorem coerceSqliteNumericReal_total (value : Value) :
    (coerceSqliteNumericReal machine value).Total := by
  obtain ⟨cast,hcast,rfl | ⟨found,rfl⟩⟩ := castReal_total machine value
  · rw [coerceSqliteNumericReal,hcast,bind_ok]
    exact total_ok 0
  · rw [coerceSqliteNumericReal,hcast,bind_ok]
    exact total_ok found

/-! ## Exact results -/

/-- An integer is an `i64`. -/
def Fits (exact : ℤ) : Prop := -2^63 ≤ exact ∧ exact < 2^63

instance (exact : ℤ) : Decidable (Fits exact) := by
  unfold Fits
  infer_instance

/-- The exact result where it fits, else the real one. -/
def fitted (exact : ℤ) (real : UInt64) : Value :=
  if Fits exact then .integer (Int64.ofInt exact) else .real real

/-- A 64-bit integer fits into 64 bits. -/
theorem fits_toInt (value : Int64) : Fits value.toInt :=
  ⟨Int64.le_toInt value,Int64.toInt_lt value⟩

/-- `checked_add` gives the sum if it fits. -/
theorem checkedAdd_eq (l r : Int64) : checkedAdd l r=
    if Fits (l.toInt+r.toInt) then some (Int64.ofInt (l.toInt+r.toInt)) else none := by
  rw [checkedAdd,Int64.ofInt_add,Int64.ofInt_toInt,Int64.ofInt_toInt]
  rfl

/-- `checked_sub` gives the difference if it fits. -/
theorem checkedSub_eq (l r : Int64) : checkedSub l r=
    if Fits (l.toInt-r.toInt) then some (Int64.ofInt (l.toInt-r.toInt)) else none := by
  rw [checkedSub,Int64.ofInt_sub,Int64.ofInt_toInt,Int64.ofInt_toInt]
  rfl

/-- `checked_mul` gives the product if it fits. -/
theorem checkedMul_eq (l r : Int64) : checkedMul l r=
    if Fits (l.toInt*r.toInt) then some (Int64.ofInt (l.toInt*r.toInt)) else none := by
  rw [checkedMul,Int64.ofInt_mul,Int64.ofInt_toInt,Int64.ofInt_toInt]
  rfl

/-- The quotient fits but for the least integer by minus one. -/
theorem fits_tdiv {l r : Int64} (hr : r≠0) :
    Fits (l.toInt.tdiv r.toInt) ↔ ¬(l=Int64.minValue ∧ r=-1) := by
  have hne : r.toInt≠0 := fun h => hr (Int64.toInt_inj.mp (h.trans rfl))
  constructor
  · rintro hfits ⟨rfl,rfl⟩
    exact absurd hfits (by decide)
  · intro hcase
    have hquotient : (l/r).toInt=l.toInt.tdiv r.toInt := by
      by_cases hl : l=Int64.minValue
      · exact Int64.toInt_div_of_ne_right l r fun h => hcase ⟨hl,h⟩
      · exact Int64.toInt_div_of_ne_left l r hl
    rw [←hquotient]
    exact fits_toInt _

/-! ## What SQL asks of an operator -/

/-- A shift by one place; to the left the first bit falls out, to the right the sign stays. -/
def singleShift (toLeft : Bool) (value : Int64) : Int64 :=
  if toLeft then Int64.ofInt (2*value.toInt) else Int64.ofInt (value.toInt/2)

/-- Single shifts, as many as the count says, the other way where it is negative. -/
def repeatedShifts (toLeft : Bool) (value count : Int64) : Int64 :=
  (singleShift (if count.toInt < 0 then !toLeft else toLeft))^[count.toInt.natAbs] value

/-- Zero, as an integer or as a float of either sign. -/
def IsZero : Value → Prop
  | .integer value => value=0
  | .real bits => realEq bits 0=true
  | _ => False

section Requirements

variable (left right : Value) (outcome : Outcome Value)

/-- The result on operands that are integers. -/
def OnIntegers (result : Int64 → Int64 → Value) : Prop :=
  ∀ l r, coerceSqliteNumericValue machine left=.ok (.integer l) →
    coerceSqliteNumericValue machine right=.ok (.integer r) → outcome=.ok (result l r)

/-- The result on the 64-bit integers that the operands are cast to. -/
def OnWords (result : Int64 → Int64 → Int64) : Prop :=
  ∀ l r, sqliteBitwiseIntegerArg machine left=.ok l → sqliteBitwiseIntegerArg machine right=.ok r →
    left≠.null → right≠.null → outcome=.ok (.integer (result l r))

/-- A zero on the right gives null. -/
def NullForZero : Prop :=
  ∀ divisor, coerceSqliteNumericValue machine right=.ok divisor → IsZero divisor → outcome=.ok .null

/-- What an operator with two operands has to do on integers. -/
def BinaryExact : ScalarBinaryOp → Prop
  | .add => OnIntegers machine left right outcome fun l r =>
    fitted (l.toInt+r.toInt) (machine.add (i64ToReal l) (i64ToReal r))
  | .subtract => OnIntegers machine left right outcome fun l r =>
    fitted (l.toInt-r.toInt) (machine.sub (i64ToReal l) (i64ToReal r))
  | .multiply => OnIntegers machine left right outcome fun l r =>
    fitted (l.toInt*r.toInt) (machine.mul (i64ToReal l) (i64ToReal r))
  | .divide => NullForZero machine right outcome ∧
    OnIntegers machine left right outcome fun l r =>
      if r=0 then .null
      else fitted (l.toInt.tdiv r.toInt) (machine.div (i64ToReal l) (i64ToReal r))
  | .modulo => NullForZero machine right outcome ∧
    OnIntegers machine left right outcome fun l r =>
      if r=0 then .null else .integer (Int64.ofInt (l.toInt.tmod r.toInt))
  | .bitAnd => OnWords machine left right outcome fun l r => Int64.ofInt (Int.land l.toInt r.toInt)
  | .bitOr => OnWords machine left right outcome fun l r => Int64.ofInt (Int.lor l.toInt r.toInt)
  | .shiftLeft => OnWords machine left right outcome (repeatedShifts true)
  | .shiftRight => OnWords machine left right outcome (repeatedShifts false)
  | .concat | .jsonExtract | .jsonExtractText => True

end Requirements

/-! ## The binary operators -/

section Binary

variable {machine} {left right : Value}

/-- An operation of two numbers returns where its four cases do. -/
theorem numbers_return {f : Value → Value → Outcome Value}
    (hf : ∀ l r, Number l → Number r → (f l r).Returns) (hl : left≠.null) (hr : right≠.null) :
    (do
      let left ← coerceSqliteNumericValue machine left
      let right ← coerceSqliteNumericValue machine right
      f left right).Returns := by
  obtain ⟨l,hleft,hnumber⟩ := coerceSqliteNumericValue_number machine hl
  obtain ⟨r,hright,hnumber'⟩ := coerceSqliteNumericValue_number machine hr
  rw [hleft,bind_ok,hright,bind_ok]
  exact hf l r hnumber hnumber'

/-- `+`, `-` and `*` of values that are not `NULL` return. -/
theorem sqliteNumericBinaryOp_returns (intOp : Int64 → Int64 → Option Int64)
    (realOp : UInt64 → UInt64 → UInt64) (hl : left≠.null) (hr : right≠.null) :
    (sqliteNumericBinaryOp machine left right intOp realOp).Returns := by
  refine numbers_return (fun l r hl hr => ?_) hl hr
  cases hl with
  | integer l =>
    cases hr with
    | integer r =>
      dsimp only
      split
      · exact returns_ok _
      · exact returns_ok _
    | real r => exact returns_ok _
  | real l =>
    cases hr with
    | integer r => exact returns_ok _
    | real r => exact returns_ok _

/-- An operation that is checked gives the exact result where it fits. -/
theorem sqliteNumericBinaryOp_exact {intOp : Int64 → Int64 → Option Int64} (exact : ℤ → ℤ → ℤ)
    (realOp : UInt64 → UInt64 → UInt64)
    (h : ∀ l r : Int64, intOp l r=
      if Fits (exact l.toInt r.toInt) then some (Int64.ofInt (exact l.toInt r.toInt)) else none) :
    OnIntegers machine left right (sqliteNumericBinaryOp machine left right intOp realOp) fun l r =>
      fitted (exact l.toInt r.toInt) (realOp (i64ToReal l) (i64ToReal r)) := by
  intro l r hl hr
  rw [sqliteNumericBinaryOp,hl,bind_ok,hr,bind_ok]
  dsimp only
  rw [h,fitted]
  split_ifs
  · rfl
  · rfl

/-- The only quotient that does not fit is the one of the smallest integer by -1. -/
theorem divI64_ok {l r : Int64} (hr : r≠0) (h : ¬(l=Int64.minValue ∧ r=-1)) :
    divI64 l r=.ok (l/r) := by
  rw [divI64,Outcome.check,if_pos ⟨hr,h⟩,bind_ok]

/-- The remainder panics at the same operands. -/
theorem remI64_ok {l r : Int64} (hr : r≠0) (h : ¬(l=Int64.minValue ∧ r=-1)) :
    remI64 l r=.ok (l%r) := by
  rw [remI64,Outcome.check,if_pos ⟨hr,h⟩,bind_ok]

/-- A quotient is returned, also for the smallest integer by -1. -/
theorem sqliteDivideOp_returns (hl : left≠.null) (hr : right≠.null) :
    (sqliteDivideOp machine left right).Returns := by
  refine numbers_return (fun l r hl hr => ?_) hl hr
  cases hl with
  | integer l =>
    cases hr with
    | integer r =>
      dsimp only
      split_ifs with hzero hends
      · exact returns_ok _
      · exact returns_ok _
      · rw [divI64_ok hzero hends,bind_ok]
        exact returns_ok _
    | real r =>
      dsimp only
      split_ifs
      · exact returns_ok _
      · exact returns_ok _
  | real l =>
    cases hr with
    | integer r =>
      dsimp only
      split_ifs
      · exact returns_ok _
      · exact returns_ok _
    | real r =>
      dsimp only
      split_ifs
      · exact returns_ok _
      · exact returns_ok _

/-- A division by zero gives `NULL`. -/
theorem sqliteDivideOp_zero (hl : left≠.null) :
    NullForZero machine right (sqliteDivideOp machine left right) := by
  intro divisor hdivisor hzero
  obtain ⟨l,hleft,hnumber⟩ := coerceSqliteNumericValue_number machine hl
  rw [sqliteDivideOp,hleft,bind_ok,hdivisor,bind_ok]
  cases divisor with
  | integer value =>
    cases hnumber with
    | integer l => exact if_pos hzero
    | real l => exact if_pos hzero
  | real bits =>
    cases hnumber with
    | integer l => exact if_pos hzero
    | real l => exact if_pos hzero
  | null => exact hzero.elim
  | boolean value => exact hzero.elim
  | blob bytes => exact hzero.elim
  | text value => exact hzero.elim

/-- A quotient of integers is the exact one, or a float where it does not fit. -/
theorem sqliteDivideOp_exact :
    OnIntegers machine left right (sqliteDivideOp machine left right) fun l r =>
      if r=0 then .null
      else fitted (l.toInt.tdiv r.toInt) (machine.div (i64ToReal l) (i64ToReal r)) := by
  intro l r hl hr
  rw [sqliteDivideOp,hl,bind_ok,hr,bind_ok]
  dsimp only
  split_ifs with hzero hends
  · rfl
  · obtain ⟨rfl,rfl⟩ := hends
    have hreal : i64ToReal (-1)=realMinusOne := by decide +kernel
    rw [fitted,if_neg (by decide),hreal]
  · have hfits := (fits_tdiv hzero).mpr hends
    have hquotient : Int64.ofInt (l.toInt.tdiv r.toInt)=l/r :=
      Int64.toInt_inj.mp (by
        rw [Int64.toInt_ofInt_of_le hfits.1 hfits.2,Int64.toInt_div,
          Int.bmod_eq_of_le (by have h := hfits.1; omega) (by have h := hfits.2; omega)])
    rw [divI64_ok hzero hends,bind_ok,fitted,if_pos hfits,hquotient]

/-- Every number is an operand of `%`. -/
theorem moduloOperand_total {number : Value} (h : Number number) :
    (moduloOperand number).Total := by
  cases h with
  | integer value => exact total_ok value
  | real bits => exact total_ok _

/-- A number is not `NULL`. -/
theorem Number.ne_null {number : Value} (h : Number number) : number≠.null := by
  rintro rfl
  cases h

/-- A remainder is returned. -/
theorem sqliteModuloOp_returns (hl : left≠.null) (hr : right≠.null) :
    (sqliteModuloOp machine left right).Returns := by
  refine numbers_return (fun l r hl hr => ?_) hl hr
  obtain ⟨m,hm⟩ := moduloOperand_total hl
  obtain ⟨n,hn⟩ := moduloOperand_total hr
  rw [if_neg (not_or.mpr ⟨hl.ne_null,hr.ne_null⟩)]
  dsimp only
  rw [hm,bind_ok,hn,bind_ok]
  split_ifs with hzero hends
  · exact returns_ok _
  · rw [bind_ok]
    exact returns_ok _
  · rw [bind_ok]
    exact returns_ok _
  · rw [remI64_ok hzero hends,bind_ok]
    exact returns_ok _
  · rw [remI64_ok hzero hends,bind_ok]
    exact returns_ok _

/-- A float that is zero becomes the integer zero. -/
theorem realToI64_zero {bits : UInt64} (h : realEq bits 0=true) : realToI64 bits=0 := by
  have hplace : realPlace bits=0 := by
    rw [realEq,Bool.and_eq_true,beq_iff_eq] at h
    exact h.2
  have habs : (realAbs bits).toNat=0 := by
    unfold realPlace at hplace
    split at hplace <;> omega
  have hrest : bits.toNat%2^63=0 := (realAbs_toNat bits).symm.trans habs
  have hlt := bits.toNat_lt
  have hcases : bits.toNat=0 ∨ bits.toNat=2^63 := by omega
  rcases hcases with hbits | hbits
  · obtain rfl : bits=0 := UInt64.toNat.inj hbits
    decide +kernel
  · obtain rfl : bits=0x8000000000000000 := UInt64.toNat.inj hbits
    decide +kernel

/-- A remainder by zero is `NULL`. -/
theorem sqliteModuloOp_zero (hl : left≠.null) :
    NullForZero machine right (sqliteModuloOp machine left right) := by
  intro divisor hdivisor hzero
  obtain ⟨l,hleft,hnumber⟩ := coerceSqliteNumericValue_number machine hl
  have hoperand : moduloOperand divisor=.ok 0 ∧ divisor≠.null := by
    cases divisor with
    | integer value => exact ⟨congrArg Outcome.ok hzero,fun h => by cases h⟩
    | real bits => exact ⟨congrArg Outcome.ok (realToI64_zero hzero),fun h => by cases h⟩
    | null => exact hzero.elim
    | boolean value => exact hzero.elim
    | blob bytes => exact hzero.elim
    | text value => exact hzero.elim
  obtain ⟨m,hm⟩ := moduloOperand_total hnumber
  rw [sqliteModuloOp,hleft,bind_ok,hdivisor,bind_ok,
    if_neg (not_or.mpr ⟨hnumber.ne_null,hoperand.2⟩)]
  dsimp only
  rw [hm,bind_ok,hoperand.1,bind_ok,if_pos rfl]

/-- A remainder of integers is the exact one. -/
theorem sqliteModuloOp_exact :
    OnIntegers machine left right (sqliteModuloOp machine left right) fun l r =>
      if r=0 then .null else .integer (Int64.ofInt (l.toInt.tmod r.toInt)) := by
  intro l r hl hr
  rw [sqliteModuloOp,hl,bind_ok,hr,bind_ok,if_neg (by rintro (h | h) <;> cases h)]
  dsimp only [moduloOperand,isReal]
  rw [bind_ok,bind_ok,←Int64.toInt_mod,Int64.ofInt_toInt]
  simp only [Bool.or_self,Bool.false_eq_true,if_false]
  split_ifs with hzero hends
  · rfl
  · obtain ⟨rfl,rfl⟩ := hends
    rfl
  · rw [remI64_ok hzero hends,bind_ok]

/-- `&` and `|` return. -/
theorem sqliteBitwiseBinaryOp_returns (op : Int64 → Int64 → Int64) :
    (sqliteBitwiseBinaryOp machine left right op).Returns :=
  ((sqliteBitwiseIntegerArg_total machine left).bind fun _ _ =>
    (sqliteBitwiseIntegerArg_total machine right).bind fun _ _ => total_ok _).returns

/-- On integers a bitwise operator is its operation on words. -/
theorem sqliteBitwiseBinaryOp_exact {op exact : Int64 → Int64 → Int64}
    (h : ∀ l r, op l r=exact l r) :
    OnWords machine left right (sqliteBitwiseBinaryOp machine left right op) exact := by
  intro l r hl hr _ _
  rw [sqliteBitwiseBinaryOp,hl,bind_ok,hr,bind_ok,h]

/-- `&` of integers is `&` of their two's complements. -/
theorem and_eq (l r : Int64) : l &&& r=Int64.ofInt (Int.land l.toInt r.toInt) := by
  have hbits : (l &&& r).toInt=Int.land l.toInt r.toInt := Words.toInt_and _ _
  rw [←hbits,Int64.ofInt_toInt]

/-- `|` of integers is `|` of their two's complements. -/
theorem or_eq (l r : Int64) : l ||| r=Int64.ofInt (Int.lor l.toInt r.toInt) := by
  have hbits : (l ||| r).toInt=Int.lor l.toInt r.toInt := Words.toInt_or _ _
  rw [←hbits,Int64.ofInt_toInt]

/-! ## Shifts -/

/-- A shift to the left by one doubles. -/
theorem singleShift_left (word : BitVec 64) :
    Int64.ofBitVec (word <<< 1)=singleShift true (Int64.ofBitVec word) := by
  rw [singleShift,if_pos rfl,Int64.ofInt_mul,Int64.ofInt_toInt]
  refine Int64.toBitVec_inj.mp (BitVec.eq_of_toNat_eq ?_)
  change _=((2 : BitVec 64)*word).toNat
  rw [BitVec.toNat_mul]
  change (word <<< 1).toNat=_
  rw [BitVec.toNat_shiftLeft,Nat.shiftLeft_eq,mul_comm]
  rfl

/-- A shift to the right by one halves. -/
theorem singleShift_right (word : BitVec 64) :
    Int64.ofBitVec (word.sshiftRight 1)=singleShift false (Int64.ofBitVec word) := by
  have hfits := fits_toInt (Int64.ofBitVec word)
  rw [singleShift,if_neg (by decide)]
  refine Int64.toInt_inj.mp ?_
  rw [Int64.toInt_ofInt_of_le (by have h := hfits.1; omega) (by have h := hfits.2; omega),
    Int64.toInt_ofBitVec,BitVec.toInt_sshiftRight,Int.shiftRight_eq_div_pow]
  rfl

/-- Many single shifts to the left are one. -/
theorem singleShift_left_iterate (value : Int64) (n : ℕ) :
    (singleShift true)^[n] value=Int64.ofBitVec (value.toBitVec <<< n) := by
  have hsemi : Function.Semiconj Int64.ofBitVec (fun y => y <<< 1) (singleShift true) :=
    singleShift_left
  have hiterate := hsemi.iterate_right n value.toBitVec
  rw [Words.shiftLeft_iterate] at hiterate
  exact hiterate.symm

/-- Many single shifts to the right are one. -/
theorem singleShift_right_iterate (value : Int64) (n : ℕ) :
    (singleShift false)^[n] value=Int64.ofBitVec (value.toBitVec.sshiftRight n) := by
  have hsemi : Function.Semiconj Int64.ofBitVec (fun y => y.sshiftRight 1) (singleShift false) :=
    singleShift_right
  have hiterate := hsemi.iterate_right n value.toBitVec
  rw [Words.sshiftRight_iterate] at hiterate
  exact hiterate.symm

/-- Shifts by the width of a word or more leave nothing, or the sign. -/
theorem singleShift_far (toLeft : Bool) (value : Int64) {n : ℕ} (h : 64 ≤ n) :
    (singleShift toLeft)^[n] value=if toLeft=true ∨ 0 ≤ value then 0 else -1 := by
  cases toLeft with
  | true =>
    rw [singleShift_left_iterate,BitVec.shiftLeft_eq_zero h,if_pos (Or.inl rfl)]
    rfl
  | false =>
    have hsign : (0 ≤ value) ↔ ¬value.toInt < 0 := by
      rw [Int64.le_iff_toInt_le]
      exact Int.not_lt.symm
    have hrest := Words.toInt_sshiftRight_of_le (x := value.toBitVec) h
    rw [singleShift_right_iterate]
    refine Int64.toInt_inj.mp (hrest.trans ?_)
    rw [Int64.toInt_toBitVec]
    by_cases hneg : value.toInt < 0
    · rw [if_pos hneg,if_neg (by simp [hsign,hneg])]
      rfl
    · rw [if_neg hneg,if_pos (Or.inr (hsign.mpr hneg))]
      rfl

/-- A shift is that many shifts by one. -/
theorem sqliteShiftOp_eq {l r : Int64} (leftShift : Bool)
    (hl : sqliteBitwiseIntegerArg machine left=.ok l)
    (hr : sqliteBitwiseIntegerArg machine right=.ok r) :
    sqliteShiftOp machine left right leftShift=.ok (.integer (repeatedShifts leftShift l r)) := by
  have hsign : r < 0 ↔ r.toInt < 0 := Int64.lt_iff_toInt_lt
  rw [sqliteShiftOp,hl,bind_ok,hr,bind_ok,repeatedShifts]
  simp only [hsign]
  generalize (if r.toInt < 0 then !leftShift else leftShift)=toLeft
  by_cases hfar : 64 ≤ r.toInt.natAbs
  · rw [if_pos hfar,singleShift_far toLeft l hfar]
  · have hcheck : Outcome.check (r.toInt.natAbs < 2^32)=.ok () := if_pos (by omega)
    have hmod : r.toInt.natAbs%64=r.toInt.natAbs := Nat.mod_eq_of_lt (by omega)
    rw [if_neg hfar,hcheck,bind_ok]
    cases toLeft with
    | true => rw [if_pos rfl,wrappingShl,hmod,singleShift_left_iterate]
    | false => rw [if_neg (by decide),wrappingShr,hmod,singleShift_right_iterate]

/-- A shift returns. -/
theorem sqliteShiftOp_returns (leftShift : Bool) :
    (sqliteShiftOp machine left right leftShift).Returns := by
  obtain ⟨l,hl⟩ := sqliteBitwiseIntegerArg_total machine left
  obtain ⟨r,hr⟩ := sqliteBitwiseIntegerArg_total machine right
  rw [sqliteShiftOp_eq leftShift hl hr]
  exact returns_ok _

/-- Every binary operator returns. -/
theorem evaluateBinaryScalar_returns (op : ScalarBinaryOp) :
    (evaluateBinaryScalar machine texts op left right).Returns := by
  unfold evaluateBinaryScalar
  split_ifs with hnull
  · exact returns_ok _
  obtain ⟨hl,hr⟩ := not_or.mp hnull
  cases op with
  | add => exact sqliteNumericBinaryOp_returns _ _ hl hr
  | subtract => exact sqliteNumericBinaryOp_returns _ _ hl hr
  | multiply => exact sqliteNumericBinaryOp_returns _ _ hl hr
  | divide => exact sqliteDivideOp_returns hl hr
  | modulo => exact sqliteModuloOp_returns hl hr
  | bitAnd => exact sqliteBitwiseBinaryOp_returns _
  | bitOr => exact sqliteBitwiseBinaryOp_returns _
  | shiftLeft => exact sqliteShiftOp_returns true
  | shiftRight => exact sqliteShiftOp_returns false
  | concat => exact returns_ofExcept _
  | jsonExtract => exact returns_ofExcept _
  | jsonExtractText => exact returns_ofExcept _

/-- Every binary operator is exact on integers. -/
theorem evaluateBinaryScalar_exact (op : ScalarBinaryOp) (hl : left≠.null) (hr : right≠.null) :
    BinaryExact machine left right (evaluateBinaryScalar machine texts op left right) op := by
  unfold evaluateBinaryScalar
  rw [if_neg (not_or.mpr ⟨hl,hr⟩)]
  cases op with
  | add => exact sqliteNumericBinaryOp_exact (· + ·) machine.add checkedAdd_eq
  | subtract => exact sqliteNumericBinaryOp_exact (· - ·) machine.sub checkedSub_eq
  | multiply => exact sqliteNumericBinaryOp_exact (· * ·) machine.mul checkedMul_eq
  | divide => exact ⟨sqliteDivideOp_zero hl,sqliteDivideOp_exact⟩
  | modulo => exact ⟨sqliteModuloOp_zero hl,sqliteModuloOp_exact⟩
  | bitAnd => exact sqliteBitwiseBinaryOp_exact and_eq
  | bitOr => exact sqliteBitwiseBinaryOp_exact or_eq
  | shiftLeft => exact fun l r hl hr _ _ => sqliteShiftOp_eq true hl hr
  | shiftRight => exact fun l r hl hr _ _ => sqliteShiftOp_eq false hl hr
  | concat => trivial
  | jsonExtract => trivial
  | jsonExtractText => trivial

end Binary

/-! ## Every operator -/

/-- An operator with the values of its operands. -/
inductive Operation where
  | binary (op : ScalarBinaryOp) (left right : Value)
  | unaryMinus (copy : Evaluator) (value : Value)
  | bitNot (copy : Evaluator) (value : Value)
  | abs (value : Value)

/-- What the executor does with an operation. -/
def Operation.run : Operation → Outcome Value
  | .binary op left right => evaluateBinaryScalar machine texts op left right
  | .unaryMinus copy value => Arithmetic.unaryMinus machine build copy value
  | .bitNot copy value => Arithmetic.bitNot machine copy value
  | .abs value => absFunction machine [value]

/-- The operation comes back, with null for a null operand. On integers the result is exact
where it fits and real where it does not. -/
def Operation.Exact (outcome : Outcome Value) : Operation → Prop
  | .binary op left right => outcome.Returns ∧
    if left=.null ∨ right=.null then outcome=.ok .null else BinaryExact machine left right outcome op
  | .unaryMinus _ value => outcome.Returns ∧ (value=.null → outcome=.ok .null) ∧
    ∀ n, coerceSqliteNumericValue machine value=.ok (.integer n) →
      outcome=.ok (fitted (-n.toInt) (realNeg (i64ToReal n)))
  | .bitNot _ value => outcome.Returns ∧ (value=.null → outcome=.ok .null) ∧
    ∀ n, sqliteBitwiseIntegerArg machine value=.ok n → value≠.null →
      outcome=.ok (.integer (Int64.ofInt (-n.toInt-1)))
  | .abs value => outcome.Returns ∧ (value=.null → outcome=.ok .null) ∧
    ∀ n, value=.integer n → outcome=
      if n=Int64.minValue then .err (.plan "ABS overflowed i64")
      else .ok (.integer (Int64.ofInt |n.toInt|))

/-- The least integer is negated. -/
def Operation.NegatesMinimum : Operation → Prop
  | .unaryMinus _ value => coerceSqliteNumericValue machine value=.ok (.integer Int64.minValue)
  | _ => False

/-- The negation of another integer fits. -/
theorem fits_neg {n : Int64} (h : n≠Int64.minValue) : Fits (-n.toInt) := by
  have hlow := Int64.le_toInt n
  have hhigh := Int64.toInt_lt n
  have hne : n.toInt≠-2^63 := fun heq =>
    h (Int64.toInt_inj.mp (heq.trans Int64.toInt_minValue.symm))
  exact ⟨by omega,by omega⟩

/-- Every integer but the smallest one has a negative. -/
theorem negI64_ok {n : Int64} (h : n≠Int64.minValue) : negI64 build n=.ok (-n) := by
  have hcheck : Outcome.check (¬(build=.checked ∧ n=Int64.minValue))=.ok () :=
    if_pos fun hmin => h hmin.2
  rw [negI64,hcheck]
  rfl

/-- That one is the exact negative. -/
theorem negateNumber_exact {n : Int64} (h : n≠Int64.minValue) :
    negateNumber build (.integer n)=.ok (fitted (-n.toInt) (realNeg (i64ToReal n))) := by
  have hfit : fitted (-n.toInt) (realNeg (i64ToReal n))=.integer (Int64.ofInt (-n.toInt)) :=
    if_pos (fits_neg h)
  have hnegate : negateNumber build (.integer n)=
      negI64 build n >>= fun negated => .ok (Value.integer negated) := rfl
  rw [hnegate,negI64_ok build h,hfit,Int64.ofInt_neg,Int64.ofInt_toInt]
  rfl

/-- Both copies negate the number of the operand. -/
theorem unaryMinus_eq (copy : Evaluator) {value : Value} (h : value≠.null) :
    unaryMinus machine build copy value=
      coerceSqliteNumericValue machine value >>= negateNumber build := by
  cases copy with
  | selectList => exact if_neg h
  | filter => exact if_neg h

/-- Unary minus is exact but for the smallest integer. -/
theorem unaryMinus_exact_iff (copy : Evaluator) (value : Value) :
    Operation.Exact machine (unaryMinus machine build copy value) (.unaryMinus copy value) ↔
      coerceSqliteNumericValue machine value≠.ok (.integer Int64.minValue) := by
  constructor
  · rintro ⟨hreturns,-,hexact⟩ hminimum
    have hnull : value≠.null := by
      rintro rfl
      cases hminimum
    have hresult := hexact _ hminimum
    rw [unaryMinus_eq machine build copy hnull,hminimum,bind_ok] at hresult
    cases build with
    | checked => cases hresult
    | unchecked =>
      rw [fitted,if_neg (by decide)] at hresult
      cases hresult
  · intro hminimum
    by_cases hnull : value=.null
    · subst hnull
      have hrun : unaryMinus machine build copy .null=.ok .null := by
        cases copy with
        | selectList => rfl
        | filter => rfl
      refine ⟨?_,fun _ => hrun,fun n hn => by cases hn⟩
      rw [hrun]
      exact returns_ok _
    · obtain ⟨number,hnumber,hkind⟩ := coerceSqliteNumericValue_number machine hnull
      have hrun := unaryMinus_eq machine build copy hnull
      rw [hnumber,bind_ok] at hrun
      cases hkind with
      | integer n =>
        have hn : n≠Int64.minValue := by
          rintro rfl
          exact hminimum hnumber
        rw [negateNumber_exact build hn] at hrun
        refine ⟨?_,fun h => (hnull h).elim,fun m hm => ?_⟩
        · rw [hrun]
          exact returns_ok _
        · rw [hnumber] at hm
          cases hm
          exact hrun
      | real bits =>
        refine ⟨?_,fun h => (hnull h).elim,fun m hm => ?_⟩
        · rw [hrun]
          exact returns_ok _
        · rw [hnumber] at hm
          cases hm

/-- `~` of an integer is one less than its negative. -/
theorem not_eq (n : Int64) : ~~~n=Int64.ofInt (-n.toInt-1) := by
  rw [Int64.not_eq_neg_sub,Int64.ofInt_sub,Int64.ofInt_neg,Int64.ofInt_toInt]
  rfl

/-- `~` is exact. -/
theorem bitNot_exact (copy : Evaluator) (value : Value) :
    Operation.Exact machine (bitNot machine copy value) (.bitNot copy value) := by
  by_cases hnull : value=.null
  · subst hnull
    have hrun : bitNot machine copy .null=.ok .null := by
      cases copy with
      | selectList => rfl
      | filter => rfl
    refine ⟨?_,fun _ => hrun,fun n _ h => (h rfl).elim⟩
    rw [hrun]
    exact returns_ok _
  · obtain ⟨found,hfound⟩ := sqliteBitwiseIntegerArg_total machine value
    have hrun : bitNot machine copy value=.ok (.integer (~~~found)) := by
      cases copy with
      | selectList => rw [bitNot,if_neg hnull,hfound,bind_ok]
      | filter => rw [bitNot,if_neg hnull,hfound,bind_ok]
    refine ⟨?_,fun h => (hnull h).elim,fun n hn _ => ?_⟩
    · rw [hrun]
      exact returns_ok _
    · rw [hfound] at hn
      cases hn
      rw [hrun,not_eq]

/-- `abs` is exact. -/
theorem absFunction_exact (value : Value) :
    Operation.Exact machine (absFunction machine [value]) (.abs value) := by
  have hreal (h : value≠.null) (hinteger : ∀ n, value≠.integer n)
      (hrun : absFunction machine [value]=
        coerceSqliteNumericReal machine value >>= fun found => .ok (.real (realAbs found))) :
      Operation.Exact machine (absFunction machine [value]) (.abs value) := by
    refine ⟨?_,fun hnull => (h hnull).elim,fun n hn => (hinteger n hn).elim⟩
    rw [hrun]
    exact ((coerceSqliteNumericReal_total machine value).bind fun _ _ => total_ok _).returns
  cases value with
  | null => exact ⟨returns_ok _,fun _ => rfl,fun n hn => by cases hn⟩
  | integer n =>
    have hrun : absFunction machine [.integer n]=
        if n=Int64.minValue then .err (.plan "ABS overflowed i64")
        else .ok (.integer (Int64.ofInt |n.toInt|)) := by
      have habs : checkedAbs n=if n=Int64.minValue then none else some (Int64.ofInt |n.toInt|) := rfl
      by_cases hmin : n=Int64.minValue
      · rw [if_pos hmin] at habs ⊢
        simp only [absFunction,habs]
        rfl
      · rw [if_neg hmin] at habs ⊢
        simp only [absFunction,habs]
        rfl
    refine ⟨?_,fun h => (by cases h),fun m hm => ?_⟩
    · rw [hrun]
      split_ifs
      · exact returns_err _
      · exact returns_ok _
    · cases hm
      exact hrun
  | real bits =>
    exact ⟨returns_ok _,fun h => (by cases h),fun n hn => (by cases hn)⟩
  | boolean value =>
    exact hreal (fun h => by cases h) (fun n hn => by cases hn) rfl
  | blob bytes => exact hreal (fun h => by cases h) (fun n hn => by cases hn) rfl
  | text value => exact hreal (fun h => by cases h) (fun n hn => by cases hn) rfl

/-- Every operator, on every value of its operands and in either build, returns and is exact
near the limits, but for the negation of the least integer. -/
theorem arithmetic_exact_iff (operation : Operation) :
    operation.Exact machine (operation.run machine build texts) ↔
      ¬operation.NegatesMinimum machine := by
  cases operation with
  | binary op left right =>
    refine ⟨fun _ h => h,fun _ => ⟨evaluateBinaryScalar_returns texts op,?_⟩⟩
    split_ifs with hnull
    · exact if_pos hnull
    · obtain ⟨hl,hr⟩ := not_or.mp hnull
      exact evaluateBinaryScalar_exact texts op hl hr
  | unaryMinus copy value => exact unaryMinus_exact_iff machine build copy value
  | bitNot copy value => exact ⟨fun _ h => h,fun _ => bitNot_exact machine copy value⟩
  | abs value => exact ⟨fun _ h => h,fun _ => absFunction_exact machine value⟩

/-- A machine for arithmetic on integers. -/
def wordMachine : Machine where
  toMachine := integerMachine
  sub left _ := left

/-- Negating the least integer panics in a build with checks, in both copies of the evaluator,
and leaves it as it is in a build without them; the exact result is a float. -/
theorem minimum_negated :
    unaryMinus wordMachine .checked .selectList (.integer Int64.minValue)=.stuck ∧
    unaryMinus wordMachine .checked .filter (.integer Int64.minValue)=.stuck ∧
    unaryMinus wordMachine .unchecked .selectList (.integer Int64.minValue)=
      .ok (.integer Int64.minValue) ∧
    unaryMinus wordMachine .unchecked .filter (.integer Int64.minValue)=
      .ok (.integer Int64.minValue) ∧
    fitted (-Int64.minValue.toInt) (realNeg (i64ToReal Int64.minValue))=
      .real 0x43E0000000000000 := by
  refine ⟨rfl,rfl,rfl,rfl,?_⟩
  rw [fitted,if_neg (by decide)]
  refine congrArg Value.real ?_
  decide +kernel

end RustSql.Sql.Arithmetic
