import RustSql.Common.Rankings
import RustSql.Sql.SameValues

/-!
# Keys of `ORDER BY`

`compare_order_keys` compares the keys of rows term by term. It is a total preorder on the keys
made of some values unless two different integers and a real among them have the same float:
the integers are then told apart, and the real is equal to both.
-/

namespace RustSql.Sql

/-! ## Places of values -/

/-- Two different integers and a real have the same float. -/
def RealShared (values : Set Value) : Prop :=
  ∃ (m n : Int64) (bits : UInt64), Value.integer m∈values ∧ Value.integer n∈values ∧
    Value.real bits∈values ∧ m≠n ∧ i64ToReal m=bits ∧ i64ToReal n=bits

/-- The integer a number is: that of the same float, for a real. -/
noncomputable def integerOf (values : Set Value) : Value → ℤ
  | .boolean value => (value.toNat : ℤ)
  | .integer value => value.toInt
  | .real bits =>
    @dite ℤ (∃ n : Int64, (Value.integer n∈values ∨ n.toInt=0 ∨ n.toInt=1) ∧ i64ToReal n=bits)
      (Classical.propDecidable _) (fun h => h.choose.toInt) fun _ => 0
  | _ => 0

/-- A value that is an integer to the comparison. -/
structure IsInteger (values : Set Value) (value : Value) (n : Int64) : Prop where
  real : asReal value=some (i64ToReal n)
  integer : integerOf values value=n.toInt
  among : Value.integer n∈values ∨ n.toInt=0 ∨ n.toInt=1

variable {values : Set Value}

theorem isInteger_integer {n : Int64} (h : Value.integer n∈values) :
    IsInteger values (.integer n) n :=
  ⟨rfl,rfl,Or.inl h⟩

theorem isInteger_boolean (flag : Bool) :
    IsInteger values (.boolean flag) (if flag then 1 else 0) := by
  cases flag with
  | false => exact ⟨by decide +kernel,rfl,Or.inr (Or.inl rfl)⟩
  | true => exact ⟨by decide +kernel,rfl,Or.inr (Or.inr rfl)⟩

variable {bits x y : UInt64} {a b value : Value}

/-- A real with the float of an integer is that integer. -/
theorem integerOf_real (hfree : ¬RealShared values) {n : Int64}
    (hn : Value.integer n∈values ∨ n.toInt=0 ∨ n.toInt=1) (hbits : Value.real bits∈values)
    (h : i64ToReal n=bits) : integerOf values (.real bits)=n.toInt := by
  have hex : ∃ n : Int64, (Value.integer n∈values ∨ n.toInt=0 ∨ n.toInt=1) ∧
      i64ToReal n=bits := ⟨n,hn,h⟩
  obtain ⟨hm,hreal⟩ := hex.choose_spec
  rw [integerOf,dif_pos hex]
  have hsame : i64ToReal hex.choose=i64ToReal n := hreal.trans h.symm
  -- zero and one share their floats with no other integer
  have hsmall : ∀ a b : Int64, i64ToReal a=i64ToReal b → b.toInt=0 ∨ b.toInt=1 →
      a.toInt=b.toInt := by
    rintro a b hab (hb | hb)
    · rw [i64ToReal_eq_zero.mpr hb] at hab
      rw [hb,i64ToReal_eq_zero.mp hab]
    · rw [i64ToReal_eq_one.mpr hb] at hab
      rw [hb,i64ToReal_eq_one.mp hab]
  rcases hn with hn | hn
  · rcases hm with hm | hm
    · by_contra hne
      exact hfree ⟨_,n,bits,hm,hn,hbits,fun heq => hne (congrArg Int64.toInt heq),hreal,h⟩
    · exact (hsmall n _ hsame.symm hm).symm
  · exact hsmall _ n hsame hn

/-! ## Comparing numbers -/

/-- The place of a number: its float, then the integer it is. -/
noncomputable def numberPlace (values : Set Value) (value : Value) (bits : UInt64) : ℕ ×ₗ ℤ :=
  toLex (realOrderKey bits,integerOf values value)

theorem lex_iff_snd {p q : ℕ} {m n : ℤ} (h : m ≤ n → p ≤ q) (h' : n ≤ m → q ≤ p) :
    ((toLex (p,m) : ℕ ×ₗ ℤ) < toLex (q,n) ↔ m < n) ∧
      ((toLex (p,m) : ℕ ×ₗ ℤ)=toLex (q,n) ↔ m=n) := by
  rw [Prod.Lex.toLex_lt_toLex,toLex_inj,Prod.mk.injEq]
  dsimp only
  constructor
  · constructor <;> intro hless
    · omega
    · have hle := h hless.le
      omega
  · constructor <;> intro hless
    · omega
    · have hle := h hless.le
      have hle' := h' hless.ge
      omega

theorem lex_iff_fst {p q : ℕ} {m n : ℤ} (h : p=q → m=n) :
    ((toLex (p,m) : ℕ ×ₗ ℤ) < toLex (q,n) ↔ p < q) ∧
      ((toLex (p,m) : ℕ ×ₗ ℤ)=toLex (q,n) ↔ p=q) := by
  rw [Prod.Lex.toLex_lt_toLex,toLex_inj,Prod.mk.injEq]
  dsimp only
  constructor
  · constructor <;> intro hless
    · rcases hless with hless | ⟨heq,hless⟩
      · exact hless
      · have hmn := h heq
        omega
    · exact Or.inl hless
  · exact ⟨fun hboth => hboth.1,fun heq => ⟨heq,h heq⟩⟩

variable (operators : Operators)

/-- How numbers compare: as their places do. -/
def ComparesAs (a b : Value) (p q : ℕ ×ₗ ℤ) : Prop :=
  ∃ ordering, compareValues operators.casting a b=some ordering ∧
    (ordering=.lt ↔ p < q) ∧ (ordering=.eq ↔ p=q)

variable {operators}

/-- Integers compare as integers. -/
theorem comparesAs_integers {m n : Int64} (ha : IsInteger values a m) (hb : IsInteger values b n)
    (h : compareValues operators.casting a b=some (compare m.toInt n.toInt)) :
    ComparesAs operators a b (numberPlace values a (i64ToReal m))
      (numberPlace values b (i64ToReal n)) := by
  have hlex := lex_iff_snd (@realOrderKey_i64ToReal_mono m n) (@realOrderKey_i64ToReal_mono n m)
  refine ⟨_,h,?_,?_⟩
  · rw [numberPlace,numberPlace,ha.integer,hb.integer,hlex.1]
    exact compare_lt_iff_lt
  · rw [numberPlace,numberPlace,ha.integer,hb.integer,hlex.2]
    exact compare_eq_iff_eq

/-- Where a real is one of them, numbers compare as floats. -/
theorem comparesAs_floats (hsame : x=y → integerOf values a=integerOf values b)
    (h : compareValues operators.casting a b=some (totalCmp x y)) :
    ComparesAs operators a b (numberPlace values a x) (numberPlace values b y) := by
  have hlex := lex_iff_fst fun heq => hsame (realOrderKey_inj.mp heq)
  refine ⟨_,h,?_,?_⟩
  · rw [numberPlace,numberPlace,hlex.1]
    exact compare_lt_iff_lt
  · rw [numberPlace,numberPlace,hlex.2]
    exact compare_eq_iff_eq

/-- A real beside an integer with its float is that integer. -/
theorem IsInteger.eq_real {n : Int64} (h : IsInteger values value n)
    (hfree : ¬RealShared values) (hx : asReal value=some x)
    (hbits : Value.real bits∈values) (hsame : x=bits) :
    integerOf values value=integerOf values (.real bits) := by
  have hreal : i64ToReal n=bits := (Option.some.inj (h.real.symm.trans hx)).trans hsame
  rw [h.integer,integerOf_real hfree h.among hbits hreal]

/-- Without a shared float numbers compare as their places do. -/
theorem comparesAs_numbers (hfree : ¬RealShared values) (ha : a∈values)
    (hb : b∈values) (hx : asReal a=some x) (hy : asReal b=some y) :
    ComparesAs operators a b (numberPlace values a x) (numberPlace values b y) := by
  cases a with
  | boolean flag =>
    have hflag := @isInteger_boolean values flag
    cases b with
    | boolean other =>
      have hother := @isInteger_boolean values other
      obtain rfl := Option.some.inj (hflag.real.symm.trans hx)
      obtain rfl := Option.some.inj (hother.real.symm.trans hy)
      refine comparesAs_integers hflag hother ?_
      cases flag <;> cases other <;> rfl
    | integer n =>
      obtain rfl := Option.some.inj (hflag.real.symm.trans hx)
      obtain rfl := Option.some.inj hy
      refine comparesAs_integers hflag (isInteger_integer hb) ?_
      cases flag <;> rfl
    | real bits =>
      obtain rfl := Option.some.inj hy
      obtain rfl := Option.some.inj hx
      exact comparesAs_floats (hflag.eq_real hfree rfl hb) rfl
    | _ => cases hy
  | integer m =>
    have hm := isInteger_integer ha
    cases b with
    | boolean other =>
      have hother := @isInteger_boolean values other
      obtain rfl := Option.some.inj hx
      obtain rfl := Option.some.inj (hother.real.symm.trans hy)
      refine comparesAs_integers hm hother ?_
      cases other <;> rfl
    | integer n =>
      obtain rfl := Option.some.inj hx
      obtain rfl := Option.some.inj hy
      exact comparesAs_integers hm (isInteger_integer hb) rfl
    | real bits =>
      obtain rfl := Option.some.inj hy
      obtain rfl := Option.some.inj hx
      exact comparesAs_floats (hm.eq_real hfree rfl hb) rfl
    | _ => cases hy
  | real bits =>
    obtain rfl := Option.some.inj hx
    cases b with
    | boolean other =>
      obtain rfl := Option.some.inj hy
      have hother := @isInteger_boolean values other
      exact comparesAs_floats (fun hsame => (hother.eq_real hfree rfl ha hsame.symm).symm) rfl
    | integer n =>
      obtain rfl := Option.some.inj hy
      have hn := isInteger_integer hb
      exact comparesAs_floats (fun hsame => (hn.eq_real hfree rfl ha hsame.symm).symm) rfl
    | real other =>
      obtain rfl := Option.some.inj hy
      refine comparesAs_floats (fun hsame => ?_) rfl
      rw [hsame]
    | _ => cases hy
  | _ => cases hx

/-! ## One term -/

variable {S : Type} {item : OrderBy S} {terms : List (OrderBy S × Bool)}

/-- The place of a value that is not null. -/
noncomputable def orderPlace (values : Set Value) (item : OrderBy S) :
    Value → ℕ ×ₗ (ℕ ×ₗ ℤ) ×ₗ List ℕ ×ₗ String
  | .null => toLex (0,toLex (toLex (0,0),toLex ([],"")))
  | .text value =>
    if item.collation.any fun collation => eqIgnoreAsciiCase collation "NOCASE" then
      toLex (2,toLex (toLex (0,0),toLex (value.toList.map fun char => (asciiLower char).toNat,"")))
    else toLex (2,toLex (toLex (0,0),toLex ([],value)))
  | .blob bytes => toLex (3,toLex (toLex (0,0),toLex (bytes.map UInt8.toNat,"")))
  | value => toLex (1,toLex (numberPlace values value ((asReal value).getD 0),toLex ([],"")))

theorem orderPlace_number (h : asReal value=some bits) :
    orderPlace values item value=
      toLex (1,toLex (numberPlace values value bits,toLex ([],""))) := by
  cases value with
  | boolean flag =>
    obtain rfl := Option.some.inj h
    rfl
  | integer n =>
    obtain rfl := Option.some.inj h
    rfl
  | real other =>
    obtain rfl := Option.some.inj h
    rfl
  | _ => cases h

/-- Numbers compare as numbers, whatever the collation. -/
theorem compareOrder_number (h : asReal a=some bits) :
    compareOrderNonNullValues operators a b item=(compareValues operators a b).getD .eq := by
  cases a with
  | text left => cases h
  | _ => rfl

/-- A place begins with the class of the value. -/
theorem orderPlace_rank (values : Set Value) (item : OrderBy S) (value : Value) :
    ∃ rest, orderPlace values item value=toLex (storageClassRank value,rest) := by
  cases value with
  | text value =>
    rw [orderPlace]
    split <;> exact ⟨_,rfl⟩
  | _ => exact ⟨_,rfl⟩

/-- Values of different classes compare as their classes do. -/
theorem compareOrder_rank (ha : a≠.null) (hb : b≠.null)
    (h : storageClassRank a≠storageClassRank b) :
    compareOrderNonNullValues operators a b item=
      compare (storageClassRank a) (storageClassRank b) := by
  cases a <;> cases b <;> first
    | rfl
    | exact (ha rfl).elim
    | exact (hb rfl).elim
    | exact (h rfl).elim

/-- Texts without regard to case are compared letter by letter. -/
theorem nocase_orderedBy :
    OrderedBy (compareLists fun x y : Char => compare (asciiLower x).toNat (asciiLower y).toNat)
      (List.map fun char => (asciiLower char).toNat) :=
  OrderedBy.lists ⟨fun _ _ => compare_lt_iff_lt,fun _ _ => compare_eq_iff_eq⟩

/-- Values that are not null compare as their places do. -/
theorem orderNonNull_place (hfree : ¬RealShared values) (item : OrderBy S)
    (ha : a∈values) (hb : b∈values) (hane : a≠.null) (hbne : b≠.null) :
    (compareOrderNonNullValues operators.casting a b item=.lt ↔
        orderPlace values item a < orderPlace values item b) ∧
      (compareOrderNonNullValues operators.casting a b item=.eq ↔
        orderPlace values item a=orderPlace values item b) := by
  have hnumbers : ∀ x y, asReal a=some x → asReal b=some y →
      (compareOrderNonNullValues operators.casting a b item=.lt ↔
          orderPlace values item a < orderPlace values item b) ∧
        (compareOrderNonNullValues operators.casting a b item=.eq ↔
          orderPlace values item a=orderPlace values item b) := by
    intro x y hx hy
    obtain ⟨ordering,hordering,hlt,heq⟩ := @comparesAs_numbers values x y a b operators hfree ha hb hx hy
    rw [compareOrder_number hx,hordering,orderPlace_number hx,orderPlace_number hy,
      Option.getD_some,hlt,heq]
    simp [Prod.Lex.toLex_lt_toLex]
  have hclasses : storageClassRank a≠storageClassRank b →
      (compareOrderNonNullValues operators.casting a b item=.lt ↔
          orderPlace values item a < orderPlace values item b) ∧
        (compareOrderNonNullValues operators.casting a b item=.eq ↔
          orderPlace values item a=orderPlace values item b) := by
    intro hrank
    obtain ⟨rest,hrest⟩ := orderPlace_rank values item a
    obtain ⟨rest',hrest'⟩ := orderPlace_rank values item b
    rw [compareOrder_rank hane hbne hrank,hrest,hrest',compare_lt_iff_lt,compare_eq_iff_eq]
    simp [Prod.Lex.toLex_lt_toLex,hrank]
  cases a with
  | null => exact (hane rfl).elim
  | text left =>
    cases b with
    | null => exact (hbne rfl).elim
    | text right =>
      rw [compareOrderNonNullValues,orderPlace,orderPlace]
      split
      · rw [nocaseCmp]
        have hlt := nocase_orderedBy.lt left.toList right.toList
        have heq := nocase_orderedBy.eq left.toList right.toList
        simp only [Prod.Lex.toLex_lt_toLex,toLex_inj,Prod.mk.injEq,lt_self_iff_false,true_and,
          false_or,and_true,and_false,or_false]
        exact ⟨hlt,heq⟩
      · rw [compareValues,Option.getD_some,compare_lt_iff_lt,compare_eq_iff_eq]
        simp only [Prod.Lex.toLex_lt_toLex,toLex_inj,Prod.mk.injEq,lt_self_iff_false,true_and,
          false_or]
    | _ => exact hclasses (by simp [storageClassRank])
  | blob left =>
    cases b with
    | null => exact (hbne rfl).elim
    | blob right =>
      have hlt := bytes_orderedBy.lt left right
      have heq := bytes_orderedBy.eq left right
      have hcmp : compareOrderNonNullValues operators.casting (.blob left) (.blob right) item=
          compareLists (fun x y : UInt8 => compare x.toNat y.toNat) left right := rfl
      rw [hcmp,orderPlace,orderPlace]
      simp only [Prod.Lex.toLex_lt_toLex,toLex_inj,Prod.mk.injEq,lt_self_iff_false,true_and,
        false_or,and_true,and_false,or_false]
      exact ⟨hlt,heq⟩
    | _ => exact hclasses (by simp [storageClassRank])
  | _ =>
    cases b with
    | null => exact (hbne rfl).elim
    | text right => exact hclasses (by simp [storageClassRank])
    | blob right => exact hclasses (by simp [storageClassRank])
    | _ => exact hnumbers _ _ rfl rfl

theorem ordering_ext {o o' : Ordering} (hlt : o=.lt ↔ o'=.lt) (heq : o=.eq ↔ o'=.eq) :
    o=o' := by
  cases o <;> cases o' <;> simp_all

/-- Nulls come before all other values. -/
def nullsFirst (item : OrderBy S) : Bool :=
  match item.nulls with
  | some .first => true
  | some .last => false
  | none => !item.descending

/-- The place of nulls among all values. -/
def nullPlace (item : OrderBy S) (value : Value) : ℕ :=
  if value=.null then if nullsFirst item then 0 else 2 else 1

theorem nulls_cases (item : OrderBy S) :
    item.nulls=none ∨ item.nulls=some .first ∨ item.nulls=some .last := by
  cases item.nulls with
  | none => exact Or.inl rfl
  | some order => cases order <;> simp

/-- Values that are not null are compared, or the other way round. -/
theorem compareOrderValues_turned (item : OrderBy S) (hane : a≠.null) (hbne : b≠.null) :
    compareOrderValues operators a b item=
      if item.descending then (compareOrderNonNullValues operators a b item).swap
      else compareOrderNonNullValues operators a b item := by
  unfold compareOrderValues
  rcases nulls_cases item with h | h | h <;> rw [h] <;> cases item.descending <;>
    cases a <;> cases b <;> simp_all

/-- Values that are not null are compared by their places, or the other way round. -/
theorem compareOrderValues_nonNull (hfree : ¬RealShared values) (item : OrderBy S) (ha : a∈values)
    (hb : b∈values) (hane : a≠.null) (hbne : b≠.null) :
    compareOrderValues operators.casting a b item=
      if item.descending then (cmp (orderPlace values item a) (orderPlace values item b)).swap
      else cmp (orderPlace values item a) (orderPlace values item b) := by
  obtain ⟨hlt,heq⟩ := @orderNonNull_place values a b operators S hfree item ha hb hane hbne
  have hplace : compareOrderNonNullValues operators.casting a b item=
      cmp (orderPlace values item a) (orderPlace values item b) :=
    ordering_ext (hlt.trans (cmp_eq_lt_iff _ _).symm) (heq.trans (cmp_eq_eq_iff _ _).symm)
  rw [compareOrderValues_turned item hane hbne,hplace]

/-- A null is compared by its place. -/
theorem compareOrderValues_null (item : OrderBy S) (h : a=.null ∨ b=.null) :
    compareOrderValues operators a b item=compare (nullPlace item a) (nullPlace item b) := by
  unfold compareOrderValues nullPlace nullsFirst
  rcases nulls_cases item with hn | hn | hn <;> rw [hn] <;> cases item.descending <;>
    cases a <;> cases b <;> simp_all <;> decide

/-- A term ranks values without a shared float. -/
theorem orderValues_ranks (hfree : ¬RealShared values) (item : OrderBy S) :
    Ranks values fun a b => compareOrderValues operators.casting a b item := by
  have hplace : Ranks values fun a b =>
      cmp (orderPlace values item a) (orderPlace values item b) :=
    ⟨_,inferInstance,orderPlace values item,fun _ _ => cmp_eq_lt_iff _ _,
      fun _ _ => cmp_eq_eq_iff _ _⟩
  have hnull : Ranks values fun a b => compare (nullPlace item a) (nullPlace item b) :=
    ⟨_,inferInstance,nullPlace item,fun _ _ => compare_lt_iff_lt,fun _ _ => compare_eq_iff_eq⟩
  have hturned : Ranks values fun a b =>
      if item.descending then (cmp (orderPlace values item a) (orderPlace values item b)).swap
      else cmp (orderPlace values item a) (orderPlace values item b) := by
    cases item.descending with
    | true => exact hplace.swap
    | false => exact hplace
  refine (hnull.then hturned).congr fun a ha b hb => ?_
  by_cases hnone : a=.null ∨ b=.null
  · rw [compareOrderValues_null item hnone]
    by_cases hsame : a=b
    · subst hsame
      rw [compare_eq_iff_eq.mpr rfl,cmp_self_eq_eq]
      cases item.descending <;> rfl
    · have hplaces : compare (nullPlace item a) (nullPlace item b)≠.eq := by
        rw [ne_eq,compare_eq_iff_eq,nullPlace,nullPlace]
        rcases hnone with rfl | rfl
        · rw [if_pos rfl,if_neg (show ¬b=.null from fun hb => hsame hb.symm)]
          cases nullsFirst item <;> decide
        · rw [if_pos rfl,if_neg hsame]
          cases nullsFirst item <;> decide
      cases hcmp : compare (nullPlace item a) (nullPlace item b) with
      | eq => exact (hplaces hcmp).elim
      | _ => rfl
  · obtain ⟨hane,hbne⟩ := not_or.mp hnone
    rw [compareOrderValues_nonNull hfree item ha hb hane hbne,nullPlace,nullPlace,if_neg hane,
      if_neg hbne]
    rfl

/-! ## All terms -/

/-- The keys of rows whose terms have values of a set, a value for each term that is found. -/
def KeysOver (values : Set Value) (terms : List (OrderBy S × Bool)) : Set OrderKey :=
  {key | List.Forall₂
    (fun entry (term : OrderBy S × Bool) =>
      if term.2 then ∃ value∈values, entry=some value else entry=none) key terms}

/-- The comparison of keys is a total preorder, sorting by it gives a list in order, and the
order of rows with different keys does not matter to it. -/
structure OrderSound (operators : Operators) (terms : List (OrderBy S × Bool))
    (values : Set Value) : Prop where
  preorder : Std.TransCmp fun left right : KeysOver values terms =>
    compareOrderKeys operators left right (terms.map Prod.fst)
  sorted : ∀ rows : List (OrderKey × Row), (∀ row∈rows, row.1∈KeysOver values terms) →
    (sortByKeys operators (terms.map Prod.fst) rows).Pairwise fun left right =>
      compareOrderKeys operators left.1 right.1 (terms.map Prod.fst)≠.gt
  unique : ∀ rows rows' : List (OrderKey × Row), (∀ row∈rows, row.1∈KeysOver values terms) →
    rows.Perm rows' →
    rows.Pairwise (fun left right =>
      compareOrderKeys operators left.1 right.1 (terms.map Prod.fst)≠.eq) →
    sortByKeys operators (terms.map Prod.fst) rows=sortByKeys operators (terms.map Prod.fst) rows'

theorem then_eq (o o' : Ordering) : (if o≠.eq then o else o')=o.then o' := by
  cases o <;> rfl

theorem compareOrderKeys_cons (left right : OrderKey) (leftValue rightValue : Option Value)
    (item : OrderBy S) (orderBy : List (OrderBy S)) :
    compareOrderKeys operators (leftValue :: left) (rightValue :: right) (item :: orderBy)=
      (match leftValue, rightValue with
      | some leftValue, some rightValue => compareOrderValues operators leftValue rightValue item
      | _, _ => .eq : Ordering).then (compareOrderKeys operators left right orderBy) := by
  exact then_eq _ _

/-- Keys of values without a shared float are ranked. -/
theorem orderKeys_ranks (hfree : ¬RealShared values) (terms : List (OrderBy S × Bool)) :
    Ranks (KeysOver values terms) fun left right =>
      compareOrderKeys operators.casting left right (terms.map Prod.fst) := by
  induction terms with
  | nil =>
    refine Ranks.const.congr fun left hleft right hright => ?_
    cases hleft
    cases hright
    rfl
  | cons term terms ih =>
    obtain ⟨item,found⟩ := term
    have htail : ∀ key∈KeysOver values ((item,found) :: terms), key.tail∈KeysOver values terms := by
      rintro key hkey
      cases hkey with
      | cons _ hrest => exact hrest
    have hrest := ih.comap htail
    cases found with
    | false =>
      refine hrest.congr fun left hleft right hright => ?_
      cases hleft with
      | cons hentry _ =>
        cases hright with
        | cons hentry' _ =>
          obtain rfl := hentry
          rw [List.map_cons,compareOrderKeys_cons]
          rfl
    | true =>
      have hhead : ∀ key∈KeysOver values ((item,true) :: terms),
          (key.head?.join.getD .null)∈values := by
        rintro key hkey
        cases hkey with
        | cons hentry _ =>
          obtain ⟨value,hvalue,rfl⟩ := hentry
          exact hvalue
      have hfirst := (@orderValues_ranks values operators S hfree item).comap hhead
      refine (hfirst.then hrest).congr fun left hleft right hright => ?_
      cases hleft with
      | cons hentry _ =>
        cases hright with
        | cons hentry' _ =>
          obtain ⟨value,-,rfl⟩ := hentry
          obtain ⟨other,-,rfl⟩ := hentry'
          rw [List.map_cons,compareOrderKeys_cons]
          rfl

/-- Keys of values without a shared float are in order. -/
theorem orderSound_of_ranks (h : Ranks (KeysOver values terms) fun left right =>
      compareOrderKeys operators left right (terms.map Prod.fst)) :
    OrderSound operators terms values := by
  have hrows : Ranks {row : OrderKey × Row | row.1∈KeysOver values terms} fun left right =>
      compareOrderKeys operators left.1 right.1 (terms.map Prod.fst) :=
    h.comap fun row hrow => hrow
  exact ⟨h.transCmp,fun rows hrows' => sortBy_sorted hrows.transCmp hrows',
    fun rows rows' hrows' hperm hdistinct =>
      sortBy_eq_of_perm hrows.transCmp hrows' hperm hdistinct⟩

/-- The key of a row with one value at every term that is found. -/
def constantKey (terms : List (OrderBy S × Bool)) (value : Value) : OrderKey :=
  terms.map fun term => if term.2 then some value else none

theorem constantKey_mem (terms : List (OrderBy S × Bool)) (h : value∈values) :
    constantKey terms value∈KeysOver values terms := by
  refine List.forall₂_map_left_iff.mpr (List.forall₂_same.mpr fun term _ => ?_)
  cases term.2 with
  | false => rfl
  | true => exact ⟨value,h,rfl⟩

/-- Two such keys are equal when the values are equal to every term that is found. -/
theorem compare_constantKey (terms : List (OrderBy S × Bool)) (a b : Value) :
    compareOrderKeys operators (constantKey terms a) (constantKey terms b) (terms.map Prod.fst)=.eq ↔
      ∀ term∈terms, term.2=true → compareOrderValues operators a b term.1=.eq := by
  induction terms with
  | nil => simp [constantKey,compareOrderKeys]
  | cons term terms ih =>
    obtain ⟨item,found⟩ := term
    change compareOrderKeys operators ((if found then some a else none) :: constantKey terms a)
      ((if found then some b else none) :: constantKey terms b) (item :: terms.map Prod.fst)=.eq ↔ _
    rw [compareOrderKeys_cons,Ordering.then_eq_eq,ih]
    cases found <;> simp

/-- Keys without a term that is found are all equal. -/
theorem compareOrderKeys_unfound (hnone : ∀ term∈terms, term.2=false) {left right : OrderKey}
    (hleft : left∈KeysOver values terms) (hright : right∈KeysOver values terms) :
    compareOrderKeys operators left right (terms.map Prod.fst)=.eq := by
  induction terms generalizing left right with
  | nil =>
    cases hleft
    cases hright
    rfl
  | cons term terms ih =>
    obtain ⟨item,found⟩ := term
    obtain rfl : found=false := hnone _ List.mem_cons_self
    cases hleft with
    | cons hentry hleft =>
      cases hright with
      | cons hentry' hright =>
        obtain rfl := hentry
        rw [List.map_cons,compareOrderKeys_cons]
        exact ih (fun term hterm => hnone term (List.mem_cons_of_mem _ hterm)) hleft hright

/-- A term takes numbers for equal when their comparison does. -/
theorem compareOrderValues_number (hx : asReal a=some x) (hy : asReal b=some y) (item : OrderBy S) :
    compareOrderValues operators a b item=.eq ↔ (compareValues operators a b).getD .eq=.eq := by
  have hane : a≠.null := by
    rintro rfl
    cases hx
  have hbne : b≠.null := by
    rintro rfl
    cases hy
  rw [compareOrderValues_turned item hane hbne,compareOrder_number hx]
  cases item.descending with
  | false => rfl
  | true => cases (compareValues operators a b).getD .eq <;> decide

variable (operators)

/-- The comparison of the keys made of some values is a total preorder, and sorts well, exactly
when no term is found or no two different integers and a real have the same float. -/
theorem order_keys_sound_iff (terms : List (OrderBy S × Bool)) (values : Set Value) :
    OrderSound operators.casting terms values ↔
      (∀ term∈terms, term.2=false) ∨ ¬RealShared values := by
  constructor
  · intro h
    by_contra hnone
    obtain ⟨hfound,hshared⟩ := not_or.mp hnone
    obtain ⟨m,n,bits,hm,hn,hbits,hmn,hreal,hreal'⟩ := not_not.mp hshared
    have hcompare : ∀ a b x y, asReal a=some x → asReal b=some y →
        (compareValues operators.casting a b).getD .eq=.eq →
        compareOrderKeys operators.casting (constantKey terms a) (constantKey terms b)
          (terms.map Prod.fst)=.eq := by
      intro a b x y hx hy hab
      exact (compare_constantKey terms a b).mpr fun term _ _ =>
        (compareOrderValues_number hx hy term.1).mpr hab
    have hleft := hcompare (.integer m) (.real bits) _ _ rfl rfl (totalCmp_eq_iff.mpr hreal)
    have hright := hcompare (.real bits) (.integer n) _ _ rfl rfl
      (totalCmp_eq_iff.mpr hreal'.symm)
    have hboth := @Std.TransCmp.eq_trans _ _ h.preorder ⟨_,constantKey_mem terms hm⟩
      ⟨_,constantKey_mem terms hbits⟩ ⟨_,constantKey_mem terms hn⟩ hleft hright
    refine hfound fun term hterm => ?_
    by_contra htrue
    have hterms := (compare_constantKey terms (.integer m) (.integer n)).mp hboth term hterm
      (by simpa using htrue)
    have hequal := (compareOrderValues_number rfl rfl term.1).mp hterms
    exact hmn (Int64.toInt.inj (compare_eq_iff_eq.mp hequal))
  · rintro (hnone | hfree)
    · refine orderSound_of_ranks (Ranks.const.congr fun left hleft right hright => ?_)
      exact compareOrderKeys_unfound hnone hleft hright
    · exact orderSound_of_ranks (orderKeys_ranks hfree terms)

/-- Two neighbours beyond `2^53` and the real between them. -/
def neighbours : Set Value :=
  {.integer 9007199254740992,.integer 9007199254740993,.real 0x4340000000000000}

/-- `ORDER BY a`. -/
def plainTerm : OrderBy Unit := ⟨.column "a",none,false,none⟩

/-- The real is equal to both neighbours, and one neighbour comes before the other. -/
theorem neighbours_not_transitive :
    compareOrderKeys plainOperators.casting [some (.integer 9007199254740992)]
        [some (.real 0x4340000000000000)] [plainTerm]=.eq ∧
      compareOrderKeys plainOperators.casting [some (.real 0x4340000000000000)]
        [some (.integer 9007199254740993)] [plainTerm]=.eq ∧
      compareOrderKeys plainOperators.casting [some (.integer 9007199254740992)]
        [some (.integer 9007199254740993)] [plainTerm]=.lt ∧
      ¬OrderSound plainOperators.casting [(plainTerm,true)] neighbours := by
  have hleft : compareOrderKeys plainOperators.casting [some (.integer 9007199254740992)]
      [some (.real 0x4340000000000000)] [plainTerm]=.eq := by decide +kernel
  have hright : compareOrderKeys plainOperators.casting [some (.real 0x4340000000000000)]
      [some (.integer 9007199254740993)] [plainTerm]=.eq := by decide +kernel
  have hless : compareOrderKeys plainOperators.casting [some (.integer 9007199254740992)]
      [some (.integer 9007199254740993)] [plainTerm]=.lt := by decide +kernel
  refine ⟨hleft,hright,hless,fun h => ?_⟩
  have hkey : ∀ value∈neighbours, [some value]∈KeysOver neighbours [(plainTerm,true)] :=
    fun value hvalue => .cons ⟨value,hvalue,rfl⟩ .nil
  have hboth := @Std.TransCmp.eq_trans _ _ h.preorder
    ⟨_,hkey (.integer 9007199254740992) (by simp [neighbours])⟩
    ⟨_,hkey (.real 0x4340000000000000) (by simp [neighbours])⟩
    ⟨_,hkey (.integer 9007199254740993) (by simp [neighbours])⟩ hleft hright
  have hequal : compareOrderKeys plainOperators.casting [some (.integer 9007199254740992)]
      [some (.integer 9007199254740993)] [plainTerm]=.eq := hboth
  rw [hless] at hequal
  cases hequal

end RustSql.Sql
