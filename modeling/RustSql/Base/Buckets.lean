import Mathlib.Order.Interval.Finset.Nat
import Mathlib.Tactic.Linarith
import Mathlib.Tactic.Ring

/-!
# Buckets of nearly equal sizes

The places of a list go into buckets in their order. Where they do not divide evenly, the first
buckets get one place more than the others.
-/

namespace RustSql.Buckets

/-- The number of places in a bucket, when `n` places go into `k` buckets. -/
def bucketSize (n k bucket : ℕ) : ℕ := n/k+if bucket < n%k then 1 else 0

/-- The number of places before a bucket. -/
def placesBefore (n k bucket : ℕ) : ℕ := bucket*(n/k)+min bucket (n%k)

/-- A place belongs to a bucket. -/
def Belongs (n k bucket place : ℕ) : Prop :=
  placesBefore n k bucket ≤ place ∧ place < placesBefore n k (bucket+1)

/-- Numbers of buckets, one for each place: they start at 1, never decrease and skip no number,
as many are used as there can be, and the sizes differ by one at most, larger buckets first. -/
structure NearlyEqual (k : ℕ) (numbers : List ℕ) : Prop where
  starts : ∀ first, numbers.head?=some first → first=1
  steps : ∀ place, (h : place+1 < numbers.length) →
    numbers[place+1]=numbers[place] ∨ numbers[place+1]=numbers[place]+1
  used : numbers.toFinset.card=min numbers.length k
  sizes : ∀ i∈numbers, ∀ j∈numbers, i ≤ j →
    numbers.count j ≤ numbers.count i ∧ numbers.count i ≤ numbers.count j+1

variable {n k bucket bucket' place : ℕ} {number : ℕ → ℕ}

/-! ## Sizes -/

/-- The places before the next bucket. -/
theorem placesBefore_succ (n k bucket : ℕ) :
    placesBefore n k (bucket+1)=placesBefore n k bucket+bucketSize n k bucket := by
  have hproduct : (bucket+1)*(n/k)=bucket*(n/k)+n/k := by ring
  rw [placesBefore,placesBefore,bucketSize,hproduct]
  split_ifs <;> omega

/-- Later buckets begin later. -/
theorem placesBefore_mono (h : bucket ≤ bucket') :
    placesBefore n k bucket ≤ placesBefore n k bucket' := by
  have hproduct := Nat.mul_le_mul_right (n/k) h
  unfold placesBefore
  omega

/-- All places are before the bucket behind the last one. -/
theorem placesBefore_all (hk : 0 < k) : placesBefore n k k=n := by
  have hrest := Nat.mod_lt n hk
  have hparts := Nat.div_add_mod n k
  rw [placesBefore,Nat.min_eq_right hrest.le]
  exact hparts

/-- Later buckets are no larger. -/
theorem bucketSize_antitone (h : bucket ≤ bucket') : bucketSize n k bucket' ≤ bucketSize n k bucket := by
  unfold bucketSize
  split_ifs <;> omega

/-- Sizes differ by one at most. -/
theorem bucketSize_bounds (n k bucket : ℕ) :
    n/k ≤ bucketSize n k bucket ∧ bucketSize n k bucket ≤ n/k+1 := by
  unfold bucketSize
  split_ifs <;> omega

/-- There are places for as many buckets as there are places. -/
theorem bucketSize_pos (hk : 0 < k) (hn : bucket < n) : 0 < bucketSize n k bucket := by
  by_cases hlarge : k ≤ n
  · have hquotient := Nat.div_pos hlarge hk
    have hbounds := bucketSize_bounds n k bucket
    omega
  · have hrest : n%k=n := Nat.mod_eq_of_lt (by omega)
    rw [bucketSize,hrest,if_pos hn]
    exact Nat.succ_pos _

/-- There are as many places before a bucket that is used as there are buckets. -/
theorem le_placesBefore (h : 0 < bucketSize n k bucket) : bucket ≤ placesBefore n k bucket := by
  unfold bucketSize at h
  unfold placesBefore
  by_cases hquotient : n/k=0
  · rw [hquotient] at h ⊢
    split_ifs at h <;> omega
  · have hproduct := Nat.le_mul_of_pos_right bucket (Nat.pos_of_ne_zero hquotient)
    omega

/-- The places of the larger buckets are among all places. -/
theorem largerPlaces_le (hk : 0 < k) : (n/k+1)*(n%k) ≤ n := by
  have hrest := Nat.mul_le_mul_left (n/k) (Nat.mod_lt n hk).le
  calc (n/k+1)*(n%k)=n/k*(n%k)+n%k := by ring
    _ ≤ n/k*k+n%k := Nat.add_le_add_right hrest _
    _ = n := Nat.div_add_mod' n k

/-! ## Places -/

/-- A bucket with a place is not empty. -/
theorem Belongs.size_pos (h : Belongs n k bucket place) : 0 < bucketSize n k bucket := by
  have hsucc := placesBefore_succ n k bucket
  have hlow := h.1
  have hhigh := h.2
  omega

/-- Later places do not belong to earlier buckets. -/
theorem Belongs.mono {later : ℕ} (h : Belongs n k bucket place) (h' : Belongs n k bucket' later)
    (hle : place ≤ later) : bucket ≤ bucket' := by
  by_contra hlt
  have hbefore := @placesBefore_mono n k (bucket'+1) bucket (by omega)
  have hlow := h.1
  have hhigh := h'.2
  omega

/-- A place belongs to one bucket. -/
theorem Belongs.unique (h : Belongs n k bucket place) (h' : Belongs n k bucket' place) :
    bucket=bucket' :=
  Nat.le_antisymm (h.mono h' (Nat.le_refl _)) (h'.mono h (Nat.le_refl _))

/-- The next place belongs to the same bucket or to the next one. -/
theorem Belongs.next (h : Belongs n k bucket place) (h' : Belongs n k bucket' (place+1)) :
    bucket'=bucket ∨ bucket'=bucket+1 := by
  have hle := h.mono h' (Nat.le_succ _)
  by_contra hfar
  obtain ⟨hne,hne'⟩ := not_or.mp hfar
  -- the bucket between the two would be empty, and so would all that follow it
  have hbetween := @placesBefore_mono n k (bucket+1+1) bucket' (by omega)
  have hskipped := placesBefore_succ n k (bucket+1)
  have hsize := @bucketSize_antitone n k (bucket+1) bucket' (by omega)
  have hpos := h'.size_pos
  have hlow := h'.1
  have hhigh := h.2
  omega

/-- The first place belongs to the first bucket. -/
theorem Belongs.first (h : Belongs n k bucket 0) : bucket=0 := by
  have hle := le_placesBefore h.size_pos
  have hlow := h.1
  omega

/-- There are so many buckets only. -/
theorem Belongs.lt (hk : 0 < k) (hplace : place < n) (h : Belongs n k bucket place) :
    bucket < min n k := by
  have hle := le_placesBefore h.size_pos
  have hlow := h.1
  have hlt : bucket < k := by
    by_contra hge
    have hbefore := @placesBefore_mono n k k bucket (by omega)
    rw [placesBefore_all hk] at hbefore
    omega
  omega

/-- A place before the smaller buckets belongs to the larger bucket that division finds. -/
theorem belongs_larger (h : place < (n/k+1)*(n%k)) : Belongs n k (place/(n/k+1)) place := by
  have hbucket := Nat.div_lt_of_lt_mul h
  have hlow := Nat.div_mul_le_self place (n/k+1)
  have hhigh := Nat.lt_mul_div_succ place (Nat.succ_pos (n/k))
  rw [Belongs,placesBefore,placesBefore,Nat.min_eq_left hbucket.le,Nat.min_eq_left hbucket]
  constructor <;> nlinarith

/-- A place that is not before the smaller buckets belongs to the smaller bucket that division
finds. -/
theorem belongs_smaller (hsize : 0 < n/k) (h : (n/k+1)*(n%k) ≤ place) :
    Belongs n k ((place-(n/k+1)*(n%k))/(n/k)+n%k) place := by
  obtain ⟨rest,rfl⟩ := Nat.exists_eq_add_of_le h
  have hlow := Nat.div_mul_le_self rest (n/k)
  have hhigh := Nat.lt_mul_div_succ rest hsize
  rw [Nat.add_sub_cancel_left,Belongs,placesBefore,placesBefore,
    Nat.min_eq_right (Nat.le_add_left _ _),
    Nat.min_eq_right (Nat.le_succ_of_le (Nat.le_add_left _ _))]
  constructor <;> nlinarith

/-- With more buckets than places, each place has its own bucket. -/
theorem belongs_single (hsize : n/k=0) (h : place < n) : Belongs n k place place := by
  have hrest : n%k=n := by
    have hparts := Nat.div_add_mod n k
    rw [hsize] at hparts
    omega
  rw [Belongs,placesBefore,placesBefore,hsize,hrest]
  omega

/-! ## Numbers -/

/-- Each place has the number of its bucket, from 1 on. -/
def Numbers (n k : ℕ) (number : ℕ → ℕ) : Prop :=
  ∀ place < n, ∃ bucket, number place=bucket+1 ∧ Belongs n k bucket place

/-- Who has the number of a bucket belongs to it. -/
theorem Numbers.eq_iff (h : Numbers n k number) (hplace : place < n) :
    number place=bucket+1 ↔ Belongs n k bucket place := by
  obtain ⟨found,hfound,hbelongs⟩ := h place hplace
  rw [hfound]
  constructor
  · intro heq
    obtain rfl : found=bucket := by omega
    exact hbelongs
  · intro hbucket
    rw [hbelongs.unique hbucket]

/-- Every bucket that there can be is used. -/
theorem Numbers.used (h : Numbers n k number) (hk : 0 < k) :
    ((List.range n).map number).toFinset=Finset.Ico 1 (min n k+1) := by
  ext found
  rw [List.mem_toFinset,List.mem_map,Finset.mem_Ico]
  constructor
  · rintro ⟨place,hplace,rfl⟩
    rw [List.mem_range] at hplace
    obtain ⟨bucket,hbucket,hbelongs⟩ := h place hplace
    have hlt := hbelongs.lt hk hplace
    omega
  · rintro ⟨hpos,hlt⟩
    obtain ⟨bucket,rfl⟩ : ∃ bucket, found=bucket+1 := ⟨found-1,by omega⟩
    have hsize := @bucketSize_pos n k bucket hk (by omega)
    have hsucc := placesBefore_succ n k bucket
    have hall := @placesBefore_mono n k (bucket+1) k (by omega)
    rw [placesBefore_all hk] at hall
    have hplace : placesBefore n k bucket < n := by omega
    refine ⟨placesBefore n k bucket,List.mem_range.mpr hplace,?_⟩
    exact (h.eq_iff hplace).mpr ⟨Nat.le_refl _,by omega⟩

/-- As many places have a bucket's number as the bucket has places. -/
theorem Numbers.count (h : Numbers n k number) (hbucket : bucket < k) :
    ((List.range n).map number).count (bucket+1)=bucketSize n k bucket := by
  have hall := @placesBefore_mono n k (bucket+1) k hbucket
  rw [placesBefore_all (by omega)] at hall
  have hplaces : ((List.range n).filter fun place => number place==bucket+1).toFinset=
      Finset.Ico (placesBefore n k bucket) (placesBefore n k (bucket+1)) := by
    ext place
    rw [List.mem_toFinset,List.mem_filter,List.mem_range,Finset.mem_Ico,beq_iff_eq]
    constructor
    · rintro ⟨hplace,hnumber⟩
      exact (h.eq_iff hplace).mp hnumber
    · intro hbelongs
      have hplace : place < n := by omega
      exact ⟨hplace,(h.eq_iff hplace).mpr hbelongs⟩
  have hnodup := List.nodup_range.filter (l := List.range n) fun place => number place==bucket+1
  rw [List.count,List.countP_map,List.countP_eq_length_filter]
  change ((List.range n).filter fun place => number place==bucket+1).length=_
  rw [←List.toFinset_card_of_nodup hnodup,hplaces,Nat.card_Ico,placesBefore_succ]
  omega

/-- Places that are numbered by their buckets are numbered nearly evenly. -/
theorem Numbers.nearlyEqual (h : Numbers n k number) (hk : 0 < k) :
    NearlyEqual k ((List.range n).map number) where
  starts := by
    intro first hfirst
    cases n with
    | zero => cases hfirst
    | succ n =>
      rw [List.range_succ_eq_map,List.map_cons,List.head?_cons,Option.some.injEq] at hfirst
      obtain ⟨bucket,hbucket,hbelongs⟩ := h 0 (by omega)
      have hzero := hbelongs.first
      omega
  steps := by
    intro place hplace
    rw [List.length_map,List.length_range] at hplace
    simp only [List.getElem_map,List.getElem_range]
    obtain ⟨bucket,hbucket,hbelongs⟩ := h place (by omega)
    obtain ⟨bucket',hbucket',hbelongs'⟩ := h (place+1) hplace
    have hnext := hbelongs.next hbelongs'
    omega
  used := by
    rw [h.used hk,Nat.card_Ico,List.length_map,List.length_range]
    omega
  sizes := by
    have hmem : ∀ i∈(List.range n).map number, ∃ bucket, i=bucket+1 ∧ bucket < k := by
      intro i hi
      obtain ⟨place,hplace,rfl⟩ := List.mem_map.mp hi
      rw [List.mem_range] at hplace
      obtain ⟨bucket,hbucket,hbelongs⟩ := h place hplace
      have hlt := hbelongs.lt hk hplace
      exact ⟨bucket,hbucket,by omega⟩
    intro i hi j hj hle
    obtain ⟨bucket,rfl,hbucket⟩ := hmem i hi
    obtain ⟨bucket',rfl,hbucket'⟩ := hmem j hj
    rw [h.count hbucket,h.count hbucket']
    have hanti := @bucketSize_antitone n k bucket bucket' (by omega)
    have hbounds := bucketSize_bounds n k bucket
    have hbounds' := bucketSize_bounds n k bucket'
    omega

end RustSql.Buckets
