import RustSql.Base.Buckets
import RustSql.Sql.WindowAggregates

/-!
# NTILE

The loop over a partition that gives each row the number of its bucket. A row's bucket count is
what the argument of the function is on that row; counts and places are words of 64 bits.
-/

namespace RustSql.Sql

open RustSql.V2 Outcome Buckets

/-! ## Words of 64 bits -/

/-- `+` on `usize`; a panic when it does not fit. -/
def addUsize (left right : ℕ) : Outcome ℕ := do
  check (left+right < 2^64)
  .ok (left+right)

/-- `-` on `usize`; a panic below zero. -/
def subUsize (left right : ℕ) : Outcome ℕ := do
  check (right ≤ left)
  .ok (left-right)

/-- `*` on `usize`; a panic when it does not fit. -/
def mulUsize (left right : ℕ) : Outcome ℕ := do
  check (left*right < 2^64)
  .ok (left*right)

/-- `/` on `usize`; a panic for zero. -/
def divUsize (left right : ℕ) : Outcome ℕ := do
  check (right≠0)
  .ok (left/right)

/-- `%` on `usize`; a panic for zero. -/
def remUsize (left right : ℕ) : Outcome ℕ := do
  check (right≠0)
  .ok (left%right)

/-! ## The bucket of a row -/

/-- The arithmetic of `evaluate_ntile_window_value`. -/
def ntileBucket (rowCount buckets ordinal : ℕ) : Outcome ℕ := do
  let largerBucketCount ← remUsize rowCount buckets
  let baseBucketSize ← divUsize rowCount buckets
  let largerBucketSize ← addUsize baseBucketSize 1
  let firstSmallBucket ← mulUsize largerBucketSize largerBucketCount
  if ordinal < firstSmallBucket then do
    let bucket ← divUsize ordinal largerBucketSize
    addUsize bucket 1
  else if baseBucketSize=0 then addUsize ordinal 1
  else do
    let place ← subUsize ordinal firstSmallBucket
    let bucket ← divUsize place baseBucketSize
    let bucket ← addUsize bucket largerBucketCount
    addUsize bucket 1

/-- The bucket count that an argument stands for. -/
def ntileBucketCount (machine : Arithmetic.Machine) (value : Value) : Outcome ℕ := do
  let cast ← Arithmetic.castInteger machine value
  match cast with
  | .integer value =>
    if 0 < value then .ok value.toInt.toNat
    else .err (.storage "argument of ntile must be a positive integer")
  | _ => .err (.storage "argument of ntile must be a positive integer")

/-- The number of a row's bucket as a value. -/
def ntileValue (rowCount ordinal buckets : ℕ) : Outcome Value := do
  let bucket ← ntileBucket rowCount buckets ordinal
  if bucket < 2^63 then .ok (.integer (Int64.ofNat bucket))
  else .err (.storage "NTILE bucket overflow")

section Ntile

variable {S : Type} (machine : Arithmetic.Machine) (operators : Operators)
  (nested : ScalarExpr S → Bool) (executeSubqueryRows : SubqueryRows S)
  (transactionId : Option TransactionId) (fullSource : RowSet)

/-- The bucket count that the argument gives on a row. -/
def bucketCountAt (expr : ScalarExpr S) (full : Row) : Outcome ℕ := do
  let value ← ofExcept (evaluateScalarExprInContext nested operators executeSubqueryRows
    transactionId fullSource full none expr)
  ntileBucketCount machine value

/-- `evaluate_ntile_window_value`. An entry is a projected row with its full row. -/
def evaluateNtileWindowValue (entries : List (Row × Row)) (orderedEntryIndexes : List ℕ)
    (ordinal : ℕ) (args : List (ScalarExpr S)) : Outcome Value :=
  match orderedEntryIndexes[ordinal]? with
  -- the index is out of bounds
  | none => .stuck
  | some entryIndex =>
    match entries[entryIndex]?, args[0]? with
    | some (_, currentFullRow), some expr => do
      let buckets ← bucketCountAt machine operators nested executeSubqueryRows transactionId
        fullSource expr currentFullRow
      ntileValue orderedEntryIndexes.length ordinal buckets
    -- the index is out of bounds
    | _, _ => .stuck

/-- A value is written into the projected row of an entry, if that has the place. -/
def writeProjected (entries : List (Row × Row)) (entryIndex projectedIndex : ℕ) (value : Value) :
    List (Row × Row) :=
  entries.modify entryIndex fun entry => (entry.1.set projectedIndex value,entry.2)

/-- The loop of `populate_row_number_windows` over an ordered partition, from an ordinal on. -/
def populateNtileFrom (orderedEntryIndexes : List ℕ) (projectedIndex : ℕ)
    (args : List (ScalarExpr S)) : ℕ → List ℕ → List (Row × Row) → Outcome (List (Row × Row))
  | _, [], entries => .ok entries
  | ordinal, entryIndex :: rest, entries =>
    if ordinal+1 < 2^63 then do
      let value ← evaluateNtileWindowValue machine operators nested executeSubqueryRows
        transactionId fullSource entries orderedEntryIndexes ordinal args
      populateNtileFrom orderedEntryIndexes projectedIndex args (ordinal+1) rest
        (writeProjected entries entryIndex projectedIndex value)
    else .err (.storage "window function rank overflow")

/-- The part of `populate_row_number_windows` that gives a partition its buckets. -/
def populateNtile (entries : List (Row × Row)) (orderedEntryIndexes : List ℕ)
    (projectedIndex : ℕ) (args : List (ScalarExpr S)) : Outcome (List (Row × Row)) :=
  populateNtileFrom machine operators nested executeSubqueryRows transactionId fullSource
    orderedEntryIndexes projectedIndex args 0 orderedEntryIndexes entries

end Ntile

/-- What stands at a place of the projected row of an entry. -/
def projectedValue (entries : List (Row × Row)) (projectedIndex entryIndex : ℕ) : Option Value :=
  entries[entryIndex]?.bind fun entry => entry.1[projectedIndex]?

/-! ## The bucket's number -/

theorem addUsize_ok {left right : ℕ} (h : left+right < 2^64) :
    addUsize left right=.ok (left+right) := by
  rw [addUsize,check_ok h,bind_ok]

theorem subUsize_ok {left right : ℕ} (h : right ≤ left) : subUsize left right=.ok (left-right) := by
  rw [subUsize,check_ok h,bind_ok]

theorem mulUsize_ok {left right : ℕ} (h : left*right < 2^64) :
    mulUsize left right=.ok (left*right) := by
  rw [mulUsize,check_ok h,bind_ok]

theorem divUsize_ok {left right : ℕ} (h : right≠0) : divUsize left right=.ok (left/right) := by
  rw [divUsize,check_ok h,bind_ok]

theorem remUsize_ok {left right : ℕ} (h : right≠0) : remUsize left right=.ok (left%right) := by
  rw [remUsize,check_ok h,bind_ok]

/-- The arithmetic finds the bucket that the place belongs to, without a panic. -/
theorem ntileBucket_belongs {rowCount buckets ordinal : ℕ} (hshort : rowCount < 2^63)
    (hbuckets : 0 < buckets) (hordinal : ordinal < rowCount) :
    ∃ bucket, ntileBucket rowCount buckets ordinal=.ok (bucket+1) ∧
      Belongs rowCount buckets bucket ordinal := by
  have hbase := Nat.div_le_self rowCount buckets
  have hproduct := @largerPlaces_le rowCount buckets hbuckets
  rw [ntileBucket,remUsize_ok hbuckets.ne',bind_ok,divUsize_ok hbuckets.ne',bind_ok,
    addUsize_ok (by omega),bind_ok,mulUsize_ok (by omega),bind_ok]
  split
  · next hlarger =>
    have hbelongs := belongs_larger hlarger
    have hlt := hbelongs.lt hbuckets hordinal
    refine ⟨ordinal/(rowCount/buckets+1),?_,hbelongs⟩
    have hpos : rowCount/buckets+1≠0 := Nat.succ_ne_zero _
    rw [divUsize_ok hpos,bind_ok,addUsize_ok (by omega)]
  · next hsmaller =>
    split
    · next hempty =>
      refine ⟨ordinal,?_,belongs_single hempty hordinal⟩
      rw [addUsize_ok (by omega)]
    · next hsize =>
      have hbelongs := belongs_smaller (Nat.pos_of_ne_zero hsize) (Nat.le_of_not_lt hsmaller)
      have hlt := hbelongs.lt hbuckets hordinal
      refine ⟨_,?_,hbelongs⟩
      rw [subUsize_ok (Nat.le_of_not_lt hsmaller),bind_ok,divUsize_ok hsize,bind_ok,
        addUsize_ok (by omega),bind_ok,addUsize_ok (by omega)]

/-- A bucket count is refused or positive. -/
theorem ntileBucketCount_gives (machine : Arithmetic.Machine) (value : Value) :
    (ntileBucketCount machine value).Gives (0 < ·) := by
  obtain ⟨cast,hcast,rfl | ⟨found,rfl⟩⟩ := Arithmetic.castInteger_total machine value
  · rw [ntileBucketCount,hcast,bind_ok]
    exact gives_err _ _
  · rw [ntileBucketCount,hcast,bind_ok]
    refine Gives.ite (fun hpos => ?_) fun _ => gives_err _ _
    have hfound : (0 : Int64).toInt < found.toInt := Int64.lt_iff_toInt_lt.mp hpos
    rw [Int64.toInt_zero] at hfound
    exact gives_ok (by omega)

/-! ## The loop over a partition -/

section Loop

variable {S : Type} {machine : Arithmetic.Machine} {operators : Operators}
  {nested : ScalarExpr S → Bool} {executeSubqueryRows : SubqueryRows S}
  {transactionId : Option TransactionId} {fullSource : RowSet}
  {entries : List (Row × Row)} {ordered : List ℕ} {slot ordinal entryIndex : ℕ}
  {expr : ScalarExpr S} {value : Value}

@[simp] theorem writeProjected_length (entryIndex slot : ℕ) (value : Value) :
    (writeProjected entries entryIndex slot value).length=entries.length :=
  List.length_modify ..

/-- Writing into projected rows leaves the full rows as they are. -/
@[simp] theorem writeProjected_full (entryIndex slot : ℕ) (value : Value) :
    (writeProjected entries entryIndex slot value).map Prod.snd=entries.map Prod.snd := by
  rw [writeProjected]
  apply List.ext_getElem?
  intro index
  rw [List.getElem?_map,List.getElem?_map,List.getElem?_modify]
  cases entries[index]? with
  | none => rfl
  | some entry =>
    by_cases hindex : entryIndex=index <;> simp [hindex]

/-- What is written stands in its place. -/
theorem projectedValue_write_self (h : (projectedValue entries slot entryIndex).isSome) :
    projectedValue (writeProjected entries entryIndex slot value) slot entryIndex=some value := by
  rw [projectedValue] at h
  rw [projectedValue,writeProjected,List.getElem?_modify]
  cases hentry : entries[entryIndex]? with
  | none =>
    rw [hentry] at h
    cases h
  | some entry =>
    rw [hentry] at h
    have hslot : slot < entry.1.length := by
      by_contra hge
      rw [Option.bind_some,List.getElem?_eq_none (by omega)] at h
      cases h
    simp [hslot]

/-- Other rows keep their values. -/
theorem projectedValue_write_other {other : ℕ} (h : other≠entryIndex) :
    projectedValue (writeProjected entries entryIndex slot value) slot other=
      projectedValue entries slot other := by
  have hindex : ¬entryIndex=other := fun heq => h heq.symm
  rw [projectedValue,projectedValue,writeProjected,List.getElem?_modify]
  cases entries[other]? with
  | none => rfl
  | some entry => simp [hindex]

/-- The value of a row depends on its full row and on its place in the partition. -/
theorem evaluateNtileWindowValue_eq {full : Row} (hindex : ordered[ordinal]?=some entryIndex)
    (hentry : (entries.map Prod.snd)[entryIndex]?=some full) :
    evaluateNtileWindowValue machine operators nested executeSubqueryRows transactionId fullSource
        entries ordered ordinal [expr]=
      bucketCountAt machine operators nested executeSubqueryRows transactionId fullSource expr full
        >>= ntileValue ordered.length ordinal := by
  rw [List.getElem?_map,Option.map_eq_some_iff] at hentry
  obtain ⟨entry,hentry,rfl⟩ := hentry
  rw [evaluateNtileWindowValue,hindex]
  simp only [hentry,List.getElem?_cons_zero]

/-- A positive bucket count gives a row the number of its bucket. -/
theorem ntileValue_ok {rowCount buckets : ℕ} (hshort : rowCount < 2^63) (hbuckets : 0 < buckets)
    (hordinal : ordinal < rowCount) :
    ∃ bucket, ntileValue rowCount ordinal buckets=.ok (.integer (Int64.ofNat (bucket+1))) ∧
      bucket+1 < 2^63 ∧ Belongs rowCount buckets bucket ordinal := by
  obtain ⟨bucket,hrun,hbelongs⟩ := ntileBucket_belongs hshort hbuckets hordinal
  have hlt := hbelongs.lt hbuckets hordinal
  refine ⟨bucket,?_,by omega,hbelongs⟩
  rw [ntileValue,hrun,bind_ok,if_pos (by omega)]

/-- The call of a row comes back, whatever its argument gives. -/
theorem evaluateNtileWindowValue_returns {full : Row} (hshort : ordered.length < 2^63)
    (hindex : ordered[ordinal]?=some entryIndex)
    (hentry : (entries.map Prod.snd)[entryIndex]?=some full) :
    (evaluateNtileWindowValue machine operators nested executeSubqueryRows transactionId fullSource
      entries ordered ordinal [expr]).Returns := by
  have hordinal : ordinal < ordered.length := (List.getElem?_eq_some_iff.mp hindex).1
  rw [evaluateNtileWindowValue_eq hindex hentry]
  refine Returns.bind ?_ fun buckets hbuckets => ?_
  · exact (returns_ofExcept _).bind fun value _ => (ntileBucketCount_gives machine value).1
  · obtain ⟨value,-,hcount⟩ := bind_ok_inv hbuckets
    have hpos := (ntileBucketCount_gives machine value).2 buckets hcount
    obtain ⟨bucket,hrun,-⟩ := ntileValue_ok hshort hpos hordinal
    rw [hrun]
    exact returns_ok _

/-- The loop comes back, whatever the arguments give. -/
theorem populateNtileFrom_returns {rest : List ℕ} (hshort : ordered.length < 2^63)
    (hrest : ordered.drop ordinal=rest) (hplaces : ∀ index∈ordered, index < entries.length) :
    (populateNtileFrom machine operators nested executeSubqueryRows transactionId fullSource
      ordered slot [expr] ordinal rest entries).Returns := by
  induction rest generalizing ordinal entries with
  | nil => exact returns_ok _
  | cons entryIndex rest ih =>
    rw [populateNtileFrom]
    split
    · have hindex : ordered[ordinal]?=some entryIndex := by
        rw [←List.head?_drop,hrest,List.head?_cons]
      have hlt := hplaces entryIndex (List.mem_of_getElem? hindex)
      have hentry : (entries.map Prod.snd)[entryIndex]?=some entries[entryIndex].2 := by
        rw [List.getElem?_map,List.getElem?_eq_getElem hlt,Option.map_some]
      refine (evaluateNtileWindowValue_returns hshort hindex hentry).bind fun value _ => ?_
      apply ih
      · rw [←List.tail_drop,hrest,List.tail_cons]
      · simpa using hplaces
    · exact returns_err _

/-- The loop writes the values of the rows it comes to, and nothing else. -/
theorem populateNtileFrom_ok {rest : List ℕ} {number : ℕ → ℕ} (hshort : ordered.length < 2^63)
    (hrest : ordered.drop ordinal=rest)
    (hvalue : ∀ ordinal entryIndex entries', ordered[ordinal]?=some entryIndex →
      entries'.map Prod.snd=entries.map Prod.snd →
      evaluateNtileWindowValue machine operators nested executeSubqueryRows transactionId
        fullSource entries' ordered ordinal [expr]=.ok (.integer (Int64.ofNat (number ordinal))))
    (hnodup : rest.Nodup) (hslots : ∀ index∈rest, (projectedValue entries slot index).isSome) :
    ∃ entries', populateNtileFrom machine operators nested executeSubqueryRows transactionId
        fullSource ordered slot [expr] ordinal rest entries=.ok entries' ∧
      (∀ place (h : place < rest.length), projectedValue entries' slot rest[place]=
        some (.integer (Int64.ofNat (number (ordinal+place))))) ∧
      ∀ index∉rest, projectedValue entries' slot index=projectedValue entries slot index := by
  induction rest generalizing ordinal entries with
  | nil => exact ⟨entries,rfl,fun place h => absurd h (Nat.not_lt_zero _),fun _ _ => rfl⟩
  | cons entryIndex rest ih =>
    have hindex : ordered[ordinal]?=some entryIndex := by
      rw [←List.head?_drop,hrest,List.head?_cons]
    have hordinal : ordinal < ordered.length := (List.getElem?_eq_some_iff.mp hindex).1
    have hdrop : ordered.drop (ordinal+1)=rest := by
      rw [←List.tail_drop,hrest,List.tail_cons]
    obtain ⟨hfresh,hnodup⟩ := List.nodup_cons.mp hnodup
    have hslots' : ∀ index∈rest, (projectedValue (writeProjected entries entryIndex slot
        (.integer (Int64.ofNat (number ordinal)))) slot index).isSome := by
      intro index hmem
      have hne : index≠entryIndex := fun heq => hfresh (heq▸hmem)
      rw [projectedValue_write_other hne]
      exact hslots index (List.mem_cons_of_mem _ hmem)
    obtain ⟨entries',hrun,hnumbers,hothers⟩ :=
      ih hdrop (by simpa using hvalue) hnodup hslots'
    refine ⟨entries',?_,?_,?_⟩
    · rw [populateNtileFrom,if_pos (by omega),hvalue ordinal entryIndex entries hindex rfl,bind_ok]
      exact hrun
    · intro place hplace
      cases place with
      | zero =>
        rw [List.getElem_cons_zero,hothers entryIndex hfresh]
        exact projectedValue_write_self (hslots entryIndex (List.mem_cons_self ..))
      | succ place =>
        rw [List.getElem_cons_succ,hnumbers place (by simpa using hplace)]
        rw [Nat.add_right_comm,Nat.add_assoc]
    · intro index hindex
      have hne := List.ne_of_not_mem_cons hindex
      rw [hothers index (List.not_mem_of_not_mem_cons hindex),projectedValue_write_other hne]

/-- The loop over a partition comes back for every row count and every argument. Where the
argument gives all rows one bucket count, the rows get, in their order, numbers that start at 1,
rise by one at most, and make buckets of nearly equal sizes. -/
theorem ntile_nearly_equal (hshort : ordered.length < 2^63) (hnodup : ordered.Nodup)
    (hplaces : ∀ index∈ordered, index < entries.length) :
    (populateNtile machine operators nested executeSubqueryRows transactionId fullSource entries
      ordered slot [expr]).Returns ∧
    ∀ k, 0 < k → (∀ index∈ordered, (projectedValue entries slot index).isSome) →
      (∀ index∈ordered, ∀ full, (entries.map Prod.snd)[index]?=some full →
        bucketCountAt machine operators nested executeSubqueryRows transactionId fullSource expr
          full=.ok k) →
      ∃ entries' numbers, populateNtile machine operators nested executeSubqueryRows transactionId
          fullSource entries ordered slot [expr]=.ok entries' ∧
        ordered.map (projectedValue entries' slot)=
          numbers.map (fun number => some (.integer (Int64.ofNat number))) ∧
        (∀ number∈numbers, number < 2^63) ∧ NearlyEqual k numbers ∧
        ∀ index∉ordered, projectedValue entries' slot index=projectedValue entries slot index := by
  refine ⟨populateNtileFrom_returns hshort List.drop_zero hplaces,fun k hk hslots hcount => ?_⟩
  have hbucket : ∀ ordinal, ∃ number, ordinal < ordered.length →
      ntileValue ordered.length ordinal k=.ok (.integer (Int64.ofNat number)) ∧ number < 2^63 ∧
        ∃ bucket, number=bucket+1 ∧ Belongs ordered.length k bucket ordinal := by
    intro ordinal
    by_cases hordinal : ordinal < ordered.length
    · obtain ⟨bucket,hvalue,hlt,hbelongs⟩ := ntileValue_ok hshort hk hordinal
      exact ⟨bucket+1,fun _ => ⟨hvalue,hlt,bucket,rfl,hbelongs⟩⟩
    · exact ⟨0,fun h => absurd h hordinal⟩
  choose number hnumber using hbucket
  have hvalue : ∀ ordinal entryIndex entries', ordered[ordinal]?=some entryIndex →
      entries'.map Prod.snd=entries.map Prod.snd →
      evaluateNtileWindowValue machine operators nested executeSubqueryRows transactionId
        fullSource entries' ordered ordinal [expr]=.ok (.integer (Int64.ofNat (number ordinal))) := by
    intro ordinal entryIndex entries' hindex hfull
    have hmem := List.mem_of_getElem? hindex
    have hlt := hplaces entryIndex hmem
    have hentry : (entries.map Prod.snd)[entryIndex]?=some entries[entryIndex].2 := by
      rw [List.getElem?_map,List.getElem?_eq_getElem hlt,Option.map_some]
    rw [evaluateNtileWindowValue_eq hindex (hfull▸hentry),hcount entryIndex hmem _ hentry,bind_ok]
    exact (hnumber ordinal (List.getElem?_eq_some_iff.mp hindex).1).1
  obtain ⟨entries',hrun,hnumbers,hothers⟩ :=
    populateNtileFrom_ok hshort List.drop_zero hvalue hnodup hslots
  refine ⟨entries',(List.range ordered.length).map number,hrun,?_,?_,?_,hothers⟩
  · apply List.ext_getElem
    · simp
    · intro place hplace _
      rw [List.length_map] at hplace
      simp only [List.getElem_map,List.getElem_range]
      rw [hnumbers place hplace,Nat.zero_add]
  · intro found hfound
    obtain ⟨ordinal,hordinal,rfl⟩ := List.mem_map.mp hfound
    exact (hnumber ordinal (List.mem_range.mp hordinal)).2.1
  · exact Numbers.nearlyEqual (fun ordinal hordinal => (hnumber ordinal hordinal).2.2) hk

end Loop

/-- Five rows in two buckets, in an order of their own. -/
theorem ntile_nearly_equal_five :
    ∃ entries' numbers, populateNtile Arithmetic.wordMachine plainOperators
        (fun _ : ScalarExpr Unit => false) oneRow none ⟨[],[]⟩ (List.replicate 5 ([.null],[]))
        [3, 1, 0, 4, 2] 0 [.literal (.integer 2)]=.ok entries' ∧
      [3, 1, 0, 4, 2].map (projectedValue entries' 0)=
        numbers.map (fun number => some (.integer (Int64.ofNat number))) ∧
      (∀ number∈numbers, number < 2^63) ∧ NearlyEqual 2 numbers ∧
      ∀ index∉[3, 1, 0, 4, 2], projectedValue entries' 0 index=
        projectedValue (List.replicate 5 ([.null],[])) 0 index := by
  refine (ntile_nearly_equal (by decide) (by decide) (by decide)).2 2 (by decide) (by decide) ?_
  intro index hindex full hfull
  rfl

end RustSql.Sql
