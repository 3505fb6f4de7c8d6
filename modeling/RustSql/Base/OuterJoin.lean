import Mathlib.Data.List.Basic
import Mathlib.Tactic

/-!
# Outer joins

Two lists joined over a condition: every pair that satisfies it, and the entries of either side
that found no partner. The nested loop with its flags gives exactly that.
-/

namespace RustSql

section OuterJoin

variable {ε α β γ : Type}

/-- A test that was passed. -/
def passes : Except ε Bool → Bool
  | .ok passed => passed
  | .error _ => false

section Definition

variable (holds : α → β → Bool) (pair : α → β → γ) (padLeft : α → Option γ)
  (padRight : β → Option γ) (xs : List α) (ys : List β)

/-- The partners of a left entry, or the entry alone. -/
def partners (x : α) : List γ :=
  if ys.any (holds x) then (ys.filter (holds x)).map (pair x) else (padLeft x).toList

/-- Every pair that satisfies the condition, each left entry without a partner, and each right
entry without one. -/
def outerJoin : List γ :=
  xs.flatMap (partners holds pair padLeft ys)++
    (ys.filter fun y => !xs.any fun x => holds x y).filterMap padRight

end Definition

section Loop

variable (test : α → β → Except ε Bool) (pair : α → β → γ) (padLeft : α → Option γ)
  (padRight : β → Option γ)

/-- The join, once the condition has been tested on every pair. -/
def testedJoin (xs : List α) (ys : List β) : Except ε (List γ) := do
  let _ ← xs.mapM fun x => ys.mapM (test x)
  .ok (outerJoin (fun x y => passes (test x y)) pair padLeft padRight xs ys)

/-- What the nested loop keeps: the rows, whether the left entry has a partner, and which right
entries have one. -/
structure Tries (γ : Type) where
  rows : List γ
  matched : Bool
  matchedRight : List Bool

/-- One pass of the inner loop. -/
def tryPair (x : α) (tries : Tries γ) (entry : β × ℕ) : Except ε (Tries γ) := do
  let passed ← test x entry.1
  if passed then .ok ⟨tries.rows++[pair x entry.1],true,tries.matchedRight.set entry.2 true⟩
  else .ok tries

/-- One pass of the outer loop. -/
def tryLeft (ys : List β) (kept : List γ × List Bool) (x : α) : Except ε (List γ × List Bool) := do
  let tries ← ys.zipIdx.foldlM (tryPair test pair x) ⟨kept.1,false,kept.2⟩
  if tries.matched then .ok (tries.rows,tries.matchedRight)
  else .ok (tries.rows++(padLeft x).toList,tries.matchedRight)

/-- The nested loop, and the right entries that are left over. -/
def nestedLoop (xs : List α) (ys : List β) : Except ε (List γ) := do
  let kept ← xs.foldlM (tryLeft test pair padLeft ys) ([],ys.map fun _ => false)
  .ok (kept.1++((ys.zip kept.2).filter fun entry => !entry.2).filterMap fun entry =>
    padRight entry.1)

/-- The inner loop tests every right entry: it adds the partners and marks them. -/
theorem foldlM_tryPair (x : α) (ys : List β) (rows : List γ) (matched : Bool)
    (earlier marks : List Bool) (hmarks : marks.length=ys.length) :
    (ys.zipIdx earlier.length).foldlM (tryPair test pair x) ⟨rows,matched,earlier++marks⟩=
      (do
        let _ ← ys.mapM (test x)
        .ok ⟨rows++(ys.filter fun y => passes (test x y)).map (pair x),
          matched || ys.any fun y => passes (test x y),
          earlier++List.zipWith (fun mark y => mark || passes (test x y)) marks ys⟩) := by
  induction ys generalizing rows matched earlier marks with
  | nil =>
    have hnil : marks=[] := List.length_eq_zero_iff.mp hmarks
    rw [hnil]
    simp only [List.zipIdx_nil,List.foldlM_nil,List.mapM_nil,List.filter_nil,List.map_nil,
      List.append_nil,List.any_nil,Bool.or_false,List.zipWith_nil_left]
    rfl
  | cons y ys ih =>
    cases marks with
    | nil => simp at hmarks
    | cons mark marks =>
      have hlength : marks.length=ys.length := Nat.succ.inj hmarks
      have hnext (flag : Bool) : earlier++flag :: marks=(earlier++[flag])++marks := by simp
      rw [List.zipIdx_cons,List.foldlM_cons,List.mapM_cons]
      cases htest : test x y with
      | error error => simp only [tryPair,htest]; rfl
      | ok passed =>
        have hstep := ih (rows++(if passed then [pair x y] else [])) (matched || passed)
          (earlier++[mark || passed]) marks hlength
        rw [List.length_append,List.length_singleton] at hstep
        have hfirst : tryPair test pair x ⟨rows,matched,earlier++mark :: marks⟩
            (y,earlier.length)=
            .ok ⟨rows++(if passed then [pair x y] else []),matched || passed,
              (earlier++[mark || passed])++marks⟩ := by
          cases passed with
          | true => simp [tryPair,htest,bind,Except.bind,List.set_append_right]
          | false => simp [tryPair,htest,bind,Except.bind]
        rw [hfirst]
        change (ys.zipIdx (earlier.length+1)).foldlM (tryPair test pair x) _=_
        rw [hstep]
        change _=(ys.mapM (test x) >>= fun verdicts => Except.ok (passed :: verdicts)) >>= _
        rw [bind_assoc]
        cases passed <;> simp [htest,passes,bind,Except.bind]

/-- One pass of the outer loop adds what the left entry gives. -/
theorem tryLeft_eq (x : α) (ys : List β) (rows : List γ) (marks : List Bool)
    (hmarks : marks.length=ys.length) :
    tryLeft test pair padLeft ys (rows,marks) x=(do
      let _ ← ys.mapM (test x)
      .ok (rows++partners (fun x y => passes (test x y)) pair padLeft ys x,
        List.zipWith (fun mark y => mark || passes (test x y)) marks ys)) := by
  have htries := foldlM_tryPair test pair x ys rows false [] marks hmarks
  rw [List.length_nil,List.nil_append] at htries
  rw [tryLeft,htries,bind_assoc]
  congr 1
  funext _
  rw [Bool.false_or,List.nil_append,partners]
  cases hany : ys.any fun y => passes (test x y) with
  | true => rfl
  | false =>
    have hnone : (ys.filter fun y => passes (test x y))=[] := by
      rw [List.filter_eq_nil_iff]
      intro y hy hpasses
      rw [List.any_eq_false] at hany
      exact hany y hy hpasses
    change Except.ok (_,_)=Except.ok (_,_)
    simp [hnone]

theorem foldlM_tryLeft (xs : List α) (ys : List β) (rows : List γ) (marks : List Bool)
    (hmarks : marks.length=ys.length) :
    xs.foldlM (tryLeft test pair padLeft ys) (rows,marks)=(do
      let _ ← xs.mapM fun x => ys.mapM (test x)
      .ok (rows++xs.flatMap (partners (fun x y => passes (test x y)) pair padLeft ys),
        List.zipWith (fun mark y => mark || xs.any fun x => passes (test x y)) marks ys)) := by
  induction xs generalizing rows marks with
  | nil =>
    have hsame : List.zipWith (fun (mark : Bool) (_ : β) => mark) marks ys=marks := by
      rw [←List.map_uncurry_zip_eq_zipWith]
      exact List.map_fst_zip (by omega)
    simp [hsame,pure,Except.pure,bind,Except.bind]
  | cons x xs ih =>
    rw [List.foldlM_cons,tryLeft_eq test pair padLeft x ys rows marks hmarks,List.mapM_cons]
    cases ys.mapM (test x) with
    | error error => rfl
    | ok verdicts =>
      change xs.foldlM (tryLeft test pair padLeft ys) (_,_)=_
      rw [ih _ _ (by rw [List.length_zipWith,hmarks,Nat.min_self])]
      change _=((xs.mapM fun x => ys.mapM (test x)) >>= fun rest =>
        Except.ok (verdicts :: rest)) >>= _
      rw [bind_assoc]
      congr 1
      funext rest
      simp [List.zipWith_zipWith_left,Bool.or_assoc,bind,Except.bind]

/-- The nested loop is the join. -/
theorem nestedLoop_eq (xs : List α) (ys : List β) :
    nestedLoop test pair padLeft padRight xs ys=testedJoin test pair padLeft padRight xs ys := by
  rw [nestedLoop,foldlM_tryLeft test pair padLeft xs ys [] _ (List.length_map _),testedJoin,
    bind_assoc]
  congr 1
  funext _
  change Except.ok _=Except.ok _
  have hmarks : List.zipWith (fun mark y => mark || xs.any fun x => passes (test x y))
      (ys.map fun _ => false) ys=ys.map fun y => xs.any fun x => passes (test x y) := by
    rw [List.zipWith_map_left,List.zipWith_self]
    simp only [Bool.false_or]
  rw [hmarks,List.nil_append,outerJoin]
  congr 2
  have hzip : ys.zip (ys.map fun y => xs.any fun x => passes (test x y))=
      ys.map fun y => (y,xs.any fun x => passes (test x y)) := by
    rw [List.zip_map_right,List.zip_eq_zipWith,List.zipWith_self,List.map_map]
    rfl
  rw [hzip,List.filter_map,List.filterMap_map]
  rfl

/-- Tests that agree on a list run alike through it. -/
theorem mapM_congr_mem {f g : α → Except ε β} {xs : List α} (h : ∀ x∈xs, f x=g x) :
    xs.mapM f=xs.mapM g := by
  induction xs with
  | nil => rfl
  | cons x xs ih =>
    rw [List.mapM_cons,List.mapM_cons,h x List.mem_cons_self,
      ih fun y hy => h y (List.mem_cons_of_mem x hy)]

/-- Only what the test says of the pairs counts. -/
theorem testedJoin_congr {other : α → β → Except ε Bool} {xs : List α} {ys : List β}
    (h : ∀ x∈xs, ∀ y∈ys, test x y=other x y) :
    testedJoin test pair padLeft padRight xs ys=testedJoin other pair padLeft padRight xs ys := by
  have hmap : (xs.mapM fun x => ys.mapM (test x))=xs.mapM fun x => ys.mapM (other x) :=
    mapM_congr_mem fun x hx => mapM_congr_mem fun y hy => h x hx y hy
  have hblocks : xs.flatMap (partners (fun x y => passes (test x y)) pair padLeft ys)=
      xs.flatMap (partners (fun x y => passes (other x y)) pair padLeft ys) := by
    rw [List.flatMap_def,List.flatMap_def]
    congr 1
    refine List.map_congr_left fun x hx => ?_
    have hany : (ys.any fun y => passes (test x y))=ys.any fun y => passes (other x y) := by
      rw [List.any_eq,List.any_eq]
      refine decide_eq_decide.mpr (exists_congr fun y => and_congr_right fun hy => ?_)
      rw [h x hx y hy]
    have hfilter : (ys.filter fun y => passes (test x y))=ys.filter fun y => passes (other x y) :=
      List.filter_congr fun y hy => by rw [h x hx y hy]
    rw [partners,partners,hany,hfilter]
  have hrest : (ys.filter fun y => !xs.any fun x => passes (test x y))=
      ys.filter fun y => !xs.any fun x => passes (other x y) := by
    refine List.filter_congr fun y hy => congrArg Bool.not ?_
    rw [List.any_eq,List.any_eq]
    refine decide_eq_decide.mpr (exists_congr fun x => and_congr_right fun hx => ?_)
    rw [h x hx y hy]
  rw [testedJoin,testedJoin,hmap,outerJoin,outerJoin,hblocks,hrest]

/-- The join of two single entries. -/
theorem testedJoin_single {x : α} {y : β} {passed : Bool} (h : test x y=.ok passed) :
    testedJoin test pair padLeft padRight [x] [y]=
      .ok (if passed then [pair x y] else (padLeft x).toList++(padRight y).toList) := by
  have hrest : List.filterMap padRight [y]=(padRight y).toList := by
    cases hpad : padRight y <;> simp [hpad]
  cases passed with
  | true => simp [testedJoin,outerJoin,partners,passes,h,bind,Except.bind,pure,Except.pure]
  | false =>
    simp [testedJoin,outerJoin,partners,passes,h,bind,Except.bind,pure,Except.pure,hrest]

end Loop

/-- What a join is made of. -/
theorem mem_outerJoin {holds : α → β → Bool} {pair : α → β → γ} {padLeft : α → Option γ}
    {padRight : β → Option γ} {xs : List α} {ys : List β} {z : γ}
    (hz : z∈outerJoin holds pair padLeft padRight xs ys) :
    (∃ x∈xs, ∃ y∈ys, holds x y=true ∧ z=pair x y) ∨
      (∃ x∈xs, padLeft x=some z ∧ ∀ y∈ys, holds x y=false) ∨
      ∃ y∈ys, padRight y=some z ∧ ∀ x∈xs, holds x y=false := by
  rw [outerJoin,List.mem_append,List.mem_flatMap,List.mem_filterMap] at hz
  cases hz with
  | inl hleft =>
    obtain ⟨x,hx,hz⟩ := hleft
    cases hany : ys.any (holds x) with
    | true =>
      rw [partners,if_pos hany,List.mem_map] at hz
      obtain ⟨y,hy,hpair⟩ := hz
      have hyholds := List.mem_filter.mp hy
      exact Or.inl ⟨x,hx,y,hyholds.1,hyholds.2,hpair.symm⟩
    | false =>
      rw [partners,hany,if_neg Bool.false_ne_true,Option.mem_toList] at hz
      rw [List.any_eq_false] at hany
      exact Or.inr (Or.inl ⟨x,hx,hz,fun y hy => Bool.eq_false_iff.mpr (hany y hy)⟩)
  | inr hright =>
    obtain ⟨y,hy,hz⟩ := hright
    have hrest := List.mem_filter.mp hy
    have hnone : ∀ x∈xs, holds x y=false := by
      intro x hx
      have hany := List.any_eq_false.mp (Bool.not_eq_true' _ ▸ hrest.2) x hx
      exact Bool.eq_false_iff.mpr hany
    exact Or.inr (Or.inr ⟨y,hrest.1,hz,hnone⟩)

end OuterJoin

end RustSql
