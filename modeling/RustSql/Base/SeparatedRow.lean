import Mathlib.Data.List.Basic
import Mathlib.Order.WithBot

/-!
# Rows of parts between separators

A search structure keeps its parts in a row, with a separator between each two of them:
what lies left of a separator is below it, what lies right of it is not. `SeparatedRow T` says
this of a row of children, when `T` says of one child which parts it stands for and
between which bounds. A row is searched by counting separators, takes a separator and a
child more where a child has split, and is cut at one of its separators.
-/

namespace RustSql

variable {K α β : Type} [LinearOrder K]

/-- What a child stands for: parts with a lower bound and a strict upper bound. -/
abbrev Bounded (K α β : Type) := WithBot K → WithTop K → α → List β → Prop

/-- Children with separators between them, from a lower bound to an upper one. -/
inductive SeparatedRow (T : Bounded K α β) :
    WithBot K → WithTop K → List K → List α → List β → Prop
  | last {lo : WithBot K} {hi : WithTop K} {child : α} {parts : List β}
      (h : T lo hi child parts) : SeparatedRow T lo hi [] [child] parts
  | cons {lo : WithBot K} {hi : WithTop K} {separator : K} {child : α} {separators : List K}
      {children : List α} {parts rest : List β} (hlo : lo < separator) (hhi : separator < hi)
      (h : T lo separator child parts)
      (hrest : SeparatedRow T separator hi separators children rest) :
      SeparatedRow T lo hi (separator::separators) (child::children) (parts++rest)

namespace SeparatedRow

variable {T : Bounded K α β} {lo : WithBot K} {hi : WithTop K} {separators : List K}
  {children : List α} {parts : List β}

/-- There is one child more than separators. -/
theorem length_children (h : SeparatedRow T lo hi separators children parts) :
    children.length=separators.length+1 := by
  induction h with
  | last h => rfl
  | cons hlo hhi h hrest ih => rw [List.length_cons,List.length_cons,ih]

/-- Two rows, one after the other. -/
theorem append {mid : K} {separators' : List K} {children' : List α} {parts' : List β}
    (h : SeparatedRow T lo mid separators children parts)
    (h' : SeparatedRow T mid hi separators' children' parts') (hhi : (mid : WithTop K) < hi)
    (hlo : lo < (mid : WithBot K)) :
    SeparatedRow T lo hi (separators++mid::separators') (children++children') (parts++parts') := by
  generalize hend : (mid : WithTop K)=top at h
  induction h with
  | last h =>
    subst hend
    exact SeparatedRow.cons hlo hhi h h'
  | cons hlo' hhi' h hrest ih =>
    subst hend
    rw [List.cons_append,List.cons_append,List.append_assoc]
    have hnext := WithTop.coe_lt_coe.mp hhi'
    exact SeparatedRow.cons hlo' (hhi'.trans hhi) h (ih (WithBot.coe_lt_coe.mpr hnext) rfl)

/-- A row is cut at one of its separators. -/
theorem split {mid : ℕ} {separator : K} (h : SeparatedRow T lo hi separators children parts)
    (hmid : separators[mid]?=some separator) :
    ∃ left right, parts=left++right ∧ lo < (separator : WithBot K) ∧
      (separator : WithTop K) < hi ∧
      SeparatedRow T lo separator (separators.take mid) (children.take (mid+1)) left ∧
      SeparatedRow T separator hi (separators.drop (mid+1)) (children.drop (mid+1)) right := by
  induction h generalizing mid with
  | last h => simp at hmid
  | @cons lo hi first child separators children parts rest hlo hhi h hrest ih =>
    cases mid with
    | zero =>
      obtain rfl := Option.some.inj hmid
      exact ⟨parts,rest,rfl,hlo,hhi,SeparatedRow.last h,hrest⟩
    | succ mid =>
      obtain ⟨left,right,rfl,hlo',hhi',hleft,hright⟩ := ih hmid
      have hfirst := WithBot.coe_lt_coe.mp hlo'
      refine ⟨parts++left,right,(List.append_assoc _ _ _).symm,hlo.trans hlo',hhi',?_,hright⟩
      exact SeparatedRow.cons hlo (WithTop.coe_lt_coe.mpr hfirst) h hleft

/-- The keys of every part of a row are within its bounds, when this holds of each child. -/
theorem keys_bounded {keys : β → List K}
    (hkeys : ∀ {lo hi child parts}, T lo hi child parts → ∀ part∈parts, ∀ key∈keys part,
      lo ≤ (key : WithBot K) ∧ (key : WithTop K) < hi)
    (h : SeparatedRow T lo hi separators children parts) :
    ∀ part∈parts, ∀ key∈keys part, lo ≤ (key : WithBot K) ∧ (key : WithTop K) < hi := by
  induction h with
  | last h => exact hkeys h
  | cons hlo hhi h hrest ih =>
    intro part hmem key hkey
    rcases List.mem_append.mp hmem with hmem | hmem
    · have hbounds := hkeys h part hmem key hkey
      exact ⟨hbounds.1,hbounds.2.trans hhi⟩
    · have hbounds := ih part hmem key hkey
      exact ⟨hlo.le.trans hbounds.1,hbounds.2⟩

/-- Every child of a row stands for some of its parts. -/
theorem parts_of_child {child : α} (h : SeparatedRow T lo hi separators children parts)
    (hmem : child∈children) : ∃ low high own, T low high child own ∧ own ⊆ parts := by
  induction h with
  | last h =>
    obtain rfl := List.mem_singleton.mp hmem
    exact ⟨_,_,_,h,List.Subset.refl _⟩
  | cons hlo hhi h hrest ih =>
    rcases List.mem_cons.mp hmem with rfl | hmem
    · exact ⟨_,_,_,h,List.subset_append_left _ _⟩
    · obtain ⟨low,high,own,hown,hsubset⟩ := ih hmem
      exact ⟨low,high,own,hown,List.Subset.trans hsubset (List.subset_append_right _ _)⟩

/-- Every part of a row belongs to one of its children. -/
theorem child_of_part {part : β} (h : SeparatedRow T lo hi separators children parts)
    (hmem : part∈parts) :
    ∃ child∈children, ∃ low high own, T low high child own ∧ part∈own ∧ own ⊆ parts := by
  induction h with
  | last h => exact ⟨_,List.mem_singleton_self _,_,_,_,h,hmem,List.Subset.refl _⟩
  | cons hlo hhi h hrest ih =>
    rcases List.mem_append.mp hmem with hmem | hmem
    · exact ⟨_,List.mem_cons_self,_,_,_,h,hmem,List.subset_append_left _ _⟩
    · obtain ⟨child,hchild,low,high,own,hown,hpart,hsubset⟩ := ih hmem
      exact ⟨child,List.mem_cons_of_mem _ hchild,low,high,own,hown,hpart,
        List.Subset.trans hsubset (List.subset_append_right _ _)⟩

/-- The place of a key in a row: the child its number of smaller separators points at.
Parts before it have smaller keys, parts behind it larger ones, and the child can be
replaced by a row with the same bounds. -/
structure Place (T : Bounded K α β) (keys : β → List K) (key : K) (lo : WithBot K)
    (hi : WithTop K) (separators : List K) (children : List α) (parts : List β) where
  child : α
  low : WithBot K
  high : WithTop K
  front : List β
  own : List β
  back : List β
  at_index : children[(separators.takeWhile (· ≤ key)).length]?=some child
  child_holds : T low high child own
  parts_eq : parts=front++(own++back)
  low_le : low ≤ (key : WithBot K)
  lt_high : (key : WithTop K) < high
  front_lt : ∀ part∈front, ∀ other∈keys part, other < key
  lt_back : ∀ part∈back, ∀ other∈keys part, key < other
  /-- A row in the place of the child. -/
  refill : ∀ {separators' : List K} {children' : List α} {own' : List β},
    SeparatedRow T low high separators' children' own' → SeparatedRow T lo hi
      (separators.take (separators.takeWhile (· ≤ key)).length++(separators'++
        separators.drop (separators.takeWhile (· ≤ key)).length))
      (children.take (separators.takeWhile (· ≤ key)).length++(children'++
        children.drop ((separators.takeWhile (· ≤ key)).length+1)))
      (front++(own'++back))

/-- Every key within the bounds of a row has its place there. -/
theorem place {keys : β → List K} {key : K}
    (hkeys : ∀ {lo hi child parts}, T lo hi child parts → ∀ part∈parts, ∀ key∈keys part,
      lo ≤ (key : WithBot K) ∧ (key : WithTop K) < hi)
    (h : SeparatedRow T lo hi separators children parts) (hlo : lo ≤ (key : WithBot K))
    (hhi : (key : WithTop K) < hi) :
    Nonempty (Place T keys key lo hi separators children parts) := by
  induction h with
  | @last lo hi child parts h =>
    refine ⟨⟨child,lo,hi,[],parts,[],rfl,h,by simp,hlo,hhi,by simp,by simp,?_⟩⟩
    intro separators' children' own' hrow
    simpa using hrow
  | @cons lo hi separator child separators children parts rest hlo' hhi' h hrest ih =>
    by_cases hle : separator ≤ key
    · -- the key lies behind the first separator
      obtain ⟨place⟩ := ih (WithBot.coe_le_coe.mpr hle) hhi
      have hindex : ((separator::separators).takeWhile (· ≤ key)).length=
          (separators.takeWhile (· ≤ key)).length+1 := by
        rw [List.takeWhile_cons_of_pos (by simpa using hle),List.length_cons]
      refine ⟨⟨place.child,place.low,place.high,parts++place.front,place.own,place.back,?_,
        place.child_holds,?_,place.low_le,place.lt_high,?_,place.lt_back,?_⟩⟩
      · rw [hindex,List.getElem?_cons_succ]
        exact place.at_index
      · rw [List.append_assoc,←place.parts_eq]
      · intro part hmem other hother
        rcases List.mem_append.mp hmem with hmem | hmem
        · have hlt := WithTop.coe_lt_coe.mp (hkeys h part hmem other hother).2
          exact hlt.trans_le hle
        · exact place.front_lt part hmem other hother
      · intro separators' children' own' hrow
        rw [hindex,List.take_succ_cons,List.drop_succ_cons,List.take_succ_cons,
          List.drop_succ_cons,List.cons_append,List.cons_append,List.append_assoc]
        exact SeparatedRow.cons hlo' hhi' h (place.refill hrow)
    · -- the key belongs to the first child
      have hlt := not_le.mp hle
      have hindex : ((separator::separators).takeWhile (· ≤ key)).length=0 := by
        rw [List.takeWhile_cons_of_neg (by simpa using hlt)]
        rfl
      refine ⟨⟨child,lo,separator,[],parts,rest,?_,h,rfl,hlo,WithTop.coe_lt_coe.mpr hlt,by simp,
        ?_,?_⟩⟩
      · rw [hindex]
        rfl
      · intro part hmem other hother
        have hbounds := keys_bounded hkeys hrest part hmem other hother
        exact hlt.trans_le (WithBot.coe_le_coe.mp hbounds.1)
      · intro separators' children' own' hrow
        have hjoined := SeparatedRow.append hrow hrest hhi' hlo'
        rw [hindex]
        simpa using hjoined

namespace Place

variable {keys : β → List K} {key : K}

/-- The child at a place is rewritten. -/
theorem replace (place : Place T keys key lo hi separators children parts) {own : List β}
    (h : T place.low place.high place.child own) :
    SeparatedRow T lo hi separators children (place.front++(own++place.back)) := by
  have hrow := place.refill (SeparatedRow.last h)
  have hlt := (List.getElem?_eq_some_iff.mp place.at_index).1
  have hchild := (List.getElem?_eq_some_iff.mp place.at_index).2
  have hchildren : children.take (separators.takeWhile (· ≤ key)).length++
      ([place.child]++children.drop ((separators.takeWhile (· ≤ key)).length+1))=children := by
    rw [List.singleton_append,←hchild,←List.drop_eq_getElem_cons hlt,List.take_append_drop]
  rw [List.nil_append,List.take_append_drop,hchildren] at hrow
  exact hrow

theorem insertIdx_eq {γ : Type} (xs : List γ) (x : γ) {i : ℕ} (h : i ≤ xs.length) :
    xs.insertIdx i x=xs.take i++x::xs.drop i := by
  induction xs generalizing i with
  | nil =>
    have hzero : i=0 := Nat.le_zero.mp h
    subst hzero
    rfl
  | cons y xs ih =>
    cases i with
    | zero => rfl
    | succ i =>
      rw [List.insertIdx_succ_cons,ih (Nat.le_of_succ_le_succ h)]
      rfl

/-- The child at a place has become two. -/
theorem grow (place : Place T keys key lo hi separators children parts) {separator : K} {right : α}
    {own : List β}
    (h : SeparatedRow T place.low place.high [separator] [place.child,right] own) :
    SeparatedRow T lo hi (separators.insertIdx (separators.takeWhile (· ≤ key)).length separator)
      (children.insertIdx ((separators.takeWhile (· ≤ key)).length+1) right)
      (place.front++(own++place.back)) := by
  have hrow := place.refill h
  have hlt := (List.getElem?_eq_some_iff.mp place.at_index).1
  have hcount : (separators.takeWhile (· ≤ key)).length ≤ separators.length :=
    (List.takeWhile_sublist _).length_le
  rw [insertIdx_eq separators separator hcount,insertIdx_eq children right hlt,
    List.take_add_one,place.at_index,List.append_assoc]
  exact hrow

end Place

end SeparatedRow

end RustSql
