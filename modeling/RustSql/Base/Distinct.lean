import Mathlib.Data.List.Nodup
import Mathlib.Data.List.Perm.Subperm
import Mathlib.Tactic

/-!
# The first entry of each key

What is left of a list when each key keeps its first entry, and when it makes no difference
to cut a window out of the list before that and after it.
-/

namespace RustSql

section Firsts

variable {α κ : Type} [DecidableEq κ] (key : α → κ)

/-- The first entry of each key, in order. -/
def firsts : List α → List α
  | [] => []
  | x :: xs => x :: (firsts xs).filter fun y => key y≠key x

variable {key}

theorem firsts_sublist (xs : List α) : (firsts key xs).Sublist xs := by
  induction xs with
  | nil => exact List.nil_sublist []
  | cons x xs ih => exact ((List.filter_sublist).trans ih).cons_cons x

/-- Every key has an entry. -/
theorem key_mem_firsts {xs : List α} {k : κ} : k∈(firsts key xs).map key ↔ k∈xs.map key := by
  induction xs with
  | nil => exact Iff.rfl
  | cons x xs ih =>
    rw [firsts,List.map_cons,List.map_cons,List.mem_cons,List.mem_cons,←ih]
    by_cases hk : k=key x
    · exact iff_of_true (Or.inl hk) (Or.inl hk)
    · simp only [hk,false_or,List.mem_map,List.mem_filter,decide_eq_true_eq]
      constructor
      · rintro ⟨y,⟨hy,-⟩,rfl⟩
        exact ⟨y,hy,rfl⟩
      · rintro ⟨y,hy,rfl⟩
        exact ⟨y,⟨hy,hk⟩,rfl⟩

/-- No key has two entries. -/
theorem firsts_nodup (xs : List α) : ((firsts key xs).map key).Nodup := by
  induction xs with
  | nil => exact List.nodup_nil
  | cons x xs ih =>
    rw [firsts,List.map_cons,List.nodup_cons]
    constructor
    · intro hmem
      obtain ⟨y,hy,hkey⟩ := List.mem_map.mp hmem
      exact of_decide_eq_true (List.mem_filter.mp hy).2 hkey
    · exact ih.sublist (List.filter_sublist.map key)

theorem firsts_append (xs ys : List α) :
    firsts key (xs++ys)=
      firsts key xs++(firsts key ys).filter fun y => key y∉xs.map key := by
  induction xs with
  | nil => simp [firsts]
  | cons x xs ih =>
    rw [List.cons_append,firsts,firsts,ih,List.filter_append,List.filter_filter,
      List.cons_append]
    congr 2
    refine List.filter_congr fun y _ => ?_
    rw [List.map_cons,←Bool.decide_and]
    simp only [List.mem_cons,not_or]

/-- Distinct entries are left as they are. -/
theorem firsts_of_nodup {xs : List α} (h : (xs.map key).Nodup) : firsts key xs=xs := by
  induction xs with
  | nil => rfl
  | cons x xs ih =>
    rw [List.map_cons,List.nodup_cons] at h
    rw [firsts,ih h.2,List.filter_eq_self.mpr]
    intro y hy
    refine decide_eq_true fun hkey => h.1 ?_
    rw [←hkey]
    exact List.mem_map_of_mem hy

theorem firsts_length_le (xs : List α) : (firsts key xs).length ≤ xs.length :=
  (firsts_sublist xs).length_le

/-- As many entries as entries left: all are distinct. -/
theorem nodup_of_firsts_length {xs : List α} (h : (firsts key xs).length=xs.length) :
    (xs.map key).Nodup := by
  have hsame : firsts key xs=xs := (firsts_sublist xs).eq_of_length h
  rw [←hsame]
  exact firsts_nodup xs

/-- Fewer keys, fewer entries. -/
theorem firsts_length_mono {xs ys : List α} (h : ∀ k∈xs.map key, k∈ys.map key) :
    (firsts key xs).length ≤ (firsts key ys).length := by
  have hsub : ((firsts key xs).map key).Subperm ((firsts key ys).map key) :=
    (firsts_nodup xs).subperm fun k hk => key_mem_firsts.mpr (h k (key_mem_firsts.mp hk))
  simpa using hsub.length_le

/-- Where the keys of some entries are as many as all keys, they are all keys. -/
theorem keys_of_firsts_length {xs ys : List α} (h : ∀ k∈xs.map key, k∈ys.map key)
    (hlength : (firsts key ys).length ≤ (firsts key xs).length) :
    ∀ k∈ys.map key, k∈xs.map key := by
  have hsub : ((firsts key xs).map key).Subperm ((firsts key ys).map key) :=
    (firsts_nodup xs).subperm fun k hk => key_mem_firsts.mpr (h k (key_mem_firsts.mp hk))
  have hperm : ((firsts key xs).map key).Perm ((firsts key ys).map key) :=
    hsub.perm_of_length_le (by simpa using hlength)
  exact fun k hk => key_mem_firsts.mp (hperm.mem_iff.mpr (key_mem_firsts.mpr hk))

/-- Entries behind all keys add nothing. -/
theorem firsts_append_of_keys {xs ys : List α} (h : ∀ k∈ys.map key, k∈xs.map key) :
    firsts key (xs++ys)=firsts key xs := by
  rw [firsts_append,List.filter_eq_nil_iff.mpr,List.append_nil]
  intro y hy
  have hmem : key y∈xs.map key := h _ (key_mem_firsts.mp (List.mem_map_of_mem hy))
  simpa using hmem

/-! ## Windows -/

/-- The entries from a position on, up to a limit. -/
def cutOut (limit : Option ℕ) (offset : ℕ) (xs : List α) : List α :=
  match limit with
  | some limit => (xs.drop offset).take limit
  | none => xs.drop offset

theorem cutOut_length_le (limit : Option ℕ) (offset : ℕ) (xs : List α) :
    (cutOut limit offset xs).length ≤ xs.length-offset := by
  cases limit with
  | none => exact List.length_drop.le
  | some limit =>
    rw [cutOut,List.length_take,List.length_drop]
    exact min_le_right _ _

variable {limit : Option ℕ} {offset : ℕ}

theorem cutOut_of_length_le {xs : List α} (h : xs.length ≤ offset) : cutOut limit offset xs=[] := by
  have hlength := cutOut_length_le limit offset xs
  exact List.eq_nil_of_length_eq_zero (by omega)

/-- What is cut off behind a window. -/
theorem exists_cutOut_append (limit : Option ℕ) (offset : ℕ) (xs : List α) :
    ∃ rest, xs.drop offset=cutOut limit offset xs++rest := by
  cases limit with
  | none => exact ⟨[],(List.append_nil _).symm⟩
  | some limit => exact ⟨(xs.drop offset).drop limit,(List.take_append_drop _ _).symm⟩

/-- The limit does not cut what is short enough. -/
theorem cutOut_eq_drop {xs : List α}
    (h : ∀ n, limit=some n → xs.length ≤ offset+n) : cutOut limit offset xs=xs.drop offset := by
  cases limit with
  | none => rfl
  | some n =>
    have hn := h n rfl
    refine List.take_of_length_le ?_
    rw [List.length_drop]
    omega

omit [DecidableEq κ] in
theorem cutOut_keys {xs : List α} :
    ∀ k∈(cutOut limit offset xs).map key, k∈xs.map key := by
  intro k hk
  obtain ⟨rest,hrest⟩ := exists_cutOut_append limit offset xs
  have hsub : (cutOut limit offset xs).Sublist xs :=
    (hrest ▸ List.sublist_append_left _ rest).trans (List.drop_sublist offset xs)
  exact (hsub.map key).subset hk

variable (key)

/-- Where it makes no difference to cut a window out of a list before its keys are made
distinct as well as after it: nothing is left in both cases, or the list is cut from its
start and the window has no key twice, or the window has all keys and every key that was cut
off before it is among the first of the window. -/
def CutTwiceSafe (limit : Option ℕ) (offset : ℕ) (xs : List α) : Prop :=
  limit=some 0 ∨ (firsts key xs).length ≤ offset ∨
    (offset=0 ∧ ((cutOut limit offset xs).map key).Nodup) ∨
    (∀ k∈xs.map key, k∈(cutOut limit offset xs).map key) ∧
      ∀ k∈(xs.take offset).map key,
        k∈((firsts key (cutOut limit offset xs)).take offset).map key

variable {key}

/-- The distinct entries behind a position, when those before it are no longer among them. -/
theorem drop_firsts {xs : List α} :
    (firsts key xs).drop offset=
      ((firsts key (xs.drop offset)).filter fun y => key y∉(xs.take offset).map key).drop
        (offset-(firsts key (xs.take offset)).length) := by
  have hlength : (firsts key (xs.take offset)).length ≤ offset :=
    (firsts_length_le _).trans (List.length_take_le _ _)
  conv_lhs => rw [←List.take_append_drop offset xs,firsts_append]
  rw [List.drop_append,List.drop_eq_nil_of_le hlength,List.nil_append]

/-- A window from the start without a key twice is what the distinct entries begin with. -/
theorem cutOut_firsts_of_nodup {xs : List α} (h : ((cutOut limit 0 xs).map key).Nodup) :
    cutOut limit 0 (firsts key (cutOut limit 0 xs))=cutOut limit 0 (firsts key xs) := by
  rw [firsts_of_nodup h]
  cases limit with
  | none => exact (firsts_of_nodup h).symm
  | some limit =>
    change ((xs.take limit).map key).Nodup at h
    change (xs.take limit).take limit=(firsts key xs).take limit
    conv_rhs => rw [←List.take_append_drop limit xs,firsts_append,firsts_of_nodup h]
    rw [List.take_take,min_self]
    by_cases hlong : limit ≤ xs.length
    · rw [List.take_left' (by rw [List.length_take]; omega)]
    · rw [List.drop_eq_nil_of_le (by omega),firsts,List.filter_nil,List.append_nil,
        List.take_take,min_self]

/-- Entries of which none is left out by a filter stand at the end of what it leaves. -/
theorem drop_filter_eq {xs : List α} {keep : α → Bool} {offset dropped : ℕ}
    (hkept : ∀ y∈xs.drop offset, keep y=true)
    (hlength : (xs.filter keep).length+offset=dropped+xs.length) (hoffset : offset ≤ xs.length) :
    (xs.filter keep).drop dropped=xs.drop offset := by
  have hrest : (xs.drop offset).filter keep=xs.drop offset := List.filter_eq_self.mpr hkept
  have hsplit : xs.filter keep=(xs.take offset).filter keep++xs.drop offset := by
    conv_lhs => rw [←List.take_append_drop offset xs,List.filter_append,hrest]
  have hfirst : ((xs.take offset).filter keep).length=dropped := by
    have hsum := congrArg List.length hsplit
    rw [List.length_append,List.length_drop] at hsum
    omega
  rw [hsplit,List.drop_left' hfirst]

/-- A window with all keys, the first of which are those cut off before it. -/
theorem cutOut_firsts_of_keys {xs : List α}
    (hkeys : ∀ k∈xs.map key, k∈(cutOut limit offset xs).map key)
    (hcut : ∀ k∈(xs.take offset).map key,
      k∈((firsts key (cutOut limit offset xs)).take offset).map key)
    (hlong : offset < (firsts key xs).length) :
    (firsts key (cutOut limit offset xs)).drop offset=(firsts key xs).drop offset := by
  obtain ⟨rest,hrest⟩ := exists_cutOut_append limit offset xs
  have hdrop : firsts key (xs.drop offset)=firsts key (cutOut limit offset xs) := by
    rw [hrest]
    refine firsts_append_of_keys fun k hk => hkeys k ?_
    have hk' : k∈(xs.drop offset).map key := by
      rw [hrest,List.map_append]
      exact List.mem_append_right _ hk
    exact ((List.drop_sublist offset xs).map key).subset hk'
  have hcount : (firsts key xs).length=(firsts key (cutOut limit offset xs)).length :=
    le_antisymm (firsts_length_mono hkeys) (firsts_length_mono cutOut_keys)
  have hsplit : (firsts key xs).length=(firsts key (xs.take offset)).length+
      ((firsts key (cutOut limit offset xs)).filter fun y => key y∉(xs.take offset).map key).length
      := by
    conv_lhs => rw [←List.take_append_drop offset xs,firsts_append,hdrop]
    exact List.length_append
  have hshort : (firsts key (xs.take offset)).length ≤ offset :=
    (firsts_length_le _).trans (List.length_take_le _ _)
  have hnodup : ((firsts key (cutOut limit offset xs)).map key).Nodup := firsts_nodup _
  symm
  rw [drop_firsts,hdrop]
  refine drop_filter_eq (fun y hy => decide_eq_true fun hmem => ?_) (by omega) (by omega)
  -- a key cut off before the window would stand in it twice
  have hfirst := hcut _ hmem
  rw [←List.take_append_drop offset (firsts key (cutOut limit offset xs)),
    List.map_append] at hnodup
  exact List.disjoint_of_nodup_append hnodup hfirst (List.mem_map_of_mem hy)

/-- The windows are the same only where the first of them has all keys, when something is cut
off before it. -/
theorem keys_of_cutOut_eq {xs : List α}
    (h : cutOut limit offset (firsts key (cutOut limit offset xs))=
      cutOut limit offset (firsts key xs))
    (hlimit : limit≠some 0) (hlong : offset < (firsts key xs).length) (hoffset : 0 < offset) :
    ∀ k∈xs.map key, k∈(cutOut limit offset xs).map key := by
  refine keys_of_firsts_length cutOut_keys ?_
  have hshort : (firsts key (cutOut limit offset xs)).length ≤ (cutOut limit offset xs).length :=
    firsts_length_le _
  have hlength := congrArg List.length h
  cases limit with
  | none =>
    simp only [cutOut,List.length_drop] at hlength hshort ⊢
    omega
  | some n =>
    have hn : n≠0 := fun hn => hlimit (congrArg some hn)
    simp only [cutOut,List.length_take,List.length_drop] at hlength hshort ⊢
    omega

/-- The windows are the same only where the keys cut off before the first of them are among
its first keys. -/
theorem cut_of_cutOut_eq {xs : List α}
    (h : cutOut limit offset (firsts key (cutOut limit offset xs))=
      cutOut limit offset (firsts key xs))
    (hkeys : ∀ k∈xs.map key, k∈(cutOut limit offset xs).map key) :
    ∀ k∈(xs.take offset).map key,
      k∈((firsts key (cutOut limit offset xs)).take offset).map key := by
  have hcount : (firsts key xs).length=(firsts key (cutOut limit offset xs)).length :=
    le_antisymm (firsts_length_mono hkeys) (firsts_length_mono cutOut_keys)
  have hshort : (firsts key (cutOut limit offset xs)).length ≤ (cutOut limit offset xs).length :=
    firsts_length_le _
  have hlimit : ∀ n, limit=some n → (cutOut limit offset xs).length ≤ n := by
    rintro n rfl
    exact List.length_take_le _ _
  have huncut : ∀ ys : List α, ys.length=(firsts key xs).length →
      cutOut limit offset ys=ys.drop offset := by
    intro ys hys
    refine cutOut_eq_drop fun n hn => ?_
    have hle := hlimit n hn
    omega
  have hdrop : (firsts key (cutOut limit offset xs)).drop offset=(firsts key xs).drop offset := by
    rw [←huncut _ hcount.symm,h,huncut _ rfl]
  intro k hk
  have hmem : k∈(firsts key (cutOut limit offset xs)).map key :=
    key_mem_firsts.mpr (hkeys k (((List.take_sublist offset xs).map key).subset hk))
  rw [←List.take_append_drop offset (firsts key (cutOut limit offset xs)),List.map_append] at hmem
  refine (List.mem_append.mp hmem).resolve_right fun hlater => ?_
  rw [hdrop,drop_firsts] at hlater
  obtain ⟨y,hy,rfl⟩ := List.mem_map.mp hlater
  exact of_decide_eq_true (List.mem_filter.mp (List.mem_of_mem_drop hy)).2 hk

/-- A window from the start has no key twice or all keys, when the windows are the same. -/
theorem start_of_cutOut_eq {xs : List α}
    (h : cutOut limit 0 (firsts key (cutOut limit 0 xs))=cutOut limit 0 (firsts key xs)) :
    ((cutOut limit 0 xs).map key).Nodup ∨ ∀ k∈xs.map key, k∈(cutOut limit 0 xs).map key := by
  cases limit with
  | none => exact Or.inr fun k hk => hk
  | some n =>
    have hlength := congrArg List.length h
    have hshort : (firsts key (xs.take n)).length ≤ (xs.take n).length := firsts_length_le _
    have hn : (xs.take n).length ≤ n := List.length_take_le _ _
    by_cases hall : (firsts key xs).length ≤ (firsts key (cutOut (some n) 0 xs)).length
    · exact Or.inr (keys_of_firsts_length cutOut_keys hall)
    · refine Or.inl (nodup_of_firsts_length ?_)
      simp only [cutOut,List.length_take,List.drop_zero] at hlength hall hshort hn ⊢
      omega

/-- A window of the distinct entries of a window is the window of the distinct entries, where
cutting twice is safe. -/
theorem cutOut_firsts_iff (limit : Option ℕ) (offset : ℕ) (xs : List α) :
    cutOut limit offset (firsts key (cutOut limit offset xs))=
        cutOut limit offset (firsts key xs) ↔
      CutTwiceSafe key limit offset xs := by
  have hsub : (firsts key (cutOut limit offset xs)).length ≤ (firsts key xs).length :=
    firsts_length_mono cutOut_keys
  by_cases hlimit : limit=some 0
  · refine iff_of_true ?_ (Or.inl hlimit)
    rw [hlimit]
    rfl
  by_cases hlong : (firsts key xs).length ≤ offset
  · refine iff_of_true ?_ (Or.inr (Or.inl hlong))
    rw [cutOut_of_length_le hlong,cutOut_of_length_le (hsub.trans hlong)]
  constructor
  · intro h
    by_cases hoffset : offset=0
    · subst hoffset
      rcases start_of_cutOut_eq h with hnodup | hkeys
      · exact Or.inr (Or.inr (Or.inl ⟨rfl,hnodup⟩))
      · refine Or.inr (Or.inr (Or.inr ⟨hkeys,fun k hk => ?_⟩))
        exact absurd hk List.not_mem_nil
    · have hkeys := keys_of_cutOut_eq h hlimit (by omega) (by omega)
      exact Or.inr (Or.inr (Or.inr ⟨hkeys,cut_of_cutOut_eq h hkeys⟩))
  · rintro (h | h | ⟨rfl,h⟩ | ⟨hkeys,hcut⟩)
    · exact (hlimit h).elim
    · exact (hlong h).elim
    · exact cutOut_firsts_of_nodup h
    · have hdrop := cutOut_firsts_of_keys hkeys hcut (by omega)
      cases limit with
      | none => exact hdrop
      | some n => exact congrArg (List.take n) hdrop

end Firsts

end RustSql
