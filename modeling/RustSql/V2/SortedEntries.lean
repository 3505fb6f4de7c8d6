import RustSql.V2.Tree

/-!
# Entries in key order

The entries of a leaf, and those of a whole tree read off its leaves, ascend in their
keys. Looking up, inserting and removing a key then only concern the part of the entries
where the key belongs, and together they are the operations of a finite map.
-/

namespace RustSql.V2

variable {K V : Type} [LinearOrder K] {entries front own back : List (K × V)} {key : K} {value : V}

/-- The keys ascend strictly. -/
def Ascending (entries : List (K × V)) : Prop := entries.Pairwise fun e f => e.1 < f.1

/-- What `delete_from_page` does to the entries of a leaf. -/
def eraseEntry (entries : List (K × V)) (key : K) : List (K × V) :=
  entries.eraseP fun entry => entry.1=key

/-! ## Where the key belongs -/

/-- A key that is not there is not found. -/
theorem lookupEntry_eq_none (h : ∀ entry∈entries, entry.1≠key) : lookupEntry entries key=none := by
  unfold lookupEntry
  rw [List.find?_eq_none.mpr fun entry hmem => by simpa using h entry hmem]
  rfl

/-- A lookup goes on in the second part. -/
theorem lookupEntry_append (entries back : List (K × V)) (key : K) :
    lookupEntry (entries++back) key=(lookupEntry entries key).or (lookupEntry back key) := by
  unfold lookupEntry
  rw [List.find?_append]
  cases entries.find? fun entry => entry.1=key <;> rfl

/-- A lookup among entries of which only some can have the key. -/
theorem lookupEntry_middle (hfront : ∀ entry∈front, entry.1 < key)
    (hback : ∀ entry∈back, key < entry.1) :
    lookupEntry (front++(own++back)) key=lookupEntry own key := by
  have hbefore := lookupEntry_eq_none fun entry hmem => (hfront entry hmem).ne
  have hbehind := lookupEntry_eq_none fun entry hmem => (hback entry hmem).ne'
  rw [lookupEntry_append,lookupEntry_append,hbefore,hbehind,Option.none_or,Option.or_none]

/-- Smaller keys in front stay. -/
theorem upsertEntry_behind (own : List (K × V)) (value : V) (hfront : ∀ entry∈front, entry.1 < key) :
    upsertEntry (front++own) key value=front++upsertEntry own key value := by
  induction front with
  | nil => rfl
  | cons entry front ih =>
    have hentry := hfront entry List.mem_cons_self
    rw [List.cons_append,upsertEntry,if_neg hentry.not_gt,if_neg hentry.ne',
      ih fun other hmem => hfront other (List.mem_cons_of_mem entry hmem)]
    rfl

/-- Larger keys behind stay. -/
theorem upsertEntry_before (hback : ∀ entry∈back, key < entry.1) :
    upsertEntry (own++back) key value=upsertEntry own key value++back := by
  induction own with
  | nil =>
    cases back with
    | nil => rfl
    | cons entry back =>
      have hentry := hback entry List.mem_cons_self
      change upsertEntry (entry::back) key value=(key,value)::entry::back
      rw [upsertEntry,if_pos hentry]
  | cons entry own ih =>
    rw [List.cons_append,upsertEntry,upsertEntry]
    split
    · rfl
    · split
      · rfl
      · rw [ih]
        rfl

/-- A change in the middle leaves both sides. -/
theorem upsertEntry_middle (hfront : ∀ entry∈front, entry.1 < key)
    (hback : ∀ entry∈back, key < entry.1) :
    upsertEntry (front++(own++back)) key value=front++(upsertEntry own key value++back) := by
  rw [upsertEntry_behind _ _ hfront,upsertEntry_before hback]

/-- A key that is not there is not erased. -/
theorem eraseEntry_eq_self (h : ∀ entry∈entries, entry.1≠key) : eraseEntry entries key=entries := by
  exact List.eraseP_of_forall_not fun entry hmem => by simpa using h entry hmem

/-- A deletion in the middle leaves both sides. -/
theorem eraseEntry_middle (hfront : ∀ entry∈front, entry.1 < key)
    (hback : ∀ entry∈back, key < entry.1) :
    eraseEntry (front++(own++back)) key=front++(eraseEntry own key++back) := by
  have hbefore : ∀ entry∈front, ¬(decide (entry.1=key)) := fun entry hmem => by
    simpa using (hfront entry hmem).ne
  unfold eraseEntry
  rw [List.eraseP_append_right _ hbefore]
  by_cases hmem : ∃ entry∈own, entry.1=key
  · obtain ⟨entry,hmem,hkey⟩ := hmem
    rw [List.eraseP_append_left (by simpa using hkey) _ hmem]
  · push Not at hmem
    have hown := eraseEntry_eq_self hmem
    have hbehind := eraseEntry_eq_self fun entry hmem => (hback entry hmem).ne'
    unfold eraseEntry at hown hbehind
    have hnone : ∀ entry∈own, ¬(decide (entry.1=key)) := fun entry h => by simpa using hmem entry h
    rw [List.eraseP_append_right back hnone,hown,hbehind]

/-! ## Order and bounds -/

/-- The new entry or an old one. -/
theorem mem_upsertEntry {entry : K × V} (h : entry∈upsertEntry entries key value) :
    entry=(key,value) ∨ entry∈entries := by
  induction entries with
  | nil => exact Or.inl (List.mem_singleton.mp h)
  | cons first entries ih =>
    rw [upsertEntry] at h
    split at h
    · exact List.mem_cons.mp h
    · split at h
      · exact (List.mem_cons.mp h).imp_right (List.mem_cons_of_mem first)
      · rcases List.mem_cons.mp h with rfl | h
        · exact Or.inr List.mem_cons_self
        · exact (ih h).imp_right (List.mem_cons_of_mem first)

/-- Keys still ascend. -/
theorem Ascending.upsertEntry (h : Ascending entries) :
    Ascending (upsertEntry entries key value) := by
  induction entries with
  | nil => exact List.pairwise_singleton _ _
  | cons first entries ih =>
    obtain ⟨hfirst,hrest⟩ := List.pairwise_cons.mp h
    rw [V2.upsertEntry]
    split
    · next hlt =>
      refine List.pairwise_cons.mpr ⟨fun other hmem => ?_,h⟩
      rcases List.mem_cons.mp hmem with rfl | hmem
      · exact hlt
      · exact hlt.trans (hfirst other hmem)
    · next hnot =>
      split
      · next heq =>
        exact List.pairwise_cons.mpr ⟨fun other hmem => heq ▸ hfirst other hmem,hrest⟩
      · next hne =>
        refine List.pairwise_cons.mpr ⟨fun other hmem => ?_,ih hrest⟩
        rcases mem_upsertEntry hmem with rfl | hmem
        · exact lt_of_le_of_ne (not_lt.mp hnot) (Ne.symm hne)
        · exact hfirst other hmem

/-- What is left was there. -/
theorem mem_of_mem_eraseEntry {entry : K × V} (h : entry∈eraseEntry entries key) :
    entry∈entries :=
  List.mem_of_mem_eraseP h

/-- Keys still ascend. -/
theorem Ascending.eraseEntry (h : Ascending entries) : Ascending (eraseEntry entries key) :=
  List.Pairwise.sublist List.eraseP_sublist h

/-- Smaller keys first, larger keys behind. -/
theorem Ascending.append (h : Ascending front) (h' : Ascending back)
    (hlt : ∀ entry∈front, ∀ other∈back, entry.1 < other.1) : Ascending (front++back) :=
  List.pairwise_append.mpr ⟨h,h',hlt⟩

/-! ## A finite map -/

/-- A lookup finds exactly the entries. -/
theorem Ascending.lookupEntry_eq_some (h : Ascending entries) :
    lookupEntry entries key=some value ↔ (key,value)∈entries := by
  unfold lookupEntry
  constructor
  · intro hlookup
    obtain ⟨⟨found,stored⟩,hfind,rfl⟩ := Option.map_eq_some_iff.mp hlookup
    have hkey : found=key := by simpa using List.find?_some hfind
    exact hkey ▸ List.mem_of_find?_eq_some hfind
  · intro hmem
    cases hfind : entries.find? fun entry => entry.1=key with
    | none =>
      have hnot := List.find?_eq_none.mp hfind (key,value) hmem
      simp at hnot
    | some found =>
      have hkey : found.1=key := by simpa using List.find?_some hfind
      have hfound := List.mem_of_find?_eq_some hfind
      have hsame : found=(key,value) := by
        by_contra hne
        have hsymm : Std.Symm fun e f : K × V => e.1≠f.1 := ⟨fun _ _ h => h.symm⟩
        have hdistinct : entries.Pairwise fun e f => e.1≠f.1 := h.imp fun hlt => hlt.ne
        exact hdistinct.forall hfound hmem hne hkey
      rw [hsame]
      rfl

/-- An upsert replaces the entry of its key only. -/
theorem Ascending.mem_upsertEntry_iff (h : Ascending entries) {entry : K × V} :
    entry∈V2.upsertEntry entries key value ↔
      entry=(key,value) ∨ (entry.1≠key ∧ entry∈entries) := by
  induction entries with
  | nil => simp [V2.upsertEntry]
  | cons first entries ih =>
    obtain ⟨hfirst,hrest⟩ := List.pairwise_cons.mp h
    rw [V2.upsertEntry]
    split
    · next hlt =>
      have hne : ∀ other∈first::entries, other.1≠key := by
        intro other hmem
        rcases List.mem_cons.mp hmem with rfl | hmem
        · exact hlt.ne'
        · exact (hlt.trans (hfirst other hmem)).ne'
      rw [List.mem_cons]
      exact or_congr_right ⟨fun hmem => ⟨hne entry hmem,hmem⟩,And.right⟩
    · next hnot =>
      split
      · next heq =>
        have hne : ∀ other∈entries, other.1≠key := fun other hmem =>
          (heq ▸ hfirst other hmem : key < other.1).ne'
        rw [List.mem_cons,List.mem_cons]
        refine or_congr_right ⟨fun hmem => ⟨hne entry hmem,Or.inr hmem⟩,fun hmem => ?_⟩
        rcases hmem.2 with rfl | hmem'
        · exact absurd heq.symm hmem.1
        · exact hmem'
      · next hne =>
        rw [List.mem_cons,ih hrest,List.mem_cons]
        constructor
        · rintro (rfl | hnew | ⟨hkey,hmem⟩)
          · exact Or.inr ⟨Ne.symm hne,Or.inl rfl⟩
          · exact Or.inl hnew
          · exact Or.inr ⟨hkey,Or.inr hmem⟩
        · rintro (hnew | ⟨hkey,hsame | hmem⟩)
          · exact Or.inr (Or.inl hnew)
          · exact Or.inl hsame
          · exact Or.inr (Or.inr ⟨hkey,hmem⟩)

/-- A deletion takes the entry of its key only. -/
theorem Ascending.mem_eraseEntry_iff (h : Ascending entries) {entry : K × V} :
    entry∈V2.eraseEntry entries key ↔ entry.1≠key ∧ entry∈entries := by
  induction entries with
  | nil => simp [V2.eraseEntry]
  | cons first entries ih =>
    obtain ⟨hfirst,hrest⟩ := List.pairwise_cons.mp h
    unfold V2.eraseEntry at ih ⊢
    by_cases heq : first.1=key
    · rw [List.eraseP_cons_of_pos (by simpa using heq)]
      have hne : ∀ other∈entries, other.1≠key := fun other hmem =>
        (heq ▸ hfirst other hmem : key < other.1).ne'
      constructor
      · exact fun hmem => ⟨hne entry hmem,List.mem_cons_of_mem first hmem⟩
      · rintro ⟨hkey,hmem⟩
        rcases List.mem_cons.mp hmem with rfl | hmem
        · exact absurd heq hkey
        · exact hmem
    · rw [List.eraseP_cons_of_neg (by simpa using heq),List.mem_cons,ih hrest,List.mem_cons]
      constructor
      · rintro (rfl | ⟨hkey,hmem⟩)
        · exact ⟨heq,Or.inl rfl⟩
        · exact ⟨hkey,Or.inr hmem⟩
      · rintro ⟨hkey,hsame | hmem⟩
        · exact Or.inl hsame
        · exact Or.inr ⟨hkey,hmem⟩

/-- A lookup after an upsert. -/
theorem Ascending.lookupEntry_upsertEntry (h : Ascending entries) (other : K) :
    lookupEntry (V2.upsertEntry entries key value) other=
      if other=key then some value else lookupEntry entries other := by
  refine Option.ext fun found => ?_
  rw [h.upsertEntry.lookupEntry_eq_some,h.mem_upsertEntry_iff,Prod.mk.injEq]
  split
  · next heq =>
    rw [Option.some.injEq]
    constructor
    · rintro (⟨-,hvalue⟩ | ⟨hne,-⟩)
      · exact hvalue.symm
      · exact absurd heq hne
    · exact fun hvalue => Or.inl ⟨heq,hvalue.symm⟩
  · next hne =>
    rw [h.lookupEntry_eq_some]
    constructor
    · rintro (⟨heq,-⟩ | ⟨-,hmem⟩)
      · exact absurd heq hne
      · exact hmem
    · exact fun hmem => Or.inr ⟨hne,hmem⟩

/-- A lookup after a deletion. -/
theorem Ascending.lookupEntry_eraseEntry (h : Ascending entries) (other : K) :
    lookupEntry (V2.eraseEntry entries key) other=
      if other=key then none else lookupEntry entries other := by
  refine Option.ext fun found => ?_
  rw [h.eraseEntry.lookupEntry_eq_some,h.mem_eraseEntry_iff]
  split
  · next heq => exact iff_of_false (fun hmem => hmem.1 heq) (by simp)
  · next hne =>
    rw [h.lookupEntry_eq_some]
    exact ⟨And.right,fun hmem => ⟨hne,hmem⟩⟩

end RustSql.V2
