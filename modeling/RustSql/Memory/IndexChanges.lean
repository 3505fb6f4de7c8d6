import RustSql.Base.Fallible
import RustSql.Memory.Tables

/-!
# Changes of the indexes

When the steps of a change succeed on every index of a table, the change maps them all. Adding
a row's keys, removing them and building an index anew keep the entries those of the rows.
-/

namespace RustSql.Memory

open RustSql.Engine RustSql.Sql RustSql.V2

/-! ## One index after the other -/

section ChangeEach

variable {change : IndexState → Except DbError Unit × IndexState}

/-- A change that succeeds on some indexes changes these and no others. -/
theorem changeEach_ok {entries : List (String × IndexState)} (indexes : IndexMap)
    (hdistinct : entries.Pairwise fun entry other => entry.1≠other.1)
    (h : ∀ entry∈entries, (change entry.2).1=.ok ()) :
    ∃ changed, changeEach change entries indexes=(.ok (),changed) ∧
      (∀ entry∈entries, changed[entry.1]?=some (change entry.2).2) ∧
      ∀ name, (∀ entry∈entries, entry.1≠name) → changed[name]?=indexes[name]? := by
  induction entries generalizing indexes with
  | nil => exact ⟨indexes,rfl,by simp,fun _ _ => rfl⟩
  | cons entry rest ih =>
    obtain ⟨hother,hrest⟩ := List.pairwise_cons.mp hdistinct
    have hentry := h entry List.mem_cons_self
    obtain ⟨changed,hrun,hmem,hsame⟩ := ih (indexes.insert entry.1 (change entry.2).2) hrest
      fun other hmem => h other (List.mem_cons_of_mem _ hmem)
    refine ⟨changed,?_,?_,?_⟩
    · simp only [changeEach,hentry]
      exact hrun
    · intro found hfound
      rcases List.mem_cons.mp hfound with rfl | hfound
      · rw [hsame found.1 fun other hmem hname => hother other hmem hname.symm]
        exact Std.ExtTreeMap.getElem?_insert_self
      · exact hmem found hfound
    · intro name hname
      rw [hsame name fun other hother => hname other (List.mem_cons_of_mem _ hother),
        Std.ExtTreeMap.getElem?_insert,if_neg]
      exact fun heq => hname entry List.mem_cons_self (Std.LawfulEqCmp.eq_of_compare heq)

theorem distinct_names {V : Type} (entries : Std.ExtTreeMap String V) :
    entries.toList.Pairwise fun entry other => entry.1≠other.1 :=
  Std.ExtTreeMap.distinct_keys_toList.imp fun hne heq => hne (by rw [heq]; exact Std.ReflCmp.compare_self)

/-- A change that succeeds on all indexes of a table maps them. -/
theorem changeEach_all {indexes : IndexMap}
    (h : ∀ (name : String) (index : IndexState), indexes[name]?=some index →
      (change index).1=.ok ()) :
    changeEach change indexes.toList indexes=
      (.ok (),indexes.map fun _ index => (change index).2) := by
  have hall : ∀ entry∈indexes.toList, (change entry.2).1=.ok () := fun entry hmem =>
    h entry.1 entry.2 (Std.ExtTreeMap.mem_toList_iff_getElem?_eq_some.mp hmem)
  obtain ⟨changed,hrun,hmem,hsame⟩ := changeEach_ok indexes (distinct_names indexes) hall
  rw [hrun]
  refine congrArg (Prod.mk _) (Std.ExtTreeMap.ext_getElem? fun name => ?_)
  rw [Std.ExtTreeMap.getElem?_map]
  cases hfound : indexes[name]? with
  | some index =>
    exact hmem (name,index) (Std.ExtTreeMap.mem_toList_iff_getElem?_eq_some.mpr hfound)
  | none =>
    rw [hsame name,hfound]
    · rfl
    · rintro entry hentry rfl
      rw [Std.ExtTreeMap.mem_toList_iff_getElem?_eq_some.mp hentry] at hfound
      cases hfound

end ChangeEach

/-! ## One row in one index -/

section Rows

variable {schema : Schema} {rows : RowId → Option Row} {index : IndexState} {rowId : RowId}
  {row : Row} {key : List Value}

theorem conflicts_iff {own : Option RowId} :
    index.conflicts key own=true ↔ index.indexMeta.enforcesUniqueKey key ∧
      ∃ other, (key,other)∈index.entries ∧ own≠some other := by
  unfold IndexState.conflicts
  rw [Bool.and_eq_true,decide_eq_true_iff]
  refine and_congr_right fun _ => ?_
  constructor
  · rintro ⟨⟨found,other⟩,hmem,rfl,hown⟩
    exact ⟨other,hmem,hown⟩
  · rintro ⟨other,hmem,hown⟩
    exact ⟨(key,other),hmem,rfl,hown⟩

/-- An index of other rows lets a row's key in when it has no conflict, and is then one of
the row too. -/
theorem IndexState.Lists.addRow (h : index.Lists schema rows) (hfresh : rows rowId=none)
    (hkey : projectIndexKey schema index.indexMeta row=.ok key)
    (hfree : index.indexMeta.enforcesUniqueKey key → ∀ other otherRow, rows other=some otherRow →
      projectIndexKey schema index.indexMeta otherRow≠.ok key) :
    (index.addRow schema rowId row).1=.ok () ∧
      (index.addRow schema rowId row).2.indexMeta=index.indexMeta ∧
      (index.addRow schema rowId row).2.Lists schema (Function.update rows rowId (some row)) := by
  have hnone : ¬index.conflicts key none=true := by
    intro hconflict
    obtain ⟨hunique,other,hmem,-⟩ := conflicts_iff.mp hconflict
    obtain ⟨otherRow,hother,hotherKey⟩ := (h key other).mp hmem
    exact hfree hunique other otherRow hother hotherKey
  have hrun : index.addRow schema rowId row=
      (.ok (),{ index with entries := insert (key,rowId) index.entries }) := by
    simp only [IndexState.addRow,hkey,hnone,Bool.false_eq_true,if_false]
  rw [hrun]
  refine ⟨rfl,rfl,fun found other => ?_⟩
  change (found,other)∈insert (key,rowId) index.entries ↔ _
  rw [Finset.mem_insert,h found other]
  constructor
  · rintro (heq | ⟨otherRow,hother,hotherKey⟩)
    · obtain ⟨rfl,rfl⟩ := Prod.mk.inj heq
      exact ⟨row,Function.update_self ..,hkey⟩
    · have hne : other≠rowId := by
        rintro rfl
        rw [hfresh] at hother
        cases hother
      refine ⟨otherRow,?_,hotherKey⟩
      rw [Function.update_of_ne hne]
      exact hother
  · rintro ⟨otherRow,hother,hotherKey⟩
    rcases update_of_some hother with ⟨rfl,hvalue⟩ | ⟨hne,hold⟩
    · obtain rfl := Option.some.inj hvalue
      obtain rfl := Except.ok.inj (hkey.symm.trans hotherKey)
      exact Or.inl rfl
    · exact Or.inr ⟨otherRow,hold,hotherKey⟩

/-- An index of some rows is one of the others after a row's key was removed. -/
theorem IndexState.Lists.removeRow (h : index.Lists schema rows) (hrow : rows rowId=some row)
    (hkey : projectIndexKey schema index.indexMeta row=.ok key) :
    (index.removeRow schema rowId row).1=.ok () ∧
      (index.removeRow schema rowId row).2.indexMeta=index.indexMeta ∧
      (index.removeRow schema rowId row).2.Lists schema (Function.update rows rowId none) := by
  have hrun : index.removeRow schema rowId row=
      (.ok (),{ index with entries := index.entries.erase (key,rowId) }) := by
    simp only [IndexState.removeRow,hkey]
  rw [hrun]
  refine ⟨rfl,rfl,fun found other => ?_⟩
  change (found,other)∈index.entries.erase (key,rowId) ↔ _
  rw [Finset.mem_erase,h found other]
  constructor
  · rintro ⟨hne,otherRow,hother,hotherKey⟩
    have hid : other≠rowId := by
      rintro rfl
      obtain rfl := Option.some.inj (hrow.symm.trans hother)
      obtain rfl := Except.ok.inj (hkey.symm.trans hotherKey)
      exact hne rfl
    refine ⟨otherRow,?_,hotherKey⟩
    rw [Function.update_of_ne hid]
    exact hother
  · rintro ⟨otherRow,hother,hotherKey⟩
    rcases update_of_some hother with ⟨rfl,hvalue⟩ | ⟨hne,hold⟩
    · cases hvalue
    · refine ⟨?_,otherRow,hold,hotherKey⟩
      intro heq
      exact hne (Prod.mk.inj heq).2

/-! ## Indexes built from the rows -/

/-- Rows that all have a key fill an index with their keys. -/
theorem fillEntries_ok {meta' : IndexMeta} {items : List (RowId × Row)}
    (h : ∀ item∈items, ∃ key, projectIndexKey schema meta' item.2=.ok key)
    (entries : Finset (List Value × RowId)) :
    ∃ filled, fillEntries schema meta' items entries=(.ok (),filled) ∧
      ∀ key rowId, (key,rowId)∈filled ↔ (key,rowId)∈entries ∨
        ∃ row, (rowId,row)∈items ∧ projectIndexKey schema meta' row=.ok key := by
  induction items generalizing entries with
  | nil => exact ⟨entries,rfl,by simp⟩
  | cons item rest ih =>
    obtain ⟨rowId,row⟩ := item
    obtain ⟨key,hkey⟩ := h (rowId,row) List.mem_cons_self
    obtain ⟨filled,hrun,hmem⟩ := ih (fun item hitem => h item (List.mem_cons_of_mem _ hitem))
      (insert (key,rowId) entries)
    refine ⟨filled,?_,fun found other => ?_⟩
    · simp only [fillEntries,hkey]
      exact hrun
    · rw [hmem found other,Finset.mem_insert]
      constructor
      · rintro ((heq | hold) | ⟨otherRow,hother,hotherKey⟩)
        · obtain ⟨rfl,rfl⟩ := Prod.mk.inj heq
          exact Or.inr ⟨row,List.mem_cons_self,hkey⟩
        · exact Or.inl hold
        · exact Or.inr ⟨otherRow,List.mem_cons_of_mem _ hother,hotherKey⟩
      · rintro (hold | ⟨otherRow,hother,hotherKey⟩)
        · exact Or.inl (Or.inr hold)
        · rcases List.mem_cons.mp hother with heq | hother
          · obtain ⟨rfl,rfl⟩ := Prod.mk.inj heq
            obtain rfl := Except.ok.inj (hkey.symm.trans hotherKey)
            exact Or.inl (Or.inl rfl)
          · exact Or.inr ⟨otherRow,hother,hotherKey⟩

/-- An index that was built anew is one of the rows. -/
theorem rebuild_lists {items : RowMap} {index : IndexState}
    (h : ∀ (rowId : RowId) (row : Row), items[rowId]?=some row → ∃ key,
      projectIndexKey schema index.indexMeta row=.ok key) :
    (index.rebuild schema items).1=.ok () ∧
      (index.rebuild schema items).2.indexMeta=index.indexMeta ∧
      (index.rebuild schema items).2.Lists schema fun rowId => items[rowId]? := by
  have hall : ∀ item∈items.toList, ∃ key,
      projectIndexKey schema index.indexMeta item.2=.ok key := fun item hmem =>
    h item.1 item.2 (Std.ExtTreeMap.mem_toList_iff_getElem?_eq_some.mp hmem)
  obtain ⟨filled,hrun,hmem⟩ := fillEntries_ok hall ∅
  have hrebuild : index.rebuild schema items=(.ok (),{ index with entries := filled }) := by
    rw [IndexState.rebuild,hrun]
  rw [hrebuild]
  refine ⟨rfl,rfl,fun key rowId => ?_⟩
  change (key,rowId)∈filled ↔ _
  rw [hmem key rowId]
  simp only [Finset.notMem_empty,false_or,Std.ExtTreeMap.mem_toList_iff_getElem?_eq_some]

/-- The entries of a new index are those of the rows, which all have a key; no two rows have
the same one where keys are unique. -/
theorem newEntries_ok {meta' : IndexMeta} {items : List (RowId × Row)}
    {entries filled : Finset (List Value × RowId)}
    (h : newEntries schema meta' items entries=.ok filled) :
    (∀ item∈items, ∃ key, projectIndexKey schema meta' item.2=.ok key) ∧
    (∀ key rowId, (key,rowId)∈filled ↔ (key,rowId)∈entries ∨
      ∃ row, (rowId,row)∈items ∧ projectIndexKey schema meta' row=.ok key) ∧
    ((∀ key rowId other, (key,rowId)∈entries → (key,other)∈entries →
        meta'.enforcesUniqueKey key → rowId=other) →
      ∀ key rowId other, (key,rowId)∈filled → (key,other)∈filled →
        meta'.enforcesUniqueKey key → rowId=other) := by
  induction items generalizing entries with
  | nil =>
    obtain rfl := Except.ok.inj h
    exact ⟨by simp,by simp,fun hunique => hunique⟩
  | cons item rest ih =>
    obtain ⟨rowId,row⟩ := item
    rw [newEntries] at h
    obtain ⟨key,hkey,h⟩ := except_bind_ok h
    by_cases hconflict : (IndexState.mk meta' entries).conflicts key none=true
    · rw [if_pos hconflict] at h
      cases h
    · rw [if_neg hconflict] at h
      obtain ⟨hkeys,hmem,hunique⟩ := ih h
      refine ⟨?_,fun found other => ?_,fun hold => hunique ?_⟩
      · intro item hitem
        rcases List.mem_cons.mp hitem with rfl | hitem
        · exact ⟨key,hkey⟩
        · exact hkeys item hitem
      · rw [hmem found other,Finset.mem_insert]
        constructor
        · rintro ((heq | hold) | ⟨otherRow,hother,hotherKey⟩)
          · obtain ⟨rfl,rfl⟩ := Prod.mk.inj heq
            exact Or.inr ⟨row,List.mem_cons_self,hkey⟩
          · exact Or.inl hold
          · exact Or.inr ⟨otherRow,List.mem_cons_of_mem _ hother,hotherKey⟩
        · rintro (hold | ⟨otherRow,hother,hotherKey⟩)
          · exact Or.inl (Or.inr hold)
          · rcases List.mem_cons.mp hother with heq | hother
            · obtain ⟨rfl,rfl⟩ := Prod.mk.inj heq
              obtain rfl := Except.ok.inj (hkey.symm.trans hotherKey)
              exact Or.inl (Or.inl rfl)
            · exact Or.inr ⟨otherRow,hother,hotherKey⟩
      · have hfree : meta'.enforcesUniqueKey key → ∀ other, (key,other)∉entries := by
          intro henforces other hother
          exact hconflict (conflicts_iff.mpr ⟨henforces,other,hother,by simp⟩)
        intro found first second hfirst hsecond henforces
        rcases Finset.mem_insert.mp hfirst with heq | hfirstOld
        · obtain ⟨rfl,rfl⟩ := Prod.mk.inj heq
          rcases Finset.mem_insert.mp hsecond with heq | hsecondOld
          · exact (Prod.mk.inj heq).2.symm
          · exact absurd hsecondOld (hfree henforces second)
        · rcases Finset.mem_insert.mp hsecond with heq | hsecondOld
          · obtain ⟨rfl,rfl⟩ := Prod.mk.inj heq
            exact absurd hfirstOld (hfree henforces first)
          · exact hold found first second hfirstOld hsecondOld henforces

end Rows

/-! ## The check of keys -/

/-- A row that passed the check has a key without a conflict in every index the check is
about. -/
theorem validateKeys_ok {schema : Schema} {row : Row} {own : Option RowId}
    {test : IndexMeta → Bool} {indexes : IndexMap}
    (h : validateKeys schema row own test indexes=.ok ()) {name : String} {index : IndexState}
    (hindex : indexes[name]?=some index) (htest : test index.indexMeta=true) :
    ∃ key, projectIndexKey schema index.indexMeta row=.ok key ∧ ¬index.conflicts key own=true := by
  have hmem : (name,index)∈indexes.toList.filter fun entry => test entry.2.indexMeta :=
    List.mem_filter.mpr ⟨Std.ExtTreeMap.mem_toList_iff_getElem?_eq_some.mpr hindex,htest⟩
  have hstep := forM_ok h (name,index) hmem
  obtain ⟨key,hkey,hstep⟩ := except_bind_ok hstep
  refine ⟨key,hkey,fun hconflict => ?_⟩
  rw [if_pos hconflict] at hstep
  cases hstep

end RustSql.Memory
