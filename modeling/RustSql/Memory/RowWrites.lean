import RustSql.Memory.TxnControl

/-!
# When a row can be rewritten

The exact condition under which the storage writes a row in the place of another one: the
row's number is not negative, and no other row that stands in the table at that moment has
its primary key or one of its keys in the unique indexes. The predicates of partial indexes
play no part in it.
-/

namespace RustSql.Memory

open RustSql.Engine RustSql.Sql RustSql.V2

/-! ## Numbers and keys -/

/-- The number of a row that is written in the place of another. -/
def targetNumber (schema : Schema) (rowId : RowId) (row : Row) : Option RowId :=
  match integerPrimaryKeyColumnIndex schema with
  | none => some rowId
  | some index =>
    match row[index]? with
    | some (.integer value) => if 0 ≤ value.toInt then some value.toInt.toNat else none
    | _ => none

/-- Two rows have the same primary key, or the same key without nulls in a unique index,
whether or not they match its predicate. -/
def SharesKey (schema : Schema) (indexes : List IndexMeta) (row other : Row) : Prop :=
  (schema.primaryKeyPositions≠[] ∧ schema.samePrimaryKey other row=true) ∨
    ∃ index∈indexes, ∃ key, projectIndexKey schema index row=.ok key ∧
      projectIndexKey schema index other=.ok key ∧ index.enforcesUniqueKey key=true

/-- Two rows have the same key without nulls in one index. -/
def sameIndexKey (schema : Schema) (row other : Row) (index : IndexMeta) : Bool :=
  match projectIndexKey schema index row with
  | .ok key => decide (projectIndexKey schema index other=.ok key) && index.enforcesUniqueKey key
  | .error _ => false

/-- Two rows share a key that must be unique. -/
theorem sameIndexKey_iff {schema : Schema} {row other : Row} {index : IndexMeta} :
    sameIndexKey schema row other index=true ↔ ∃ key, projectIndexKey schema index row=.ok key ∧
      projectIndexKey schema index other=.ok key ∧ index.enforcesUniqueKey key=true := by
  unfold sameIndexKey
  cases projectIndexKey schema index row with
  | error error =>
    refine iff_of_false Bool.false_ne_true ?_
    rintro ⟨key,h,-⟩
    cases h
  | ok key =>
    dsimp only
    rw [Bool.and_eq_true,decide_eq_true_iff]
    constructor
    · rintro ⟨hother,henforces⟩
      exact ⟨key,rfl,hother,henforces⟩
    · rintro ⟨found,hfound,hother,henforces⟩
      obtain rfl := Except.ok.inj hfound
      exact ⟨hother,henforces⟩

instance (schema : Schema) (indexes : List IndexMeta) (row other : Row) :
    Decidable (SharesKey schema indexes row other) :=
  decidable_of_iff ((schema.primaryKeyPositions≠[] ∧ schema.samePrimaryKey other row=true) ∨
      ∃ index∈indexes, sameIndexKey schema row other index=true)
    (or_congr Iff.rfl (exists_congr fun _ => and_congr Iff.rfl sameIndexKey_iff))

/-- A row can be written in the place of a stored one beside some others. -/
def Writable (schema : Schema) (indexes : List IndexMeta) (others : List Row) (rowId : RowId)
    (stored updated : Row) : Prop :=
  updated=stored ∨ ((targetNumber schema rowId updated).isSome=true ∧
    ∀ other∈others, ¬SharesKey schema indexes updated other)

instance (schema : Schema) (indexes : List IndexMeta) (others : List Row) (rowId : RowId)
    (stored updated : Row) : Decidable (Writable schema indexes others rowId stored updated) :=
  inferInstanceAs (Decidable (_ ∨ _))

/-- The values of a row and its checks are in order. -/
def MemoryStorage.Admits (storage : MemoryStorage) (schema : Schema) (row : Row) : Prop :=
  schema.validateRowValues row=.ok () ∧
    schema.validateCheckConstraints storage.expressions row storage.caseSensitiveLike=.ok ()

/-- The rows of a table under other numbers than the given one. -/
def MemoryStorage.otherRows (storage : MemoryStorage) (table : String) (rowId : RowId) :
    List Row :=
  ((storage.tableRows table).toList.filter fun entry => entry.1≠rowId).map Prod.snd

/-- The rows of a table without their numbers. -/
def MemoryStorage.rowValues (storage : MemoryStorage) (table : String) : List Row :=
  (storage.tableRows table).toList.map Prod.snd

/-- The definitions of a table's indexes. -/
def MemoryStorage.indexMetas (storage : MemoryStorage) (table : String) : List IndexMeta :=
  (storage.tableIndexes table).toList.map fun entry => entry.2.indexMeta

section Values

variable {s : MemoryStorage} {schema : Schema} {row : Row} {rowId number : RowId} {index : ℕ}

/-- A valid row has a value for each column. -/
theorem length_of_values (h : schema.validateRowValues row=.ok ()) :
    row.length=schema.columns.length := by
  unfold Schema.validateRowValues at h
  by_contra hlength
  rw [if_pos hlength] at h
  cases h

/-- A valid row has an integer in the column of the numbers. -/
theorem integer_of_alias (halias : integerPrimaryKeyColumnIndex schema=some index)
    (h : schema.validateRowValues row=.ok ()) :
    ∃ value, row[index]?=some (.integer value) := by
  obtain ⟨-,column,hcolumn,hprimary,⟨htype,horder⟩,-⟩ :=
    integerPrimaryKeyColumnIndex_eq_some.mp halias
  have hlength := length_of_values h
  obtain ⟨hbound,-⟩ := List.getElem?_eq_some_iff.mp hcolumn
  obtain ⟨value,hvalue⟩ : ∃ value, row[index]?=some value := by
    have hinside : index < row.length := by omega
    exact ⟨row[index],List.getElem?_eq_getElem hinside⟩
  unfold Schema.validateRowValues at h
  rw [if_neg (not_not_intro hlength)] at h
  have hzip : (schema.columns.zip row)[index]?=some (column,value) :=
    List.getElem?_zip_eq_some.mpr ⟨hcolumn,hvalue⟩
  have hcheck := forM_ok h _ (List.mem_of_getElem? hzip)
  unfold validateColumnValue at hcheck
  cases value with
  | integer number => exact ⟨number,hvalue⟩
  | null => simp [hprimary,horder] at hcheck
  | boolean _ => simp [htype,ColumnType.matchesValue] at hcheck
  | real _ => simp [htype,ColumnType.matchesValue] at hcheck
  | blob _ => simp [htype,ColumnType.matchesValue] at hcheck
  | text _ => simp [htype,ColumnType.matchesValue] at hcheck

/-- The number of a valid row is found, unless it is negative. -/
theorem resolveRowId_target (s : MemoryStorage) (rowId : RowId)
    (h : schema.validateRowValues row=.ok ()) :
    (∃ number, targetNumber schema rowId row=some number ∧
      MemoryStorage.resolveRowId schema row (pure rowId) s=(.ok (number,row),s)) ∨
    (targetNumber schema rowId row=none ∧
      ∃ error, MemoryStorage.resolveRowId schema row (pure rowId) s=(.err error,s)) := by
  unfold targetNumber MemoryStorage.resolveRowId
  cases halias : integerPrimaryKeyColumnIndex schema with
  | none => exact Or.inl ⟨rowId,rfl,rfl⟩
  | some index =>
    obtain ⟨value,hvalue⟩ := integer_of_alias halias h
    dsimp only
    rw [hvalue]
    dsimp only
    by_cases hsign : 0 ≤ value.toInt
    · rw [if_pos hsign,if_pos hsign]
      exact Or.inl ⟨_,rfl,rfl⟩
    · rw [if_neg hsign,if_neg hsign]
      exact Or.inr ⟨rfl,_,rfl⟩

/-- A row carries the number it is written under. -/
theorem numbers_of_target (h : targetNumber schema rowId row=some number) :
    Numbers schema number row := by
  intro index halias
  unfold targetNumber at h
  rw [halias] at h
  dsimp only at h
  cases hfound : row[index]? with
  | none =>
    rw [hfound] at h
    cases h
  | some found =>
    rw [hfound] at h
    cases found with
    | integer value =>
      dsimp only at h
      split at h
      · next hsign =>
        obtain rfl := Option.some.inj h
        exact ⟨value,rfl,(Int.toNat_of_nonneg hsign).symm⟩
      · cases h
    | null => cases h
    | boolean _ => cases h
    | real _ => cases h
    | blob _ => cases h
    | text _ => cases h

/-- A row that carries a number is written under it. -/
theorem target_of_numbers (h : Numbers schema rowId row) :
    targetNumber schema rowId row=some rowId := by
  unfold targetNumber
  cases halias : integerPrimaryKeyColumnIndex schema with
  | none => rfl
  | some index =>
    obtain ⟨value,hvalue,hnumber⟩ := h index halias
    have hsign : 0 ≤ value.toInt := by omega
    dsimp only
    rw [hvalue]
    dsimp only
    rw [if_pos hsign,hnumber]
    exact congrArg some (Int.toNat_natCast rowId)

/-- Without a column of the numbers a row stays where it is. -/
theorem target_eq (halias : integerPrimaryKeyColumnIndex schema=none)
    (h : targetNumber schema rowId row=some number) : number=rowId := by
  unfold targetNumber at h
  rw [halias] at h
  exact (Option.some.inj h).symm

end Values

/-! ## The checks of a row that is written -/

section Checks

variable {s : MemoryStorage} {table : String} {schema : Schema} {row stored : Row}
  {rowId : RowId}

/-- A row passes its checks when its values and its `CHECK`s are in order and its primary key
is that of no other row. -/
theorem validateRow_passes_iff {existing : List Row} :
    s.validateRow schema row existing=.ok () ↔ schema.validateRowValues row=.ok () ∧
      (s.ignoreCheckConstraints=true ∨
        schema.validateCheckConstraints s.expressions row s.caseSensitiveLike=.ok ()) ∧
      ¬(schema.primaryKeyPositions≠[] ∧ ∃ other∈existing, schema.samePrimaryKey other row=true) := by
  have hkey : schema.validatePrimaryKeyUniqueness s.expressions row existing=.ok () ↔
      ¬(schema.primaryKeyPositions≠[] ∧
        ∃ other∈existing, schema.samePrimaryKey other row=true) := by
    unfold Schema.validatePrimaryKeyUniqueness
    by_cases hpositions : schema.primaryKeyPositions=[]
    · rw [if_pos hpositions]
      exact iff_of_true rfl fun h => h.1 hpositions
    · rw [if_neg hpositions]
      by_cases hfound : (existing.any fun other => schema.samePrimaryKey other row)=true
      · rw [if_pos hfound]
        refine iff_of_false ?_ (not_not_intro ⟨hpositions,List.any_eq_true.mp hfound⟩)
        intro hrefused
        cases hrefused
      · rw [if_neg hfound]
        exact iff_of_true rfl fun h => hfound (List.any_eq_true.mpr h.2)
  rw [←hkey]
  unfold MemoryStorage.validateRow
  cases hvalues : schema.validateRowValues row with
  | error error =>
    refine iff_of_false ?_ fun h => ?_
    · intro h
      cases h
    · cases h.1
  | ok _ =>
    change (_ >>= fun _ => _)=_ ↔ _
    cases hignore : s.ignoreCheckConstraints with
    | true =>
      change schema.validatePrimaryKeyUniqueness s.expressions row existing=_ ↔ _
      exact ⟨fun h => ⟨rfl,Or.inl rfl,h⟩,fun h => h.2.2⟩
    | false =>
      rw [if_neg Bool.false_ne_true]
      cases hchecks : schema.validateCheckConstraints s.expressions row s.caseSensitiveLike with
      | error error =>
        refine iff_of_false ?_ fun h => ?_
        · intro h
          cases h
        · rcases h.2.1 with hfalse | hfalse
          · cases hfalse
          · cases hfalse
      | ok _ =>
        change schema.validatePrimaryKeyUniqueness s.expressions row existing=_ ↔ _
        exact ⟨fun h => ⟨rfl,Or.inr rfl,h⟩,fun h => h.2.2⟩

/-- The check of a valid row's primary key. -/
theorem validateRow_iff {existing : List Row} (h : s.Admits schema row) :
    s.validateRow schema row existing=.ok () ↔ ¬(schema.primaryKeyPositions≠[] ∧
      ∃ other∈existing, schema.samePrimaryKey other row=true) :=
  validateRow_passes_iff.trans ⟨fun hall => hall.2.2,fun hkey => ⟨h.1,Or.inr h.2,hkey⟩⟩

/-- The keys of a row that is as long as a stored one are there. -/
theorem key_of_length {index : IndexMeta} {key : List Value}
    (hkey : projectIndexKey schema index stored=.ok key) (hlength : row.length=stored.length) :
    ∃ found, projectIndexKey schema index row=.ok found := by
  refine mapM_of_forall fun column hcolumn => ?_
  obtain ⟨value,hvalue⟩ := mapM_mem hkey hcolumn
  obtain ⟨position,hposition,hfound⟩ := projectColumn_ok.mp hvalue
  obtain ⟨hbound,-⟩ := List.getElem?_eq_some_iff.mp hfound
  have hinside : position < row.length := by omega
  exact ⟨row[position],projectColumn_ok.mpr ⟨position,hposition,List.getElem?_eq_getElem hinside⟩⟩

/-- The rows but one. -/
theorem mem_otherRows {other : Row} :
    other∈s.otherRows table rowId ↔
      ∃ number, number≠rowId ∧ (s.stored table).table.rows number=some other := by
  unfold MemoryStorage.otherRows
  constructor
  · intro h
    obtain ⟨⟨number,found⟩,hmem,rfl⟩ := List.mem_map.mp h
    obtain ⟨hentry,hne⟩ := List.mem_filter.mp hmem
    exact ⟨number,of_decide_eq_true hne,Std.ExtTreeMap.mem_toList_iff_getElem?_eq_some.mp hentry⟩
  · rintro ⟨number,hne,hrow⟩
    refine List.mem_map.mpr ⟨(number,other),List.mem_filter.mpr ⟨?_,decide_eq_true hne⟩,rfl⟩
    exact Std.ExtTreeMap.mem_toList_iff_getElem?_eq_some.mpr hrow

/-- The indexes of the table. -/
theorem mem_indexMetas {index : IndexMeta} :
    index∈s.indexMetas table ↔ ∃ name, (s.stored table).table.indexes name=some index := by
  unfold MemoryStorage.indexMetas
  constructor
  · intro h
    obtain ⟨⟨name,state⟩,hmem,rfl⟩ := List.mem_map.mp h
    have hstate := Std.ExtTreeMap.mem_toList_iff_getElem?_eq_some.mp hmem
    refine ⟨name,?_⟩
    change (s.tableIndexes table)[name]?.map IndexState.indexMeta=_
    rw [hstate]
    rfl
  · rintro ⟨name,hname⟩
    obtain ⟨state,hstate,rfl⟩ := Option.map_eq_some_iff.mp hname
    exact List.mem_map.mpr ⟨(name,state),
      Std.ExtTreeMap.mem_toList_iff_getElem?_eq_some.mpr hstate,rfl⟩

/-- The check of a row's keys in some indexes: it has a key in each, which no other row has. -/
theorem validateKeys_passes_iff {own : Option RowId} {test : IndexMeta → Bool}
    {others : List Row} (hs : (s.stored table).Sound table)
    (hschema : (s.stored table).schema=some schema)
    (hothers : ∀ other, other∈others ↔
      ∃ number, own≠some number ∧ (s.stored table).table.rows number=some other) :
    validateKeys schema row own test (s.tableIndexes table)=.ok () ↔
      ∀ index∈s.indexMetas table, test index=true → ∃ key,
        projectIndexKey schema index row=.ok key ∧ (index.enforcesUniqueKey key=true →
          ∀ other∈others, projectIndexKey schema index other≠.ok key) := by
  constructor
  · intro h index hindex htest
    obtain ⟨name,hname⟩ := mem_indexMetas.mp hindex
    obtain ⟨state,hstate,rfl⟩ := Option.map_eq_some_iff.mp hname
    obtain ⟨key,hkey,hfree⟩ := validateKeys_ok h hstate htest
    refine ⟨key,hkey,fun henforces other hother hotherKey => hfree ?_⟩
    obtain ⟨number,hne,hnumber⟩ := (hothers other).mp hother
    have hentry := (hs.indexed schema hschema name state hstate key number).mpr
      ⟨other,hnumber,hotherKey⟩
    exact conflicts_iff.mpr ⟨henforces,number,hentry,hne⟩
  · intro h
    refine forM_of_forall fun entry hentry => ?_
    obtain ⟨hmem,htest⟩ := List.mem_filter.mp hentry
    have hstate := Std.ExtTreeMap.mem_toList_iff_getElem?_eq_some.mp hmem
    have hname : (s.stored table).table.indexes entry.1=some entry.2.indexMeta := by
      change (s.tableIndexes table)[entry.1]?.map IndexState.indexMeta=_
      rw [hstate]
      rfl
    obtain ⟨key,hkey,hfree⟩ := h entry.2.indexMeta (mem_indexMetas.mpr ⟨entry.1,hname⟩) htest
    have hnone : ¬entry.2.conflicts key own=true := by
      intro hconflict
      obtain ⟨henforces,number,hnumber,hne⟩ := conflicts_iff.mp hconflict
      obtain ⟨other,hother,hotherKey⟩ :=
        (hs.indexed schema hschema entry.1 entry.2 hstate key number).mp hnumber
      exact hfree henforces other ((hothers other).mpr ⟨number,hne,hother⟩) hotherKey
    rw [hkey]
    change (if entry.2.conflicts key own=true then _ else _)=Except.ok ()
    rw [if_neg hnone]

/-- The check of a row's keys passes when no other row has one of them. -/
theorem validateKeys_iff (hs : (s.stored table).Sound table)
    (hschema : (s.stored table).schema=some schema)
    (hrow : (s.stored table).table.rows rowId=some stored) (hlength : row.length=stored.length) :
    validateKeys schema row (some rowId) (fun _ => true) (s.tableIndexes table)=.ok () ↔
      ¬∃ other∈s.otherRows table rowId, ∃ index∈s.indexMetas table, ∃ key,
        projectIndexKey schema index row=.ok key ∧ projectIndexKey schema index other=.ok key ∧
          index.enforcesUniqueKey key=true := by
  have hothers : ∀ other, other∈s.otherRows table rowId ↔
      ∃ number, some rowId≠some number ∧ (s.stored table).table.rows number=some other := by
    intro other
    rw [mem_otherRows]
    refine exists_congr fun number => and_congr_left fun _ => ?_
    rw [ne_eq,ne_eq,Option.some.injEq,eq_comm]
  rw [validateKeys_passes_iff hs hschema hothers]
  constructor
  · rintro h ⟨other,hother,index,hindex,key,hkey,hotherKey,henforces⟩
    obtain ⟨found,hfound,hfree⟩ := h index hindex rfl
    obtain rfl := Except.ok.inj (hkey.symm.trans hfound)
    exact hfree henforces other hother hotherKey
  · intro h index hindex _
    obtain ⟨name,hname⟩ := mem_indexMetas.mp hindex
    obtain ⟨-,hfitting⟩ := Table.valid_of_schema hs.valid hschema
    obtain ⟨old,hold⟩ := hfitting.keyed name index rowId stored hname hrow
    obtain ⟨key,hkey⟩ := key_of_length hold hlength
    exact ⟨key,hkey,fun henforces other hother hotherKey =>
      h ⟨other,hother,index,hindex,key,hkey,hotherKey,henforces⟩⟩

end Checks

/-! ## Settings -/

/-- The settings of a storage, which no write of a row changes. -/
structure SameSettings (s t : MemoryStorage) : Prop where
  expressions : t.expressions=s.expressions
  ignoreCheckConstraints : t.ignoreCheckConstraints=s.ignoreCheckConstraints
  caseSensitiveLike : t.caseSensitiveLike=s.caseSensitiveLike

/-- Nothing is set. -/
theorem SameSettings.refl (s : MemoryStorage) : SameSettings s s := ⟨rfl,rfl,rfl⟩

/-- Nothing is set twice. -/
theorem SameSettings.trans {s t u : MemoryStorage} (h : SameSettings s t)
    (h' : SameSettings t u) : SameSettings s u where
  expressions := h'.expressions.trans h.expressions
  ignoreCheckConstraints := h'.ignoreCheckConstraints.trans h.ignoreCheckConstraints
  caseSensitiveLike := h'.caseSensitiveLike.trans h.caseSensitiveLike

/-- The same rows are admitted. -/
theorem SameSettings.admits {s t : MemoryStorage} {schema : Schema} {row : Row}
    (h : SameSettings s t) (hrow : s.Admits schema row) : t.Admits schema row := by
  unfold MemoryStorage.Admits at hrow ⊢
  rw [h.expressions,h.caseSensitiveLike]
  exact hrow

/-- No write of a row changes a setting, a schema or what an index is defined on. -/
structure SameDefinitions (s t : MemoryStorage) : Prop extends SameSettings s t where
  schemas : t.schemas=s.schemas
  indexes : ∀ table, SameIndexes (s.tableIndexes table) (t.tableIndexes table)

/-- Nothing is defined. -/
theorem SameDefinitions.refl (s : MemoryStorage) : SameDefinitions s s :=
  ⟨SameSettings.refl s,rfl,fun _ _ => rfl⟩

/-- Nothing is defined twice. -/
theorem SameDefinitions.trans {s t u : MemoryStorage} (h : SameDefinitions s t)
    (h' : SameDefinitions t u) : SameDefinitions s u where
  toSameSettings := h.toSameSettings.trans h'.toSameSettings
  schemas := h'.schemas.trans h.schemas
  indexes table name := (h'.indexes table name).trans (h.indexes table name)

instance instPreorderSameDefinitions : IsPreorder MemoryStorage SameDefinitions where
  refl := SameDefinitions.refl
  trans _ _ _ := SameDefinitions.trans

section Definitions

variable {α : Type} {s : MemoryStorage} {table : String} {Q : α → MemoryStorage → Prop}

/-- A change of rows and counters only. -/
theorem definitions_modify {f : MemoryStorage → MemoryStorage} (h : SameDefinitions s (f s)) :
    Guarantee SameDefinitions s (Eff.modify f) fun _ _ => True :=
  Guarantee.modify h trivial

/-- A change of rows, of counters or of the log. -/
theorem rows_modify {f : MemoryStorage → MemoryStorage} (hschemas : (f s).schemas=s.schemas)
    (hindexes : (f s).indexes=s.indexes) (hsettings : SameSettings s (f s)) :
    Guarantee SameDefinitions s (Eff.modify f) fun _ _ => True := by
  refine definitions_modify ⟨hsettings,hschemas,fun name index => ?_⟩
  simp only [MemoryStorage.tableIndexes,hindexes]

/-- The check of a call's transaction changes nothing. -/
theorem validateTransaction_reads (tid : TransactionId) :
    Guarantee Eq s (MemoryStorage.validateTransaction tid) fun _ _ => True := by
  rcases validateTransaction_cases s tid with ⟨-,hrun⟩ | ⟨error,hrun⟩
  · unfold Guarantee
    rw [hrun]
    exact ⟨rfl,fun _ _ => trivial⟩
  · unfold Guarantee
    rw [hrun]
    exact ⟨rfl,fun _ _ => trivial⟩

/-- The look at a table's schema changes nothing. -/
theorem requireSchema_reads (table : String) :
    Guarantee Eq s (MemoryStorage.requireSchema table) fun _ _ => True := by
  unfold MemoryStorage.requireSchema
  refine Guarantee.bind_get ?_
  cases s.schemas[table]? with
  | none => exact Guarantee.fail _
  | some schema => exact Guarantee.ret trivial

/-- What only reads keeps the definitions. -/
theorem definitions_reads {x : Eff MemoryStorage α} (h : Guarantee Eq s x Q) :
    Guarantee SameDefinitions s x Q :=
  h.weaken fun _ heq => heq▸SameDefinitions.refl s

/-- A change that keeps what each index is defined on, up to the first that fails. -/
theorem changeEach_same {change : IndexState → Except DbError Unit × IndexState}
    (h : ∀ index, (change index).2.indexMeta=index.indexMeta)
    {entries : List (String × IndexState)} {indexes : IndexMap}
    (hentries : ∀ entry∈entries,
      indexes[entry.1]?.map IndexState.indexMeta=some entry.2.indexMeta) :
    SameIndexes indexes (changeEach change entries indexes).2 := by
  induction entries generalizing indexes with
  | nil => exact fun _ => rfl
  | cons entry rest ih =>
    obtain ⟨hentry,hrest⟩ := List.forall_mem_cons.mp hentries
    have hstep : SameIndexes indexes (indexes.insert entry.1 (change entry.2).2) := by
      intro name
      rw [Std.ExtTreeMap.getElem?_insert]
      by_cases hname : compare entry.1 name=.eq
      · obtain rfl := compare_name.mp hname
        rw [if_pos hname,hentry]
        exact congrArg some (h entry.2)
      · rw [if_neg hname]
    unfold changeEach
    dsimp only
    cases (change entry.2).1 with
    | error error => exact hstep
    | ok _ =>
      have hlater := ih fun other hother => (hstep other.1).trans (hrest other hother)
      exact fun name => (hlater name).trans (hstep name)

/-- Changed entries define nothing. -/
theorem changeIndexes_definitions (s : MemoryStorage) (table : String)
    {change : IndexState → Except DbError Unit × IndexState}
    (h : ∀ index, (change index).2.indexMeta=index.indexMeta) :
    Guarantee SameDefinitions s (MemoryStorage.changeIndexes table change) fun _ _ => True := by
  unfold MemoryStorage.changeIndexes
  refine Guarantee.bind_get ?_
  cases hmap : s.indexes[table]? with
  | none => exact Guarantee.ret trivial
  | some indexes =>
    have hsame : SameIndexes indexes (changeEach change indexes.toList indexes).2 :=
      changeEach_same h fun entry hentry => by
        rw [Std.ExtTreeMap.mem_toList_iff_getElem?_eq_some.mp hentry]
        rfl
    refine (definitions_modify ⟨⟨rfl,rfl,rfl⟩,rfl,fun name index => ?_⟩).bind
      fun _ _ _ _ => Guarantee.lift fun _ _ => trivial
    simp only [MemoryStorage.tableIndexes,Std.ExtTreeMap.getElem?_insert,compare_name]
    by_cases hname : table=name
    · subst hname
      rw [if_pos rfl,hmap]
      exact hsame index
    · rw [if_neg hname]

/-- Nor does a row put into the indexes. -/
theorem addRowToIndexes_definitions (s : MemoryStorage) (table : String) (rowId : RowId)
    (row : Row) :
    Guarantee SameDefinitions s (MemoryStorage.addRowToIndexes table rowId row)
      fun _ _ => True := by
  refine (definitions_reads (requireSchema_reads table)).bind fun schema t _ _ => ?_
  refine changeIndexes_definitions t table fun index => ?_
  unfold IndexState.addRow
  cases projectIndexKey schema index.indexMeta row with
  | error error => rfl
  | ok key =>
    dsimp only
    by_cases hconflict : index.conflicts key none=true
    · rw [if_pos hconflict]
    · rw [if_neg hconflict]

/-- Nor does one taken out. -/
theorem removeRowFromIndexes_definitions (s : MemoryStorage) (table : String) (rowId : RowId)
    (row : Row) :
    Guarantee SameDefinitions s (MemoryStorage.removeRowFromIndexes table rowId row)
      fun _ _ => True := by
  refine (definitions_reads (requireSchema_reads table)).bind fun schema t _ _ => ?_
  refine changeIndexes_definitions t table fun index => ?_
  unfold IndexState.removeRow
  cases projectIndexKey schema index.indexMeta row with
  | error error => rfl
  | ok key => rfl

/-- An update changes no definition, however it ends. -/
theorem updateRow_definitions (s : MemoryStorage) (tid : TransactionId) (table : String)
    (rowId : RowId) (row : Row) :
    Guarantee SameDefinitions s (MemoryStorage.updateRow tid table rowId row)
      fun _ _ => True := by
  unfold MemoryStorage.updateRow
  refine (definitions_reads (validateTransaction_reads tid)).bind fun _ s₁ _ _ =>
    (definitions_reads (requireSchema_reads table)).bind fun schema s₂ _ _ => ?_
  by_cases hlength : row.length≠schema.columns.length
  · rw [if_pos hlength]
    exact Guarantee.fail _
  rw [if_neg hlength]
  refine Guarantee.bind_get ?_
  cases (s₂.tableRows table)[rowId]? with
  | none => exact Guarantee.ret trivial
  | some existing =>
    have hresolve : Guarantee Eq s₂ (MemoryStorage.resolveRowId schema row (pure rowId))
        fun _ _ => True :=
      (resolveRowId_keeps schema row (Q := fun _ _ => True) (Guarantee.ret trivial)).forget
    refine (definitions_reads hresolve).bind fun target s₃ _ _ => ?_
    by_cases hunchanged : existing=target.2 ∧ target.1=rowId
    · rw [if_pos hunchanged]
      exact Guarantee.ret trivial
    rw [if_neg hunchanged]
    refine Guarantee.bind_lift fun _ _ => Guarantee.bind_lift fun _ _ =>
      (removeRowFromIndexes_definitions s₃ table rowId existing).bind fun _ s₄ _ _ => ?_
    by_cases hduplicate : target.1≠rowId ∧ ((s₂.tableRows table)[target.1]?).isSome=true
    · rw [if_pos hduplicate]
      exact Guarantee.fail _
    rw [if_neg hduplicate]
    exact (rows_modify rfl rfl ⟨rfl,rfl,rfl⟩).bind fun _ _ _ _ =>
      (rows_modify rfl rfl ⟨rfl,rfl,rfl⟩).bind fun _ _ _ _ =>
      (rows_modify rfl rfl ⟨rfl,rfl,rfl⟩).bind fun _ s₇ _ _ =>
      (addRowToIndexes_definitions s₇ table _ _).bind fun _ _ _ _ =>
      rows_modify rfl rfl ⟨rfl,rfl,rfl⟩

end Definitions

/-! ## A row in the place of another -/

/-- What a write leaves: a row in the place of another, maybe under a new number, and all else
as it was. -/
structure Replaced (table : String) (rowId : RowId) (row : Row) (s t : MemoryStorage) : Prop where
  sound : (t.stored table).Sound table
  moved : ∃ number, (number≠rowId → (s.stored table).table.rows number=none) ∧
    (t.stored table).table=((s.stored table).table.setRow rowId none).setRow number (some row)
  others : ∀ name, name≠table → t.stored name=s.stored name
  active : ∀ tid, s.Active tid → t.Active tid
  settings : SameSettings s t

/-- A pure computation that returned leaves the state. -/
theorem lift_returned {σ α : Type} {x : Except DbError α} {s t : σ} {value : α}
    (h : Eff.lift x s=(.ok value,t)) : t=s ∧ x=.ok value := by
  unfold Eff.lift Eff.reads at h
  cases x with
  | ok found =>
    obtain ⟨hvalue,hstate⟩ := Prod.mk.inj h
    exact ⟨hstate.symm,congrArg Except.ok (Outcome.ok.inj hvalue)⟩
  | error error => cases h

section Updates

variable {s : MemoryStorage} {tid : TransactionId} {table : String} {schema : Schema}
  {row stored : Row} {rowId number : RowId}

/-- An update of a valid row, up to the check whether it is the row it replaces. -/
theorem updateRow_run (hactive : s.Active tid) (hschema : (s.stored table).schema=some schema)
    (hrow : (s.stored table).table.rows rowId=some stored)
    (hvalues : schema.validateRowValues row=.ok ()) :
    MemoryStorage.updateRow tid table rowId row s=
      (MemoryStorage.resolveRowId schema row (pure rowId) >>= fun target =>
        if stored=target.2 ∧ target.1=rowId then pure ()
        else do
          Eff.lift (s.validateRow schema target.2 (s.otherRows table rowId))
          Eff.lift (validateKeys schema target.2 (some rowId) (fun _ => true)
            (s.tableIndexes table))
          MemoryStorage.removeRowFromIndexes table rowId stored
          if target.1≠rowId ∧ ((s.tableRows table)[target.1]?).isSome then
            Eff.fail (.storage s!"duplicate rowid {target.1} on table {table}")
          else do
            MemoryStorage.takeRow table rowId
            MemoryStorage.putRow table target.1 target.2
            MemoryStorage.raiseNextRowId table target.1
            MemoryStorage.addRowToIndexes table target.1 target.2
            MemoryStorage.recordUndo (.restoreRow table rowId stored)) s := by
  have hfound : (s.tableRows table)[rowId]?=some stored := hrow
  unfold MemoryStorage.updateRow
  rw [Eff.bind_of_ok (validateTransaction_ok hactive),Eff.bind_of_ok (requireSchema_ok hschema),
    if_neg (not_not_intro (length_of_values hvalues)),Eff.bind_of_ok (Eff.get_eq s),hfound]
  rfl

/-- A row that shares no key with the others is written, unless its number is negative. -/
theorem updateRow_writes (hactive : s.Active tid) (hs : (s.stored table).Sound table)
    (hschema : (s.stored table).schema=some schema)
    (hrow : (s.stored table).table.rows rowId=some stored) (hadmits : s.Admits schema row)
    (hnumber : targetNumber schema rowId row=some number) (hne : row≠stored)
    (hfree : ∀ other∈s.otherRows table rowId, ¬SharesKey schema (s.indexMetas table) row other) :
    ∃ t, MemoryStorage.updateRow tid table rowId row s=(.ok (),t) ∧ Replaced table rowId row s t := by
  have hlength := length_of_values hadmits.1
  obtain ⟨-,hfitting⟩ := Table.valid_of_schema hs.valid hschema
  have hstored := hfitting.length rowId stored hrow
  have hresolve : MemoryStorage.resolveRowId schema row (pure rowId) s=(.ok (number,row),s) := by
    rcases resolveRowId_target s rowId hadmits.1 with ⟨found,hfound,hrun⟩ | ⟨hnone,-⟩
    · obtain rfl := Option.some.inj (hnumber.symm.trans hfound)
      exact hrun
    · rw [hnumber] at hnone
      cases hnone
  have hvalid : s.validateRow schema row (s.otherRows table rowId)=.ok () := by
    refine (validateRow_iff hadmits).mpr ?_
    rintro ⟨hpositions,other,hother,hsame⟩
    exact hfree other hother (Or.inl ⟨hpositions,hsame⟩)
  have hkeys : validateKeys schema row (some rowId) (fun _ => true) (s.tableIndexes table)=
      .ok () := by
    refine (validateKeys_iff hs hschema hrow (hlength.trans hstored.symm)).mpr ?_
    rintro ⟨other,hother,index,hindex,key,hkey,hotherKey,henforces⟩
    exact hfree other hother (Or.inr ⟨index,hindex,key,hkey,hotherKey,henforces⟩)
  have hgone : number≠rowId → (s.stored table).table.rows number=none := by
    intro hmoved
    cases hold : (s.stored table).table.rows number with
    | none => rfl
    | some old =>
      cases halias : integerPrimaryKeyColumnIndex schema with
      | none => exact absurd (target_eq halias hnumber) hmoved
      | some index =>
        have hmem : old∈s.otherRows table rowId := mem_otherRows.mpr ⟨number,hmoved,hold⟩
        exact absurd (hfitting.numbered number old hold)
          (newNumber_of_primaryKey halias (validateRow_ok hvalid) (numbers_of_target hnumber) hmem)
  have hplace : Function.update (s.stored table).table.rows rowId none number=none := by
    by_cases hmoved : number=rowId
    · rw [hmoved]
      exact Function.update_self ..
    · rw [Function.update_of_ne hmoved]
      exact hgone hmoved
  have hfits := rowFits_of_keys number row
    (Function.update (s.stored table).table.rows rowId none) (some rowId) hs hschema hlength
    (numbers_of_target hnumber) (fun name index hindex => validateKeys_ok hkeys hindex rfl)
    fun other otherRow hother => by
      rcases update_of_some hother with ⟨-,hnone⟩ | ⟨hother,hold⟩
      · cases hnone
      · exact ⟨hold,fun heq => hother (Option.some.inj heq).symm⟩
  obtain ⟨new,hnew,htable,t,ht,hdoes⟩ := movedRow_does hs hschema hrow hfits hplace
  obtain ⟨u,hu,hrecord⟩ := recordUndo_does t table (.restoreRow table rowId stored)
  have hduplicate : ¬(number≠rowId ∧ ((s.tableRows table)[number]?).isSome=true) := by
    rintro ⟨hmoved,hfound⟩
    have hnone : (s.tableRows table)[number]?=none := hgone hmoved
    rw [hnone] at hfound
    cases hfound
  have hrun : MemoryStorage.updateRow tid table rowId row s=(.ok (),u) := by
    rw [updateRow_run hactive hschema hrow hadmits.1,Eff.bind_of_ok hresolve]
    dsimp only
    rw [if_neg fun h => hne h.1.symm,hvalid,hkeys]
    change (MemoryStorage.removeRowFromIndexes table rowId stored >>= _) s=_
    rw [if_neg hduplicate]
    have hall : (_ >>= fun _ => MemoryStorage.recordUndo (.restoreRow table rowId stored)) s=
        (.ok (),u) := (Eff.bind_of_ok ht).trans hu
    simp only [Eff.bind_assoc_eq] at hall
    exact hall
  have hself : u.stored table=new := by
    rw [hrecord.self,hdoes.self]
  have hsame := (updateRow_definitions s tid table rowId row).1
  rw [hrun] at hsame
  refine ⟨u,hrun,?_,⟨number,hgone,?_⟩,fun name hname => ?_,fun tid hs => ?_,
    hsame.toSameSettings⟩
  · rw [hself]
    exact hnew
  · rw [hself]
    exact htable
  · rw [hrecord.other hname,hdoes.other hname]
  · exact hrecord.active (hdoes.active hs)

/-- A row that is rewritten with itself stays. -/
theorem updateRow_same (hactive : s.Active tid) (hs : (s.stored table).Sound table)
    (hschema : (s.stored table).schema=some schema)
    (hrow : (s.stored table).table.rows rowId=some stored)
    (hvalues : schema.validateRowValues stored=.ok ()) :
    MemoryStorage.updateRow tid table rowId stored s=(.ok (),s) ∧
      Replaced table rowId stored s s := by
  obtain ⟨-,hfitting⟩ := Table.valid_of_schema hs.valid hschema
  have hnumber := target_of_numbers (hfitting.numbered rowId stored hrow)
  refine ⟨?_,hs,⟨rowId,fun h => absurd rfl h,?_⟩,fun _ _ => rfl,fun _ h => h,SameSettings.refl s⟩
  · rw [updateRow_run hactive hschema hrow hvalues]
    rcases resolveRowId_target s rowId hvalues with ⟨found,hfound,hrun⟩ | ⟨hnone,-⟩
    · obtain rfl := Option.some.inj (hnumber.symm.trans hfound)
      rw [Eff.bind_of_ok hrun]
      dsimp only
      rw [if_pos ⟨rfl,rfl⟩]
      rfl
    · rw [hnumber] at hnone
      cases hnone
  · exact (setRow_setRow none hrow).symm

/-- Only a row that can be written is written. -/
theorem writable_of_updateRow (hactive : s.Active tid) (hs : (s.stored table).Sound table)
    (hschema : (s.stored table).schema=some schema)
    (hrow : (s.stored table).table.rows rowId=some stored) (hadmits : s.Admits schema row)
    (h : (MemoryStorage.updateRow tid table rowId row s).1=.ok ()) :
    Writable schema (s.indexMetas table) (s.otherRows table rowId) rowId stored row := by
  by_cases hsame : row=stored
  · exact Or.inl hsame
  refine Or.inr ?_
  rw [updateRow_run hactive hschema hrow hadmits.1] at h
  rcases resolveRowId_target s rowId hadmits.1 with ⟨number,hnumber,hrun⟩ | ⟨-,error,hrun⟩
  · rw [Eff.bind_of_ok hrun] at h
    dsimp only at h
    rw [if_neg fun h => hsame h.1.symm] at h
    obtain ⟨_,_,hvalid,h⟩ := Eff.bind_ok_inv (Prod.ext h rfl)
    obtain ⟨rfl,hvalid⟩ := lift_returned hvalid
    obtain ⟨_,_,hkeys,-⟩ := Eff.bind_ok_inv h
    obtain ⟨-,hkeys⟩ := lift_returned hkeys
    refine ⟨by rw [hnumber]; rfl,fun other hother hshares => ?_⟩
    rcases hshares with ⟨hpositions,hkey⟩ | ⟨index,hindex,key,hkey,hotherKey,henforces⟩
    · exact (validateRow_iff hadmits).mp hvalid ⟨hpositions,other,hother,hkey⟩
    · obtain ⟨-,hfitting⟩ := Table.valid_of_schema hs.valid hschema
      have hlength := (length_of_values hadmits.1).trans (hfitting.length rowId stored hrow).symm
      exact (validateKeys_iff hs hschema hrow hlength).mp hkeys
        ⟨other,hother,index,hindex,key,hkey,hotherKey,henforces⟩
  · rw [Eff.bind_of_err hrun] at h
    cases h

end Updates

/-! ## The rows after a write -/

section Rows

variable {s t : MemoryStorage} {table : String} {row stored : Row} {rowId : RowId}

/-- Maps list their entries once each. -/
theorem nodup_toList {V : Type} (entries : Std.ExtTreeMap RowId V) : entries.toList.Nodup :=
  Std.ExtTreeMap.distinct_keys_toList.imp fun hne heq => hne (by rw [heq]; exact Std.ReflCmp.compare_self)

/-- A map lists the entries that another list has without repetitions. -/
theorem toList_perm {rows : RowMap} {entries : List (RowId × Row)} (hdistinct : entries.Nodup)
    (h : ∀ number row, rows[number]?=some row ↔ (number,row)∈entries) :
    rows.toList.Perm entries :=
  (List.perm_ext_iff_of_nodup (nodup_toList rows) hdistinct).mpr fun entry =>
    Std.ExtTreeMap.mem_toList_iff_getElem?_eq_some.trans (h entry.1 entry.2)

/-- A map lists one of its entries and those under other numbers. -/
theorem toList_split {rows : RowMap} (hrow : rows[rowId]?=some stored) :
    rows.toList.Perm ((rowId,stored) :: rows.toList.filter fun entry => entry.1≠rowId) := by
  refine toList_perm (List.nodup_cons.mpr ⟨fun h => ?_,(nodup_toList _).filter _⟩)
    fun number row => ?_
  · exact of_decide_eq_true (List.mem_filter.mp h).2 rfl
  · rw [List.mem_cons,List.mem_filter,Std.ExtTreeMap.mem_toList_iff_getElem?_eq_some]
    constructor
    · intro h
      by_cases hsame : number=rowId
      · subst hsame
        obtain rfl := Option.some.inj (h.symm.trans hrow)
        exact Or.inl rfl
      · exact Or.inr ⟨h,decide_eq_true hsame⟩
    · rintro (heq | ⟨h,-⟩)
      · obtain ⟨rfl,rfl⟩ := Prod.mk.inj heq
        exact hrow
      · exact h

/-- The rows of a table are a stored row and the others. -/
theorem rowValues_split (hrow : (s.stored table).table.rows rowId=some stored) :
    (s.rowValues table).Perm (stored :: s.otherRows table rowId) :=
  (toList_split hrow).map Prod.snd

/-- A write puts a row in the place of a stored one. -/
theorem Replaced.rowValues (h : Replaced table rowId row s t) :
    (t.rowValues table).Perm (row :: s.otherRows table rowId) := by
  obtain ⟨number,hfree,htable⟩ := h.moved
  have hrows : ∀ other, (t.tableRows table)[other]?=
      Function.update (Function.update (s.stored table).table.rows rowId none) number (some row)
        other :=
    fun other => congrFun (congrArg Table.rows htable) other
  have hentries : (t.tableRows table).toList.Perm
      ((number,row) :: (s.tableRows table).toList.filter fun entry => entry.1≠rowId) := by
    refine toList_perm (List.nodup_cons.mpr ⟨fun hmem => ?_,(nodup_toList _).filter _⟩)
      fun other found => ?_
    · obtain ⟨hentry,hne⟩ := List.mem_filter.mp hmem
      have hold := Std.ExtTreeMap.mem_toList_iff_getElem?_eq_some.mp hentry
      have hnone : (s.tableRows table)[number]?=none := hfree (of_decide_eq_true hne)
      rw [hnone] at hold
      cases hold
    · rw [hrows other,List.mem_cons,List.mem_filter,
        Std.ExtTreeMap.mem_toList_iff_getElem?_eq_some]
      constructor
      · intro hfound
        rcases update_of_some hfound with ⟨rfl,hvalue⟩ | ⟨-,hold⟩
        · exact Or.inl (Prod.ext rfl (Option.some.inj hvalue).symm)
        · rcases update_of_some hold with ⟨-,hnone⟩ | ⟨hne,hold⟩
          · cases hnone
          · exact Or.inr ⟨hold,decide_eq_true hne⟩
      · rintro (heq | ⟨hold,hne⟩)
        · obtain ⟨rfl,rfl⟩ := Prod.mk.inj heq
          exact Function.update_self ..
        · have hother : other≠number := by
            rintro rfl
            have hnone : (s.tableRows table)[other]?=none := hfree (of_decide_eq_true hne)
            rw [hnone] at hold
            cases hold
          rw [Function.update_of_ne hother,Function.update_of_ne (of_decide_eq_true hne)]
          exact hold
  exact hentries.map Prod.snd

/-- A write leaves the rows under other numbers. -/
theorem Replaced.row_other (h : Replaced table rowId row s t) {other : RowId} {otherRow : Row}
    (hne : other≠rowId) (hother : (s.stored table).table.rows other=some otherRow) :
    (t.stored table).table.rows other=some otherRow := by
  obtain ⟨number,hfree,htable⟩ := h.moved
  have hnumber : other≠number := by
    rintro rfl
    rw [hfree hne] at hother
    cases hother
  rw [htable]
  change Function.update (Function.update (s.stored table).table.rows rowId none) number (some row)
    other=some otherRow
  rw [Function.update_of_ne hnumber,Function.update_of_ne hne]
  exact hother

/-- The schema stays. -/
theorem Replaced.schema (h : Replaced table rowId row s t) :
    (t.stored table).schema=(s.stored table).schema := by
  obtain ⟨number,-,htable⟩ := h.moved
  exact congrArg Table.schema htable

/-- The indexes stay. -/
theorem Replaced.mem_indexMetas (h : Replaced table rowId row s t) {index : IndexMeta} :
    index∈t.indexMetas table ↔ index∈s.indexMetas table := by
  obtain ⟨number,-,htable⟩ := h.moved
  have hindexes : (t.stored table).table.indexes=(s.stored table).table.indexes := by
    rw [htable]
    rfl
  rw [RustSql.Memory.mem_indexMetas,RustSql.Memory.mem_indexMetas,hindexes]

end Rows

end RustSql.Memory
