import RustSql.Sqlite3.IndexTree

/-!
# What the scans of an index return

The scans of an index and of a `WITHOUT ROWID` table add the cells of leaf pages
and only check the cells of interior pages. They return every entry of a
tree exactly when the tree has no interior page.
-/

namespace RustSql.Sqlite3

section Payloads

variable {pager : Pager} {page payload : Bytes} {kind kind' : String}

/-- The kind of a cell appears in the errors only. -/
theorem readBtreePayload_kind {cellOffset cellHeaderLen payloadSize : ℕ} {isIndex : Bool}
    (h : readBtreePayload pager page cellOffset cellHeaderLen payloadSize isIndex kind=
      .ok payload) :
    readBtreePayload pager page cellOffset cellHeaderLen payloadSize isIndex kind'=
      .ok payload := by
  unfold readBtreePayload at h ⊢
  obtain ⟨usable,husable,h⟩ := except_bind_ok h
  obtain ⟨maxLocal,hmax,h⟩ := except_bind_ok h
  obtain ⟨minLocal,hmin,h⟩ := except_bind_ok h
  obtain ⟨kept,hkept,h⟩ := except_bind_ok h
  simp only [husable,hmax,hmin,hkept,bind,Except.bind] at h ⊢
  split
  · rename_i hw
    rw [hw] at h
    cases h
  · rename_i bytes hw
    rw [hw] at h
    split
    · rename_i hle
      simp only [hle,if_true] at h
      exact h
    · rename_i hle
      simp only [hle,if_false] at h
      split
      · rename_i hp
        rw [hp] at h
        cases h
      · rename_i pointer hp
        rw [hp] at h
        simp only at h
        split
        · rename_i hzero
          rw [if_pos hzero] at h
          cases h
        · rename_i hzero
          rw [if_neg hzero] at h
          exact h

theorem indexPayload_kind {cellOffset pointerLen : ℕ}
    (h : indexPayload pager page cellOffset pointerLen kind=.ok payload) :
    indexPayload pager page cellOffset pointerLen kind'=.ok payload := by
  unfold indexPayload at h ⊢
  obtain ⟨cell,hcell,h⟩ := except_bind_ok h
  rw [hcell]
  simp only [bind,Except.bind] at h ⊢
  split
  · rename_i hlen
    rw [if_pos hlen] at h
    cases h
  · rename_i hlen
    rw [if_neg hlen] at h
    split
    · rename_i hv
      rw [hv] at h
      cases h
    · rename_i size hv
      rw [hv] at h
      exact readBtreePayload_kind h

end Payloads

section Leaves

variable {pager : Pager} {page : Bytes} {firstPage : Bool} {β : Type}
  {decode : Bytes → Except DbError β}

/-- The reader of a leaf's cells decodes the payloads of the leaf. -/
theorem leafCells_ok {kind message : String} {payloads : List Bytes} {items : List β}
    (h : leafPayloads pager page firstPage=.ok payloads) (hitems : payloads.mapM decode=.ok items) :
    leafCells .leafIndex message (fun page cellOffset =>
      indexPayload pager page cellOffset 0 kind >>= decode) page firstPage=.ok items := by
  obtain ⟨header,offsets,hheader,htype,hoffsets,hpayloads⟩ := leafPayloads_ok h
  have hcells := mapM_bind (mapM_congr hpayloads fun cellOffset _ payload hp =>
    (indexPayload_kind hp : indexPayload pager page cellOffset 0 kind=.ok payload)) hitems
  unfold leafCells
  rw [hheader]
  simp only [bind,Except.bind,htype,ne_eq,not_true_eq_false,if_false,hoffsets]
  exact hcells

/-- The reader of an interior page's children returns them when every cell passes
its check. -/
theorem interiorChildren_ok {cell : Bytes → ℕ → Except DbError ℕ} {header : BtreePageHeader}
    {cells : List (ℕ × Bytes)} {rightmost : ℕ}
    (hheader : BtreePageHeader.decode page firstPage=.ok header)
    (h : interiorCells pager page firstPage=.ok (cells,rightmost))
    (hcell : ∀ cellOffset, ∀ entry∈cells, interiorCell pager page cellOffset=.ok entry →
      cell page cellOffset=.ok entry.1) :
    interiorChildren "index" .interiorIndex cell page firstPage header=
      .ok (cells.map Prod.fst++[rightmost]) := by
  obtain ⟨header',offsets,hheader',htype,hrightmost,hoffsets,hcells,-⟩ := interiorCells_ok h
  obtain rfl := Except.ok.inj (hheader.symm.trans hheader')
  have hchildren : offsets.mapM (cell page)=.ok (cells.map Prod.fst) := by
    have hall := mapM_eq_ok.mp hcells
    refine mapM_eq_ok.mpr ?_
    clear hcells hoffsets h
    induction hall with
    | nil => exact .nil
    | @cons cellOffset entry offsets cells hentry _ ih =>
      exact .cons (hcell cellOffset entry List.mem_cons_self hentry)
        (ih fun o e he => hcell o e (List.mem_cons_of_mem entry he))
  unfold interiorChildren
  simp only [bind,Except.bind,htype,ne_eq,not_true_eq_false,if_false,hoffsets,hchildren,hrightmost]

theorem interiorCell_ok {cellOffset : ℕ} {entry : ℕ × Bytes}
    (h : interiorCell pager page cellOffset=.ok entry) :
    decodeInteriorChildPointer page cellOffset=.ok entry.1 ∧
      indexPayload pager page cellOffset 4 "interior index"=.ok entry.2 := by
  obtain ⟨child,hchild,h⟩ := except_bind_ok h
  obtain ⟨payload,hpayload,h⟩ := except_bind_ok h
  cases h
  exact ⟨hchild,hpayload⟩

end Leaves

section Scans

variable (hash : List Value → RowId) {pager : Pager}

/-- A record that is an entry has the values the check of interior cells asks for. -/
theorem validateInteriorIndexCell_ok {index : IndexMeta} {page payload : Bytes} {cellOffset : ℕ}
    {entry : IndexEntry} (h : indexPayload pager page cellOffset 4 "interior index"=.ok payload)
    (hentry : decodeIndexRecordEntry hash index payload=.ok entry) :
    validateInteriorIndexCell pager index page cellOffset=.ok () := by
  obtain ⟨values,hvalues,hentry⟩ := except_bind_ok hentry
  have hlen : ¬values.length < minimumIndexRecordValueCount index := by
    intro hlt
    rw [decodeIndexEntryValues,if_pos hlt] at hentry
    cases hentry
  unfold validateInteriorIndexCell
  rw [h]
  change (decodeIndexRecord payload >>= _)=_
  rw [hvalues]
  exact if_neg hlen

/-- An index scan adds the entries of leaves, whatever it collects of them. -/
theorem visitIndexPage_scans {σ : Type} {index : IndexMeta} {add : σ → List IndexEntry → σ}
    (hadd : ∀ state items items', add state (items++items')=add (add state items) items') :
    Scans pager (visitIndexPage hash pager index add) (decodeIndexRecordEntry hash index) add where
  leaf := by
    intro page firstPage header payloads items state hheader hpayloads hitems
    obtain ⟨header',offsets,hheader',htype,-⟩ := leafPayloads_ok hpayloads
    obtain rfl := Except.ok.inj (hheader.symm.trans hheader')
    have hcells : decodeLeafIndexCells hash pager index page firstPage=.ok items :=
      leafCells_ok hpayloads hitems
    unfold visitIndexPage
    rw [htype]
    simp only [hcells,bind,Except.bind]
  interior := by
    intro page firstPage header cells rightmost state hheader hcells hitem
    obtain ⟨header',offsets,hheader',htype,-⟩ := interiorCells_ok hcells
    obtain rfl := Except.ok.inj (hheader.symm.trans hheader')
    have hchildren : decodeInteriorIndexChildren pager index page firstPage header=
        .ok (cells.map Prod.fst++[rightmost]) := by
      refine interiorChildren_ok hheader hcells fun cellOffset entry hentry hok => ?_
      obtain ⟨hchild,hpayload⟩ := interiorCell_ok hok
      obtain ⟨item,hitem⟩ := hitem entry hentry
      rw [validateInteriorIndexCell_ok hash hpayload hitem]
      exact hchild
    unfold visitIndexPage
    rw [htype]
    simp only [hchildren,bind,Except.bind]
  add_append := hadd

theorem numberRows_append (rows : List (RowId × Row)) (added added' : List Row) :
    numberRows rows (added++added')=numberRows (numberRows rows added) added' := by
  induction added generalizing rows with
  | nil => rfl
  | cons row added ih => exact ih _

/-- Numbering leaves the rows as they are. -/
theorem numberRows_snd (rows : List (RowId × Row)) (added : List Row) :
    (numberRows rows added).map Prod.snd=rows.map Prod.snd++added := by
  induction added generalizing rows with
  | nil => simp only [numberRows,List.append_nil]
  | cons row added ih =>
    rw [numberRows,ih]
    simp only [List.map_append,List.map_cons,List.map_nil,List.append_assoc,List.singleton_append]

/-- The scan of a `WITHOUT ROWID` table numbers the rows of leaves. -/
theorem visitTablePage_scans {schema : Table} (hrowid : schema.withoutRowid=true) :
    Scans pager (visitTablePage pager schema) (decodeWithoutRowidRecord schema) numberRows where
  leaf := by
    intro page firstPage header payloads items state hheader hpayloads hitems
    obtain ⟨header',offsets,hheader',htype,-⟩ := leafPayloads_ok hpayloads
    obtain rfl := Except.ok.inj (hheader.symm.trans hheader')
    have hcells : decodeLeafWithoutRowidTableRows pager schema page firstPage=.ok items :=
      leafCells_ok hpayloads hitems
    unfold visitTablePage
    rw [htype,hrowid]
    simp only [hcells,bind,Except.bind]
  interior := by
    intro page firstPage header cells rightmost state hheader hcells hitem
    obtain ⟨header',offsets,hheader',htype,-⟩ := interiorCells_ok hcells
    obtain rfl := Except.ok.inj (hheader.symm.trans hheader')
    have hchildren : decodeInteriorIndexChildPointers page firstPage header=
        .ok (cells.map Prod.fst++[rightmost]) :=
      interiorChildren_ok hheader hcells fun cellOffset entry _ hok => (interiorCell_ok hok).1
    unfold visitTablePage
    rw [htype,hrowid]
    simp only [hchildren,bind,Except.bind]
  add_append := numberRows_append

end Scans

/-! ## Completeness -/

section Complete

variable (hash : List Value → RowId) (pager : Pager) (rootPage : ℕ)

/-- Every record of the tree is one the reader accepts. -/
def Readable {β : Type} (decode : Bytes → Except DbError β) (payloads : List Bytes) : Prop :=
  ∀ payload∈payloads, ∃ item, decode payload=.ok item

/-- The scan of the index returns the entries of the tree, each once and in the
order of the tree. -/
def ScanComplete (index : IndexMeta) (payloads : List Bytes) : Prop :=
  ∃ entries, payloads.mapM (decodeIndexRecordEntry hash index)=.ok entries ∧
    EndsIn (scanIndexEntries hash pager rootPage index) (.ok entries)

/-- The row numbers of the entries with a key, as an ordered set. -/
def rowIdsOf (key : List Value) (entries : List IndexEntry) : List RowId :=
  ((entries.filter fun entry => entry.key=key).map IndexEntry.rowId).toFinset.sort (· ≤ ·)

/-- The lookup of a key finds the entries with that key and no others. -/
def LookupExact (index : IndexMeta) (payloads : List Bytes) : Prop :=
  ∃ entries, payloads.mapM (decodeIndexRecordEntry hash index)=.ok entries ∧
    ∀ key, key.length=index.columns.length →
      EndsIn (lookupIndexEntries hash pager rootPage index key) (.ok (rowIdsOf key entries))

/-- The scan of the `WITHOUT ROWID` table returns the stored rows, in the order of
the tree. -/
def RowsComplete (schema : Table) (payloads : List Bytes) : Prop :=
  ∃ rows numbered, payloads.mapM (decodeWithoutRowidRecord schema)=.ok rows ∧
    EndsIn (scanTableRows pager rootPage schema) (.ok numbered) ∧ numbered.map Prod.snd=rows

variable {hash pager rootPage}
variable {height : ℕ} {payloads : List Bytes}

/-- Fewer entries are read than the tree has when it has an interior page. -/
theorem leaves_short {β : Type} {decode : Bytes → Except DbError β} {leaves : List Bytes}
    {items entries : List β} (htree : treeEntries true pager height rootPage=.ok payloads)
    (hleaves : treeEntries false pager height rootPage=.ok leaves)
    (hitems : leaves.mapM decode=.ok items) (hentries : payloads.mapM decode=.ok entries)
    (hlen : entries.length ≤ items.length) : height=0 := by
  by_contra hne
  obtain ⟨leaves',hleaves',-,hshort⟩ := treeEntries_leaves htree
  obtain rfl := Except.ok.inj (hleaves.symm.trans hleaves')
  have hlt := hshort (Nat.pos_of_ne_zero hne)
  rw [mapM_length hitems,mapM_length hentries] at hlen
  omega

theorem readable_of_mapM {β : Type} {decode : Bytes → Except DbError β} {items : List β}
    (h : payloads.mapM decode=.ok items) : Readable decode payloads :=
  fun _ hp => mapM_mem h hp

/-- A scan of a leaf collects all its entries. -/
theorem Scans.leaf_run {σ β : Type}
    {visit : Bytes → Bool → BtreePageHeader → σ → Except DbError (Visit σ)}
    {decode : Bytes → Except DbError β} {add : σ → List β → σ}
    (hscans : Scans pager visit decode add)
    (htree : treeEntries true pager 0 rootPage=.ok payloads) (hread : Readable decode payloads) :
    ∃ items, payloads.mapM decode=.ok items ∧ ∀ fuel, 0 < fuel → ∀ state,
      scanPages pager visit fuel rootPage state=.ok (add state items) := by
  obtain ⟨leaves,items,hleaves,hitems,hscan⟩ := hscans.run htree hread
  obtain rfl : leaves=payloads := Except.ok.inj (hleaves.symm.trans htree)
  exact ⟨items,hitems,hscan⟩

/-- An index scan is complete exactly on a single leaf. -/
theorem scanComplete_iff (index : IndexMeta)
    (htree : treeEntries true pager height rootPage=.ok payloads) :
    ScanComplete hash pager rootPage index payloads ↔
      height=0 ∧ Readable (decodeIndexRecordEntry hash index) payloads := by
  have hscans : Scans pager (visitIndexPage hash pager index (· ++ ·))
      (decodeIndexRecordEntry hash index) (· ++ ·) :=
    visitIndexPage_scans hash fun state items items' => (List.append_assoc state items items').symm
  constructor
  · intro h
    obtain ⟨entries,hentries,hends⟩ := h
    have hread := readable_of_mapM hentries
    obtain ⟨leaves,items,hleaves,hitems,hscan⟩ := hscans.run htree hread
    have hitem : (.ok entries : Outcome (List IndexEntry))=.ok ([]++items) :=
      hends.unique ⟨height+1,fun fuel hfuel => hscan fuel (by omega) []⟩
    cases hitem
    exact ⟨leaves_short htree hleaves hitems hentries le_rfl,hread⟩
  · intro h
    obtain ⟨rfl,hread⟩ := h
    obtain ⟨items,hitems,hscan⟩ := hscans.leaf_run htree hread
    exact ⟨items,hitems,1,fun fuel hfuel => hscan fuel (by omega) []⟩

/-- The key of an entry has one value for each column. -/
theorem entry_key_length {index : IndexMeta} {payload : Bytes} {entry : IndexEntry}
    (h : decodeIndexRecordEntry hash index payload=.ok entry) :
    entry.key.length=index.columns.length := by
  obtain ⟨values,-,h⟩ := except_bind_ok h
  unfold decodeIndexEntryValues at h
  split at h
  · cases h
  · rename_i hlen
    unfold minimumIndexRecordValueCount at hlen
    split at h
    · rename_i rowId hrowid
      split at h
      · cases h
        unfold trailingRowid at hrowid
        split at hrowid
        · rename_i hcount
          rw [List.length_dropLast,hcount,Nat.add_sub_cancel]
        · cases hrowid
      · cases h
    · cases h
      rw [List.length_take]
      omega

/-- A key as long as the entries' keys starts only the keys equal to it. -/
theorem matchingRowIds_eq {index : IndexMeta} {key : List Value} {entries : List IndexEntry}
    (hkey : key.length=index.columns.length)
    (hentries : ∀ entry∈entries, entry.key.length=index.columns.length) :
    matchingRowIds key entries=
      (entries.filter fun entry => entry.key=key).map IndexEntry.rowId := by
  unfold matchingRowIds
  congr 1
  refine List.filter_congr fun entry hentry => ?_
  have hlen := hentries entry hentry
  rw [Bool.eq_iff_iff,List.isPrefixOf_iff_prefix,decide_eq_true_iff]
  constructor
  · intro hstarts
    exact (hstarts.eq_of_length (by omega)).symm
  · intro heq
    rw [heq]

/-- The lookups of a tree see the entries of its leaves. -/
theorem lookup_run {index : IndexMeta} (htree : treeEntries true pager height rootPage=.ok payloads)
    (hread : Readable (decodeIndexRecordEntry hash index) payloads) :
    ∃ leaves items, treeEntries false pager height rootPage=.ok leaves ∧
      leaves.mapM (decodeIndexRecordEntry hash index)=.ok items ∧
      ∀ key, key.length=index.columns.length →
        EndsIn (lookupIndexEntries hash pager rootPage index key) (.ok (rowIdsOf key items)) := by
  have hscans : ∀ key, Scans pager (visitIndexPage hash pager index
      fun (rowIds : Finset RowId) entries => rowIds∪(matchingRowIds key entries).toFinset)
      (decodeIndexRecordEntry hash index)
      fun rowIds entries => rowIds∪(matchingRowIds key entries).toFinset := fun key =>
    visitIndexPage_scans hash fun state items items' => by
      simp only [matchingRowIds,List.filter_append,List.map_append,List.toFinset_append,
        Finset.union_assoc]
  obtain ⟨leaves,items,hleaves,hitems,-⟩ := (hscans []).run htree hread
  refine ⟨leaves,items,hleaves,hitems,fun key hkey => ⟨height+1,fun fuel hfuel => ?_⟩⟩
  obtain ⟨leaves',items',hleaves',hitems',hscan⟩ := (hscans key).run htree hread
  obtain rfl := Except.ok.inj (hleaves.symm.trans hleaves')
  obtain rfl := Except.ok.inj (hitems.symm.trans hitems')
  have hkeys : ∀ entry∈items, entry.key.length=index.columns.length := by
    intro entry hentry
    obtain ⟨payload,-,hpayload⟩ := mapM_source hitems hentry
    exact entry_key_length hpayload
  unfold lookupIndexEntries
  rw [hscan fuel (by omega),Outcome.bind_ok,Finset.empty_union,matchingRowIds_eq hkey hkeys]
  rfl

theorem mem_rowIdsOf {key : List Value} {entries : List IndexEntry} {rowId : RowId} :
    rowId∈rowIdsOf key entries ↔ (⟨key,rowId⟩ : IndexEntry)∈entries := by
  rw [rowIdsOf,Finset.mem_sort,List.mem_toFinset,List.mem_map]
  constructor
  · rintro ⟨⟨key',rowId'⟩,hmem,rfl⟩
    obtain ⟨hmem,hkey⟩ := List.mem_filter.mp hmem
    exact (of_decide_eq_true hkey : key'=key)▸hmem
  · intro hmem
    exact ⟨⟨key,rowId⟩,List.mem_filter.mpr ⟨hmem,decide_eq_true rfl⟩,rfl⟩

/-- Lookups are exact exactly on a single leaf: the entry of an interior cell is
found under no key. -/
theorem lookupExact_iff (index : IndexMeta)
    (htree : treeEntries true pager height rootPage=.ok payloads)
    (honce : ∀ entries, payloads.mapM (decodeIndexRecordEntry hash index)=.ok entries →
      entries.Nodup) :
    LookupExact hash pager rootPage index payloads ↔
      height=0 ∧ Readable (decodeIndexRecordEntry hash index) payloads := by
  constructor
  · intro h
    obtain ⟨entries,hentries,hlookup⟩ := h
    have hread := readable_of_mapM hentries
    obtain ⟨leaves,items,hleaves,hitems,hends⟩ := lookup_run htree hread
    have hsub : entries⊆items := by
      intro entry hentry
      obtain ⟨payload,-,hpayload⟩ := mapM_source hentries hentry
      have hkey := entry_key_length hpayload
      have heq : rowIdsOf entry.key entries=rowIdsOf entry.key items :=
        Outcome.ok.inj ((hlookup entry.key hkey).unique (hends entry.key hkey))
      exact mem_rowIdsOf.mp (heq▸mem_rowIdsOf.mpr hentry)
    have hlen := ((honce entries hentries).subperm hsub).length_le
    exact ⟨leaves_short htree hleaves hitems hentries hlen,hread⟩
  · intro h
    obtain ⟨rfl,hread⟩ := h
    obtain ⟨leaves,items,hleaves,hitems,hends⟩ := lookup_run htree hread
    obtain rfl : leaves=payloads := Except.ok.inj (hleaves.symm.trans htree)
    exact ⟨items,hitems,hends⟩

/-- The scan of a `WITHOUT ROWID` table is complete exactly on a single leaf. -/
theorem rowsComplete_iff {schema : Table} (hrowid : schema.withoutRowid=true)
    (htree : treeEntries true pager height rootPage=.ok payloads) :
    RowsComplete pager rootPage schema payloads ↔
      height=0 ∧ Readable (decodeWithoutRowidRecord schema) payloads := by
  have hscans : Scans pager (visitTablePage pager schema) (decodeWithoutRowidRecord schema)
      numberRows := visitTablePage_scans hrowid
  constructor
  · intro h
    obtain ⟨rows,numbered,hrows,hends,hnumbered⟩ := h
    have hread := readable_of_mapM hrows
    obtain ⟨leaves,items,hleaves,hitems,hscan⟩ := hscans.run htree hread
    have hitem : (.ok numbered : Outcome (List (RowId × Row)))=.ok (numberRows [] items) :=
      hends.unique ⟨height+1,fun fuel hfuel => hscan fuel (by omega) []⟩
    have hlen : rows.length ≤ items.length := by
      rw [←hnumbered,Outcome.ok.inj hitem,numberRows_snd]
      exact le_rfl
    exact ⟨leaves_short htree hleaves hitems hrows hlen,hread⟩
  · intro h
    obtain ⟨rfl,hread⟩ := h
    obtain ⟨items,hitems,hscan⟩ := hscans.leaf_run htree hread
    exact ⟨items,numberRows [] items,hitems,⟨1,fun fuel hfuel => hscan fuel (by omega) []⟩,
      numberRows_snd [] items⟩

end Complete

/-- The scan and the lookups of an index, and the scan of a `WITHOUT ROWID` table,
return all a tree stores exactly when its root is a leaf and its records are ones the
reader accepts. -/
theorem index_reads_iff (hash : List Value → RowId) {pager : Pager} {rootPage height : ℕ}
    {payloads : List Bytes} (htree : treeEntries true pager height rootPage=.ok payloads) :
    (∀ index, ScanComplete hash pager rootPage index payloads ↔
      height=0 ∧ Readable (decodeIndexRecordEntry hash index) payloads) ∧
    (∀ index, (∀ entries, payloads.mapM (decodeIndexRecordEntry hash index)=.ok entries →
        entries.Nodup) →
      (LookupExact hash pager rootPage index payloads ↔
        height=0 ∧ Readable (decodeIndexRecordEntry hash index) payloads)) ∧
    (∀ schema : Table, schema.withoutRowid=true →
      (RowsComplete pager rootPage schema payloads ↔
        height=0 ∧ Readable (decodeWithoutRowidRecord schema) payloads)) :=
  ⟨fun index => scanComplete_iff index htree,fun index honce => lookupExact_iff index htree honce,
    fun _ hrowid => rowsComplete_iff hrowid htree⟩

/-- A page of 512 bytes with one cell. -/
def oneCellPage (header cell : Bytes) : Bytes :=
  copyInto (copyInto (List.replicate 512 0) 0 header) 400 cell

/-- A file whose second page is the root of an index with three entries: an
interior page between two leaves. -/
def threeEntryFile : Pager where
  pageSize := 512
  reservedBytes := 0
  file := List.replicate 512 0++
    oneCellPage [0x02,0,0,0,1,1,0x90,0,0,0,0,4,1,0x90] [0,0,0,3,5,3,1,1,5,2]++
    oneCellPage [0x0a,0,0,0,1,1,0x90,0,1,0x90] [5,3,1,1,3,3]++
    oneCellPage [0x0a,0,0,0,1,1,0x90,0,1,0x90] [5,3,1,1,7,4]

/-- The records of its index. -/
def threeRecords : List Bytes := [[3,1,1,3,3],[3,1,1,5,2],[3,1,1,7,4]]

theorem threeEntryFile_tree : treeEntries true threeEntryFile 1 2=.ok threeRecords := by
  decide +kernel

/-- The index of one column of that file. -/
def threeEntryIndex : IndexMeta := ⟨"i",["a"],none,false,none⟩

/-- The table of two columns, keyed by the first, that has the same pages. -/
def threeRowTable : Table where
  name := "t"
  columns := [⟨"a",.integer,false,false⟩,⟨"b",.integer,false,false⟩]
  primaryKeyConstraint := some ["a"]
  withoutRowid := true

/-- The scan loses the entry that stands in the interior page. -/
theorem index_reads_iff_threeEntries :
    ScanComplete (fun _ => 0) threeEntryFile 2 threeEntryIndex threeRecords ↔
      1=0 ∧ Readable (decodeIndexRecordEntry (fun _ => 0) threeEntryIndex) threeRecords :=
  (index_reads_iff (fun _ => 0) threeEntryFile_tree).1 threeEntryIndex

/-- The entries are in order and each is there once; the one of the interior page is
neither scanned, nor found, nor a row of the table. -/
theorem interior_entry_lost :
    treeEntries true threeEntryFile 1 2=.ok threeRecords ∧
    threeRecords.mapM (decodeIndexRecordEntry (fun _ => 0) threeEntryIndex)=
      .ok [⟨[.integer 3],3⟩,⟨[.integer 5],2⟩,⟨[.integer 7],4⟩] ∧
    ¬ScanComplete (fun _ => 0) threeEntryFile 2 threeEntryIndex threeRecords ∧
    ¬LookupExact (fun _ => 0) threeEntryFile 2 threeEntryIndex threeRecords ∧
    ¬RowsComplete threeEntryFile 2 threeRowTable threeRecords := by
  have hentries : threeRecords.mapM (decodeIndexRecordEntry (fun _ => 0) threeEntryIndex)=
      .ok [⟨[.integer 3],3⟩,⟨[.integer 5],2⟩,⟨[.integer 7],4⟩] := by decide +kernel
  have honce : ∀ entries,
      threeRecords.mapM (decodeIndexRecordEntry (fun _ => 0) threeEntryIndex)=.ok entries →
      entries.Nodup := by
    intro entries h
    obtain rfl := Except.ok.inj (hentries.symm.trans h)
    decide
  refine ⟨threeEntryFile_tree,hentries,fun h => ?_,fun h => ?_,fun h => ?_⟩
  · have hleaf := ((scanComplete_iff _ threeEntryFile_tree).mp h).1
    omega
  · have hleaf := ((lookupExact_iff _ threeEntryFile_tree honce).mp h).1
    omega
  · have hleaf := ((rowsComplete_iff rfl threeEntryFile_tree).mp h).1
    omega

end RustSql.Sqlite3
