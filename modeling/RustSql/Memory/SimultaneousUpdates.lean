import RustSql.Memory.Constraints
import RustSql.Memory.Rollback
import RustSql.Sql.UpdateCandidates

/-!
# Updates and the order of their rows

An `UPDATE` without an `OR` clause computes all new rows from the stored ones and checks the
constraints on the table it leads to, but the storage then looks for keys in the table as it
stands after each write. The statement does what it should exactly when every row, at its
turn, shares no key with the rows that stand then.
-/

namespace RustSql.Memory

open RustSql.Engine RustSql.Sql RustSql.V2

/-! ## The statement -/

/-- The updates of a statement, computed from the stored rows. -/
def updateCandidates (statement : UpdateStatement MemoryStorage) (table : String) :
    Query MemoryStorage (List PendingUpdate) := fun tid storage =>
  match storage.schemas[table]? with
  | some schema =>
    statement.candidates storage.expressions schema tid storage (storage.tableRows table).toList
  | none => .error (.storage s!"unknown table: {table}")

/-- `execute_update` without an `OR` clause. -/
def runUpdate (expressions : Expressions) (fuel : ℕ) (tid : TransactionId) (table : String)
    (statement : UpdateStatement MemoryStorage) : Eff (Session MemoryStorage) (List Row) :=
  executeUpdate expressions fuel tid table none (statement.assignments.map Prod.fst)
    (updateCandidates statement table) none

/-! ## What it should do -/

/-- The statement succeeds and leaves exactly some rows in a table, and the other tables as
they were. -/
def LeadsTo (x : Eff (Session MemoryStorage) (List Row)) (session : Session MemoryStorage)
    (table : String) (rows : List Row) : Prop :=
  ∃ returned later, x session=(.ok returned,later) ∧ (later.storage.rowValues table).Perm rows ∧
    ∀ name, name≠table → later.storage.stored name=session.storage.stored name

/-- The statement fails and changes nothing in the storage. -/
def FailsWhole (x : Eff (Session MemoryStorage) (List Row)) (session : Session MemoryStorage) :
    Prop :=
  ∃ error later, x session=(.err error,later) ∧ later.storage=session.storage

/-- The updates of a statement and the rows they lead to satisfy the constraints. -/
def AllowedUpdates (session : Session MemoryStorage) (tid : TransactionId) (table : String)
    (statement : UpdateStatement MemoryStorage) (pending : List PendingUpdate) : Prop :=
  updateCandidates statement table tid session.storage=.ok pending ∧
    ∃ schema, session.storage.schemas[table]?=some schema ∧
      Satisfies session schema (session.storage.indexMetas table)
        (updateFinalRows (session.storage.tableRows table).toList pending)

/-- The update is simultaneous: it leads to the new rows when these satisfy the constraints,
and fails as a whole otherwise. -/
structure Simultaneous (session : Session MemoryStorage) (fuel : ℕ) (tid : TransactionId)
    (table : String) (statement : UpdateStatement MemoryStorage) : Prop where
  succeeds : ∀ pending, AllowedUpdates session tid table statement pending →
    LeadsTo (runUpdate session.storage.expressions fuel tid table statement) session table
      (updateFinalRows (session.storage.tableRows table).toList pending)
  fails : (¬∃ pending, AllowedUpdates session tid table statement pending) →
    FailsWhole (runUpdate session.storage.expressions fuel tid table statement) session

/-- Every row can be written at its turn, beside the rows that are written before it and
those that are not yet written or not updated at all. -/
def WritableInOrder (storage : MemoryStorage) (table : String) (schema : Schema)
    (pending : List PendingUpdate) : Prop :=
  ∀ before (update : PendingUpdate) after, pending=before++update :: after →
    Writable schema (storage.indexMetas table)
      (updateFinalRows ((storage.tableRows table).toList.filter fun entry =>
        entry.1≠update.rowId) before)
      update.rowId update.stored update.updated

/-! ## The rows after some updates -/

section FinalRows

variable {rows : List (RowId × Row)} {before : List PendingUpdate} {update : PendingUpdate}

/-- An update of a row that is not there changes no rows. -/
theorem updateFinalRows_absent (h : ∀ entry∈rows, entry.1≠update.rowId) :
    updateFinalRows rows (before++[update])=updateFinalRows rows before := by
  refine List.map_congr_left fun entry hentry => ?_
  have hother : (update.rowId==entry.1)=false := beq_false_of_ne fun heq => h entry hentry heq.symm
  rw [List.find?_append]
  cases before.find? fun update => update.rowId==entry.1 with
  | some found => rfl
  | none =>
    rw [Option.none_or,List.find?_cons_of_neg (by rw [hother]; exact Bool.false_ne_true)]
    rfl

/-- The rows before an update of one of them. -/
theorem updateFinalRows_before (hbefore : ∀ earlier∈before, earlier.rowId≠update.rowId)
    (hrows : rows.Perm ((update.rowId,update.stored) ::
      rows.filter fun entry => entry.1≠update.rowId)) :
    (updateFinalRows rows before).Perm (update.stored ::
      updateFinalRows (rows.filter fun entry => entry.1≠update.rowId) before) := by
  have hnone : before.find? (fun earlier => earlier.rowId==update.rowId)=none := by
    refine List.find?_eq_none.mpr fun earlier hearlier h => ?_
    exact hbefore earlier hearlier (beq_iff_eq.mp h)
  refine (hrows.map _).trans (List.Perm.of_eq ?_)
  rw [List.map_cons]
  dsimp only
  rw [hnone]
  rfl

/-- The rows after an update of one of them. -/
theorem updateFinalRows_after (hbefore : ∀ earlier∈before, earlier.rowId≠update.rowId)
    (hrows : rows.Perm ((update.rowId,update.stored) ::
      rows.filter fun entry => entry.1≠update.rowId)) :
    (updateFinalRows rows (before++[update])).Perm (update.updated ::
      updateFinalRows (rows.filter fun entry => entry.1≠update.rowId) before) := by
  have hfound : (before++[update]).find? (fun earlier => earlier.rowId==update.rowId)=
      some update := by
    rw [List.find?_append]
    have hnone : before.find? (fun earlier => earlier.rowId==update.rowId)=none := by
      refine List.find?_eq_none.mpr fun earlier hearlier h => ?_
      exact hbefore earlier hearlier (beq_iff_eq.mp h)
    rw [hnone,Option.none_or]
    exact List.find?_cons_of_pos (beq_self_eq_true _)
  refine (hrows.map _).trans (List.Perm.of_eq ?_)
  rw [List.map_cons]
  dsimp only
  rw [hfound]
  refine congrArg (List.cons update.updated) (updateFinalRows_absent fun entry hentry => ?_)
  exact of_decide_eq_true (List.mem_filter.mp hentry).2

/-- The new row of an update is among the rows it leads to. -/
theorem updated_mem (hdistinct : (before.map PendingUpdate.rowId).Nodup) (hmem : update∈before)
    (hentry : update.entry∈rows) : update.updated∈updateFinalRows rows before := by
  have hfound : before.find? (fun found => found.rowId==update.rowId)=some update := by
    induction before with
    | nil => cases hmem
    | cons first rest ih =>
      rw [List.map_cons,List.nodup_cons] at hdistinct
      rcases List.mem_cons.mp hmem with rfl | hmem
      · exact List.find?_cons_of_pos (beq_self_eq_true _)
      · have hne : first.rowId≠update.rowId := fun heq =>
          hdistinct.1 (heq▸List.mem_map_of_mem hmem)
        have hskip : (first :: rest).find? (fun found => found.rowId==update.rowId)=
            rest.find? fun found => found.rowId==update.rowId :=
          List.find?_cons_of_neg fun h => hne (beq_iff_eq.mp h)
        exact hskip.trans (ih hdistinct.2 hmem)
  refine List.mem_map.mpr ⟨update.entry,hentry,?_⟩
  dsimp only [PendingUpdate.entry]
  rw [hfound]

end FinalRows

/-! ## The loop of the writes -/

section Loop

/-- The storage after some of the updates of a table: its rows are those before, with these
updates, and the rows that are still to be written stand where they stood. -/
structure Standing (start : MemoryStorage) (tid : TransactionId) (table : String)
    (schema : Schema) (before after : List PendingUpdate) (s : MemoryStorage) : Prop where
  active : s.Active tid
  sound : (s.stored table).Sound table
  schema : (s.stored table).schema=some schema
  indexes : ∀ index, index∈s.indexMetas table ↔ index∈start.indexMetas table
  rows : (s.rowValues table).Perm (updateFinalRows (start.tableRows table).toList before)
  stored : ∀ update∈after, (s.stored table).table.rows update.rowId=some update.stored
  others : ∀ name, name≠table → s.stored name=start.stored name
  settings : SameSettings start s

/-- Updates of distinct rows of a table, all with values and checks in order. -/
structure Pending (start : MemoryStorage) (table : String) (schema : Schema)
    (pending : List PendingUpdate) : Prop where
  distinct : (pending.map PendingUpdate.rowId).Nodup
  stored : ∀ update∈pending, (start.stored table).table.rows update.rowId=some update.stored
  admitted : ∀ update∈pending, start.Admits schema update.updated

variable {start s : MemoryStorage} {tid : TransactionId} {table : String} {schema : Schema}
  {pending before after : List PendingUpdate} {update : PendingUpdate}

theorem Pending.before_ne (h : Pending start table schema (before++update :: after)) :
    ∀ earlier∈before, earlier.rowId≠update.rowId := by
  intro earlier hearlier heq
  have hdistinct := h.distinct
  rw [List.map_append,List.map_cons] at hdistinct
  exact (List.nodup_append.mp hdistinct).2.2 earlier.rowId (List.mem_map_of_mem hearlier)
    update.rowId List.mem_cons_self heq

theorem Pending.after_ne (h : Pending start table schema (before++update :: after)) :
    ∀ later∈after, later.rowId≠update.rowId := by
  intro later hlater heq
  have hdistinct := h.distinct
  rw [List.map_append,List.map_cons] at hdistinct
  have hrest := (List.nodup_append.mp hdistinct).2.1
  exact (List.nodup_cons.mp hrest).1 (heq▸List.mem_map_of_mem hlater)

theorem Pending.update_mem : update∈before++update :: after :=
  List.mem_append_right before List.mem_cons_self

/-- The rows beside the one that is written next. -/
theorem Standing.otherRows (h : Standing start tid table schema before (update :: after) s)
    (hpending : Pending start table schema (before++update :: after)) :
    (s.otherRows table update.rowId).Perm
      (updateFinalRows ((start.tableRows table).toList.filter fun entry =>
        entry.1≠update.rowId) before) := by
  have hsplit := rowValues_split (h.stored update List.mem_cons_self)
  have hbefore := updateFinalRows_before hpending.before_ne
    (toList_split (hpending.stored update Pending.update_mem))
  exact (hsplit.symm.trans (h.rows.trans hbefore)).cons_inv

/-- What a row can be written beside depends on which rows and indexes there are. -/
theorem writable_congr {indexes indexes' : List IndexMeta} {others others' : List Row}
    {rowId : RowId} {stored updated : Row} (hindexes : ∀ index, index∈indexes ↔ index∈indexes')
    (hothers : ∀ other, other∈others ↔ other∈others') :
    Writable schema indexes others rowId stored updated ↔
      Writable schema indexes' others' rowId stored updated := by
  unfold Writable SharesKey
  simp only [hindexes,hothers]

/-- Whether the next row can be written is told from the rows before the statement. -/
theorem Standing.writable_iff (h : Standing start tid table schema before (update :: after) s)
    (hpending : Pending start table schema (before++update :: after)) :
    Writable schema (s.indexMetas table) (s.otherRows table update.rowId) update.rowId
        update.stored update.updated ↔
      Writable schema (start.indexMetas table)
        (updateFinalRows ((start.tableRows table).toList.filter fun entry =>
          entry.1≠update.rowId) before) update.rowId update.stored update.updated :=
  writable_congr h.indexes fun _ => (h.otherRows hpending).mem_iff

/-- A write brings the table one update further. -/
theorem Standing.written {t : MemoryStorage}
    (h : Standing start tid table schema before (update :: after) s)
    (hpending : Pending start table schema (before++update :: after))
    (hwrite : Replaced table update.rowId update.updated s t) :
    Standing start tid table schema (before++[update]) after t where
  active := hwrite.active tid h.active
  sound := hwrite.sound
  schema := hwrite.schema.trans h.schema
  indexes index := hwrite.mem_indexMetas.trans (h.indexes index)
  rows := by
    have hafter := updateFinalRows_after hpending.before_ne
      (toList_split (hpending.stored update Pending.update_mem))
    exact (hwrite.rowValues.trans ((h.otherRows hpending).cons update.updated)).trans hafter.symm
  stored later hlater := hwrite.row_other (hpending.after_ne later hlater)
    (h.stored later (List.mem_cons_of_mem _ hlater))
  others name hname := (hwrite.others name hname).trans (h.others name hname)
  settings := h.settings.trans hwrite.settings

/-- The next row is written when it can be. -/
theorem Standing.writes (h : Standing start tid table schema before (update :: after) s)
    (hpending : Pending start table schema (before++update :: after))
    (hwritable : Writable schema (s.indexMetas table) (s.otherRows table update.rowId)
      update.rowId update.stored update.updated) :
    ∃ t, MemoryStorage.updateRow tid table update.rowId update.updated s=(.ok (),t) ∧
      Standing start tid table schema (before++[update]) after t := by
  have hrow := h.stored update List.mem_cons_self
  have hadmits := h.settings.admits (hpending.admitted update Pending.update_mem)
  by_cases hsame : update.updated=update.stored
  · rw [hsame] at hadmits
    obtain ⟨hrun,hwrite⟩ := updateRow_same h.active h.sound h.schema hrow hadmits.1
    rw [←hsame] at hrun hwrite
    exact ⟨s,hrun,h.written hpending hwrite⟩
  · obtain ⟨hnumber,hfree⟩ := hwritable.resolve_left hsame
    obtain ⟨number,hnumber⟩ := Option.isSome_iff_exists.mp hnumber
    obtain ⟨t,hrun,hwrite⟩ :=
      updateRow_writes h.active h.sound h.schema hrow hadmits hnumber hsame hfree
    exact ⟨t,hrun,h.written hpending hwrite⟩

/-- One write of the statement. -/
def writeOne (tid : TransactionId) (table : String) (columns : List String)
    (update : PendingUpdate) : Eff (Session MemoryStorage) (List Row) := do
  call (StorageEngine.updateRowWithColumns tid table update.rowId update.updated columns)
  pure []

theorem writeOne_ok {session : Session MemoryStorage} {t : MemoryStorage} {columns : List String}
    (h : MemoryStorage.updateRow tid table update.rowId update.updated session.storage=(.ok (),t)) :
    writeOne tid table columns update session=(.ok [],{ session with storage := t }) := by
  have hcall : call (StorageEngine.updateRowWithColumns tid table update.rowId update.updated
      columns) session=(.ok (),{ session with storage := t }) := by
    unfold call Eff.zoom
    dsimp only [StorageEngine.updateRowWithColumns]
    rw [h]
  exact Eff.bind_of_ok hcall

/-- When all rows can be written at their turns, all are written. -/
theorem writes_run {session : Session MemoryStorage} (columns : List String)
    (h : Standing start tid table schema before after session.storage)
    (hpending : Pending start table schema (before++after))
    (hwritable : ∀ early update late, after=early++update :: late →
      Writable schema (start.indexMetas table)
        (updateFinalRows ((start.tableRows table).toList.filter fun entry =>
          entry.1≠update.rowId) (before++early)) update.rowId update.stored update.updated) :
    ∃ returned later, Eff.mapEach after (writeOne tid table columns) session=(.ok returned,later) ∧
      Standing start tid table schema (before++after) [] later.storage := by
  induction after generalizing before session with
  | nil =>
    refine ⟨[],session,rfl,?_⟩
    rw [List.append_nil]
    exact h
  | cons update after ih =>
    have hfirst := hwritable [] update after rfl
    rw [List.append_nil] at hfirst
    obtain ⟨t,hrun,ht⟩ := h.writes hpending ((h.writable_iff hpending).mpr hfirst)
    have hall : before++update :: after=(before++[update])++after := by
      rw [List.append_assoc,List.singleton_append]
    have hrest : Standing start tid table schema (before++[update]) after
        ({ session with storage := t } : Session MemoryStorage).storage := ht
    obtain ⟨returned,later,hlater,hstanding⟩ := ih hrest (hall▸hpending)
      fun early next late heq => by
        have hnext := hwritable (update :: early) next late (by rw [heq]; rfl)
        rw [List.append_assoc,List.singleton_append]
        exact hnext
    refine ⟨[] :: returned,later,?_,hall▸hstanding⟩
    exact (Eff.bind_of_ok (writeOne_ok hrun)).trans (Eff.bind_of_ok hlater)

/-- All rows are written only when each can be at its turn. -/
theorem writable_of_writes {session later : Session MemoryStorage} {columns : List String}
    {returned : List (List Row)} (h : Standing start tid table schema before after session.storage)
    (hpending : Pending start table schema (before++after))
    (hrun : Eff.mapEach after (writeOne tid table columns) session=(.ok returned,later))
    {early late : List PendingUpdate} (hafter : after=early++update :: late) :
    Writable schema (start.indexMetas table)
      (updateFinalRows ((start.tableRows table).toList.filter fun entry =>
        entry.1≠update.rowId) (before++early)) update.rowId update.stored update.updated := by
  induction after generalizing before session early returned with
  | nil =>
    cases early with
    | nil => cases hafter
    | cons _ _ => cases hafter
  | cons first after ih =>
    obtain ⟨_,middle,hfirst,hrest⟩ := Eff.bind_ok_inv hrun
    obtain ⟨others,last,hothers,hlast⟩ := Eff.bind_ok_inv hrest
    obtain ⟨-,rfl⟩ := Prod.mk.inj hlast
    obtain ⟨_,between,hcall,hpure⟩ := Eff.bind_ok_inv hfirst
    obtain ⟨-,rfl⟩ := Prod.mk.inj hpure
    have hupdate : (MemoryStorage.updateRow tid table first.rowId first.updated session.storage).1=
        .ok () := congrArg Prod.fst hcall
    have hadmits := h.settings.admits (hpending.admitted first Pending.update_mem)
    have hwritable := writable_of_updateRow h.active h.sound h.schema
      (h.stored first List.mem_cons_self) hadmits hupdate
    cases early with
    | nil =>
      obtain ⟨rfl,-⟩ := List.cons.inj hafter
      rw [List.append_nil]
      exact (h.writable_iff hpending).mp hwritable
    | cons head early =>
      obtain ⟨rfl,htail⟩ := List.cons.inj hafter
      obtain ⟨t,hrun,ht⟩ := h.writes hpending hwritable
      have hstate : between.storage=t := by
        have hboth := congrArg (fun result => result.2.storage) hcall
        exact hboth.symm.trans (congrArg Prod.snd hrun)
      rw [←hstate] at ht
      have hall : before++first :: after=(before++[first])++after := by
        rw [List.append_assoc,List.singleton_append]
      have hlater := ih ht (hall▸hpending) hothers htail
      rw [List.append_assoc,List.singleton_append] at hlater
      exact hlater

end Loop

/-! ## The statement as a whole -/

section Statement

variable {session : Session MemoryStorage} {tid : TransactionId} {table : String}
  {schema : Schema} {statement : UpdateStatement MemoryStorage} {pending : List PendingUpdate}

/-- No foreign key refers to a table, or none is enforced. -/
def NotReferenced (session : Session MemoryStorage) (table : String) : Prop :=
  session.foreignKeys=true → ∀ (name : String) (other : Schema),
    session.storage.schemas[name]?=some other → other.referencing table=[]

/-- A table that no foreign key refers to has no dependent rows. -/
theorem validateUpdateParentKeyChanges_none (hactive : session.storage.Active tid)
    (hparents : NotReferenced session table) (fuel : ℕ) (pending : List PendingUpdate) :
    validateUpdateParentKeyChanges session.storage.expressions tid (fuel+1) table schema pending
      session=(.ok (),session) := by
  unfold validateUpdateParentKeyChanges
  rw [Eff.bind_of_ok (Eff.get_eq session)]
  by_cases henforced : (session.foreignKeys && !pending.isEmpty)=true
  · rw [if_pos henforced,Eff.bind_of_ok (listSchemas_eq session hactive)]
    have hkeys : session.foreignKeys=true := (Bool.and_eq_true_iff.mp henforced).1
    have hnone : ∀ other∈session.storage.schemas.toList.map Prod.snd,
        other.referencing table=[] := by
      intro other hother
      obtain ⟨entry,hentry,rfl⟩ := List.mem_map.mp hother
      exact hparents hkeys entry.1 entry.2 (Std.ExtTreeMap.mem_toList_iff_getElem?_eq_some.mp hentry)
    generalize session.storage.schemas.toList.map Prod.snd=schemas at hnone
    induction schemas with
    | nil => rfl
    | cons other schemas ih =>
      obtain ⟨hother,hrest⟩ := List.forall_mem_cons.mp hnone
      rw [Eff.forEach,hother]
      exact ih hrest
  · rw [if_neg henforced]
    rfl

/-- The updates of a statement are updates of distinct stored rows. -/
theorem pending_of_candidates (hschema : session.storage.schemas[table]?=some schema)
    (h : updateCandidates statement table tid session.storage=.ok pending) :
    (pending.map PendingUpdate.rowId).Nodup ∧ ∀ update∈pending,
      (session.storage.stored table).table.rows update.rowId=some update.stored := by
  unfold updateCandidates at h
  rw [hschema] at h
  have hsubperm := candidates_subperm h
  obtain ⟨entries,hperm,hsublist⟩ := hsubperm
  constructor
  · have hnumbers : ((session.storage.tableRows table).toList.map Prod.fst).Nodup :=
      List.pairwise_map.mpr (Std.ExtTreeMap.distinct_keys_toList.imp fun hne heq =>
        hne (by rw [heq]; exact Std.ReflCmp.compare_self))
    have hpending : pending.map PendingUpdate.rowId=
        (pending.map PendingUpdate.entry).map Prod.fst := by
      rw [List.map_map]
      rfl
    rw [hpending]
    exact ((hperm.map Prod.fst).nodup_iff).mp (hnumbers.sublist (hsublist.map Prod.fst))
  · intro update hupdate
    have hmem : update.entry∈entries := hperm.mem_iff.mpr (List.mem_map_of_mem hupdate)
    exact Std.ExtTreeMap.mem_toList_iff_getElem?_eq_some.mp (hsublist.subset hmem)

section Filter

variable {later : Session MemoryStorage} {expressions : Expressions} {fuel : ℕ}
  {indexes : List IndexMeta} {rows : List (RowId × Row)}

/-- Without an `OR` clause all updates are kept when their rows pass the checks. -/
theorem filterUpdateConflicts_passes
    (h : validateUpdateResultConstraints expressions tid schema indexes
      (updateFinalRows rows pending) session=(.ok (),later)) :
    filterUpdateConflicts expressions fuel tid table none schema indexes rows pending session=
      (.ok pending,later) := by
  have hreplace : ¬hasClause none "REPLACE"=true := Bool.false_ne_true
  have hignore : (!hasClause none "IGNORE")=true := rfl
  unfold filterUpdateConflicts
  rw [if_neg hreplace,if_pos hignore]
  unfold Eff.attempt
  rw [h]
  rfl

/-- Without an `OR` clause the error of a check is that of the statement. -/
theorem filterUpdateConflicts_refuses {error : DbError}
    (h : validateUpdateResultConstraints expressions tid schema indexes
      (updateFinalRows rows pending) session=(.err error,later)) :
    filterUpdateConflicts expressions fuel tid table none schema indexes rows pending session=
      (.err error,later) := by
  have hreplace : ¬hasClause none "REPLACE"=true := Bool.false_ne_true
  have hignore : (!hasClause none "IGNORE")=true := rfl
  unfold filterUpdateConflicts
  rw [if_neg hreplace,if_pos hignore]
  unfold Eff.attempt
  rw [h]
  rfl

end Filter

/-- The statement up to the check of the rows it leads to. -/
theorem runUpdate_start (hactive : session.storage.Active tid)
    (hschema : session.storage.schemas[table]?=some schema) (fuel : ℕ) :
    runUpdate session.storage.expressions fuel tid table statement session=
      (query tid (updateCandidates statement table) >>= fun candidates => do
        let pending ← filterUpdateConflicts session.storage.expressions fuel tid table none schema
          (session.storage.indexMetas table) (session.storage.tableRows table).toList candidates
        validateUpdateParentKeyChanges session.storage.expressions tid fuel table schema pending
        writeUpdates tid table (statement.assignments.map Prod.fst) none pending) session := by
  unfold runUpdate executeUpdate
  rw [Eff.bind_of_ok (requireSchema_found hactive hschema),
    Eff.bind_of_ok (scanRows_eq session hactive table),
    Eff.bind_of_ok (listIndexes_eq session hactive table)]
  rfl

/-- The rows of an update that satisfy the constraints are written. -/
theorem runUpdate_allowed (hactive : session.storage.Active tid)
    (hparents : NotReferenced session table)
    (hschema : session.storage.schemas[table]?=some schema)
    (hcandidates : updateCandidates statement table tid session.storage=.ok pending)
    (h : Satisfies session schema (session.storage.indexMetas table)
      (updateFinalRows (session.storage.tableRows table).toList pending)) (fuel : ℕ) :
    ∃ flag, runUpdate session.storage.expressions (fuel+1) tid table statement session=
      (Eff.mapEach pending (writeOne tid table (statement.assignments.map Prod.fst)) >>=
        fun returned => pure returned.flatten) (noted session flag) := by
  have hchecks := validateUpdateResultConstraints_checks hactive (session.storage.indexMetas table)
    (updateFinalRows (session.storage.tableRows table).toList pending) schema
  obtain ⟨flag,⟨hcheck,-⟩ | ⟨-,hnot⟩⟩ := hchecks.here
  · refine ⟨flag,?_⟩
    have hparent : validateUpdateParentKeyChanges session.storage.expressions tid (fuel+1) table
        schema pending (noted session flag)=(.ok (),noted session flag) :=
      @validateUpdateParentKeyChanges_none (noted session flag) _ _ _ hactive hparents fuel pending
    rw [runUpdate_start hactive hschema,Eff.bind_of_ok (query_ok hcandidates),
      Eff.bind_of_ok (filterUpdateConflicts_passes hcheck),
      Eff.bind_of_ok hparent]
    rfl
  · exact absurd h hnot

/-- An update whose rows do not satisfy the constraints fails before it writes. -/
theorem runUpdate_refused (hactive : session.storage.Active tid)
    (h : ¬∃ pending, AllowedUpdates session tid table statement pending) (fuel : ℕ) :
    FailsWhole (runUpdate session.storage.expressions fuel tid table statement) session := by
  cases hschema : session.storage.schemas[table]? with
  | none =>
    obtain ⟨error,hmissing⟩ := requireSchema_missing hactive hschema
    exact ⟨error,session,Eff.bind_of_err hmissing,rfl⟩
  | some schema =>
    cases hcandidates : updateCandidates statement table tid session.storage with
    | error error =>
      have hrun := (runUpdate_start hactive hschema fuel).trans
        (Eff.bind_of_err (query_failed hcandidates))
      exact ⟨error,session,hrun,rfl⟩
    | ok pending =>
      have hchecks := validateUpdateResultConstraints_checks hactive
        (session.storage.indexMetas table)
        (updateFinalRows (session.storage.tableRows table).toList pending) schema
      obtain ⟨flag,⟨-,hsatisfies⟩ | ⟨⟨error,hcheck⟩,-⟩⟩ := hchecks.here
      · exact absurd ⟨pending,hcandidates,schema,hschema,hsatisfies⟩ h
      · refine ⟨error,noted session flag,?_,rfl⟩
        rw [runUpdate_start hactive hschema,Eff.bind_of_ok (query_ok hcandidates)]
        exact Eff.bind_of_err (filterUpdateConflicts_refuses hcheck)

end Statement

/-! ## Two rows -/

section Runs

/-- The expressions of tables whose indexes have columns only. -/
def columnExpressions : Expressions :=
  { noExpressions with
    evaluateIndexTerm := fun schema row term _ => schema.valueForColumn row term
    display := fun values =>
      match values with
      | [.integer value] => toString value.toInt
      | _ => "" }

/-- A table with two rows and a unique index of its second column. -/
def twoRowCalls : List StorageCall :=
  [.begin,.createSchema 1 twoColumns,.createIndex 1 "t" ⟨"b",["b"],none,true,none⟩,
    .insertRow 1 "t" [.integer 1,.integer 5],.insertRow 1 "t" [.integer 2,.integer 6]]

def twoRows : MemoryStorage :=
  endOf twoRowCalls (MemoryStorage.new columnExpressions noNames) (by decide +kernel)

/-- A connection that does not enforce foreign keys, in a transaction. -/
def connected (storage : MemoryStorage) : Session MemoryStorage where
  storage := storage
  currentTxn := some 1
  savepointTransaction := false
  savepointStack := []
  deferredForeignKeysPending := false
  deferForeignKeys := false
  foreignKeys := false
  queryOnly := false

/-- An update of the rows with some number, without an order. -/
def plainUpdate (keeps : RowId → Bool) (assignments : List (String × RowQuery MemoryStorage Value)) :
    UpdateStatement MemoryStorage where
  filter _ _ rowId _ := .ok (keeps rowId)
  assignments := assignments
  ordered := false
  sortKey _ _ _ _ := .ok []
  precedes _ _ := true
  limit := none
  offset := none

/-- `UPDATE t SET a = a + by`. -/
def shiftKeysBy (by' : Int64) : UpdateStatement MemoryStorage :=
  plainUpdate (fun _ => true) [("a",fun _ _ _ stored =>
    match stored with
    | .integer key :: _ => .ok (.integer (key+by'))
    | _ => .ok .null)]

end Runs

end RustSql.Memory
