import RustSql.Memory.TxnControl

/-!
# How calls move the storage

Every call that fits moves the storage in one of six ways. From these follows what every run
keeps: the log leads back to where the transaction began, and from each savepoint's place to
where the savepoint was set.
-/

namespace RustSql.Memory

open RustSql.Engine RustSql.Sql RustSql.V2

/-! ## Calls -/

/-- The condition under which a call keeps the storage in order: a changed schema fits the
stored rows, an inserted row the indexes of the primary key, and what is undone has not moved. -/
def StorageCall.Fits : StorageCall → MemoryStorage → Prop
  | .replaceSchema tid schema, storage => storage.Active tid → ReplaceFits storage schema
  | .addColumn tid table column, storage => storage.Active tid → AddFits storage table column
  | .dropColumn tid table column, storage => storage.Active tid → DropFits storage table column
  | .insertRow tid table row, storage => storage.Active tid → InsertFits storage table row
  | .rollback tid, storage => storage.Active tid → storage.UndoneInPlace 0
  | .rollbackToSavepoint tid name, storage => storage.Active tid → ∀ index savepoint,
      innermost (storage.savepoints.map Savepoint.name) name=some index →
        storage.savepoints[index]?=some savepoint → storage.UndoneInPlace savepoint.undoLen
  | _, _ => True

/-- How a call moves the storage. -/
inductive MemoryStorage.Moves (s t : MemoryStorage) : Prop where
  /-- The change is in the log. -/
  | logged (h : Logged s t)
  /-- The transaction is over. -/
  | ended (hsound : t.Sound) (hactive : t.activeTxn=none)
  /-- A transaction begins. -/
  | began (hstored : t.stored=s.stored) (hnone : s.activeTxn=none)
      (hactive : ∃ tid, t.activeTxn=some ⟨tid,[],[]⟩)
  /-- A savepoint is set at the end of the log. -/
  | saved (name : String) (hstored : t.stored=s.stored)
      (hactive : t.activeTxn=s.activeTxn.map fun active =>
        { active with savepoints := active.savepoints++[⟨name,active.undoLog.length⟩] })
  /-- Savepoints are released. -/
  | released (index : ℕ) (hstored : t.stored=s.stored)
      (hactive : t.activeTxn=s.activeTxn.map fun active =>
        { active with savepoints := active.savepoints.take index })
  /-- The log is undone from the place of a savepoint on. -/
  | returned (index : ℕ) (savepoint : Savepoint) (hsound : t.Sound)
      (hsavepoint : s.savepoints[index]?=some savepoint)
      (hactive : t.activeTxn=s.activeTxn.map fun active =>
        { active with
          undoLog := active.undoLog.take savepoint.undoLen
          savepoints := active.savepoints.take (index+1) })
      (hundone : ∀ old, Undoes UndoOp.Back (s.undoLog.drop savepoint.undoLen) s.tables old →
        t.tables=old)

/-- What every run keeps. -/
structure MemoryStorage.Kept (storage : MemoryStorage) : Prop where
  sound : storage.Sound
  /-- The log leads back to where the transaction began. -/
  begun : ∃ old, Undoes UndoOp.Back storage.undoLog storage.tables old
  ordered : (storage.savepoints.map Savepoint.undoLen).Pairwise (· ≤ ·)
  within : ∀ savepoint∈storage.savepoints, savepoint.undoLen ≤ storage.undoLog.length

section Calls

variable {s t : MemoryStorage} {tid : TransactionId} {name : String}

/-- A change of the store. -/
theorem returns_modify {f : MemoryStorage → MemoryStorage}
    (h : Eff.returns (Eff.modify f) s=some t) : t=f s :=
  (Option.some.inj h).symm

/-- `begin` moves. -/
theorem begin_moves (h : Eff.returns MemoryStorage.begin' s=some t) : s.Moves t := by
  unfold MemoryStorage.begin' at h
  rw [Eff.returns,Eff.bind_of_ok (Eff.get_eq s)] at h
  cases hactive : s.activeTxn with
  | some active =>
    rw [hactive] at h
    obtain rfl := Option.some.inj h
    exact .logged (Logged.refl s)
  | none =>
    rw [hactive] at h
    obtain rfl := Option.some.inj h
    exact .began rfl hactive ⟨s.nextTxnId,rfl⟩

/-- `commit` moves. -/
theorem commit_moves (hs : s.Sound) (h : Eff.returns (MemoryStorage.commit tid) s=some t) :
    s.Moves t := by
  rcases returns_validate h with rfl | ⟨hactive,h⟩
  · exact .logged (Logged.refl t)
  · obtain rfl := returns_modify h
    exact .ended hs rfl

/-- `savepoint` moves. -/
theorem savepoint_moves (h : Eff.returns (MemoryStorage.savepoint tid name) s=some t) :
    s.Moves t := by
  rcases returns_validate h with rfl | ⟨hactive,h⟩
  · exact .logged (Logged.refl t)
  · obtain rfl := returns_modify h
    exact .saved name rfl rfl

/-- `release_savepoint` moves. -/
theorem release_moves (h : Eff.returns (MemoryStorage.releaseSavepoint tid name) s=some t) :
    s.Moves t := by
  rcases returns_validate h with rfl | ⟨hactive,h⟩
  · exact .logged (Logged.refl t)
  · rcases returns_findSavepoint h with rfl | ⟨index,hindex,h⟩
    · exact .logged (Logged.refl t)
    · obtain rfl := returns_modify h
      exact .released index rfl rfl

/-- `rollback` moves. -/
theorem rollback_moves (hs : s.Kept) (hfits : (StorageCall.rollback tid).Fits s)
    (h : Eff.returns (MemoryStorage.rollback tid) s=some t) : s.Moves t := by
  by_cases hopen : s.Active tid
  · obtain ⟨old,hback⟩ := hs.begun
    obtain ⟨u,hu,hsound,hnone,-⟩ := rollback_does hs.sound hopen hback (hfits hopen)
    obtain rfl := Option.some.inj (h.symm.trans (Eff.returns_of_ok hu))
    exact .ended hsound hnone
  · have hsame : t=s := by
      unfold MemoryStorage.rollback at h
      rw [Eff.returns,Eff.bind_of_ok (Eff.get_eq s)] at h
      cases hactive : s.activeTxn with
      | none =>
        rw [hactive] at h
        exact (Option.some.inj h).symm
      | some active =>
        have hid : active.id≠tid := fun hid => hopen ⟨active,hactive,hid⟩
        rw [hactive] at h
        dsimp only at h
        rw [if_pos hid] at h
        exact (Option.some.inj h).symm
    subst hsame
    exact .logged (Logged.refl t)

/-- `rollback_to_savepoint` moves. -/
theorem rollbackTo_moves (hs : s.Kept) (hfits : (StorageCall.rollbackToSavepoint tid name).Fits s)
    (h : Eff.returns (MemoryStorage.rollbackToSavepoint tid name) s=some t) : s.Moves t := by
  rcases returns_validate h with rfl | ⟨hactive,hfound⟩
  · exact .logged (Logged.refl t)
  rcases returns_findSavepoint hfound with rfl | ⟨index,hindex,-⟩
  · exact .logged (Logged.refl t)
  have hbound := innermost_lt hindex
  rw [List.length_map] at hbound
  have hsavepoint := List.getElem?_eq_getElem hbound
  obtain ⟨old,hback⟩ := hs.begun
  rw [← List.take_append_drop (s.savepoints[index]).undoLen s.undoLog,undoes_append] at hback
  obtain ⟨between,hlater,-⟩ := hback
  have hplace := hfits hactive index _ hindex hsavepoint
  obtain ⟨u,hu,hsound,htxn,htables,hall⟩ :=
    rollbackTo_does hs.sound hactive hindex hsavepoint hlater hplace
  obtain rfl := Option.some.inj (h.symm.trans (Eff.returns_of_ok hu))
  refine .returned index _ hsound hsavepoint htxn fun other hother => ?_
  obtain ⟨-,-,-,-,-,hall'⟩ := rollbackTo_does hs.sound hactive hindex hsavepoint hother hplace
  exact htables.trans (hall.symm.trans hall')

/-- A call that keeps to the log, when it returns. -/
theorem keepsLog_moves {α : Type} {x : Eff MemoryStorage α} (h : KeepsLog x s)
    (hreturns : Eff.returns x s=some t) : s.Moves t :=
  .logged (Eff.guarantee_returns h hreturns)

/-- A call in the active transaction fits where it has to. -/
theorem keepsLog_active {α : Type} {f : Unit → Eff MemoryStorage α}
    (h : s.Active tid → KeepsLog (MemoryStorage.validateTransaction tid >>= f) s) :
    KeepsLog (MemoryStorage.validateTransaction tid >>= f) s := by
  rcases validateTransaction_cases s tid with ⟨hactive,-⟩ | ⟨e,herr⟩
  · exact h hactive
  · unfold KeepsLog Guarantee
    rw [Eff.bind_of_err herr]
    exact ⟨Logged.refl s,fun _ _ => trivial⟩

/-- Every call that fits moves the storage in one of these ways. -/
theorem call_moves {call : StorageCall} (hs : s.Kept) (hfits : call.Fits s)
    (h : Eff.returns call.run s=some t) : s.Moves t := by
  cases call with
  | createSchema tid schema => exact keepsLog_moves (createSchema_keeps tid schema) h
  | dropSchema tid table => exact keepsLog_moves (dropSchema_keeps tid table) h
  | replaceSchema tid schema =>
    exact keepsLog_moves (keepsLog_active fun hactive => replaceSchema_keeps tid (hfits hactive)) h
  | renameSchema tid oldName newName => exact keepsLog_moves (renameSchema_keeps tid oldName newName) h
  | addColumn tid table column =>
    exact keepsLog_moves (keepsLog_active fun hactive => addColumn_keeps tid (hfits hactive)) h
  | renameColumn tid table oldName newName =>
    exact keepsLog_moves (renameColumn_keeps tid table oldName newName) h
  | dropColumn tid table oldName =>
    exact keepsLog_moves (keepsLog_active fun hactive =>
      (dropColumn_keeps tid (hfits hactive)).forget) h
  | insertRow tid table row =>
    exact keepsLog_moves (keepsLog_active fun hactive => insertRow_keeps tid (hfits hactive))
      (Eff.returns_drop h)
  | deleteRow tid table rowId => exact keepsLog_moves (deleteRow_keeps tid) h
  | updateRow tid table rowId row => exact keepsLog_moves (updateRow_keeps tid) h
  | createIndex tid table index => exact keepsLog_moves (createIndex_keeps tid index) h
  | dropIndex tid table index => exact keepsLog_moves (dropIndex_keeps tid) h
  | begin => exact begin_moves (Eff.returns_drop h)
  | commit tid => exact commit_moves hs.sound h
  | rollback tid => exact rollback_moves hs hfits h
  | savepoint tid name => exact savepoint_moves h
  | rollbackToSavepoint tid name => exact rollbackTo_moves hs hfits h
  | releaseSavepoint tid name => exact release_moves h
  | setIgnoreCheckConstraints enabled =>
    obtain rfl := returns_modify h
    exact .logged fun hs => ⟨hs,[],Grows.of_same rfl rfl,rfl⟩
  | setCaseSensitiveLike enabled =>
    obtain rfl := returns_modify h
    exact .logged fun hs => ⟨hs,[],Grows.of_same rfl rfl,rfl⟩

end Calls

/-! ## What the moves keep -/

section Moves

variable {s t : MemoryStorage} {tid : TransactionId}

/-- The same store has the same tables. -/
theorem tables_of_stored (h : t.stored=s.stored) : t.tables=s.tables :=
  funext fun table => congrArg Stored.table (congrFun h table)

/-- It is as sound. -/
theorem sound_of_stored (hs : s.Sound) (h : t.stored=s.stored) : t.Sound :=
  fun table => by
    rw [h]
    exact hs table

/-- The log of a changed transaction. -/
theorem undoLog_of_map {f : ActiveTransaction → ActiveTransaction}
    {g : List UndoOp → List UndoOp} (h : t.activeTxn=s.activeTxn.map f)
    (hf : ∀ active, (f active).undoLog=g active.undoLog) (hnil : g []=[]) :
    t.undoLog=g s.undoLog := by
  unfold MemoryStorage.undoLog
  rw [h]
  cases s.activeTxn with
  | none => exact hnil.symm
  | some active => exact hf active

/-- Its savepoints. -/
theorem savepoints_of_map {f : ActiveTransaction → ActiveTransaction}
    {g : List Savepoint → List Savepoint} (h : t.activeTxn=s.activeTxn.map f)
    (hf : ∀ active, (f active).savepoints=g active.savepoints) (hnil : g []=[]) :
    t.savepoints=g s.savepoints := by
  unfold MemoryStorage.savepoints
  rw [h]
  cases s.activeTxn with
  | none => exact hnil.symm
  | some active => exact hf active

/-- Without a transaction there are neither. -/
theorem nothing_of_none (h : s.activeTxn=none) : s.undoLog=[] ∧ s.savepoints=[] := by
  unfold MemoryStorage.undoLog MemoryStorage.savepoints
  rw [h]
  exact ⟨rfl,rfl⟩

/-- Without a log and savepoints there is nothing to keep. -/
theorem kept_of_nothing (hs : s.Sound) (hlog : s.undoLog=[]) (hsavepoints : s.savepoints=[]) :
    s.Kept where
  sound := hs
  begun := by
    rw [hlog]
    exact ⟨s.tables,rfl⟩
  ordered := by
    rw [hsavepoints]
    exact List.Pairwise.nil
  within := by
    rw [hsavepoints]
    intro savepoint hmem
    cases hmem

/-- Fewer savepoints and a log that is not shorter. -/
theorem kept_of_fewer (hs : s.Kept) (ht : t.Sound) (hlog : t.undoLog=s.undoLog)
    (htables : t.tables=s.tables) {index : ℕ}
    (hsavepoints : t.savepoints=s.savepoints.take index) : t.Kept where
  sound := ht
  begun := by
    rw [hlog,htables]
    exact hs.begun
  ordered := by
    rw [hsavepoints,List.map_take]
    exact hs.ordered.sublist (List.take_sublist ..)
  within := by
    rw [hsavepoints,hlog]
    exact fun savepoint hmem => hs.within savepoint (List.mem_of_mem_take hmem)

/-- What is logged is kept. -/
theorem Logged.kept (h : Logged s t) (hs : s.Kept) : t.Kept := by
  obtain ⟨ht,log,hgrows,hundoes⟩ := h hs.sound
  cases hactive : s.activeTxn with
  | none =>
    have hnone : t.activeTxn=none := by
      rw [hgrows.activeTxn,hactive]
      rfl
    exact kept_of_nothing ht (nothing_of_none hnone).1 (nothing_of_none hnone).2
  | some active =>
    have hlog := hgrows.undoLog ⟨active,hactive,rfl⟩
    obtain ⟨old,hback⟩ := hs.begun
    refine ⟨ht,⟨old,?_⟩,?_,?_⟩
    · rw [hlog]
      exact hundoes.trans hback
    · rw [hgrows.savepoints]
      exact hs.ordered
    · rw [hgrows.savepoints,hlog]
      intro savepoint hmem
      have hwithin := hs.within savepoint hmem
      rw [List.length_append]
      omega

/-- An outer savepoint was set at an earlier place of the log. -/
theorem MemoryStorage.Kept.undoLen_le (hs : s.Kept) {outer inner : ℕ} (hle : outer ≤ inner)
    {savepoint other : Savepoint} (houter : s.savepoints[outer]?=some savepoint)
    (hinner : s.savepoints[inner]?=some other) : savepoint.undoLen ≤ other.undoLen := by
  rcases Nat.lt_or_eq_of_le hle with hlt | rfl
  · obtain ⟨hbound,rfl⟩ := List.getElem?_eq_some_iff.mp houter
    obtain ⟨hbound',rfl⟩ := List.getElem?_eq_some_iff.mp hinner
    have hordered := List.pairwise_map.mp hs.ordered
    exact List.pairwise_iff_getElem.mp hordered outer inner hbound hbound' hlt
  · obtain rfl := Option.some.inj (houter.symm.trans hinner)
    exact le_rfl

/-- Every call that fits keeps what every run keeps. -/
theorem MemoryStorage.Moves.kept (h : s.Moves t) (hs : s.Kept) : t.Kept := by
  cases h with
  | logged h => exact h.kept hs
  | ended hsound hnone =>
    exact kept_of_nothing hsound (nothing_of_none hnone).1 (nothing_of_none hnone).2
  | began hstored hnone hactive =>
    obtain ⟨tid,hactive⟩ := hactive
    exact kept_of_nothing (sound_of_stored hs.sound hstored) (undoLog_of_active hactive)
      (savepoints_of_active hactive)
  | saved name hstored hactive =>
    have hlog : t.undoLog=s.undoLog := undoLog_of_map (g := id) hactive (fun _ => rfl) rfl
    have hsound := sound_of_stored hs.sound hstored
    cases htxn : s.activeTxn with
    | none =>
      rw [htxn] at hactive
      exact kept_of_nothing hsound (nothing_of_none hactive).1 (nothing_of_none hactive).2
    | some active =>
      rw [htxn] at hactive
      have hsavepoints : t.savepoints=s.savepoints++[⟨name,s.undoLog.length⟩] := by
        rw [savepoints_of_active hactive,savepoints_of_active htxn,undoLog_of_active htxn]
      refine ⟨hsound,?_,?_,?_⟩
      · rw [hlog,tables_of_stored hstored]
        exact hs.begun
      · rw [hsavepoints,List.map_append,List.pairwise_append]
        refine ⟨hs.ordered,List.pairwise_singleton _ _,fun undoLen hmem last hlast => ?_⟩
        obtain ⟨savepoint,hsavepoint,rfl⟩ := List.mem_map.mp hmem
        obtain rfl := List.mem_singleton.mp hlast
        exact hs.within savepoint hsavepoint
      · rw [hsavepoints,hlog]
        intro savepoint hmem
        rcases List.mem_append.mp hmem with hold | hnew
        · exact hs.within savepoint hold
        · obtain rfl := List.mem_singleton.mp hnew
          exact le_rfl
  | released index hstored hactive =>
    exact kept_of_fewer hs (sound_of_stored hs.sound hstored)
      (undoLog_of_map (g := id) hactive (fun _ => rfl) rfl) (tables_of_stored hstored)
      (savepoints_of_map (g := List.take index) hactive (fun _ => rfl) List.take_nil)
  | returned index savepoint hsound hsavepoint hactive hundone =>
    have hlog : t.undoLog=s.undoLog.take savepoint.undoLen :=
      undoLog_of_map (g := List.take _) hactive (fun _ => rfl) List.take_nil
    have hsavepoints : t.savepoints=s.savepoints.take (index+1) :=
      savepoints_of_map (g := List.take _) hactive (fun _ => rfl) List.take_nil
    obtain ⟨old,hback⟩ := hs.begun
    rw [← List.take_append_drop savepoint.undoLen s.undoLog,undoes_append] at hback
    obtain ⟨between,hlater,hearlier⟩ := hback
    refine ⟨hsound,⟨old,?_⟩,?_,?_⟩
    · rw [hlog,hundone between hlater]
      exact hearlier
    · rw [hsavepoints,List.map_take]
      exact hs.ordered.sublist (List.take_sublist ..)
    · intro outer hmem
      rw [hsavepoints] at hmem
      obtain ⟨position,hposition⟩ := List.mem_iff_getElem?.mp hmem
      rw [List.getElem?_take] at hposition
      split at hposition
      · next hlt =>
        have hle := hs.undoLen_le (by omega) hposition hsavepoint
        have hwithin := hs.within savepoint (List.mem_of_getElem? hsavepoint)
        rw [hlog,List.length_take]
        omega
      · cases hposition

/-- The transaction goes on, and its log leads back from a place on to some tables. -/
structure MemoryStorage.Marked (storage : MemoryStorage) (tid : TransactionId) (undoLen : ℕ)
    (old : Tables) : Prop where
  kept : storage.Kept
  active : storage.Active tid
  since : storage.Since undoLen old

/-- The same transaction is active. -/
theorem active_of_map {f : ActiveTransaction → ActiveTransaction}
    (h : t.activeTxn=s.activeTxn.map f) (hf : ∀ active, (f active).id=active.id)
    (hs : s.Active tid) : t.Active tid := by
  obtain ⟨active,hactive,rfl⟩ := hs
  rw [hactive] at h
  exact ⟨f active,h,hf active⟩

/-- A call that neither ends the transaction nor returns to an earlier place of the log keeps
the log leading back. -/
theorem MemoryStorage.Moves.marked {undoLen : ℕ} {old : Tables} (h : s.Moves t)
    (hs : s.Marked tid undoLen old) (hopen : t.activeTxn≠none)
    (hlater : ∀ index savepoint, s.savepoints[index]?=some savepoint →
      t.savepoints=s.savepoints.take (index+1) → undoLen ≤ savepoint.undoLen) :
    t.Marked tid undoLen old := by
  suffices hnew : t.Active tid ∧ t.Since undoLen old from ⟨h.kept hs.kept,hnew.1,hnew.2⟩
  obtain ⟨hwithin,hback⟩ := hs.since
  cases h with
  | logged h =>
    obtain ⟨-,log,hgrows,hundoes⟩ := h hs.kept.sound
    have hlog := hgrows.undoLog hs.active
    refine ⟨hgrows.active hs.active,?_,?_⟩
    · rw [hlog,List.length_append]
      omega
    · rw [hlog,List.drop_append_of_le_length hwithin]
      exact hundoes.trans hback
  | ended hsound hnone => exact absurd hnone hopen
  | began hstored hnone hactive =>
    obtain ⟨active,hactive,-⟩ := hs.active
    rw [hactive] at hnone
    cases hnone
  | saved name hstored hactive =>
    have hlog : t.undoLog=s.undoLog := undoLog_of_map (g := id) hactive (fun _ => rfl) rfl
    refine ⟨active_of_map hactive (fun _ => rfl) hs.active,?_,?_⟩
    · rw [hlog]
      exact hwithin
    · rw [hlog,tables_of_stored hstored]
      exact hback
  | released index hstored hactive =>
    have hlog : t.undoLog=s.undoLog := undoLog_of_map (g := id) hactive (fun _ => rfl) rfl
    refine ⟨active_of_map hactive (fun _ => rfl) hs.active,?_,?_⟩
    · rw [hlog]
      exact hwithin
    · rw [hlog,tables_of_stored hstored]
      exact hback
  | returned index savepoint hsound hsavepoint hactive hundone =>
    have hlog : t.undoLog=s.undoLog.take savepoint.undoLen :=
      undoLog_of_map (g := List.take _) hactive (fun _ => rfl) List.take_nil
    have hle := hlater index savepoint hsavepoint
      (savepoints_of_map (g := List.take _) hactive (fun _ => rfl) List.take_nil)
    have hend := hs.kept.within savepoint (List.mem_of_getElem? hsavepoint)
    refine ⟨active_of_map hactive (fun _ => rfl) hs.active,?_,?_⟩
    · rw [hlog,List.length_take]
      omega
    · have hparts : s.undoLog.drop undoLen=
          (s.undoLog.take savepoint.undoLen).drop undoLen++s.undoLog.drop savepoint.undoLen := by
        rw [← List.drop_append_of_le_length (by rw [List.length_take]; omega),
          List.take_append_drop]
      rw [hparts,undoes_append] at hback
      obtain ⟨between,hundo,hrest⟩ := hback
      rw [hlog,hundone between hundo]
      exact hrest

/-- A savepoint stays as it was set as long as there are that many. -/
theorem MemoryStorage.Moves.savepoint_kept {index : ℕ} {savepoint : Savepoint} (h : s.Moves t)
    (hs : s.Kept) (hactive : s.Active tid) (hsavepoint : s.savepoints[index]?=some savepoint)
    (hset : index < t.savepoints.length) : t.savepoints[index]?=some savepoint := by
  have htake : ∀ count, t.savepoints=s.savepoints.take count →
      t.savepoints[index]?=some savepoint := by
    intro count hcount
    rw [hcount,List.length_take] at hset
    rw [hcount,List.getElem?_take_of_lt (by omega)]
    exact hsavepoint
  cases h with
  | logged h =>
    obtain ⟨-,log,hgrows,-⟩ := h hs.sound
    rw [hgrows.savepoints]
    exact hsavepoint
  | ended hsound hnone =>
    rw [(nothing_of_none hnone).2] at hset
    cases hset
  | began hstored hnone hbegan =>
    rw [(nothing_of_none hnone).2] at hsavepoint
    cases hsavepoint
  | saved name hstored hsaved =>
    obtain ⟨active,htxn,-⟩ := hactive
    rw [htxn] at hsaved
    obtain ⟨hbound,-⟩ := List.getElem?_eq_some_iff.mp hsavepoint
    rw [savepoints_of_active htxn] at hbound hsavepoint
    rw [savepoints_of_active hsaved,List.getElem?_append_left hbound]
    exact hsavepoint
  | released count hstored hreleased =>
    exact htake count (savepoints_of_map (g := List.take _) hreleased (fun _ => rfl) List.take_nil)
  | returned found other hsound hother hreturned hundone =>
    exact htake (found+1)
      (savepoints_of_map (g := List.take _) hreturned (fun _ => rfl) List.take_nil)

end Moves

/-! ## Runs -/

section Runs

variable {s t u : MemoryStorage} {tid : TransactionId} {calls : List StorageCall}

/-- What a run of calls that fit keeps. -/
theorem run_kept (hfits : Eff.Along StorageCall.run StorageCall.Fits calls s) (hs : s.Kept)
    (hruns : Eff.runs StorageCall.run calls s=some t) : t.Kept := by
  have hstep : ∀ (call : StorageCall) (w w' : MemoryStorage), w.Kept → call.Fits w →
      Eff.returns call.run w=some w' → w'.Kept :=
    fun _ _ _ hw hcall hreturns => (call_moves hw hcall hreturns).kept hw
  exact Eff.Along.invariant hstep hfits hs hruns

/-- Nothing is to be kept at first. -/
theorem new_kept (expressions : Expressions) (names : ExpressionNames) :
    (MemoryStorage.new expressions names).Kept :=
  kept_of_nothing (new_sound expressions names) rfl rfl

/-- While a transaction goes on, its log leads back to where it began. -/
theorem run_marked (hfits : Eff.Along StorageCall.run StorageCall.Fits calls t) {old : Tables}
    (ht : t.Marked tid 0 old)
    (hopen : Eff.Throughout StorageCall.run (fun w => w.Active tid) calls t)
    (hruns : Eff.runs StorageCall.run calls t=some u) : u.Marked tid 0 old := by
  refine hfits.throughout (J := fun w => w.Marked tid 0 old) hopen ht (fun call w w' hw hcall _ hopen' hreturns => ?_) calls [] u
    (List.append_nil calls).symm hruns
  obtain ⟨active,hactive,-⟩ := hopen'
  refine (call_moves hw.kept hcall hreturns).marked hw ?_ fun _ _ _ _ => Nat.zero_le _
  rw [hactive]
  exact Option.some_ne_none active

/-- While a savepoint is set, the log leads back from its place to where it was set. -/
theorem run_saved (savepoint : Savepoint) (hfits : Eff.Along StorageCall.run StorageCall.Fits calls t) {old : Tables}
    {index : ℕ} (ht : t.Marked tid savepoint.undoLen old)
    (hsavepoint : t.savepoints[index]?=some savepoint)
    (hset : Eff.Throughout StorageCall.run (fun w => index < w.savepoints.length) calls t)
    (hruns : Eff.runs StorageCall.run calls t=some u) :
    u.Marked tid savepoint.undoLen old ∧ u.savepoints[index]?=some savepoint := by
  refine hfits.throughout (J := fun w => w.Marked tid savepoint.undoLen old ∧
      w.savepoints[index]?=some savepoint) hset ⟨ht,hsavepoint⟩
    (fun call w w' hw hcall _ hset' hreturns => ?_) calls [] u (List.append_nil calls).symm hruns
  obtain ⟨hmarked,hplace⟩ := hw
  have hmoves := call_moves hmarked.kept hcall hreturns
  refine ⟨hmoves.marked hmarked (fun hnone => ?_) fun found other hother hcut => ?_,
    hmoves.savepoint_kept hmarked.kept hmarked.active hplace hset'⟩
  · rw [(nothing_of_none hnone).2] at hset'
    cases hset'
  · rw [hcut,List.length_take] at hset'
    exact hmarked.kept.undoLen_le (by omega) hplace hother

end Runs

end RustSql.Memory
