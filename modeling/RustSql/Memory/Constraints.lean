import Mathlib.Data.List.ReduceOption
import RustSql.Memory.Engine

/-!
# What the constraints of a table ask of its rows

The constraints of a table as a statement about a list of rows, and the checks the executor
makes of the rows an update leads to: they pass exactly when the rows satisfy the
constraints, and they change nothing but the note that a check was put off.
-/

namespace RustSql.Memory

open RustSql.Engine RustSql.Sql RustSql.V2

/-! ## Rows and constraints -/

/-- The primary key of a row, none when a part of it is null. -/
def fullPrimaryKey (schema : Schema) (row : Row) : Option (List Value) :=
  let key := schema.primaryKeyPositions.filterMap fun index => row[index]?
  if key.any fun value => value=.null then none else some key

/-- The key of a row that an index keeps unique, none when the row does not match the
predicate of the index or its key has a null. -/
def enforcedKey (expressions : Expressions) (schema : Schema) (caseSensitiveLike : Bool)
    (index : IndexMeta) (row : Row) : Except DbError (Option (List Value)) := do
  if ← rowMatchesPartialIndex expressions schema caseSensitiveLike index row then
    let key ← Sql.projectIndexKey expressions schema caseSensitiveLike index row
    .ok (if index.enforcesUniqueKey key then some key else none)
  else .ok none

/-- A foreign key of a row has a null, or names a row of its parent table. -/
def ReferenceMet (storage : MemoryStorage) (schema : Schema) (row : Row)
    (foreignKey : ForeignKey) : Prop :=
  ∃ values, schema.values row foreignKey.columns=.ok values ∧
    ((values.any fun value => value=.null)=true ∨
      ∃ parent columns positions, storage.schemas[foreignKey.refTable]?=some parent ∧
        resolveForeignKeyParentColumns parent foreignKey=.ok columns ∧
        columns.mapM parent.columnIndex=.ok positions ∧
        ∃ entry∈(storage.tableRows foreignKey.refTable).toList,
          ((positions.zip values).all fun pair => entry.2[pair.1]?==some pair.2)=true)

/-- The rows satisfy the constraints of a table: their values and checks are in order, the
foreign keys that are enforced at once are met, and no two rows have the same key. -/
structure Satisfies (session : Session MemoryStorage) (schema : Schema)
    (indexes : List IndexMeta) (rows : List Row) : Prop where
  admitted : ∀ row∈rows, session.storage.Admits schema row
  references : session.foreignKeys=true → ∀ row∈rows, ∀ foreignKey∈schema.allForeignKeys,
    session.shouldDeferForeignKey foreignKey=false →
      ReferenceMet session.storage schema row foreignKey
  primaryKey : schema.primaryKeyPositions≠[] → (rows.filterMap (fullPrimaryKey schema)).Nodup
  unique : ∀ index∈indexes, index.unique=true → ∃ keys,
    rows.mapM (enforcedKey session.storage.expressions schema session.storage.caseSensitiveLike
      index)=.ok keys ∧ keys.reduceOption.Nodup

/-! ## Checks of a connection -/

/-- The connection with another note about checks that were put off. -/
def noted (session : Session MemoryStorage) (pending : Bool) : Session MemoryStorage :=
  { session with deferredForeignKeysPending := pending }

/-- A check: it passes exactly when something holds, and only the note may change. -/
def Checks (x : Eff (Session MemoryStorage) Unit) (session : Session MemoryStorage) (P : Prop) :
    Prop :=
  ∀ pending, ∃ later, (x (noted session pending)=(.ok (),noted session later) ∧ P) ∨
    ((∃ error, x (noted session pending)=(.err error,noted session later)) ∧ ¬P)

namespace Checks

variable {α : Type} {session : Session MemoryStorage} {P Q : Prop}
  {x y : Eff (Session MemoryStorage) Unit}

theorem congr (h : Checks x session P) (hPQ : P ↔ Q) : Checks x session Q :=
  (propext hPQ)▸h

/-- A check from the connection as it is. -/
theorem here (h : Checks x session P) :
    ∃ later, (x session=(.ok (),noted session later) ∧ P) ∨
      ((∃ error, x session=(.err error,noted session later)) ∧ ¬P) :=
  h session.deferredForeignKeysPending

theorem passes (h : P) : Checks (pure ()) session P :=
  fun pending => ⟨pending,Or.inl ⟨rfl,h⟩⟩

theorem refuses (error : DbError) (h : ¬P) : Checks (Eff.fail error) session P :=
  fun pending => ⟨pending,Or.inr ⟨⟨error,rfl⟩,h⟩⟩

theorem note (h : P) : Checks notePending session P :=
  fun _ => ⟨true,Or.inl ⟨rfl,h⟩⟩

/-- A pure check. -/
theorem lift (check : Except DbError Unit) : Checks (Eff.lift check) session (check=.ok ()) := by
  cases check with
  | ok _ => exact passes rfl
  | error error =>
    refine refuses error fun h => ?_
    cases h

/-- One check after another. -/
theorem andThen (hx : Checks x session P) (hy : Checks y session Q) :
    Checks (x >>= fun _ => y) session (P ∧ Q) := by
  intro pending
  obtain ⟨later,⟨hrun,hP⟩ | ⟨⟨error,hrun⟩,hP⟩⟩ := hx pending
  · obtain ⟨last,⟨hrest,hQ⟩ | ⟨⟨error,hrest⟩,hQ⟩⟩ := hy later
    · exact ⟨last,Or.inl ⟨(Eff.bind_of_ok hrun).trans hrest,hP,hQ⟩⟩
    · exact ⟨last,Or.inr ⟨⟨error,(Eff.bind_of_ok hrun).trans hrest⟩,fun h => hQ h.2⟩⟩
  · exact ⟨later,Or.inr ⟨⟨error,Eff.bind_of_err hrun⟩,fun h => hP h.1⟩⟩

variable {f : α → Eff (Session MemoryStorage) Unit}

/-- A check of every element. -/
theorem forEach {xs : List α} {P : α → Prop} (h : ∀ x∈xs, Checks (f x) session (P x)) :
    Checks (Eff.forEach xs f) session (∀ x∈xs, P x) := by
  induction xs with
  | nil => exact passes fun _ hx => absurd hx List.not_mem_nil
  | cons x xs ih =>
    have hrest := ih fun y hy => h y (List.mem_cons_of_mem x hy)
    exact ((h x List.mem_cons_self).andThen hrest).congr List.forall_mem_cons.symm

/-- What is read before a check. -/
theorem after {value : α} {x : Eff (Session MemoryStorage) α}
    (hx : ∀ pending, x (noted session pending)=(.ok value,noted session pending))
    (h : Checks (f value) session P) : Checks (x >>= f) session P := by
  intro pending
  rw [Eff.bind_of_ok (hx pending)]
  exact h pending

/-- A check that depends on the connection but not on its note. -/
theorem get {f : Session MemoryStorage → Eff (Session MemoryStorage) Unit}
    (hf : ∀ pending, f (noted session pending)=f session) (h : Checks (f session) session P) :
    Checks (Eff.get >>= f) session P := by
  intro pending
  rw [Eff.bind_of_ok (Eff.get_eq _),hf pending]
  exact h pending

/-- A computation that fails before a check. -/
theorem failed {x : Eff (Session MemoryStorage) α}
    (hx : ∀ pending, ∃ error, x (noted session pending)=(.err error,noted session pending))
    (h : ¬P) : Checks (x >>= f) session P := by
  intro pending
  obtain ⟨error,hrun⟩ := hx pending
  exact ⟨pending,Or.inr ⟨⟨error,Eff.bind_of_err hrun⟩,h⟩⟩

/-- A check of what a pure computation comes to. -/
theorem bindLift {value : Except DbError α}
    {P : α → Prop} (h : ∀ found, value=.ok found → Checks (f found) session (P found)) :
    Checks (Eff.lift value >>= f) session (∃ found, value=.ok found ∧ P found) := by
  cases value with
  | ok found =>
    have hfound : Checks (f found) session (P found) := h found rfl
    refine Checks.congr (x := Eff.lift (.ok found) >>= f) hfound ?_
    constructor
    · intro hP
      exact ⟨found,rfl,hP⟩
    · rintro ⟨other,hother,hP⟩
      obtain rfl := Except.ok.inj hother
      exact hP
  | error error =>
    intro pending
    refine ⟨pending,Or.inr ⟨⟨error,rfl⟩,?_⟩⟩
    rintro ⟨found,hfound,-⟩
    cases hfound

end Checks

/-! ## Loops that look for a key again -/

section Keys

variable {expressions : Expressions} {schema : Schema} {caseSensitiveLike : Bool}
  {index : IndexMeta} {rows : List Row} {seen : List (List Value)}

/-- The check of the primary keys passes when no key comes twice or was seen before. -/
theorem validateUpdatePrimaryKeyUniqueness_iff :
    validateUpdatePrimaryKeyUniqueness expressions schema seen rows=.ok () ↔
      (schema.primaryKeyPositions≠[] → (rows.filterMap (fullPrimaryKey schema)).Nodup ∧
        ∀ key∈rows.filterMap (fullPrimaryKey schema), key∉seen) := by
  by_cases hpositions : schema.primaryKeyPositions=[]
  · refine iff_of_true ?_ fun h => absurd hpositions h
    cases rows with
    | nil => rfl
    | cons row rows =>
      unfold validateUpdatePrimaryKeyUniqueness
      dsimp only
      rw [if_pos hpositions]
  · refine Iff.trans ?_ (forall_prop_of_true hpositions).symm
    induction rows generalizing seen with
    | nil => exact iff_of_true rfl ⟨List.nodup_nil,fun _ h => absurd h List.not_mem_nil⟩
    | cons row rows ih =>
      unfold validateUpdatePrimaryKeyUniqueness
      dsimp only
      rw [if_neg hpositions]
      by_cases hnull : ((schema.primaryKeyPositions.filterMap fun index => row[index]?).any
          fun value => value=.null)=true
      · have hkey : fullPrimaryKey schema row=none := by
          unfold fullPrimaryKey
          dsimp only
          rw [if_pos hnull]
        rw [if_pos hnull,ih,List.filterMap_cons_none hkey]
      · have hkey : fullPrimaryKey schema row=
            some (schema.primaryKeyPositions.filterMap fun index => row[index]?) := by
          unfold fullPrimaryKey
          dsimp only
          rw [if_neg hnull]
        rw [if_neg hnull,List.filterMap_cons_some hkey,List.nodup_cons,List.forall_mem_cons]
        by_cases hseen : seen.contains
            (schema.primaryKeyPositions.filterMap fun index => row[index]?)=true
        · rw [if_pos hseen]
          refine iff_of_false ?_ fun h => h.2.1 (List.contains_iff_mem.mp hseen)
          intro h
          cases h
        · rw [if_neg hseen,ih]
          have hnew := fun h => hseen (List.contains_iff_mem.mpr h)
          constructor
          · rintro ⟨hdistinct,hfresh⟩
            refine ⟨⟨fun hmem => hfresh _ hmem List.mem_cons_self,hdistinct⟩,hnew,fun key hmem h => ?_⟩
            exact hfresh key hmem (List.mem_cons_of_mem _ h)
          · rintro ⟨⟨hother,hdistinct⟩,-,hfresh⟩
            refine ⟨hdistinct,fun key hmem h => ?_⟩
            rcases List.mem_cons.mp h with rfl | h
            · exact hother hmem
            · exact hfresh key hmem h

/-- One round of the check of an index, by the key that the index keeps unique. -/
theorem validateUpdateUniqueIndex_cons (row : Row) :
    validateUpdateUniqueIndex expressions schema caseSensitiveLike index seen (row :: rows)=
      (enforcedKey expressions schema caseSensitiveLike index row >>= fun
        | none => validateUpdateUniqueIndex expressions schema caseSensitiveLike index seen rows
        | some key =>
          if seen.contains key then .error (.storage s!"unique index {index.name} constraint failed")
          else validateUpdateUniqueIndex expressions schema caseSensitiveLike index (key :: seen)
            rows) := by
  rw [validateUpdateUniqueIndex]
  unfold enforcedKey
  cases rowMatchesPartialIndex expressions schema caseSensitiveLike index row with
  | error error => rfl
  | ok found =>
    cases found with
    | false => rfl
    | true =>
      cases Sql.projectIndexKey expressions schema caseSensitiveLike index row with
      | error error => rfl
      | ok key =>
        dsimp only [bind,Except.bind]
        cases index.enforcesUniqueKey key with
        | false => rfl
        | true => rfl

/-- The check of an index passes when no key comes twice or was seen before. -/
theorem validateUpdateUniqueIndex_iff :
    validateUpdateUniqueIndex expressions schema caseSensitiveLike index seen rows=.ok () ↔
      ∃ keys, rows.mapM (enforcedKey expressions schema caseSensitiveLike index)=.ok keys ∧
        keys.reduceOption.Nodup ∧ ∀ key∈keys.reduceOption, key∉seen := by
  induction rows generalizing seen with
  | nil =>
    refine iff_of_true rfl ⟨[],rfl,List.nodup_nil,fun _ h => absurd h List.not_mem_nil⟩
  | cons row rows ih =>
    rw [validateUpdateUniqueIndex_cons,List.mapM_cons]
    cases hkey : enforcedKey expressions schema caseSensitiveLike index row with
    | error error =>
      refine iff_of_false (fun h => ?_) ?_
      · cases h
      · rintro ⟨keys,h,-⟩
        cases h
    | ok found =>
      have hkeys : ∀ keys, (do
          let rest ← rows.mapM (enforcedKey expressions schema caseSensitiveLike index)
          .ok (found :: rest))=Except.ok keys ↔ ∃ rest, rows.mapM
            (enforcedKey expressions schema caseSensitiveLike index)=.ok rest ∧
            found :: rest=keys := by
        intro keys
        constructor
        · intro h
          obtain ⟨rest,hrest,h⟩ := except_bind_ok h
          exact ⟨rest,hrest,Except.ok.inj h⟩
        · rintro ⟨rest,hrest,rfl⟩
          rw [hrest]
          rfl
      cases found with
      | none =>
        refine ih.trans ?_
        constructor
        · rintro ⟨keys,h,hdistinct,hfresh⟩
          exact ⟨none :: keys,(hkeys _).mpr ⟨keys,h,rfl⟩,hdistinct,hfresh⟩
        · rintro ⟨keys,h,hdistinct,hfresh⟩
          obtain ⟨rest,hrest,rfl⟩ := (hkeys keys).mp h
          exact ⟨rest,hrest,hdistinct,hfresh⟩
      | some key =>
        change (if seen.contains key=true then _ else _)=_ ↔ _
        by_cases hseen : seen.contains key=true
        · rw [if_pos hseen]
          refine iff_of_false (fun h => ?_) ?_
          · cases h
          · rintro ⟨keys,h,-,hfresh⟩
            obtain ⟨rest,-,rfl⟩ := (hkeys keys).mp h
            exact hfresh key (by rw [List.reduceOption_cons_of_some]; exact List.mem_cons_self)
              (List.contains_iff_mem.mp hseen)
        · have hnew := fun h => hseen (List.contains_iff_mem.mpr h)
          rw [if_neg hseen,ih]
          constructor
          · rintro ⟨keys,h,hdistinct,hfresh⟩
            refine ⟨some key :: keys,(hkeys _).mpr ⟨keys,h,rfl⟩,?_,?_⟩
            · rw [List.reduceOption_cons_of_some,List.nodup_cons]
              exact ⟨fun hmem => hfresh key hmem List.mem_cons_self,hdistinct⟩
            · rw [List.reduceOption_cons_of_some,List.forall_mem_cons]
              exact ⟨hnew,fun other hmem h => hfresh other hmem (List.mem_cons_of_mem _ h)⟩
          · rintro ⟨keys,h,hdistinct,hfresh⟩
            obtain ⟨rest,hrest,rfl⟩ := (hkeys keys).mp h
            rw [List.reduceOption_cons_of_some,List.nodup_cons] at hdistinct
            rw [List.reduceOption_cons_of_some,List.forall_mem_cons] at hfresh
            refine ⟨rest,hrest,hdistinct.2,fun other hmem h => ?_⟩
            rcases List.mem_cons.mp h with rfl | h
            · exact hdistinct.1 hmem
            · exact hfresh.2 other hmem h

end Keys

/-! ## The checks of an update -/

section Update

variable {session : Session MemoryStorage} {tid : TransactionId} {schema : Schema} {row : Row}

/-- The check of a foreign key passes when it is met. -/
theorem validateForeignKeyReference_checks (hactive : session.storage.Active tid)
    (foreignKey : ForeignKey) :
    Checks (validateForeignKeyReference tid schema row foreignKey) session
      (ReferenceMet session.storage schema row foreignKey) := by
  unfold validateForeignKeyReference ReferenceMet
  refine Checks.bindLift fun values _ => ?_
  by_cases hnull : (values.any fun value => value=.null)=true
  · rw [if_pos hnull]
    exact Checks.passes (Or.inl hnull)
  rw [if_neg hnull]
  refine Checks.congr ?_ (or_iff_right hnull).symm
  cases hparent : session.storage.schemas[foreignKey.refTable]? with
  | none =>
    refine Checks.failed (fun pending => requireSchema_missing hactive hparent) ?_
    rintro ⟨parent,_,_,h,-⟩
    cases h
  | some parent =>
    refine Checks.after (fun pending => requireSchema_found hactive hparent) ?_
    refine (Checks.bindLift fun columns _ => Checks.bindLift fun positions _ => ?_).congr
      (Q := ∃ found columns positions, some parent=some found ∧
        resolveForeignKeyParentColumns found foreignKey=.ok columns ∧
        columns.mapM found.columnIndex=.ok positions ∧
        ∃ entry∈(session.storage.tableRows foreignKey.refTable).toList,
          ((positions.zip values).all fun pair => entry.2[pair.1]?==some pair.2)=true)
      (P := ∃ columns, resolveForeignKeyParentColumns parent foreignKey=.ok columns ∧
        ∃ positions, columns.mapM parent.columnIndex=.ok positions ∧
        ∃ entry∈(session.storage.tableRows foreignKey.refTable).toList,
          ((positions.zip values).all fun pair => entry.2[pair.1]?==some pair.2)=true) ?_
    · have hscan : ∀ pending, call (StorageEngine.scanRows tid foreignKey.refTable)
          (noted session pending)=(.ok (session.storage.tableRows foreignKey.refTable).toList,
            noted session pending) :=
        fun pending => scanRows_eq (noted session pending) hactive foreignKey.refTable
      refine Checks.after hscan ?_
      dsimp only
      by_cases hfound : ((session.storage.tableRows foreignKey.refTable).toList.any fun entry =>
          (positions.zip values).all fun pair => entry.2[pair.1]?==some pair.2)=true
      · rw [if_pos hfound]
        exact Checks.passes (List.any_eq_true.mp hfound)
      · rw [if_neg hfound]
        exact Checks.refuses _ fun h => hfound (List.any_eq_true.mpr h)
    · constructor
      · rintro ⟨columns,hcolumns,positions,hpositions,hentry⟩
        exact ⟨parent,columns,positions,rfl,hcolumns,hpositions,hentry⟩
      · rintro ⟨found,columns,positions,hfound,hcolumns,hpositions,hentry⟩
        obtain rfl := Option.some.inj hfound
        exact ⟨columns,hcolumns,positions,hpositions,hentry⟩

/-- The check of a row's references passes when those that are enforced at once are met. -/
theorem validateForeignKeyReferences_checks (hactive : session.storage.Active tid) :
    Checks (validateForeignKeyReferences tid schema row) session
      (session.foreignKeys=true → ∀ foreignKey∈schema.allForeignKeys,
        session.shouldDeferForeignKey foreignKey=false →
          ReferenceMet session.storage schema row foreignKey) := by
  unfold validateForeignKeyReferences
  refine Checks.get (fun _ => rfl) ?_
  cases session.foreignKeys with
  | false =>
    refine Checks.passes fun h => ?_
    cases h
  | true =>
    refine Checks.congr ?_ (forall_prop_of_true rfl).symm
    refine Checks.forEach fun foreignKey _ => Checks.get (fun _ => rfl) ?_
    cases hdefer : session.shouldDeferForeignKey foreignKey with
    | true =>
      refine Checks.note fun h => ?_
      cases h
    | false =>
      exact (validateForeignKeyReference_checks hactive foreignKey).congr
        ⟨fun h _ => h,fun h => h rfl⟩

/-- The checks of a row's values. -/
theorem validateChildRow_checks :
    Checks (validateChildRow session.storage.expressions schema row) session
      (session.storage.Admits schema row) := by
  unfold validateChildRow MemoryStorage.Admits
  refine (Checks.lift _).andThen (Checks.get (fun _ => rfl) ?_)
  exact Checks.lift _

/-- The checks of the rows that an update leads to pass when the rows satisfy the
constraints. -/
theorem validateUpdateResultConstraints_checks (hactive : session.storage.Active tid)
    (indexes : List IndexMeta) (rows : List Row) (schema : Schema) :
    Checks (validateUpdateResultConstraints session.storage.expressions tid schema indexes rows)
      session (Satisfies session schema indexes rows) := by
  unfold validateUpdateResultConstraints
  have hrows : ∀ row∈rows, Checks (do
      validateChildRow session.storage.expressions schema row
      validateForeignKeyReferences tid schema row) session
      (session.storage.Admits schema row ∧ (session.foreignKeys=true →
        ∀ foreignKey∈schema.allForeignKeys, session.shouldDeferForeignKey foreignKey=false →
          ReferenceMet session.storage schema row foreignKey)) :=
    fun row _ => validateChildRow_checks.andThen (validateForeignKeyReferences_checks hactive)
  have hindexes : ∀ index∈indexes.filter IndexMeta.unique, Checks (Eff.lift
      (validateUpdateUniqueIndex session.storage.expressions schema
        session.storage.caseSensitiveLike index [] rows)) session
      (validateUpdateUniqueIndex session.storage.expressions schema
        session.storage.caseSensitiveLike index [] rows=.ok ()) :=
    fun index _ => Checks.lift _
  refine ((Checks.forEach hrows).andThen ((Checks.lift _).andThen
    (Checks.get (fun _ => rfl) (Checks.forEach hindexes)))).congr ?_
  constructor
  · rintro ⟨hrows,hprimary,hunique⟩
    refine ⟨fun row hrow => (hrows row hrow).1,fun hkeys row hrow => (hrows row hrow).2 hkeys,
      fun hpositions => ((validateUpdatePrimaryKeyUniqueness_iff).mp hprimary hpositions).1,?_⟩
    intro index hindex hflag
    obtain ⟨keys,hkeys,hdistinct,-⟩ := validateUpdateUniqueIndex_iff.mp
      (hunique index (List.mem_filter.mpr ⟨hindex,hflag⟩))
    exact ⟨keys,hkeys,hdistinct⟩
  · intro h
    refine ⟨fun row hrow => ⟨h.admitted row hrow,fun hkeys => h.references hkeys row hrow⟩,
      validateUpdatePrimaryKeyUniqueness_iff.mpr fun hpositions =>
        ⟨h.primaryKey hpositions,fun _ _ => List.not_mem_nil⟩,fun index hmem => ?_⟩
    obtain ⟨hindex,hflag⟩ := List.mem_filter.mp hmem
    obtain ⟨keys,hkeys,hdistinct⟩ := h.unique index hindex hflag
    exact validateUpdateUniqueIndex_iff.mpr ⟨keys,hkeys,hdistinct,fun _ _ => List.not_mem_nil⟩

end Update

end RustSql.Memory
