import RustSql.V2.RowHistory

/-!
# The tree of a row's table

A row is looked up from the root that the catalog of the storage handle gives for its
table. Inserts of other rows split that root, a transaction that begins keeps a copy of
the catalog, and a rollback puts the whole copy back, whoever has changed the catalog in
between. So the catalog can lead to a root that is not the root of the table's tree.

A run of the table is a run of the row together with these roots. As long as the catalog
leads to the tree's own root, every step is a step of the row or leaves the row alone.
-/

namespace RustSql.V2

/-- A row in the tree that a lookup gets to: what is stored there, and who has written its
page with what stood there before. -/
abbrev Place := Option StoredRow × Option (TransactionId × Option StoredRow)

/-- The roots of the row's table; a table that is not there has none. -/
structure TableRoots where
  /-- `table_roots` of the handle's catalog: where lookups start. -/
  root : Option PageId
  /-- The root of the tree that holds the row. -/
  tree : Option PageId
  /-- Who has changed the tree's root and not ended, and what it was before. -/
  grown : Option (TransactionId × Option PageId)
  /-- Who has created, dropped or renamed the table or given it a column, and not ended: it
  holds the table's exclusive lock. -/
  exclusive : Option TransactionId
  /-- Who has written the row's page for another row's sake and not ended. -/
  near : Finset TransactionId
  /-- `session_catalog_snapshots`: the root when a transaction began. -/
  sessions : TransactionId → Option (Option PageId)
  /-- The root in the catalog page. -/
  stored : Option PageId
  /-- Who has written the catalog page and not ended, and what it held before. -/
  storing : Option (TransactionId × Option PageId)

namespace TableRoots

/-- The catalog leads to the tree of the row. -/
def InPlace (roots : TableRoots) : Prop := roots.root=roots.tree

instance (roots : TableRoots) : Decidable roots.InPlace := inferInstanceAs (Decidable (_=_))

/-- A transaction gives the table another root. -/
def grow (roots : TableRoots) (txnId : TransactionId) (root : Option PageId) : TableRoots :=
  {roots with
    root := root
    tree := if roots.InPlace then root else roots.tree
    grown := some (roots.grown.getD (txnId,roots.tree))}

/-- A transaction's locks are free. -/
def freed (roots : TableRoots) (txnId : TransactionId) : TableRoots :=
  {roots with
    grown := roots.grown.filter fun grown => grown.1≠txnId
    exclusive := roots.exclusive.filter fun holder => holder≠txnId
    near := roots.near.erase txnId
    storing := roots.storing.filter fun storing => storing.1≠txnId}

/-- A transaction's pages are handed over, and its session ends. -/
def released (roots : TableRoots) (txnId : TransactionId) : TableRoots :=
  {roots.freed txnId with sessions := Function.update roots.sessions txnId none}

/-- The roots after a step on the row. -/
def after (roots : TableRoots) : RowAct → TableRoots
  | .publish txnId => roots.released txnId
  | _ => roots

/-- The session of a transaction ends, and its catalog is put back. -/
def forgiven (roots : TableRoots) (txnId : TransactionId) : TableRoots :=
  {roots with
    root := (roots.sessions txnId).getD roots.root
    sessions := Function.update roots.sessions txnId none}

/-- What a transaction has changed or, when it has not, what there is. -/
def before (changed : Option (TransactionId × Option PageId)) (txnId : TransactionId)
    (now : Option PageId) : Option PageId :=
  ((changed.filter fun change => change.1=txnId).map Prod.snd).getD now

/-- A transaction's pages are restored, and its catalog is put back. -/
def undone (roots : TableRoots) (txnId : TransactionId) : TableRoots :=
  {(roots.released txnId) with
    root := (roots.sessions txnId).getD roots.root
    tree := before roots.grown txnId roots.tree
    stored := before roots.storing txnId roots.stored}

end TableRoots

/-- A row and the roots of its table. -/
structure TableRun (P : Type) where
  /-- The row, as it is found from the catalog's root. -/
  row : RowRun P
  roots : TableRoots

/-- The steps of the engine that concern one row and the roots of its table. `place` is
where a lookup gets to when it does not get to the row's own tree. Of the table's locks only
the exclusive one is told. -/
inductive TableAct where
  /-- A step on the row; a rollback is `undo`. -/
  | row (act : RowAct)
  /-- `begin_with_isolation` keeps the catalog. -/
  | openSession (txnId : TransactionId)
  /-- Another row is stored on the row's page; an insertion that stops half-way leaves the
  row somewhere else. -/
  | neighbour (txnId : TransactionId) (torn : Option Place)
  /-- A row is stored, and the root is split. -/
  | grow (txnId : TransactionId) (root : PageId)
  /-- `add_column` stores the row anew, without its versions. -/
  | addColumn (txnId : TransactionId) (defaultValue : Value) (normalize : Row → Row)
  /-- `create_schema`, `drop_schema` or `rename_schema`. -/
  | retable (txnId : TransactionId) (root : Option PageId) (place : Place)
  /-- `planning_catalog_snapshot` loads the catalog page when the catalog is still the one
  that the transaction began with; `same` says so of all but the table's root. -/
  | reload (txnId : TransactionId) (same : Bool) (place : Place)
  /-- `store_catalog`. -/
  | storeCatalog (txnId : TransactionId)
  /-- The rollback restores the pages and puts the catalog back. -/
  | undo (txnId : TransactionId) (place : Place)
  /-- `abort_deadlock_victim`. -/
  | victim (txnId : TransactionId) (place : Place)
  /-- The rollback of a deadlock victim puts the catalog back. -/
  | forgive (txnId : TransactionId) (place : Place)

namespace TableRun

variable {P : Type} {s s' : TableRun P}

/-- A database just opened, without the row. -/
def start (nextTxnId : ℕ) (root : Option PageId) : TableRun P where
  row := .start nextTxnId
  roots := ⟨root,root,none,none,∅,fun _ => none,root,none⟩

/-- The row is somewhere else. -/
def elsewhere (row : RowRun P) (place : Place) : RowRun P :=
  {row with stored := place.1, lock := place.2}

/-- Nobody else holds the table's exclusive lock. -/
def open' (s : TableRun P) (txnId : TransactionId) : Bool := s.roots.exclusive.all (·=txnId)

/-- A row is inserted only into a table that is there, and written only while nobody else
holds the table; a rollback puts back more than the row. -/
def admits (s : TableRun P) : RowAct → Bool
  | .insert txnId _ => s.roots.root.isSome && s.open' txnId
  | .update txnId _ => s.open' txnId
  | .delete txnId => s.open' txnId
  | .undo _ => false
  | _ => true

/-- The roots have changed; the row is where it was unless the catalog leads to another
root than the tree's. -/
def turn (s : TableRun P) (row : RowRun P) (roots : TableRoots) (place : Place) : TableRun P :=
  ⟨if s.roots.InPlace ∧ roots.InPlace then row else elsewhere row place,roots⟩

/-- The transaction has written neither the row's page nor another root. -/
def Untouched (s : TableRun P) (txnId : TransactionId) : Prop :=
  s.row.lock.all (·.1≠txnId)=true ∧ txnId∉s.roots.near ∧
    s.roots.grown.all (·.1≠txnId)=true ∧ s.roots.storing.all (·.1≠txnId)=true

instance (s : TableRun P) (txnId : TransactionId) : Decidable (s.Untouched txnId) :=
  inferInstanceAs (Decidable (_ ∧ _))

/-- One step of the engine. -/
def step (act : TableAct) (s : TableRun P) : Option (TableRun P) :=
  match act with
  | .row act =>
    if s.admits act then (s.row.step act).map fun row => ⟨row,s.roots.after act⟩ else none
  | .openSession txnId =>
    some {s with roots := {s.roots with
      sessions := Function.update s.roots.sessions txnId (some s.roots.root)}}
  | .neighbour txnId torn => do
    let _ ← s.row.caller txnId
    if s.open' txnId ∧ s.row.mayWrite txnId then
      some ⟨(torn.map (elsewhere s.row)).getD s.row,
        {s.roots with near := insert txnId s.roots.near}⟩
    else none
  | .grow txnId root => do
    let _ ← s.row.caller txnId
    if s.roots.root.isSome ∧ s.open' txnId ∧ s.roots.grown.all (·.1=txnId) then
      some {s with roots := s.roots.grow txnId (some root)}
    else none
  | .addColumn txnId defaultValue normalize => do
    let _ ← s.row.caller txnId
    if s.open' txnId then
      let row ← s.row.store txnId (s.row.stored.map fun bytes =>
        encodeRow (normalize (decodeRow bytes++[defaultValue])))
      some ⟨row,{s.roots with exclusive := some txnId}⟩
    else none
  | .retable txnId root place => do
    let _ ← s.row.caller txnId
    if s.open' txnId ∧ s.roots.grown.all (·.1=txnId) then
      some ⟨elsewhere s.row place,{s.roots.grow txnId root with exclusive := some txnId}⟩
    else none
  | .reload txnId same place => do
    let _ ← s.row.caller txnId
    if same ∧ s.roots.sessions txnId=some s.roots.root then
      some (s.turn s.row {s.roots with root := s.roots.stored} place)
    else some s
  | .storeCatalog txnId => do
    let _ ← s.row.caller txnId
    if s.roots.storing.all (·.1=txnId) then
      some {s with roots := {s.roots with
        stored := s.roots.root
        storing := some (s.roots.storing.getD (txnId,s.roots.stored))}}
    else none
  | .undo txnId place =>
    (s.row.step (.undo txnId)).map fun row => s.turn row (s.roots.undone txnId) place
  | .victim txnId place => do
    let _ ← s.row.caller txnId
    let (_,row) ← s.row.manage (TxnManager.abort txnId)
    -- its locks are free, and what it wrote may be left in the cache
    some ⟨if s.Untouched txnId then row else elsewhere row place,s.roots.freed txnId⟩
  | .forgive txnId place => some (s.turn s.row (s.roots.forgiven txnId) place)

/-- The conditions under which a row keeps to its tree: an update or a delete replaces a
version that no commit has closed; what a rollback puts back or a statement loads is the
root that the tree has then; no insertion next to the row stops half-way; a table gets
another tree or a column only while the row is not stored; and a deadlock victim has
written neither the row's page nor another root. -/
def Careful (s : TableRun P) : TableAct → Prop
  | .row act => s.row.EditsLatest act
  | .neighbour _ torn => torn=none
  | .addColumn _ _ _ => s.row.stored=none
  | .retable _ _ place => s.row.stored=none ∧ s.row.lock=none ∧ place=(none,none)
  | .reload txnId same _ =>
    same=true → s.roots.sessions txnId=some s.roots.root → s.roots.stored=s.roots.tree
  | .undo txnId _ => (s.roots.undone txnId).InPlace
  | .victim txnId _ => s.Untouched txnId
  | .forgive txnId _ => (s.roots.forgiven txnId).InPlace
  | _ => True

instance (s : TableRun P) (act : TableAct) : Decidable (s.Careful act) := by
  cases act <;> unfold Careful <;> infer_instance

/-! ## Steps of the row -/

/-- The step of the row that a step of the table is, if it is one. -/
def rowAct : TableAct → Option RowAct
  | .row act => some act
  | .undo txnId _ => some (.undo txnId)
  | .victim txnId _ => some (.abort txnId)
  | _ => none

theorem InPlace.grow {roots : TableRoots} (h : roots.InPlace) (txnId : TransactionId)
    (root : Option PageId) : (roots.grow txnId root).InPlace := by
  unfold TableRoots.InPlace TableRoots.grow
  rw [if_pos h]

/-- A turn to the tree's own root leaves the row alone. -/
theorem turn_row {row : RowRun P} {roots : TableRoots} (h : s.roots.InPlace)
    (hroots : roots.InPlace) (place : Place) : s.turn row roots place=⟨row,roots⟩ := by
  rw [turn,if_pos ⟨h,hroots⟩]

variable {act : TableAct} {place : Place} {txnId : TransactionId}

/-- A step that is a step of the row and keeps to the tree, or leaves the row alone. -/
structure Follows (s s' : TableRun P) (act : TableAct) : Prop where
  inPlace : s'.roots.InPlace
  row : match rowAct act with
    | some act => s.row.EditsLatest act ∧ s.row.step act=some s'.row
    | none => s'.row=s.row

/-- A step that changes only the roots. -/
theorem Follows.still (hact : rowAct act=none) (hin : s'.roots.InPlace) (hrow : s'.row=s.row) :
    Follows s s' act :=
  ⟨hin,by rw [hact]; exact hrow⟩

theorem elsewhere_none {row : RowRun P} (hstored : row.stored=none) (hlock : row.lock=none) :
    elsewhere row (none,none)=row := by
  cases row with
  | mk manager stored lock reserved published =>
    subst hstored hlock
    rfl

/-- A step on the row, and the roots after it. -/
theorem row_acts {rowAct : RowAct} (hs : s.step (.row rowAct)=some s') :
    s.admits rowAct ∧ s.row.step rowAct=some s'.row ∧ s'.roots=s.roots.after rowAct := by
  simp only [step] at hs
  split at hs
  · next hadmits =>
    obtain ⟨row,hrow,rfl⟩ := Option.map_eq_some_iff.mp hs
    exact ⟨hadmits,hrow,rfl⟩
  · cases hs

/-- A step on the row neither leads the catalog elsewhere nor moves the tree. -/
theorem row_step {rowAct : RowAct} (hs : s.step (.row rowAct)=some s') :
    s.row.step rowAct=some s'.row ∧ (s'.roots.InPlace ↔ s.roots.InPlace) := by
  obtain ⟨-,hrow,hroots⟩ := row_acts hs
  refine ⟨hrow,?_⟩
  rw [hroots]
  cases rowAct <;> exact Iff.rfl

/-- In place, a careful step is a step of the row or leaves it alone, and the catalog goes
on leading to the row's tree. -/
theorem step_follows (h : s.roots.InPlace) (hs : s.step act=some s') (hcare : s.Careful act) :
    Follows s s' act := by
  cases act with
  | row rowAct =>
    obtain ⟨hrow,hin⟩ := row_step hs
    exact ⟨hin.mpr h,hcare,hrow⟩
  | openSession txnId =>
    obtain rfl := Option.some.inj hs
    exact .still rfl h rfl
  | neighbour txnId torn =>
    simp only [step,Option.bind_eq_bind,Option.bind_eq_some_iff] at hs
    obtain ⟨txn,-,hs⟩ := hs
    obtain rfl : torn=none := hcare
    split at hs
    · obtain rfl := Option.some.inj hs
      exact .still rfl h rfl
    · cases hs
  | grow txnId root =>
    simp only [step,Option.bind_eq_bind,Option.bind_eq_some_iff] at hs
    obtain ⟨txn,-,hs⟩ := hs
    split at hs
    · obtain rfl := Option.some.inj hs
      exact .still rfl (InPlace.grow h txnId (some root)) rfl
    · cases hs
  | addColumn txnId defaultValue normalize =>
    simp only [step,Option.bind_eq_bind,Option.bind_eq_some_iff] at hs
    obtain ⟨txn,-,hs⟩ := hs
    split at hs
    · obtain ⟨row,hstore,hs⟩ := Option.bind_eq_some_iff.mp hs
      obtain rfl := Option.some.inj hs
      have hnone : s.row.stored=none := hcare
      rw [hnone,RowRun.store,if_pos (by rw [hnone]; rfl)] at hstore
      exact .still rfl h (Option.some.inj hstore).symm
    · cases hs
  | retable txnId root place =>
    simp only [step,Option.bind_eq_bind,Option.bind_eq_some_iff] at hs
    obtain ⟨txn,-,hs⟩ := hs
    obtain ⟨hstored,hlock,rfl⟩ := hcare
    split at hs
    · obtain rfl := Option.some.inj hs
      exact .still rfl (InPlace.grow h txnId root) (elsewhere_none hstored hlock)
    · cases hs
  | reload txnId same place =>
    simp only [step,Option.bind_eq_bind,Option.bind_eq_some_iff] at hs
    obtain ⟨txn,-,hs⟩ := hs
    split at hs
    · next hsession =>
      have hloaded : ({s.roots with root := s.roots.stored} : TableRoots).InPlace :=
        hcare hsession.1 hsession.2
      rw [turn_row h hloaded] at hs
      obtain rfl := Option.some.inj hs
      exact .still rfl hloaded rfl
    · obtain rfl := Option.some.inj hs
      exact .still rfl h rfl
  | storeCatalog txnId =>
    simp only [step,Option.bind_eq_bind,Option.bind_eq_some_iff] at hs
    obtain ⟨txn,-,hs⟩ := hs
    split at hs
    · obtain rfl := Option.some.inj hs
      exact .still rfl h rfl
    · cases hs
  | undo txnId place =>
    obtain ⟨row,hrow,hs⟩ := Option.map_eq_some_iff.mp hs
    rw [turn_row h hcare] at hs
    subst hs
    exact ⟨hcare,trivial,hrow⟩
  | victim txnId place =>
    simp only [step,Option.bind_eq_bind,Option.bind_eq_some_iff] at hs
    obtain ⟨txn,hcaller,⟨u,row⟩,hmanage,hs⟩ := hs
    have huntouched : s.Untouched txnId := hcare
    rw [if_pos huntouched] at hs
    obtain rfl := Option.some.inj hs
    have hin : (s.roots.freed txnId).InPlace := h
    refine ⟨hin,trivial,?_⟩
    simp only [RowRun.step,hcaller,Option.bind_eq_bind,Option.bind_some]
    rw [if_pos huntouched.1,hmanage]
    rfl
  | forgive txnId place =>
    have hturned : s.turn s.row (s.roots.forgiven txnId) place=s' := Option.some.inj hs
    rw [turn_row h hcare] at hturned
    subst hturned
    exact .still rfl hcare rfl

/-! ## Runs -/

/-- A careful step. -/
def CarefulStep (s s' : TableRun P) : Prop := ∃ act, s.Careful act ∧ s.step act=some s'

/-- The same, and the row is not inserted again. -/
def CarefulStepNoInsert (s s' : TableRun P) : Prop :=
  ∃ act, s.Careful act ∧ s.step act=some s' ∧ ∀ T row, act≠.row (.insert T row)

/-- A run of careful steps is a run of the row. -/
theorem run_row (h : s.roots.InPlace) (hrun : Relation.ReflTransGen CarefulStep s s') :
    s'.roots.InPlace ∧ Relation.ReflTransGen RowRun.CurrentStep s.row s'.row := by
  induction hrun with
  | refl => exact ⟨h,.refl⟩
  | tail _ hstep ih =>
    obtain ⟨act,hcare,hs⟩ := hstep
    obtain ⟨hin,hrow⟩ := step_follows ih.1 hs hcare
    refine ⟨hin,?_⟩
    split at hrow
    · exact ih.2.tail ⟨_,hrow⟩
    · rw [hrow]
      exact ih.2

/-- A run in which the row is not inserted again. -/
theorem run_row_noInsert (h : s.roots.InPlace)
    (hrun : Relation.ReflTransGen CarefulStepNoInsert s s') :
    s'.roots.InPlace ∧ Relation.ReflTransGen RowRun.CurrentStepNoInsert s.row s'.row := by
  induction hrun with
  | refl => exact ⟨h,.refl⟩
  | tail _ hstep ih =>
    obtain ⟨act,hcare,hs,hinsert⟩ := hstep
    obtain ⟨hin,hrow⟩ := step_follows ih.1 hs hcare
    refine ⟨hin,?_⟩
    split at hrow
    · next rowAct hact =>
      refine ih.2.tail ⟨rowAct,hrow.1,hrow.2,?_⟩
      rintro T row rfl
      cases act with
      | row found =>
        obtain rfl := Option.some.inj hact
        exact hinsert T row rfl
      | _ => cases hact
    · rw [hrow]
      exact ih.2

/-! ## One visible version -/

/-- No snapshot in use sees two versions of the row; and once a delete has committed, no
snapshot taken later ever sees one, unless the row is inserted again. -/
def OneVisibleVersion (s : TableRun P) : Prop :=
  (∀ r S bytes, s.row.manager.Holds r S → s.row.stored=some bytes →
    ((decodeVersionedRow bytes).versions.filter fun v => v.visible r S).length ≤ 1) ∧
  (s.row.DeleteCommitted → ∀ s₁ s₂ r S bytes,
    Relation.ReflTransGen CarefulStepNoInsert s s₁ → s₁.row.manager.Current r S →
    Relation.ReflTransGen CarefulStepNoInsert s₁ s₂ → s₂.row.stored=some bytes →
    ∀ v∈(decodeVersionedRow bytes).versions, ¬v.visible r S)

/-- A sequence of careful steps. -/
def carefulSteps : List TableAct → TableRun P → Option (TableRun P)
  | [], s => some s
  | act::rest, s => if s.Careful act then (s.step act).bind (carefulSteps rest) else none

theorem carefulSteps_run {acts : List TableAct} (h : carefulSteps acts s=some s') :
    Relation.ReflTransGen CarefulStep s s' := by
  induction acts generalizing s with
  | nil =>
    obtain rfl := Option.some.inj h
    exact .refl
  | cons act rest ih =>
    rw [carefulSteps] at h
    split at h
    · next hcare =>
      obtain ⟨q,hq,hrest⟩ := Option.bind_eq_some_iff.mp h
      exact .head ⟨act,hcare,hq⟩ (ih hrest)
    · cases h

/-- `begin_with_isolation`, for the transaction that gets the id. -/
def beginActs (txnId : TransactionId) (isolationLevel : IsolationLevel) : List TableAct :=
  [.row (.begin' isolationLevel),.openSession txnId]

/-- `commit`. -/
def commitActs (txnId : TransactionId) : List TableAct :=
  [.row (.reserve txnId),.storeCatalog txnId,.row (.publish txnId),.row (.finish txnId)]

/-- Transaction 1 inserts the row, and 2 splits the root and deletes the row; both commit.
Transaction 3, which began before the split was committed, rolls back. -/
def deletedActs : List TableAct :=
  beginActs 1 .repeatableRead++[.row (.insert 1 [.integer 1])]++commitActs 1++
    beginActs 2 .repeatableRead++[.grow 2 9]++beginActs 3 .repeatableRead++
      [.row (.delete 2)]++commitActs 2++[.undo 3 (none,none),.row (.abort 3)]

/-- The snapshot a transaction gets at its beginning is a current one. -/
theorem begin'_current {S : TxnSnapshot} {isolationLevel : IsolationLevel}
    (hreg : s.row.manager.Registered) (hid : max s.row.manager.nextTxnId 1=txnId)
    (hs : s.step (.row (.begin' isolationLevel))=some s')
    (hS : s'.row.manager.Holds txnId S) : s'.row.manager.Current txnId S := by
  have hrow := (row_step hs).1
  simp only [RowRun.step,Option.map_eq_some_iff] at hrow
  obtain ⟨⟨T,q⟩,hm,hq⟩ := hrow
  obtain ⟨m,hx,rfl⟩ := RowRun.manage_some hm
  have hmanager : s'.row.manager=(TxnManager.begin' isolationLevel s.row.manager).2 := by
    rw [← hq,hx]
  rw [hmanager] at hS ⊢
  rcases (TxnManager.Advances.begin' hreg isolationLevel).holds hS with hold | hcurrent
  · obtain ⟨txn,hget,-⟩ := hold
    exact absurd (hreg.known hget) (by omega)
  · exact hcurrent

/-- Two transactions with one snapshot update the row one after the other. -/
def lostUpdate : List TableAct :=
  beginActs 1 .repeatableRead++[.row (.insert 1 [.integer 1])]++commitActs 1++
    beginActs 2 .repeatableRead++beginActs 3 .repeatableRead++
    [.row (.update 2 [.integer 2])]++commitActs 2++
    [.row (.update 3 [.integer 3])]++commitActs 3++beginActs 4 .repeatableRead

/-- A sequence of steps. -/
def steps : List TableAct → TableRun P → Option (TableRun P)
  | [], s => some s
  | act::rest, s => (s.step act).bind (steps rest)

end TableRun

end RustSql.V2
