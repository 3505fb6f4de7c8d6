import Mathlib.Data.List.Basic

/-!
# Files that survive a crash

A store keeps pages in one file and a log in another. Writes reach the file
system at once but the disk only at the next sync; a crash keeps what was
synced, any part of the page writes since, and any prefix of the log since.
The central fact is `putPages_absorb`: writing a full set of pages over a file
in which only some of them were written gives the same file as writing them
over the original, so a log that is replayed whole hides a partial write.
-/

namespace RustSql

variable {P U : Type}

/-- Write one page; a gap in front of it becomes holes. -/
def putPage (hole : P) (db : List P) (i : ℕ) (page : P) : List P :=
  (db++List.replicate (i+1-db.length) hole).set i page

/-- What a file holds after a page was written. -/
theorem putPage_getElem? (hole : P) (db : List P) (i j : ℕ) (page : P) :
    (putPage hole db i page)[j]?=
      if j=i then some page else if j < db.length then db[j]?
      else if j < i+1 then some hole else none := by
  unfold putPage
  by_cases hj : j=i
  · subst hj
    rw [if_pos rfl,List.getElem?_set_self]
    simp only [List.length_append,List.length_replicate]
    omega
  · rw [if_neg hj,List.getElem?_set_ne (Ne.symm hj)]
    by_cases hl : j < db.length
    · rw [if_pos hl,List.getElem?_append_left hl]
    · rw [if_neg hl,List.getElem?_append_right (by omega),List.getElem?_replicate]
      by_cases hi : j < i+1
      · rw [if_pos hi,if_pos (by omega)]
      · rw [if_neg hi,if_neg (by omega)]

theorem putPage_length (hole : P) (db : List P) (i : ℕ) (page : P) :
    (putPage hole db i page).length=max db.length (i+1) := by
  unfold putPage
  rw [List.length_set,List.length_append,List.length_replicate]
  omega

/-- The second of two writes to one page decides. -/
theorem putPage_same (hole : P) (db : List P) (i : ℕ) (page page' : P) :
    putPage hole (putPage hole db i page) i page'=putPage hole db i page' := by
  apply List.ext_getElem?
  intro j
  simp only [putPage_getElem?,putPage_length]
  split_ifs <;> first | rfl | omega

/-- Writes to different pages commute. -/
theorem putPage_comm (hole : P) (db : List P) {i k : ℕ} (page page' : P) (h : i≠k) :
    putPage hole (putPage hole db i page) k page'=
      putPage hole (putPage hole db k page') i page := by
  apply List.ext_getElem?
  intro j
  simp only [putPage_getElem?,putPage_length]
  split_ifs <;> first | rfl | omega

/-- Write a list of pages in order. -/
def putPages (hole : P) (db : List P) : List (ℕ×P) → List P
  | [] => db
  | (i,page) :: rest => putPages hole (putPage hole db i page) rest

theorem putPages_append (hole : P) (db : List P) (ws vs : List (ℕ×P)) :
    putPages hole db (ws++vs)=putPages hole (putPages hole db ws) vs := by
  induction ws generalizing db with
  | nil => rfl
  | cons w ws ih => exact ih _

/-- A page no write names keeps its content. -/
theorem putPages_getElem?_of_not_mem (hole : P) {db : List P} {ws : List (ℕ×P)} {j : ℕ}
    (hj : j < db.length) (h : ∀ w∈ws, w.1≠j) : (putPages hole db ws)[j]?=db[j]? := by
  induction ws generalizing db with
  | nil => rfl
  | cons w ws ih =>
    have hlen : j < (putPage hole db w.1 w.2).length := by rw [putPage_length]; omega
    have hne : j≠w.1 := fun he => h w (by simp) he.symm
    calc (putPages hole db (w::ws))[j]?=(putPage hole db w.1 w.2)[j]? :=
          ih hlen fun v hv => h v (by simp [hv])
      _=db[j]? := by rw [putPage_getElem?,if_neg hne,if_pos hj]

/-- A write that is overwritten later leaves no trace. -/
theorem putPages_absorb_one (hole : P) (db : List P) {ws : List (ℕ×P)} {i : ℕ} (page : P)
    (h : ∃ w∈ws, w.1=i) :
    putPages hole (putPage hole db i page) ws=putPages hole db ws := by
  induction ws generalizing db with
  | nil => simp only [List.not_mem_nil,false_and,exists_false] at h
  | cons w ws ih =>
    obtain ⟨k,page'⟩ := w
    simp only [putPages]
    by_cases hk : i=k
    · subst hk
      rw [putPage_same]
    · obtain ⟨v,hv,hvi⟩ := h
      have hv' : v∈ws := by
        rcases List.mem_cons.mp hv with rfl | hv
        · exact absurd hvi.symm hk
        · exact hv
      rw [putPage_comm hole db page page' hk,ih _ ⟨v,hv',hvi⟩]

/-- Writing all of `ws` hides any earlier writes to the same pages. -/
theorem putPages_absorb (hole : P) (db : List P) {partWritten ws : List (ℕ×P)}
    (h : ∀ v∈partWritten, ∃ w∈ws, w.1=v.1) :
    putPages hole (putPages hole db partWritten) ws=putPages hole db ws := by
  induction partWritten generalizing db with
  | nil => rfl
  | cons v rest ih =>
    simp only [putPages]
    rw [ih _ fun u hu => h u (by simp [hu]),putPages_absorb_one hole db v.2 (h v (by simp))]

/-- Of writes to different pages each one is read back. -/
theorem putPages_getElem?_mem (hole : P) {db : List P} {ws : List (ℕ×P)} {i : ℕ} {page : P}
    (hd : ws.Pairwise fun v w => v.1≠w.1) (h : (i,page)∈ws) :
    (putPages hole db ws)[i]?=some page := by
  induction ws generalizing db with
  | nil => exact absurd h List.not_mem_nil
  | cons w ws ih =>
    obtain ⟨hw,hd⟩ := List.pairwise_cons.mp hd
    rcases List.mem_cons.mp h with rfl | h
    · have hlen : i < (putPage hole db i page).length := by rw [putPage_length]; omega
      calc (putPages hole db ((i,page)::ws))[i]?=(putPage hole db i page)[i]? :=
            putPages_getElem?_of_not_mem hole hlen fun v hv => (hw v hv).symm
        _=some page := by rw [putPage_getElem?,if_pos rfl]
    · exact ih hd h

/-! ## Writes, syncs and crashes -/

/-- The two files as a program reads them. -/
structure Files (P U : Type) where
  /-- The page file. -/
  db : List P
  /-- The log file. -/
  wal : List U
  deriving DecidableEq

/-- One call to the file system. -/
inductive IoStep (P U : Type) where
  /-- Open the log with `truncate`, or `File::create` it. -/
  | truncateWal
  /-- `write_all` on the log. -/
  | appendWal (units : List U)
  /-- `sync_all` on the log. -/
  | syncWal
  /-- Write one page of the page file. -/
  | writePage (i : ℕ) (page : P)
  /-- `sync_all` on the page file. -/
  | syncDb
  deriving DecidableEq

/-- The effect of a call on what programs read. -/
def Files.exec (hole : P) (f : Files P U) : IoStep P U → Files P U
  | .truncateWal => {f with wal := []}
  | .appendWal units => {f with wal := f.wal++units}
  | .syncWal => f
  | .writePage i page => {f with db := putPage hole f.db i page}
  | .syncDb => f

/-- The disk: what is synced, and what was written since. -/
structure Disk (P U : Type) where
  /-- Synced pages. -/
  db : List P
  /-- Page writes since the last sync of the page file. -/
  written : List (ℕ×P)
  /-- Synced log. -/
  wal : List U
  /-- The log as written since its last sync, if it was. -/
  walWritten : Option (List U)

/-- Files nobody has unsynced writes to. -/
def Files.onDisk (f : Files P U) : Disk P U := ⟨f.db,[],f.wal,none⟩

/-- The effect of a call on the disk. -/
def Disk.exec (hole : P) (d : Disk P U) : IoStep P U → Disk P U
  | .truncateWal => {d with walWritten := some []}
  | .appendWal units => {d with walWritten := some (d.walWritten.getD d.wal++units)}
  | .syncWal => {d with wal := d.walWritten.getD d.wal, walWritten := none}
  | .writePage i page => {d with written := d.written++[(i,page)]}
  | .syncDb => {d with db := putPages hole d.db d.written, written := []}

/-- A run of calls. -/
def Disk.execAll (hole : P) (d : Disk P U) : List (IoStep P U) → Disk P U
  | [] => d
  | step :: rest => (d.exec hole step).execAll hole rest

theorem Disk.execAll_append (hole : P) (d : Disk P U) (xs ys : List (IoStep P U)) :
    d.execAll hole (xs++ys)=(d.execAll hole xs).execAll hole ys := by
  induction xs generalizing d with
  | nil => rfl
  | cons x xs ih => exact ih _

/-- The files a crash may leave: any of the unsynced page writes, in any order,
and the synced log or any prefix of the unsynced one. -/
def Disk.Crash (hole : P) (d : Disk P U) (f : Files P U) : Prop :=
  (∃ ws, (∀ w∈ws, w∈d.written) ∧ f.db=putPages hole d.db ws) ∧
    (f.wal=d.wal ∨ ∃ units, d.walWritten=some units ∧ f.wal<+:units)

/-- A run of page writes only adds to the unsynced pages. -/
theorem Disk.execAll_writes (hole : P) (d : Disk P U) (ws : List (ℕ×P)) :
    d.execAll hole (ws.map fun w => .writePage w.1 w.2)={d with written := d.written++ws} := by
  induction ws generalizing d with
  | nil => simp only [List.map_nil,Disk.execAll,List.append_nil]
  | cons w ws ih =>
    simp only [List.map_cons,Disk.execAll]
    rw [ih]
    simp only [Disk.exec,List.append_assoc,List.singleton_append]

end RustSql
