import Mathlib.Data.Finset.Card
import Mathlib.Data.Finset.SDiff
import Mathlib.Logic.Relation

/-!
# Cycles and depth-first search

Relations without cycles, and a depth-first search for a path along the successors
of a node. A search that comes back with nothing has closed what it visited under
successors, so there is no path to what it was looking for.
-/

namespace RustSql

variable {α : Type}

/-! ## Relations without cycles -/

/-- Nothing is related to itself along the relation. -/
def Acyclic (r : α → α → Prop) : Prop := ∀ a, ¬Relation.TransGen r a a

theorem Acyclic.mono {r r' : α → α → Prop} (h : Acyclic r) (hsub : ∀ a b, r' a b → r a b) :
    Acyclic r' :=
  fun a hcycle => h a (Relation.TransGen.mono hsub a a hcycle)

/-- A path either keeps to a part of the relation or takes a step outside it. -/
theorem transGen_split {r : α → α → Prop} (r' : α → α → Prop) {a b : α}
    (h : Relation.TransGen r a b) :
    Relation.TransGen r' a b ∨
      ∃ c d, Relation.ReflTransGen r a c ∧ r c d ∧ ¬r' c d ∧ Relation.ReflTransGen r d b := by
  induction h with
  | @single b hstep =>
    by_cases hkept : r' a b
    · exact Or.inl (.single hkept)
    · exact Or.inr ⟨a,b,.refl,hstep,hkept,.refl⟩
  | @tail b c hpath hstep ih =>
    rcases ih with hkept | ⟨d,e,hbefore,hout,hnot,hafter⟩
    · by_cases hkept' : r' b c
      · exact Or.inl (hkept.tail hkept')
      · exact Or.inr ⟨b,c,hpath.to_reflTransGen,hstep,hkept',.refl⟩
    · exact Or.inr ⟨d,e,hbefore,hout,hnot,hafter.tail hstep⟩

/-- New edges close no cycle when none of them can be followed back to its start. -/
theorem Acyclic.extend {r r' : α → α → Prop} (h : Acyclic r')
    (hnew : ∀ a b, r a b → ¬r' a b → ¬Relation.ReflTransGen r b a) : Acyclic r := by
  intro a hcycle
  rcases transGen_split r' hcycle with hkept | ⟨c,d,hbefore,hout,hnot,hafter⟩
  · exact h a hkept
  · exact hnew c d hout hnot (hafter.trans hbefore)

/-! ## Depth-first search -/

/-- What a search that found nothing leaves: more nodes are visited, and with every
new one its successors. -/
structure Explored (next : α → List α) (target : α) (visited visited' : Finset α) : Prop where
  grows : visited⊆visited'
  closed : ∀ a∈visited', a∉visited → a≠target ∧ ∀ b∈next a, b∈visited'

theorem Explored.refl (next : α → List α) (target : α) (visited : Finset α) :
    Explored next target visited visited :=
  ⟨fun _ h => h,fun _ h hnot => absurd h hnot⟩

theorem Explored.trans {next : α → List α} {target : α} {v v' v'' : Finset α}
    (h : Explored next target v v') (h' : Explored next target v' v'') :
    Explored next target v v'' where
  grows := h.grows.trans h'.grows
  closed a ha hnot := by
    by_cases hmem : a∈v'
    · obtain ⟨hne,hnext⟩ := h.closed a hmem hnot
      exact ⟨hne,fun b hb => h'.grows (hnext b hb)⟩
    · exact h'.closed a ha hmem

section Search

variable [DecidableEq α]

/-- A path from `current` to `target`, together with the nodes visited on the way.
Every nested search has visited one more node, so a bound on the depth is enough. -/
def pathFrom (next : α → List α) : ℕ → α → α → Finset α → Option (List α) × Finset α
  | 0, _, _, visited => (none,visited)
  | fuel+1, current, target, visited =>
    if current=target then (some [current],visited)
    else if current∈visited then (none,visited)
    else
      (next current).foldl (fun found successor =>
        match found with
        | (some path,visited) => (some path,visited)
        | (none,visited) =>
          match pathFrom next fuel successor target visited with
          | (some path,visited) => (some (current::path),visited)
          | (none,visited) => (none,visited)) (none,insert current visited)

/-- One round of the search in a node: a path found before is kept. -/
def pathStep (next : α → List α) (fuel : ℕ) (current target : α)
    (found : Option (List α) × Finset α) (successor : α) : Option (List α) × Finset α :=
  match found with
  | (some path,visited) => (some path,visited)
  | (none,visited) =>
    match pathFrom next fuel successor target visited with
    | (some path,visited) => (some (current::path),visited)
    | (none,visited) => (none,visited)

theorem pathFrom_succ (next : α → List α) (fuel : ℕ) (current target : α)
    (visited : Finset α) : pathFrom next (fuel+1) current target visited=
      if current=target then (some [current],visited)
      else if current∈visited then (none,visited)
      else (next current).foldl (pathStep next fuel current target)
        (none,insert current visited) := rfl

theorem pathStep_found (next : α → List α) (fuel : ℕ) (current target : α) (path : List α)
    (visited : Finset α) (successors : List α) :
    successors.foldl (pathStep next fuel current target) (some path,visited)=
      (some path,visited) := by
  induction successors with
  | nil => rfl
  | cons successor successors ih => exact ih

variable {next : α → List α} {fuel : ℕ} {current target : α} {visited visited' sources : Finset α}

/-- The successors of a node, one after the other. -/
theorem pathStep_none {successors : List α} (hsearch : ∀ successor∈successors, ∀ v v', visited⊆v →
      pathFrom next fuel successor target v=(none,v') →
        Explored next target v v' ∧ successor∈v')
    (h : successors.foldl (pathStep next fuel current target) (none,visited)=(none,visited')) :
    Explored next target visited visited' ∧ ∀ successor∈successors, successor∈visited' := by
  induction successors generalizing visited with
  | nil =>
    obtain rfl := (Prod.mk.inj h).2
    exact ⟨Explored.refl next target visited,fun _ h => nomatch h⟩
  | cons successor successors ih =>
    rw [List.foldl_cons] at h
    rcases hfound : pathFrom next fuel successor target visited with ⟨found,v⟩
    cases found with
    | some path =>
      have hkept : pathStep next fuel current target (none,visited) successor=
          (some (current::path),v) := by rw [pathStep,hfound]
      rw [hkept,pathStep_found] at h
      cases h
    | none =>
      have hgoes : pathStep next fuel current target (none,visited) successor=(none,v) := by
        rw [pathStep,hfound]
      rw [hgoes] at h
      obtain ⟨hfirst,hmem⟩ := hsearch successor List.mem_cons_self visited v (fun _ h => h) hfound
      obtain ⟨hrest,hmems⟩ := ih (fun other hother w w' hw =>
        hsearch other (List.mem_cons_of_mem successor hother) w w' (hfirst.grows.trans hw)) h
      refine ⟨hfirst.trans hrest,fun other hother => ?_⟩
      rcases List.mem_cons.mp hother with rfl | hother
      · exact hrest.grows hmem
      · exact hmems other hother

/-- A search that is deep enough for the nodes with successors not visited yet, and
finds nothing, has explored everything from its start. -/
theorem pathFrom_none
    (hsources : ∀ a, next a≠[] → a∈sources) (hfuel : (sources \ visited).card < fuel)
    (h : pathFrom next fuel current target visited=(none,visited')) :
    Explored next target visited visited' ∧ current∈visited' := by
  induction fuel generalizing current visited visited' with
  | zero => omega
  | succ fuel ih =>
    rw [pathFrom_succ] at h
    split at h
    · cases h
    · next hne =>
      split at h
      · next hmem =>
        obtain rfl := (Prod.mk.inj h).2
        exact ⟨Explored.refl next target visited,hmem⟩
      · next hnew =>
        obtain ⟨hexplored,hnext⟩ := pathStep_none (fun successor hsuccessor v v' hv hsearch => by
          refine ih ?_ hsearch
          have hsource : current∈sources \ visited :=
            Finset.mem_sdiff.mpr ⟨hsources current (List.ne_nil_of_mem hsuccessor),hnew⟩
          have hless : sources \ v⊆(sources \ visited).erase current := by
            intro a ha
            obtain ⟨hsource,hout⟩ := Finset.mem_sdiff.mp ha
            refine Finset.mem_erase.mpr ⟨?_,Finset.mem_sdiff.mpr ⟨hsource,?_⟩⟩
            · rintro rfl
              exact hout (hv (Finset.mem_insert_self _ _))
            · exact fun hin => hout (hv (Finset.mem_insert_of_mem hin))
          have hcard := Finset.card_le_card hless
          rw [Finset.card_erase_of_mem hsource] at hcard
          have hpos := Finset.card_pos.mpr ⟨current,hsource⟩
          omega) h
        have hcurrent := hexplored.grows (Finset.mem_insert_self current visited)
        refine ⟨⟨(Finset.subset_insert current visited).trans hexplored.grows,?_⟩,hcurrent⟩
        intro a ha hout
        by_cases heq : a=current
        · subst heq
          exact ⟨hne,hnext⟩
        · exact hexplored.closed a ha fun hmem =>
            (Finset.mem_insert.mp hmem).elim heq hout

/-- Completeness: a search from scratch that finds nothing shows that there is no
path. -/
theorem no_path_of_pathFrom_none
    (hsources : ∀ a, next a≠[] → a∈sources) (hfuel : sources.card < fuel) (h : (pathFrom next fuel current target ∅).1=none) :
    ¬Relation.ReflTransGen (fun a b => b∈next a) current target := by
  rcases hsearch : pathFrom next fuel current target ∅ with ⟨found,visited⟩
  rw [hsearch] at h
  obtain rfl : found=none := h
  obtain ⟨hexplored,hstart⟩ := pathFrom_none hsources (by simpa using hfuel) hsearch
  intro hpath
  have hreached : ∀ a, Relation.ReflTransGen (fun a b => b∈next a) current a → a∈visited := by
    intro a ha
    induction ha with
    | refl => exact hstart
    | tail _ hstep ih => exact (hexplored.closed _ ih (Finset.notMem_empty _)).2 _ hstep
  exact (hexplored.closed target (hreached target hpath) (Finset.notMem_empty _)).1 rfl

/-- Every node of a path that was found has a successor, except for the target. -/
theorem pathFrom_some {path : List α}
    (h : pathFrom next fuel current target visited=(some path,visited')) :
    ∀ a∈path, a=target ∨ next a≠[] := by
  induction fuel generalizing current visited visited' path with
  | zero => cases h
  | succ fuel ih =>
    rw [pathFrom_succ] at h
    split at h
    · next heq =>
      obtain rfl := Option.some.inj (Prod.mk.inj h).1
      intro a ha
      exact Or.inl ((List.mem_singleton.mp ha).trans heq)
    · split at h
      · cases h
      · have hfold : ∀ (successors : List α) (v : Finset α),
            successors⊆next current →
            successors.foldl (pathStep next fuel current target) (none,v)=(some path,visited') →
            ∀ a∈path, a=target ∨ next a≠[] := by
          intro successors
          induction successors with
          | nil => exact fun v _ h => nomatch h
          | cons successor successors ihs =>
            intro v hsub h
            rw [List.foldl_cons] at h
            rcases hfound : pathFrom next fuel successor target v with ⟨found,w⟩
            cases found with
            | none =>
              have hgoes : pathStep next fuel current target (none,v) successor=(none,w) := by
                rw [pathStep,hfound]
              rw [hgoes] at h
              exact ihs w (fun a ha => hsub (List.mem_cons_of_mem successor ha)) h
            | some rest =>
              have hkept : pathStep next fuel current target (none,v) successor=
                  (some (current::rest),w) := by rw [pathStep,hfound]
              rw [hkept,pathStep_found] at h
              obtain rfl := Option.some.inj (Prod.mk.inj h).1
              intro a ha
              rcases List.mem_cons.mp ha with rfl | ha
              · exact Or.inr (List.ne_nil_of_mem (hsub List.mem_cons_self))
              · exact ih hfound a ha
        exact hfold (next current) _ (fun _ h => h) h

end Search

end RustSql
