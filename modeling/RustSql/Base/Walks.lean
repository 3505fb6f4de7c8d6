import Mathlib.Data.Finset.Card
import Mathlib.Logic.Relation
import Mathlib.Tactic
import RustSql.Base.Panics

/-!
# Walks through a graph

A walk goes down from a node to its children in order and keeps no record of where it has
been. It ends at the first node it cannot read, so it comes back exactly when no node below
its start is its own descendant along the children it really gets to.
-/

namespace RustSql

/-- What a node is to a walk: an end, which leaves a state, or a way on. -/
inductive Looked (ν σ : Type) where
  | done (state : σ)
  | descend (children : List ν)

section Walks

variable {ν σ : Type} (look : ν → σ → Except DbError (Looked ν σ))

/-- A walk from a node, with a bound on its depth. -/
def walk : ℕ → ν → σ → Outcome σ
  | 0, _, _ => .stuck
  | fuel+1, node, state =>
    match look node state with
    | .error error => .err error
    | .ok (.done state) => .ok state
    | .ok (.descend children) =>
      children.foldlM (fun state child => walk fuel child state) state

/-- The nodes met by the walks from several nodes, one after another. -/
def visitsAll (visits : ν → σ → ℕ) (run : ν → σ → Outcome σ) : List ν → σ → ℕ
  | [], _ => 0
  | child :: children, state =>
    visits child state+
      match run child state with
      | .ok state => visitsAll visits run children state
      | _ => 0

/-- The nodes a walk looks at, counted each time. -/
def walkVisits : ℕ → ν → σ → ℕ
  | 0, _, _ => 0
  | fuel+1, node, state =>
    match look node state with
    | .ok (.descend children) =>
      visitsAll (walkVisits fuel) (fun child state => walk look fuel child state) children state+1
    | _ => 1

/-- The children of a node, if it could be read. -/
def shape : Except DbError (Looked ν σ) → Option (List ν)
  | .error _ => none
  | .ok (.done _) => some []
  | .ok (.descend children) => some children

/-- A walk that comes back. -/
def Finishes (call : ℕ → Outcome σ) : Prop := ∃ fuel, call fuel≠.stuck

/-- The children of a node say whether it can be read, whatever the walk has collected. -/
structure Uniform (content : ν → Option (List ν)) : Prop where
  unreadable : ∀ {node}, content node=none → ∀ state, ∃ error, look node state=.error error
  readable : ∀ {node children}, content node=some children → ∀ state,
    (children=[] ∧ ∃ state', look node state=.ok (.done state')) ∨
      look node state=.ok (.descend children)

variable (content : ν → Option (List ν))

/-- Everything below a node can be read, and no way down comes back. -/
inductive Clean : ν → Prop where
  | node {node : ν} {children : List ν} (read : content node=some children)
    (below : ∀ child∈children, Clean child) : Clean node

/-- A child whose turn comes: everything below its elder siblings can be read. -/
def Followed (child node : ν) : Prop :=
  ∃ before after, content node=some (before++child :: after) ∧ ∀ elder∈before, Clean content elder

/-- Reading is uniform when what has been collected does not change a node's children. -/
theorem uniform_of_shape (start : σ)
    (h : ∀ node state, shape (look node state)=shape (look node start)) :
    Uniform look fun node => shape (look node start) := by
  refine ⟨fun {node} hnone state => ?_,fun {node children} hsome state => ?_⟩
  · rw [← h node state] at hnone
    cases hlooked : look node state with
    | error error => exact ⟨error,rfl⟩
    | ok looked =>
      rw [hlooked] at hnone
      cases looked <;> cases hnone
  · rw [← h node state] at hsome
    cases hlooked : look node state with
    | error error =>
      rw [hlooked] at hsome
      cases hsome
    | ok looked =>
      rw [hlooked] at hsome
      cases looked with
      | done state' =>
        cases hsome
        exact Or.inl ⟨rfl,state',rfl⟩
      | descend children' =>
        cases hsome
        exact Or.inr rfl

variable {look content} (hlook : Uniform look content)

theorem foldlM_cons_ok {run : σ → ν → Outcome σ} {child : ν} {children : List ν}
    {state state' : σ} (h : run state child=.ok state') :
    (child :: children).foldlM run state=children.foldlM run state' := by
  rw [List.foldlM_cons,h]
  rfl

theorem foldlM_cons_err {run : σ → ν → Outcome σ} {child : ν} {children : List ν}
    {state : σ} {error : DbError} (h : run state child=.err error) :
    (child :: children).foldlM run state=.err error := by
  rw [List.foldlM_cons,h]
  rfl

theorem foldlM_cons_stuck {run : σ → ν → Outcome σ} {child : ν} {children : List ν}
    {state : σ} (h : run state child=.stuck) :
    (child :: children).foldlM run state=.stuck := by
  rw [List.foldlM_cons,h]
  rfl

/-- Walks from several nodes all succeed when together they do. -/
theorem foldlM_ok_mem {run : σ → ν → Outcome σ} {children : List ν} {state state' : σ}
    (h : children.foldlM run state=.ok state') {child : ν} (hchild : child∈children) :
    ∃ before after, run before child=.ok after := by
  induction children generalizing state with
  | nil => cases hchild
  | cons first rest ih =>
    cases hrun : run state first with
    | err error =>
      rw [foldlM_cons_err hrun] at h
      cases h
    | stuck =>
      rw [foldlM_cons_stuck hrun] at h
      cases h
    | ok state₁ =>
      rw [foldlM_cons_ok hrun] at h
      rcases List.mem_cons.mp hchild with rfl | hrest
      · exact ⟨state,state₁,hrun⟩
      · exact ih h hrest

/-- Walks that do not get stuck do the same as longer ones. -/
theorem foldlM_congr {run other : σ → ν → Outcome σ} {children : List ν} {state : σ}
    (hsame : ∀ state child, run state child≠.stuck → other state child=run state child)
    (h : children.foldlM run state≠.stuck) :
    children.foldlM other state=children.foldlM run state := by
  induction children generalizing state with
  | nil => rfl
  | cons first rest ih =>
    cases hrun : run state first with
    | stuck => exact absurd (foldlM_cons_stuck hrun) h
    | err error =>
      have hother : other state first=.err error := by
        rw [hsame state first (by rw [hrun]; exact nofun),hrun]
      rw [foldlM_cons_err hrun,foldlM_cons_err hother]
    | ok state₁ =>
      have hother : other state first=.ok state₁ := by
        rw [hsame state first (by rw [hrun]; exact nofun),hrun]
      rw [foldlM_cons_ok hrun] at h ⊢
      rw [foldlM_cons_ok hother]
      exact ih h

/-- A deeper bound changes nothing once the walk comes back. -/
theorem walk_succ {fuel : ℕ} {node : ν} {state : σ} (h : walk look fuel node state≠.stuck) :
    walk look (fuel+1) node state=walk look fuel node state := by
  induction fuel generalizing node state with
  | zero => exact absurd rfl h
  | succ fuel ih =>
    rw [walk] at h
    rw [walk]
    conv_rhs => rw [walk]
    cases hlooked : look node state with
    | error error => rfl
    | ok looked =>
      cases looked with
      | done state' => rfl
      | descend children =>
        rw [hlooked] at h
        exact foldlM_congr (fun state child hrun => ih hrun) h

theorem walk_of_le {fuel more : ℕ} {node : ν} {state : σ}
    (h : walk look fuel node state≠.stuck) (hle : fuel ≤ more) :
    walk look more node state=walk look fuel node state := by
  induction more, hle using Nat.le_induction with
  | base => rfl
  | succ more hle ih =>
    rw [walk_succ (by rw [ih]; exact h),ih]

include hlook

/-- A walk that succeeds has read everything below its start. -/
theorem clean_of_walk {fuel : ℕ} {node : ν} {state state' : σ}
    (h : walk look fuel node state=.ok state') : Clean content node := by
  induction fuel generalizing node state state' with
  | zero => cases h
  | succ fuel ih =>
    rw [walk] at h
    cases hcontent : content node with
    | none =>
      obtain ⟨error,herror⟩ := hlook.unreadable hcontent state
      rw [herror] at h
      cases h
    | some children =>
      rcases hlook.readable hcontent state with ⟨rfl,-⟩ | hdescend
      · exact .node hcontent (by simp)
      · rw [hdescend] at h
        refine .node hcontent fun child hchild => ?_
        obtain ⟨before,after,hrun⟩ := foldlM_ok_mem h hchild
        exact ih hrun

/-- A walk from a node below which everything can be read meets no error. -/
theorem walk_ne_err_of_clean {fuel : ℕ} {node : ν} (h : Clean content node) (state : σ)
    (error : DbError) : walk look fuel node state≠.err error := by
  induction fuel generalizing node state error with
  | zero => exact nofun
  | succ fuel ih =>
    obtain ⟨hread,hbelow⟩ := h
    rw [walk]
    rcases hlook.readable hread state with ⟨-,state',hdone⟩ | hdescend
    · rw [hdone]
      exact nofun
    · rw [hdescend]
      dsimp only
      clear hread hdescend
      rename_i children
      induction children generalizing state error with
      | nil => exact nofun
      | cons child rest ihrest =>
        cases hrun : walk look fuel child state with
        | stuck =>
          rw [foldlM_cons_stuck hrun]
          exact nofun
        | err other => exact absurd hrun (ih (hbelow child List.mem_cons_self) state other)
        | ok state' =>
          rw [foldlM_cons_ok hrun]
          exact ihrest state' error fun x hx => hbelow x (List.mem_cons_of_mem child hx)

/-- A walk comes back when the walks from all children whose turn comes do. -/
theorem walk_ne_stuck {fuel : ℕ} {node : ν}
    (h : ∀ child, Followed content child node → ∀ state, walk look fuel child state≠.stuck)
    (state : σ) : walk look (fuel+1) node state≠.stuck := by
  rw [walk]
  cases hcontent : content node with
  | none =>
    obtain ⟨error,herror⟩ := hlook.unreadable hcontent state
    rw [herror]
    exact nofun
  | some children =>
    rcases hlook.readable hcontent state with ⟨-,state',hdone⟩ | hdescend
    · rw [hdone]
      exact nofun
    · rw [hdescend]
      dsimp only
      -- the walks from the elder siblings have come back with a state
      have hrest : ∀ after before, children=before++after → (∀ elder∈before, Clean content elder) →
          ∀ state, after.foldlM (fun state child => walk look fuel child state) state≠.stuck := by
        intro after
        induction after with
        | nil => exact fun _ _ _ _ => nofun
        | cons child after ih =>
          intro before hsplit hclean state
          cases hrun : walk look fuel child state with
          | stuck =>
            have hfollowed : Followed content child node :=
              ⟨before,after,by rw [hcontent,hsplit],hclean⟩
            exact absurd hrun (h child hfollowed state)
          | err error =>
            rw [foldlM_cons_err hrun]
            exact nofun
          | ok state' =>
            rw [foldlM_cons_ok hrun]
            refine ih (before++[child]) (by rw [hsplit,List.append_assoc]; rfl)
              (fun elder helder => ?_) state'
            rcases List.mem_append.mp helder with hmem | hmem
            · exact hclean elder hmem
            · obtain rfl := List.mem_singleton.mp hmem
              exact clean_of_walk hlook hrun
      exact hrest children [] rfl (by simp) state

/-- A walk that comes back has come back from every child whose turn came. -/
theorem walk_followed {fuel : ℕ} {node child : ν} {state : σ}
    (h : walk look (fuel+1) node state≠.stuck) (hchild : Followed content child node) :
    ∃ state', walk look fuel child state'≠.stuck := by
  obtain ⟨before,after,hcontent,hclean⟩ := hchild
  rw [walk] at h
  rcases hlook.readable hcontent state with ⟨hnil,-⟩ | hdescend
  · exact absurd hnil (by simp)
  rw [hdescend] at h
  dsimp only at h
  clear hcontent hdescend
  induction before generalizing state with
  | nil =>
    refine ⟨state,fun hrun => h ?_⟩
    exact foldlM_cons_stuck hrun
  | cons elder before ih =>
    have helder := hclean elder List.mem_cons_self
    cases hrun : walk look fuel elder state with
    | stuck => exact absurd (foldlM_cons_stuck hrun) h
    | err error => exact absurd hrun (walk_ne_err_of_clean hlook helder state error)
    | ok state' =>
      rw [List.cons_append,foldlM_cons_ok hrun] at h
      exact ih h fun x hx => hclean x (List.mem_cons_of_mem elder hx)

/-- A walk comes back exactly when there is no infinite way down along the children whose
turn comes. -/
theorem walk_finishes_iff {node : ν} (state : σ) :
    Finishes (fun fuel => walk look fuel node state) ↔ Acc (Followed content) node := by
  constructor
  · rintro ⟨fuel,hfuel⟩
    induction fuel generalizing node state with
    | zero => exact absurd rfl hfuel
    | succ fuel ih =>
      refine .intro node fun child hchild => ?_
      obtain ⟨state',hstate'⟩ := walk_followed hlook hfuel hchild
      exact ih state' hstate'
  · intro hacc
    suffices hdepth : ∃ fuel, ∀ state, walk look fuel node state≠.stuck by
      obtain ⟨fuel,hfuel⟩ := hdepth
      exact ⟨fuel,hfuel state⟩
    induction hacc with
    | intro node _ ih =>
      -- a node has finitely many children, so one bound serves them all
      have hall : ∃ fuel, ∀ child, Followed content child node → ∀ state,
          walk look fuel child state≠.stuck := by
        cases hcontent : content node with
        | none =>
          refine ⟨0,fun child hchild => ?_⟩
          obtain ⟨before,after,hread,-⟩ := hchild
          rw [hcontent] at hread
          cases hread
        | some children =>
          have hbounds : ∀ cs : List ν, ∃ fuel, ∀ child∈cs, Followed content child node →
              ∀ state, walk look fuel child state≠.stuck := by
            intro cs
            induction cs with
            | nil => exact ⟨0,by simp⟩
            | cons child cs ihcs =>
              obtain ⟨rest,hrest⟩ := ihcs
              by_cases hfollowed : Followed content child node
              · obtain ⟨own,hown⟩ := ih child hfollowed
                refine ⟨max own rest,fun x hx hx' state => ?_⟩
                rcases List.mem_cons.mp hx with rfl | hx
                · rw [walk_of_le (hown state) (Nat.le_max_left own rest)]
                  exact hown state
                · rw [walk_of_le (hrest x hx hx' state) (Nat.le_max_right own rest)]
                  exact hrest x hx hx' state
              · refine ⟨rest,fun x hx hx' state => ?_⟩
                rcases List.mem_cons.mp hx with rfl | hx
                · exact absurd hx' hfollowed
                · exact hrest x hx hx' state
          obtain ⟨fuel,hfuel⟩ := hbounds children
          refine ⟨fuel,fun child hchild => hfuel child ?_ hchild⟩
          obtain ⟨before,after,hread,-⟩ := hchild
          rw [hcontent] at hread
          rw [Option.some.inj hread]
          exact List.mem_append_right before List.mem_cons_self
      obtain ⟨fuel,hfuel⟩ := hall
      exact ⟨fuel+1,walk_ne_stuck hlook hfuel⟩

end Walks

/-! ## How far a walk goes -/

section Bounds

variable {ν σ : Type} {look : ν → σ → Except DbError (Looked ν σ)}
  {content : ν → Option (List ν)}

/-- A node with an end to all ways down is not below itself. -/
theorem not_below_self {r : ν → ν → Prop} {node : ν} (h : Acc r node) :
    ¬Relation.TransGen r node node := by
  have htrans : Acc (Relation.TransGen r) node := h.transGen
  induction htrans with
  | intro node _ ih => exact fun hself => ih node hself (h.inv_of_transGen hself) hself

/-- The nodes a walk from a node may come to, out of finitely many. -/
noncomputable def below (content : ν → Option (List ν)) (nodes : Finset ν) (node : ν) : Finset ν :=
  letI := Classical.decPred fun x => Relation.ReflTransGen (Followed content) x node
  nodes.filter fun x => Relation.ReflTransGen (Followed content) x node

theorem mem_below {nodes : Finset ν} {node x : ν} :
    x∈below content nodes node ↔ x∈nodes ∧ Relation.ReflTransGen (Followed content) x node := by
  let _ := Classical.decPred fun x => Relation.ReflTransGen (Followed content) x node
  exact Finset.mem_filter

/-- Fewer nodes are below a child. -/
theorem below_card_lt {nodes : Finset ν} {node child : ν} (hacc : Acc (Followed content) node)
    (hnode : node∈nodes) (hchild : Followed content child node) :
    (below content nodes child).card < (below content nodes node).card := by
  refine Finset.card_lt_card ((Finset.ssubset_iff_of_subset fun x hx => ?_).mpr
    ⟨node,mem_below.mpr ⟨hnode,.refl⟩,fun hself => ?_⟩)
  · have hbelow := mem_below.mp hx
    exact mem_below.mpr ⟨hbelow.1,hbelow.2.tail hchild⟩
  · have hcycle := Relation.TransGen.tail' (mem_below.mp hself).2 hchild
    exact not_below_self hacc hcycle

/-- A walk that comes back goes no deeper than there are nodes with children, and one
more. -/
theorem walk_depth (hlook : Uniform look content) {nodes : Finset ν}
    (hnodes : ∀ node child, Followed content child node → node∈nodes) {node : ν}
    (hacc : Acc (Followed content) node) (state : σ) :
    walk look (nodes.card+1) node state≠.stuck := by
  have hown : ∀ count node, Acc (Followed content) node →
      (below content nodes node).card ≤ count → ∀ state,
        walk look (count+1) node state≠.stuck := by
    intro count
    induction count with
    | zero =>
      intro node hacc hcount state
      refine walk_ne_stuck hlook (fun child hchild => ?_) state
      have hlt := below_card_lt hacc (hnodes node child hchild) hchild
      omega
    | succ count ih =>
      intro node hacc hcount state
      refine walk_ne_stuck hlook (fun child hchild => ?_) state
      have hlt := below_card_lt hacc (hnodes node child hchild) hchild
      exact ih child (hacc.inv hchild) (by omega)
  refine hown nodes.card node hacc (Finset.card_le_card fun x hx => ?_) state
  exact (mem_below.mp hx).1

/-- The most nodes in a tree of a depth whose nodes have at most `width` children. -/
def treeSize (width : ℕ) : ℕ → ℕ
  | 0 => 0
  | depth+1 => width*treeSize width depth+1

theorem treeSize_mono (width : ℕ) {depth deeper : ℕ} (h : depth ≤ deeper) :
    treeSize width depth ≤ treeSize width deeper := by
  induction depth generalizing deeper with
  | zero => exact Nat.zero_le _
  | succ depth ih =>
    obtain ⟨less,rfl⟩ : ∃ less, deeper=less+1 := ⟨deeper-1,by omega⟩
    have hle := Nat.mul_le_mul_left width (ih (Nat.le_of_succ_le_succ h))
    rw [treeSize,treeSize]
    omega

theorem visitsAll_le {visits : ν → σ → ℕ} (run : ν → σ → Outcome σ) {size : ℕ}
    (h : ∀ child state, visits child state ≤ size) (children : List ν) (state : σ) :
    visitsAll visits run children state ≤ children.length*size := by
  induction children generalizing state with
  | nil => exact Nat.zero_le _
  | cons child rest ih =>
    have hfirst := h child state
    have hlength : (child :: rest).length*size=rest.length*size+size := by
      rw [List.length_cons,Nat.succ_mul]
    rw [visitsAll]
    cases run child state with
    | ok state' =>
      have hrest := ih state'
      dsimp only
      omega
    | err error =>
      dsimp only
      omega
    | stuck =>
      dsimp only
      omega

/-- The nodes met on the first levels. -/
theorem walkVisits_le {width : ℕ}
    (hwidth : ∀ node state children, look node state=.ok (.descend children) →
      children.length ≤ width) (fuel : ℕ) (node : ν) (state : σ) :
    walkVisits look fuel node state ≤ treeSize width fuel := by
  induction fuel generalizing node state with
  | zero => exact Nat.zero_le _
  | succ fuel ih =>
    rw [walkVisits,treeSize]
    split
    · rename_i children hlooked
      have hall := visitsAll_le (fun child state => walk look fuel child state) ih children state
      have hchildren := Nat.mul_le_mul_right (treeSize width fuel) (hwidth _ _ _ hlooked)
      omega
    · omega

theorem visitsAll_congr {visits more : ν → σ → ℕ} {run longer : ν → σ → Outcome σ}
    (hvisits : ∀ child state, run child state≠.stuck → more child state=visits child state)
    (hrun : ∀ child state, run child state≠.stuck → longer child state=run child state)
    {children : List ν} {state : σ}
    (h : children.foldlM (fun state child => run child state) state≠.stuck) :
    visitsAll more longer children state=visitsAll visits run children state := by
  induction children generalizing state with
  | nil => rfl
  | cons child rest ih =>
    have hchild : run child state≠.stuck := fun hstuck => h (foldlM_cons_stuck hstuck)
    rw [visitsAll,visitsAll,hvisits child state hchild,hrun child state hchild]
    cases hstate : run child state with
    | stuck => rfl
    | err error => rfl
    | ok state' =>
      rw [foldlM_cons_ok hstate] at h
      dsimp only
      rw [ih h]

/-- A deeper bound meets no more nodes once the walk comes back. -/
theorem walkVisits_succ {fuel : ℕ} {node : ν} {state : σ}
    (h : walk look fuel node state≠.stuck) :
    walkVisits look (fuel+1) node state=walkVisits look fuel node state := by
  induction fuel generalizing node state with
  | zero => exact absurd rfl h
  | succ fuel ih =>
    rw [walk] at h
    rw [walkVisits]
    conv_rhs => rw [walkVisits]
    cases hlooked : look node state with
    | error error => rfl
    | ok looked =>
      cases looked with
      | done state' => rfl
      | descend children =>
        rw [hlooked] at h
        dsimp only
        rw [visitsAll_congr (fun child state hrun => ih hrun)
          (fun child state hrun => walk_succ hrun) h]

/-- A walk that comes back meets no more nodes than a tree as deep as there are nodes with
children. -/
theorem walkVisits_bounded (hlook : Uniform look content) {nodes : Finset ν} {width : ℕ}
    (hnodes : ∀ node child, Followed content child node → node∈nodes)
    (hwidth : ∀ node state children, look node state=.ok (.descend children) →
      children.length ≤ width) {node : ν} (hacc : Acc (Followed content) node) (state : σ)
    (fuel : ℕ) : walkVisits look fuel node state ≤ treeSize width (nodes.card+1) := by
  have hdepth := walk_depth hlook hnodes hacc state
  by_cases hle : fuel ≤ nodes.card+1
  · exact (walkVisits_le hwidth fuel node state).trans (treeSize_mono width hle)
  · have hsame : ∀ more, walkVisits look (nodes.card+1+more) node state=
        walkVisits look (nodes.card+1) node state := by
      intro more
      induction more with
      | zero => rfl
      | succ more ih =>
        have hback : walk look (nodes.card+1+more) node state≠.stuck := by
          rw [walk_of_le hdepth (Nat.le_add_right _ more)]
          exact hdepth
        rw [← Nat.add_assoc,walkVisits_succ hback,ih]
    have hfuel := hsame (fuel-(nodes.card+1))
    rw [Nat.add_sub_cancel' (by omega)] at hfuel
    rw [hfuel]
    exact walkVisits_le hwidth _ node state

end Bounds

end RustSql
