import Mathlib.Data.List.Induction
import Mathlib.Data.List.Infix
import RustSql.Base.Effect

/-!
# Runs

Calls made one after the other. A call may succeed or fail and the run goes on;
when one does not return, the run is over.
-/

namespace RustSql.Eff

variable {σ α Call : Type}

/-- The state a call leaves when it returns, with a value or with an error. -/
def returns (x : Eff σ α) (s : σ) : Option σ :=
  match x s with
  | (.ok _,s') => some s'
  | (.err _,s') => some s'
  | (.stuck,_) => none

/-- The state some calls leave, one after the other. -/
def runs (run : Call → Eff σ Unit) : List Call → σ → Option σ
  | [], s => some s
  | call::rest, s => (returns (run call) s).bind (runs run rest)

/-- Every call of a run meets a condition on the state it finds. -/
def Along (run : Call → Eff σ Unit) (P : Call → σ → Prop) : List Call → σ → Prop
  | [], _ => True
  | call::rest, s => P call s ∧ ∀ s', returns (run call) s=some s' → Along run P rest s'

variable {x : Eff σ α} {s s' t : σ} {P : Call → σ → Prop} {I J : σ → Prop}
    {calls before after : List Call}

theorem returns_eq_some (h : returns x s=some s') : (x s).2=s' := by
  unfold returns at h
  split at h
  · next heq => rw [heq]; exact Option.some.inj h
  · next heq => rw [heq]; exact Option.some.inj h
  · cases h

/-- A call that returned a value returned. -/
theorem returns_of_ok {a : α} (h : x s=(.ok a,s')) :
    returns x s=some s' := by
  rw [returns,h]

/-- A sequence that returned ended in its first call, or went on. -/
theorem returns_bind {β : Type} {f : α → Eff σ β}
    (h : returns (x >>= f) s=some s') : (∃ e, x s=(.err e,s')) ∨
      ∃ a s₁, x s=(.ok a,s₁) ∧ returns (f a) s₁=some s' := by
  rcases hrun : x s with ⟨outcome,s₁⟩
  cases outcome with
  | ok a =>
    rw [returns,bind_of_ok hrun] at h
    exact Or.inr ⟨a,s₁,rfl,h⟩
  | err e =>
    rw [returns,bind_of_err hrun] at h
    obtain rfl := Option.some.inj h
    exact Or.inl ⟨e,rfl⟩
  | stuck =>
    rw [returns,bind_of_stuck hrun] at h
    cases h

/-- Reading leaves the state alone, whatever comes of it. -/
theorem reads_state {f : σ → Except DbError α} {outcome : Outcome α}
    (h : reads f s=(outcome,s')) : s'=s := by
  unfold reads at h
  cases hf : f s with
  | ok a =>
    rw [hf] at h
    exact (Prod.mk.inj h).2.symm
  | error e =>
    rw [hf] at h
    exact (Prod.mk.inj h).2.symm

theorem returns_of_stuck (h : (x s).1=.stuck) : returns x s=none := by
  rcases hrun : x s with ⟨outcome,s'⟩
  rw [hrun] at h
  obtain rfl : outcome=.stuck := h
  rw [returns,hrun]

/-- Forgetting the value makes no difference to the state. -/
theorem returns_drop (h : returns (do let _ ← x; pure ()) s=some s') : returns x s=some s' := by
  rcases returns_bind h with ⟨e,hfail⟩ | ⟨a,s₁,hok,hret⟩
  · rw [returns,hfail]
  · obtain rfl := Option.some.inj hret
    rw [returns,hok]

theorem eq_of_fst {a : α} (h : (x s).1=.ok a) : x s=(.ok a,(x s).2) :=
  Prod.ext h rfl

theorem eq_of_fst_err {e : DbError} (h : (x s).1=.err e) :
    x s=(.err e,(x s).2) :=
  Prod.ext h rfl

/-- What a call does to the state, for a call that returned. -/
theorem guarantee_returns {R : σ → σ → Prop}
    {Q : α → σ → Prop} (h : Guarantee R s x Q) (hs : Eff.returns x s=some s') : R s s' := by
  rw [← returns_eq_some hs]
  exact h.1

variable {run : Call → Eff σ Unit}

/-- A run in two parts. -/
theorem runs_append (calls rest : List Call) (s : σ) :
    runs run (calls++rest) s=(runs run calls s).bind (runs run rest) := by
  induction calls generalizing s with
  | nil => rfl
  | cons call calls ih =>
    simp only [List.cons_append,runs]
    cases returns (run call) s with
    | none => rfl
    | some s' => exact ih s'

/-- The induction over a run: what every call that meets the condition
preserves holds at the end. -/
theorem Along.invariant
    (hstep : ∀ call s s', I s → P call s → returns (run call) s=some s' → I s') (hP : Along run P calls s) (hs : I s)
    (ht : runs run calls s=some t) : I t := by
  induction calls generalizing s with
  | nil =>
    obtain rfl := Option.some.inj ht
    exact hs
  | cons call calls ih =>
    obtain ⟨hcall,hrest⟩ := hP
    rw [runs] at ht
    obtain ⟨s',hs',ht⟩ := Option.bind_eq_some_iff.mp ht
    exact ih (hrest s' hs') (hstep call s s' hs hcall hs') ht

theorem along_true (calls : List Call) (s : σ) : Along run (fun _ _ => True) calls s := by
  induction calls generalizing s with
  | nil => trivial
  | cons call calls ih => exact ⟨trivial,fun s' _ => ih s'⟩

/-- The same, for a property every call preserves. -/
theorem runs_invariant
    (hstep : ∀ call s s', I s → returns (run call) s=some s' → I s') (hs : I s) (ht : runs run calls s=some t) : I t :=
  (along_true calls s).invariant (fun call s s' h _ => hstep call s s' h) hs ht

/-- Every state of a run has a property, the first and the last one included. -/
def Throughout (run : Call → Eff σ Unit) (I : σ → Prop) (calls : List Call) (s : σ) : Prop :=
  ∀ (before after : List Call) (t : σ), calls=before++after → runs run before s=some t → I t

/-- A property of all states of a run, by a test of each of them. -/
theorem Throughout.of_test {test : σ → Bool} (htest : ∀ t, test t → I t)
    (h : calls.inits.all fun before => ((runs run before s).map test).getD true) :
    Throughout run I calls s := by
  intro before after t hsplit hruns
  have hmem : before∈calls.inits := by
    rw [List.mem_inits,hsplit]
    exact List.prefix_append before after
  have hpassed := List.all_eq_true.mp h before hmem
  rw [hruns] at hpassed
  exact htest t hpassed

/-- The states of the second part of a run. -/
theorem Throughout.later
    (h : Throughout run I (before++after) s) (hruns : runs run before s=some t) :
    Throughout run I after t := by
  intro front back u hsplit hfront
  refine h (before++front) back u (by rw [hsplit,List.append_assoc]) ?_
  rw [runs_append,hruns]
  exact hfront

/-- A run and one more call. -/
theorem runs_concat {call : Call} (h : runs run (calls++[call]) s=some t) :
    ∃ s', runs run calls s=some s' ∧ returns (run call) s'=some t := by
  rw [runs_append] at h
  obtain ⟨s',hcalls,hcall⟩ := Option.bind_eq_some_iff.mp h
  obtain ⟨t',hreturns,hend⟩ := Option.bind_eq_some_iff.mp hcall
  obtain rfl := Option.some.inj hend
  exact ⟨s',hcalls,hreturns⟩

theorem runs_concat_of {call : Call}
    (hcalls : runs run calls s=some s') (hreturns : returns (run call) s'=some t) :
    runs run (calls++[call]) s=some t := by
  rw [runs_append,hcalls]
  change (returns (run call) s').bind (runs run [])=some t
  rw [hreturns]
  rfl

theorem Throughout.and (hI : Throughout run I calls s) (hJ : Throughout run J calls s) :
    Throughout run (fun t => I t ∧ J t) calls s :=
  fun before after t hsplit hruns =>
    ⟨hI before after t hsplit hruns,hJ before after t hsplit hruns⟩

/-- A condition on every call of a run, by a test of each of them. -/
theorem Along.of_test {test : Call → σ → Bool} (htest : ∀ call s, test call s → P call s)
    (h : calls.inits.all fun before => match calls.drop before.length with
      | [] => true
      | call::_ => ((runs run before s).map (test call)).getD true) : Along run P calls s := by
  induction calls generalizing s with
  | nil => trivial
  | cons call calls ih =>
    rw [List.inits_cons,List.all_cons,List.all_map,Bool.and_eq_true] at h
    refine ⟨htest call s h.1,fun s' hs' => ih (List.all_eq_true.mpr fun before hmem => ?_)⟩
    have hlater := List.all_eq_true.mp h.2 before hmem
    simp only [Function.comp_apply,List.length_cons,List.drop_succ_cons,runs,hs'] at hlater
    exact hlater

/-- The conditions along the two parts of a run. -/
theorem Along.split (h : Along run P (before++after) s) (hruns : runs run before s=some t) :
    Along run P before s ∧ Along run P after t := by
  induction before generalizing s with
  | nil =>
    obtain rfl := Option.some.inj hruns
    exact ⟨trivial,h⟩
  | cons call before ih =>
    obtain ⟨hcall,hrest⟩ := h
    rw [runs] at hruns
    obtain ⟨s',hs',hruns⟩ := Option.bind_eq_some_iff.mp hruns
    refine ⟨⟨hcall,fun s₁ hs₁ => ?_⟩,(ih (hrest s' hs') hruns).2⟩
    obtain rfl := Option.some.inj (hs'.symm.trans hs₁)
    exact (ih (hrest s' hs') hruns).1

/-- What every call that meets its condition preserves between states of the run. -/
theorem Along.throughout (hP : Along run P calls s) (hI : Throughout run I calls s) (hs : J s)
    (hstep : ∀ call s s', J s → P call s → I s → I s' → returns (run call) s=some s' → J s') :
    Throughout run J calls s := by
  intro before
  induction before using List.reverseRecOn with
  | nil =>
    intro after t hsplit hruns
    obtain rfl := Option.some.inj hruns
    exact hs
  | append_singleton before call ih =>
    intro after t hsplit hruns
    obtain ⟨s',hbefore,hreturns⟩ := runs_concat hruns
    have hsplit' : calls=before++(call::after) := by
      rw [hsplit,List.append_assoc,List.singleton_append]
    have hJ := ih (call::after) s' hsplit' hbefore
    have hcall := ((hsplit' ▸ hP).split hbefore).2.1
    have hI₁ := hI before (call::after) s' hsplit' hbefore
    have hI₂ := hI (before++[call]) after t hsplit hruns
    exact hstep call s' t hJ hcall hI₁ hI₂ hreturns

/-- A second property that each call preserves between states that have the first. -/
theorem Throughout.invariant (hI : Throughout run I calls s) (hs : J s)
    (hstep : ∀ call s s', J s → I s → I s' → returns (run call) s=some s' → J s') :
    Throughout run J calls s :=
  (along_true calls s).throughout hI hs fun call s s' h _ => hstep call s s' h

/-- A property that does not hold at first and holds at the end: after the last state
without it a call brings it about, and it holds from then on. -/
theorem last_start {Q : σ → Prop} (hs : ¬Q s) (hruns : runs run calls s=some t) (ht : Q t) :
    ∃ before call after s₀ s₁, calls=before++call::after ∧ runs run before s=some s₀ ∧
      returns (run call) s₀=some s₁ ∧ runs run after s₁=some t ∧ ¬Q s₀ ∧
      Throughout run Q after s₁ := by
  induction calls using List.reverseRecOn generalizing t with
  | nil =>
    obtain rfl := Option.some.inj hruns
    exact absurd ht hs
  | append_singleton calls call ih =>
    obtain ⟨s',hcalls,hreturns⟩ := runs_concat hruns
    by_cases hQ : Q s'
    · obtain ⟨before,first,after,s₀,s₁,hsplit,hbefore,hfirst,hafter,hnot,hkept⟩ := ih hcalls hQ
      have hrest : runs run (after++[call]) s₁=some t := runs_concat_of hafter hreturns
      refine ⟨before,first,after++[call],s₀,s₁,?_,hbefore,hfirst,hrest,hnot,?_⟩
      · rw [hsplit,List.append_assoc,List.cons_append]
      · intro front back u hparts hfront
        rcases List.eq_nil_or_concat back with rfl | ⟨back,last,rfl⟩
        · rw [List.append_nil] at hparts
          rw [← hparts,hrest] at hfront
          obtain rfl := Option.some.inj hfront
          exact ht
        · rw [List.concat_eq_append,← List.append_assoc] at hparts
          exact hkept front back u (List.append_inj_left' hparts rfl) hfront
    · have hsame : Throughout run Q [] t := by
        intro front back u hparts hfront
        obtain ⟨rfl,-⟩ := List.append_eq_nil_iff.mp hparts.symm
        obtain rfl := Option.some.inj hfront
        exact ht
      exact ⟨calls,call,[],s',t,rfl,hcalls,hreturns,rfl,hQ,hsame⟩

end RustSql.Eff
