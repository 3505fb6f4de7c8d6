import RustSql.Sql.JsonSteps
import RustSql.Sql.JsonbReaders

/-!
# Edits of JSON values

A write changes what its path names and adds what is missing on the way. It does harm where a
key meets a value that is no object, which makes way for one, and where the missing part of the
path has an index that no empty array has: the containers before it stay behind.
-/

namespace RustSql.Sql

open JsonValue

variable {N : Type}

/-! ## What a path names -/

/-- The places that a path goes through, in the value and then in what is missing of it. -/
def namedPlaces : JsonValue N → List PathStep → Option (List JsonPlace)
  | _, [] => some []
  | value, step :: steps =>
    (stepPlace value step).bind fun place =>
      (namedPlaces ((child value place).getD (containerFor steps)) steps).map (place :: ·)

/-- A step that leads into an empty container. -/
def creatable : PathStep → Bool
  | .index position => position=0
  | .fromEnd offset => offset=0
  | _ => true

/-- A step that leads to the same place after the write. -/
def lasting : PathStep → Bool
  | .fromEnd offset => offset≠0
  | .append => false
  | _ => true

/-- A key fits an object. An index fits any value, which an array alone is changed by. -/
def fits : JsonValue N → PathStep → Bool
  | .object _, _ => true
  | _, .key _ => false
  | _, _ => true

/-- Every key meets an object, and what is missing can be created as far as the path goes. -/
def cleanWrite : JsonValue N → List PathStep → Bool
  | _, [] => true
  | value, step :: steps =>
    fits value step &&
      match stepPlace value step with
      | none => true
      | some place =>
        match child value place with
        | some next => cleanWrite next steps
        | none => !hasRoom value place || steps.all creatable

/-- A write at the root or below it. -/
def writeAt (replacement : JsonValue N) (mode : JsonWriteMode) (value : JsonValue N)
    (steps : List PathStep) : JsonValue N :=
  if steps=[] then if mode.changes then replacement else value
  else writeSteps replacement mode value steps

section Writes

variable {replacement value next : JsonValue N} {mode : JsonWriteMode} {step : PathStep}
  {steps : List PathStep} {place : JsonPlace}

/-- A value a step fits is written as it is. -/
theorem writable_fits (h : fits value step=true) (mode : JsonWriteMode) :
    writable mode value step=some value := by
  cases step with
  | key name =>
    cases value with
    | object fields => rfl
    | _ => cases h
  | _ => rfl

/-- A step with a child fits. -/
theorem fits_of_child (hplace : stepPlace value step=some place)
    (hchild : child value place=some next) : fits value step=true := by
  cases value with
  | object fields => rfl
  | array items =>
    cases step with
    | key name =>
      obtain rfl := Option.some.inj hplace
      cases hchild
    | _ => rfl
  | _ => cases hchild

/-! ## One step -/

/-- A write goes into the child that is there. -/
theorem writeAt_found (hvalue : value.Sorted) (hplace : stepPlace value step=some place)
    (hchild : child value place=some next) :
    writeAt replacement mode value (step :: steps)=
      putChild value place (writeAt replacement mode next steps) := by
  have hwritable := writable_fits (fits_of_child hplace hchild) mode
  simp only [writeAt,List.cons_ne_nil,if_false,writeSteps,hwritable,hplace,hchild]
  by_cases hnil : steps=[]
  · rw [if_pos hnil,if_pos hnil]
    cases mode.changes with
    | true => rfl
    | false => exact (putChild_same hvalue hchild).symm
  · rw [if_neg hnil,if_neg hnil]

/-- Or makes one, where the mode and the value let it. -/
theorem writeAt_missing (hfits : fits value step=true) (hplace : stepPlace value step=some place)
    (hchild : child value place=none) :
    writeAt replacement mode value (step :: steps)=
      if mode.adds && hasRoom value place then
        putChild value place (writeSteps replacement mode (containerFor steps) steps)
      else value := by
  simp only [writeAt,List.cons_ne_nil,if_false,writeSteps,writable_fits hfits,hplace,hchild]

/-- A step that leads nowhere writes nothing. -/
theorem writeAt_nowhere (hfits : fits value step=true) (hplace : stepPlace value step=none) :
    writeAt replacement mode value (step :: steps)=value := by
  simp only [writeAt,List.cons_ne_nil,if_false,writeSteps,writable_fits hfits,hplace]

/-- Only a key does not fit, where there is no object. -/
theorem not_fits (h : fits value step=false) :
    (∃ name, step=.key name) ∧ ∀ fields, value≠.object fields := by
  cases value with
  | object fields => cases h
  | _ =>
    cases step with
    | key name =>
      refine ⟨⟨name,rfl⟩,fun fields hobject => ?_⟩
      cases hobject
    | _ => cases h

/-- A key makes a value that is no object into one, where something is added. -/
theorem writeAt_unfit (h : fits value step=false) :
    if mode.adds then ∃ fields, writeAt replacement mode value (step :: steps)=.object fields
    else writeAt replacement mode value (step :: steps)=value := by
  obtain ⟨⟨name,rfl⟩,hother⟩ := not_fits h
  have hfields : writableFields mode value=if mode.adds then some [] else none := by
    cases value with
    | object fields => exact absurd rfl (hother fields)
    | _ => rfl
  simp only [writeAt,List.cons_ne_nil,if_false,writeSteps,writable,hfields]
  cases hadds : mode.adds with
  | false => rfl
  | true =>
    refine ⟨insertField name (writeSteps replacement mode (containerFor steps) steps) [],?_⟩
    rfl

/-- The same step leads to the same place behind a write. -/
theorem stepPlace_putChild (hplace : stepPlace value step=some place)
    (h : (∃ next, child value place=some next) ∨ lasting step=true) (written : JsonValue N) :
    stepPlace (putChild value place written) step=some place := by
  cases step with
  | key name => exact hplace
  | index position => exact hplace
  | fromEnd offset =>
    obtain ⟨items,hitems,hplace⟩ := Option.bind_eq_some_iff.mp hplace
    obtain ⟨hle,hplace⟩ := Option.ite_none_right_eq_some.mp hplace
    obtain rfl := Option.some.inj hplace
    cases value with
    | array items' =>
      obtain rfl := Option.some.inj hitems
      have hlt : items'.length-offset < items'.length := by
        rcases h with ⟨next,hnext⟩ | hlasting
        · exact (List.getElem?_eq_some_iff.mp hnext).1
        · have hoffset : offset≠0 := of_decide_eq_true hlasting
          have hlonger : offset ≤ items'.length := hle
          omega
      rw [putChild,if_pos hlt,stepPlace]
      simp only [jsonItems,Option.bind_some,List.length_set,if_pos hle]
    | _ => cases hitems
  | append =>
    rcases h with ⟨next,hnext⟩ | hlasting
    · obtain ⟨items,hitems,rfl⟩ := Option.map_eq_some_iff.mp hplace
      rw [child_index,hitems,Option.bind_some,List.getElem?_eq_none le_rfl] at hnext
      cases hnext
    · cases hlasting

/-- A lookup goes into the child. -/
theorem lookupSteps_cons (hplace : stepPlace value step=some place)
    (hchild : child value place=some next) :
    lookupSteps value (step :: steps)=lookupSteps next steps := by
  rw [lookupSteps,hplace,Option.bind_some,hchild,Option.bind_some]

/-- What is put at a lasting step is found there. -/
theorem lookupSteps_putChild (hplace : stepPlace value step=some place)
    (hroom : hasRoom value place=true)
    (h : (∃ next, child value place=some next) ∨ lasting step=true) (written : JsonValue N) :
    lookupSteps (putChild value place written) (step :: steps)=lookupSteps written steps :=
  lookupSteps_cons (stepPlace_putChild hplace h written) (child_putChild_self hroom written)

/-- What is found is found in a child. -/
theorem lookupSteps_inv {found : JsonValue N} (h : lookupSteps value (step :: steps)=some found) :
    ∃ place next, stepPlace value step=some place ∧ child value place=some next ∧
      lookupSteps next steps=some found := by
  obtain ⟨next,hnext,hfound⟩ := Option.bind_eq_some_iff.mp h
  obtain ⟨place,hplace,hchild⟩ := Option.bind_eq_some_iff.mp hnext
  exact ⟨place,next,hplace,hchild,hfound⟩

/-! ## Paths that resolve -/

/-- What replaces a value is read back. -/
theorem lookupSteps_writeAt {old : JsonValue N} (hvalue : value.Sorted)
    (h : lookupSteps value steps=some old) (hmode : mode.changes=true) :
    lookupSteps (writeAt replacement mode value steps) steps=some replacement := by
  induction steps generalizing value with
  | nil => simp only [writeAt,if_true,hmode,lookupSteps]
  | cons step steps ih =>
    obtain ⟨place,next,hplace,hchild,hfound⟩ := lookupSteps_inv h
    rw [writeAt_found hvalue hplace hchild,
      lookupSteps_putChild hplace (hasRoom_of_child hchild) (.inl ⟨next,hchild⟩)]
    exact ih (hvalue.child hchild) hfound

/-- `json_insert` leaves what is there. -/
theorem writeAt_insert {old : JsonValue N} (hvalue : value.Sorted)
    (h : lookupSteps value steps=some old) (hmode : mode.changes=false) :
    writeAt replacement mode value steps=value := by
  induction steps generalizing value with
  | nil => simp only [writeAt,if_true,hmode,Bool.false_eq_true,if_false]
  | cons step steps ih =>
    obtain ⟨place,next,hplace,hchild,hfound⟩ := lookupSteps_inv h
    rw [writeAt_found hvalue hplace hchild,ih (hvalue.child hchild) hfound]
    exact putChild_same hvalue hchild

/-! ## Paths that do not resolve -/

/-- `json_replace` adds nothing. -/
theorem writeAt_replace (hvalue : value.Sorted) (h : lookupSteps value steps=none)
    (hmode : mode.adds=false) : writeAt replacement mode value steps=value := by
  induction steps generalizing value with
  | nil => cases h
  | cons step steps ih =>
    cases hfits : fits value step with
    | false =>
      have hunfit := @writeAt_unfit N replacement value mode step steps hfits
      rwa [hmode,if_neg Bool.false_ne_true] at hunfit
    | true =>
      cases hplace : stepPlace value step with
      | none => exact writeAt_nowhere hfits hplace
      | some place =>
        cases hchild : child value place with
        | none =>
          rw [writeAt_missing hfits hplace hchild,hmode,Bool.false_and,if_neg Bool.false_ne_true]
        | some next =>
          rw [lookupSteps_cons hplace hchild] at h
          rw [writeAt_found hvalue hplace hchild,ih (hvalue.child hchild) h]
          exact putChild_same hvalue hchild

/-! ## New containers -/

/-- What is written where nothing was. -/
def fresh (replacement : JsonValue N) (mode : JsonWriteMode) (steps : List PathStep) :
    JsonValue N :=
  writeSteps replacement mode (containerFor steps) steps

/-- Neither of two paths goes through the other. -/
def Apart (first second : List JsonPlace) : Prop := ¬first<+:second ∧ ¬second<+:first

/-- Places that part later part behind a shared one. -/
theorem Apart.tail {first second : List JsonPlace} (h : Apart (place :: first) (place :: second)) :
    Apart first second :=
  ⟨fun hprefix => h.1 (List.cons_prefix_cons.mpr ⟨rfl, hprefix⟩),
    fun hprefix => h.2 (List.cons_prefix_cons.mpr ⟨rfl, hprefix⟩)⟩

/-- A fresh container fits the step it is made for. -/
theorem containerFor_fits (step : PathStep) (steps : List PathStep) :
    fits (containerFor (step :: steps) : JsonValue N) step=true := by
  cases step <;> rfl

/-- It is empty. -/
theorem containerFor_child (steps : List PathStep) (place : JsonPlace) :
    child (containerFor steps : JsonValue N) place=none := by
  cases steps with
  | nil => cases place <;> rfl
  | cons step steps => cases step <;> cases place <;> rfl

/-- It has room for what the step can create. -/
theorem containerFor_place (h : creatable step=true) (steps : List PathStep) :
    ∃ place, stepPlace (containerFor (step :: steps) : JsonValue N) step=some place ∧
      hasRoom (containerFor (step :: steps) : JsonValue N) place=true := by
  cases step with
  | key name => exact ⟨.key name,rfl,rfl⟩
  | index position =>
    obtain rfl : position=0 := of_decide_eq_true h
    exact ⟨.index 0,rfl,rfl⟩
  | fromEnd offset =>
    obtain rfl : offset=0 := of_decide_eq_true h
    exact ⟨.index 0,rfl,rfl⟩
  | append => exact ⟨.index 0,rfl,rfl⟩

/-- A fresh value, one step at a time. -/
theorem fresh_cons (hmode : mode.adds=true)
    (hplace : stepPlace (containerFor (step :: steps) : JsonValue N) step=some place) :
    fresh replacement mode (step :: steps)=
      if hasRoom (containerFor (step :: steps) : JsonValue N) place then
        putChild (containerFor (step :: steps)) place (fresh replacement mode steps)
      else containerFor (step :: steps) := by
  have hwritable := writable_fits (containerFor_fits (N:=N) step steps) mode
  rw [fresh,writeSteps,hwritable]
  simp only [hplace,containerFor_child,hmode,Bool.true_and]
  rfl

/-- The places a path names in a fresh value. -/
theorem namedPlaces_fresh
    (hplace : stepPlace (containerFor (step :: steps) : JsonValue N) step=some place) :
    namedPlaces (containerFor (step :: steps) : JsonValue N) (step :: steps)=
      (namedPlaces (containerFor steps : JsonValue N) steps).map (place :: ·) := by
  rw [namedPlaces,hplace,Option.bind_some,containerFor_child,Option.getD_none]

variable {places : List JsonPlace} {fields : List (String × JsonValue N)} {front : List PathStep}

/-- Nothing lies in a fresh container. -/
theorem valueAt_containerFor (h : places≠[]) (steps : List PathStep) :
    (containerFor steps : JsonValue N).valueAt places=none := by
  cases places with
  | nil => exact absurd rfl h
  | cons place places => rw [valueAt,containerFor_child,Option.bind_none]

/-- What is created holds the replacement at the place that the path names, and nothing beside
the path. -/
theorem fresh_holds (hmode : mode.adds=true) (h : steps.all creatable=true) :
    ∃ places, namedPlaces (containerFor steps : JsonValue N) steps=some places ∧
      (fresh replacement mode steps).valueAt places=some replacement ∧
      (∀ other, Apart other places → (fresh replacement mode steps).valueAt other=none) ∧
      (steps.all lasting=true →
        lookupSteps (fresh replacement mode steps) steps=some replacement) := by
  induction steps with
  | nil => exact ⟨[],rfl,rfl,fun other hother => absurd List.nil_prefix hother.2,fun _ => rfl⟩
  | cons step steps ih =>
    obtain ⟨hstep,hsteps⟩ := Bool.and_eq_true_iff.mp h
    obtain ⟨place,hplace,hroom⟩ := containerFor_place (N:=N) hstep steps
    obtain ⟨places,hplaces,hvalue,hothers,hlookup⟩ := ih hsteps
    rw [fresh_cons hmode hplace,if_pos hroom]
    refine ⟨place :: places,?_,?_,fun other hother => ?_,fun hlasting => ?_⟩
    · rw [namedPlaces_fresh hplace,hplaces,Option.map_some]
    · rw [valueAt_putChild_self hroom,hvalue]
    · cases other with
      | nil => exact absurd List.nil_prefix hother.1
      | cons first other =>
        by_cases hfirst : first=place
        · subst hfirst
          rw [valueAt_putChild_self hroom]
          exact hothers other hother.tail
        · rw [valueAt_putChild_other hfirst hroom]
          exact valueAt_containerFor (List.cons_ne_nil _ _) _
    · obtain ⟨hlast,hrest⟩ := Bool.and_eq_true_iff.mp hlasting
      rw [lookupSteps_putChild hplace hroom (.inr hlast)]
      exact hlookup hrest

/-- A path that cannot be created leaves nothing at its end. -/
theorem valueAt_halfBuilt (hmode : mode.adds=true) (h : steps.all creatable=false)
    (hplaces : namedPlaces (containerFor steps : JsonValue N) steps=some places) :
    (fresh replacement mode steps).valueAt places=none := by
  induction steps generalizing places with
  | nil => cases h
  | cons step steps ih =>
    cases hplace : stepPlace (containerFor (step :: steps) : JsonValue N) step with
    | none =>
      rw [namedPlaces,hplace] at hplaces
      cases hplaces
    | some place =>
      rw [namedPlaces_fresh hplace] at hplaces
      obtain ⟨rest,hrest,rfl⟩ := Option.map_eq_some_iff.mp hplaces
      rw [fresh_cons hmode hplace]
      cases hroom : hasRoom (containerFor (step :: steps) : JsonValue N) place with
      | false => exact valueAt_containerFor (List.cons_ne_nil _ _) _
      | true =>
        rw [if_pos rfl,valueAt_putChild_self hroom]
        refine ih ?_ hrest
        have hstep : creatable step=true := by
          cases step with
          | index position =>
            obtain rfl := Option.some.inj hplace
            have hzero : position ≤ 0 := of_decide_eq_true hroom
            exact decide_eq_true (by omega)
          | fromEnd offset =>
            obtain ⟨hle,-⟩ := Option.ite_none_right_eq_some.mp hplace
            have hzero : offset ≤ 0 := hle
            exact decide_eq_true (by omega)
          | _ => rfl
        rwa [List.all_cons,hstep,Bool.true_and] at h

/-! ## Clean writes -/

/-- What a clean write meets at its first step. -/
theorem cleanWrite_cons (h : cleanWrite value (step :: steps)=true) :
    fits value step=true ∧
      (stepPlace value step=none ∨ ∃ place, stepPlace value step=some place ∧
        ((∃ next, child value place=some next ∧ cleanWrite next steps=true) ∨
          child value place=none ∧ (hasRoom value place=false ∨ steps.all creatable=true))) := by
  rw [cleanWrite] at h
  obtain ⟨hfits,h⟩ := Bool.and_eq_true_iff.mp h
  refine ⟨hfits,?_⟩
  cases hplace : stepPlace value step with
  | none => exact .inl rfl
  | some place =>
    rw [hplace] at h
    refine .inr ⟨place,rfl,?_⟩
    cases hchild : child value place with
    | some next =>
      simp only [hchild] at h
      exact .inl ⟨next,rfl,h⟩
    | none =>
      simp only [hchild,Bool.or_eq_true,Bool.not_eq_true'] at h
      exact .inr ⟨rfl,h⟩

/-- A clean write changes nothing beside its path. -/
theorem valueAt_writeAt_apart {places other : List JsonPlace} (hvalue : value.Sorted)
    (h : mode.adds=true → cleanWrite value steps=true)
    (hplaces : namedPlaces value steps=some places) (hother : Apart other places) :
    (writeAt replacement mode value steps).valueAt other=value.valueAt other := by
  induction steps generalizing value places other with
  | nil =>
    obtain rfl := Option.some.inj hplaces
    exact absurd List.nil_prefix hother.2
  | cons step steps ih =>
    rw [namedPlaces] at hplaces
    obtain ⟨place,hplace,hplaces⟩ := Option.bind_eq_some_iff.mp hplaces
    obtain ⟨rest,hrest,rfl⟩ := Option.map_eq_some_iff.mp hplaces
    cases hchild : child value place with
    | some next =>
      rw [hchild,Option.getD_some] at hrest
      have hroom := hasRoom_of_child hchild
      have hclean : mode.adds=true → cleanWrite next steps=true := by
        intro hmode
        have hnext := h hmode
        simp only [cleanWrite,hplace,hchild] at hnext
        exact (Bool.and_eq_true_iff.mp hnext).2
      rw [writeAt_found hvalue hplace hchild]
      cases other with
      | nil => exact absurd List.nil_prefix hother.1
      | cons first other =>
        by_cases hfirst : first=place
        · subst hfirst
          rw [valueAt_putChild_self hroom,valueAt,hchild,Option.bind_some]
          exact ih (hvalue.child hchild) hclean hrest hother.tail
        · rw [valueAt_putChild_other hfirst hroom]
    | none =>
      rw [hchild,Option.getD_none] at hrest
      cases hmode : mode.adds with
      | false =>
        rw [writeAt_replace hvalue ?_ hmode]
        rw [lookupSteps,hplace,Option.bind_some,hchild,Option.bind_none]
      | true =>
        have hnext := h hmode
        simp only [cleanWrite,hplace,hchild] at hnext
        obtain ⟨hfits,hnext⟩ := Bool.and_eq_true_iff.mp hnext
        rw [writeAt_missing hfits hplace hchild,hmode,Bool.true_and]
        cases hroom : hasRoom value place with
        | false => rfl
        | true =>
          rw [if_pos rfl]
          cases other with
          | nil => exact absurd List.nil_prefix hother.1
          | cons first other =>
            by_cases hfirst : first=place
            · subst hfirst
              have hall : steps.all creatable=true := by
                rwa [hroom,Bool.not_true,Bool.false_or] at hnext
              rw [valueAt_putChild_self hroom,valueAt,hchild,Option.bind_none]
              obtain ⟨places,hplaces,-,hothers,-⟩ :=
                @fresh_holds N replacement mode steps hmode hall
              obtain rfl := Option.some.inj (hplaces.symm.trans hrest)
              exact hothers other hother.tail
            · rw [valueAt_putChild_other hfirst hroom]

/-- The path is added, and nothing else. -/
structure Adds (replacement value : JsonValue N) (steps : List PathStep)
    (written : JsonValue N) : Prop where
  grows : Grows value written
  named : ∃ places, namedPlaces value steps=some places ∧
    written.valueAt places=some replacement
  resolves : steps.all lasting=true → lookupSteps written steps=some replacement

/-- A clean write adds what its path names, or nothing. -/
theorem writeAt_adds (hvalue : value.Sorted) (hmode : mode.adds=true)
    (h : cleanWrite value steps=true) (hmissing : lookupSteps value steps=none) :
    writeAt replacement mode value steps=value ∨
      Adds replacement value steps (writeAt replacement mode value steps) := by
  induction steps generalizing value with
  | nil => cases hmissing
  | cons step steps ih =>
    obtain ⟨hfits,hplace | ⟨place,hplace,⟨next,hchild,hclean⟩ | ⟨hchild,hroom⟩⟩⟩ :=
      cleanWrite_cons h
    · exact .inl (writeAt_nowhere hfits hplace)
    · rw [lookupSteps_cons hplace hchild] at hmissing
      have hroom := hasRoom_of_child hchild
      rw [writeAt_found hvalue hplace hchild]
      rcases ih (hvalue.child hchild) hclean hmissing with hsame | hadds
      · rw [hsame]
        exact .inl (putChild_same hvalue hchild)
      · obtain ⟨places,hplaces,hwritten⟩ := hadds.named
        refine .inr ⟨.putChild hroom fun found hfound => ?_,⟨place :: places,?_,?_⟩,fun hlast => ?_⟩
        · rw [hchild] at hfound
          obtain rfl := Option.some.inj hfound
          exact hadds.grows
        · rw [namedPlaces,hplace,Option.bind_some,hchild,Option.getD_some,hplaces,Option.map_some]
        · rwa [valueAt_putChild_self hroom]
        · rw [lookupSteps_putChild hplace hroom (.inl ⟨next,hchild⟩)]
          exact hadds.resolves (Bool.and_eq_true_iff.mp hlast).2
    · rw [writeAt_missing hfits hplace hchild,hmode,Bool.true_and]
      cases hhas : hasRoom value place with
      | false => exact .inl rfl
      | true =>
        have hall : steps.all creatable=true := hroom.resolve_left (by simp only [hhas,reduceCtorEq,
          not_false_iff])
        obtain ⟨places,hplaces,hvalue,-,hlookup⟩ :=
          @fresh_holds N replacement mode steps hmode hall
        rw [if_pos rfl]
        refine .inr ⟨.putChild hhas fun found hfound => ?_,⟨place :: places,?_,?_⟩,fun hlast => ?_⟩
        · rw [hchild] at hfound
          cases hfound
        · rw [namedPlaces,hplace,Option.bind_some,hchild,Option.getD_none,hplaces,Option.map_some]
        · rw [valueAt_putChild_self hhas]
          exact hvalue
        · obtain ⟨hstep,hrest⟩ := Bool.and_eq_true_iff.mp hlast
          rw [lookupSteps_putChild hplace hhas (.inr hstep)]
          exact hlookup hrest

/-- What a write that is not clean meets at its first step. -/
theorem cleanWrite_cons_false (h : cleanWrite value (step :: steps)=false) :
    fits value step=false ∨ fits value step=true ∧ ∃ place, stepPlace value step=some place ∧
      ((∃ next, child value place=some next ∧ cleanWrite next steps=false) ∨
        child value place=none ∧ hasRoom value place=true ∧ steps.all creatable=false) := by
  rw [cleanWrite] at h
  cases hfits : fits value step with
  | false => exact .inl rfl
  | true =>
    rw [hfits,Bool.true_and] at h
    refine .inr ⟨rfl,?_⟩
    cases hplace : stepPlace value step with
    | none =>
      rw [hplace] at h
      cases h
    | some place =>
      rw [hplace] at h
      refine ⟨place,rfl,?_⟩
      cases hchild : child value place with
      | some next =>
        simp only [hchild] at h
        exact .inl ⟨next,rfl,h⟩
      | none =>
        simp only [hchild,Bool.or_eq_false_iff,Bool.not_eq_false'] at h
        exact .inr ⟨rfl,h⟩

/-- What is no object is not of the kind of one. -/
theorem not_sameKind_object
    (h : ∀ fields, value≠.object fields) : ¬sameKind value (.object fields) := by
  intro hsame
  cases value with
  | object members => exact h members rfl
  | array items =>
    obtain ⟨items,hitems⟩ := hsame
    cases hitems
  | _ => cases hsame

/-- A write that is not clean changes the value, and does not only add what its path names. -/
theorem writeAt_harms (hvalue : value.Sorted) (hmode : mode.adds=true)
    (h : cleanWrite value steps=false) :
    lookupSteps value steps=none ∧ writeAt replacement mode value steps≠value ∧
      (Grows value (writeAt replacement mode value steps) → ∀ places,
        namedPlaces value steps=some places →
          (writeAt replacement mode value steps).valueAt places≠some replacement) := by
  induction steps generalizing value with
  | nil => cases h
  | cons step steps ih =>
    rcases cleanWrite_cons_false h with hfits |
      ⟨hfits,place,hplace,⟨next,hchild,hclean⟩ | ⟨hchild,hroom,hall⟩⟩
    · have hunfit := @writeAt_unfit N replacement value mode step steps hfits
      rw [hmode,if_pos rfl] at hunfit
      obtain ⟨fields,hwritten⟩ := hunfit
      obtain ⟨-,hother⟩ := not_fits hfits
      rw [hwritten]
      refine ⟨?_,fun hsame => hother fields hsame.symm,fun hgrows => ?_⟩
      · cases hlookup : lookupSteps value (step :: steps) with
        | none => rfl
        | some found =>
          obtain ⟨place,next,hplace,hchild,-⟩ := lookupSteps_inv hlookup
          rw [fits_of_child hplace hchild] at hfits
          cases hfits
      · obtain ⟨_,hafter,hsame⟩ := hgrows [] value rfl
        obtain rfl := Option.some.inj hafter
        exact absurd hsame (not_sameKind_object hother)
    · have hroom := hasRoom_of_child hchild
      obtain ⟨hmissing,hchanged,hharm⟩ := ih (hvalue.child hchild) hclean
      rw [lookupSteps_cons hplace hchild,writeAt_found hvalue hplace hchild]
      refine ⟨hmissing,fun hsame => hchanged ?_,fun hgrows places hplaces => ?_⟩
      · have hafter := child_putChild_self hroom (writeAt replacement mode next steps)
        rw [hsame,hchild] at hafter
        exact (Option.some.inj hafter).symm
      · rw [namedPlaces,hplace,Option.bind_some,hchild,Option.getD_some] at hplaces
        obtain ⟨rest,hrest,rfl⟩ := Option.map_eq_some_iff.mp hplaces
        rw [valueAt_putChild_self hroom]
        exact hharm (hgrows.of_putChild hchild) rest hrest
    · rw [lookupSteps,hplace,Option.bind_some,hchild,Option.bind_none,
        writeAt_missing hfits hplace hchild,hmode,Bool.true_and,if_pos hroom]
      refine ⟨rfl,fun hsame => ?_,fun _ places hplaces => ?_⟩
      · have hafter := child_putChild_self hroom (fresh replacement mode steps)
        rw [fresh,hsame,hchild] at hafter
        cases hafter
      · rw [namedPlaces,hplace,Option.bind_some,hchild,Option.getD_none] at hplaces
        obtain ⟨rest,hrest,rfl⟩ := Option.map_eq_some_iff.mp hplaces
        have hnothing := @valueAt_halfBuilt N replacement mode steps rest hmode hall hrest
        rw [fresh] at hnothing
        rw [valueAt_putChild_self hroom,hnothing]
        exact (Option.some_ne_none replacement).symm

/-! ## Removing -/

/-- A removed key is gone. -/
theorem child_dropChild_self (name : String) :
    child (dropChild (.object fields) (.key name)) (.key name)=none :=
  lookup_removeField_self name fields

/-- The other keys stay. -/
theorem child_dropChild_other {name : String} (h : place≠.key name) :
    child (dropChild (.object fields) (.key name)) place=child (.object fields) place := by
  cases place with
  | key key => exact lookup_removeField_other (fun heq => h (congrArg JsonPlace.key heq)) fields
  | index position => rfl

/-- A longer path is looked up in two parts. -/
theorem lookupSteps_append (value : JsonValue N) (front rest : List PathStep) :
    lookupSteps value (front++rest)=
      (lookupSteps value front).bind fun next => lookupSteps next rest := by
  induction front generalizing value with
  | nil => rfl
  | cons step front ih =>
    rw [List.cons_append,lookupSteps,lookupSteps]
    cases (stepPlace value step).bind (child value) with
    | none => rfl
    | some next => exact ih next

/-- A resolving path names the places it goes through, and a removal changes the value around
its end and nothing beside it. -/
theorem removeSteps_drops {old : JsonValue N} (h : lookupSteps value (front++[step])=some old) :
    ∃ places place parent, namedPlaces value (front++[step])=some (places++[place]) ∧
      stepPlace parent step=some place ∧ child parent place=some old ∧
      value.valueAt places=some parent ∧
      (removeSteps value (front++[step])).valueAt places=some (dropChild parent place) ∧
      lookupSteps (removeSteps value (front++[step])) front=some (dropChild parent place) ∧
      ∀ other, Apart other places →
        (removeSteps value (front++[step])).valueAt other=value.valueAt other := by
  induction front generalizing value with
  | nil =>
    obtain ⟨place,next,hplace,hchild,hfound⟩ := lookupSteps_inv h
    obtain rfl := Option.some.inj hfound
    have hremove : removeSteps value ([]++[step])=dropChild value place := by
      rw [List.nil_append,removeSteps,hplace]
      exact if_pos rfl
    refine ⟨[],place,value,?_,hplace,hchild,rfl,?_,?_,fun other hother => ?_⟩
    · rw [List.nil_append,namedPlaces,hplace,Option.bind_some,hchild]
      rfl
    · rw [hremove,valueAt]
    · rw [hremove,lookupSteps]
    · exact absurd List.nil_prefix hother.2
  | cons first front ih =>
    obtain ⟨place,next,hplace,hchild,hfound⟩ := lookupSteps_inv h
    obtain ⟨places,last,parent,hplaces,hlast,hold,hparent,hdropped,hlookup,hothers⟩ := ih hfound
    have hroom := hasRoom_of_child hchild
    have hremove : removeSteps value (first :: front++[step])=
        putChild value place (removeSteps next (front++[step])) := by
      rw [List.cons_append,removeSteps,hplace]
      simp only [hchild]
      exact if_neg (List.append_ne_nil_of_right_ne_nil _ (List.cons_ne_nil _ _))
    rw [hremove]
    refine ⟨place :: places,last,parent,?_,hlast,hold,?_,?_,?_,fun other hother => ?_⟩
    · rw [List.cons_append,namedPlaces,hplace,Option.bind_some,hchild,Option.getD_some,hplaces]
      rfl
    · rw [valueAt,hchild,Option.bind_some,hparent]
    · rw [valueAt_putChild_self hroom,hdropped]
    · rw [lookupSteps_putChild hplace hroom (.inl ⟨next,hchild⟩),hlookup]
    · cases other with
      | nil => exact absurd List.nil_prefix hother.1
      | cons spot other =>
        by_cases hspot : spot=place
        · subst hspot
          rw [valueAt_putChild_self hroom,valueAt,hchild,Option.bind_some]
          exact hothers other hother.tail
        · rw [valueAt_putChild_other hspot hroom]

/-- A removed member is gone, and all values beside it stay. -/
theorem removeSteps_key {name : String} {old : JsonValue N}
    (h : lookupSteps value (front++[.key name])=some old) :
    lookupSteps (removeSteps value (front++[.key name])) (front++[.key name])=none ∧
      ∀ places other, namedPlaces value (front++[.key name])=some places → Apart other places →
        (removeSteps value (front++[.key name])).valueAt other=value.valueAt other := by
  obtain ⟨places,place,parent,hplaces,hlast,hold,hparent,hdropped,hlookup,hothers⟩ :=
    removeSteps_drops h
  obtain rfl := Option.some.inj hlast
  cases parent with
  | object fields =>
    refine ⟨?_,fun named other hnamed hother => ?_⟩
    · rw [lookupSteps_append,hlookup,Option.bind_some,lookupSteps,stepPlace,Option.bind_some,
        child_dropChild_self,Option.bind_none]
    · obtain rfl := Option.some.inj (hplaces.symm.trans hnamed)
      by_cases hbelow : places<+:other
      · obtain ⟨rest,rfl⟩ := hbelow
        rw [valueAt_append,valueAt_append,hdropped,hparent,Option.bind_some,Option.bind_some]
        cases rest with
        | nil =>
          rw [List.append_nil] at hother
          exact absurd (List.prefix_append _ _) hother.1
        | cons first rest =>
          have hfirst : first≠.key name := by
            rintro rfl
            refine hother.2 ⟨rest,?_⟩
            rw [List.append_assoc,List.singleton_append]
          rw [valueAt,valueAt,child_dropChild_other hfirst]
      · exact hothers other ⟨fun habove => hother.1 (habove.trans (List.prefix_append _ _)),hbelow⟩
  | _ => cases hold

/-- A removed item makes the ones behind it move up, and all values outside its array stay. -/
theorem removeSteps_index {old : JsonValue N}
    (hstep : ∀ name, step≠.key name) (h : lookupSteps value (front++[step])=some old) :
    ∃ places position items, namedPlaces value (front++[step])=some (places++[.index position]) ∧
      value.valueAt places=some (.array items) ∧
      (removeSteps value (front++[step])).valueAt places=some (.array (items.eraseIdx position)) ∧
      ∀ other, Apart other places →
        (removeSteps value (front++[step])).valueAt other=value.valueAt other := by
  obtain ⟨places,place,parent,hplaces,hlast,hold,hparent,hdropped,-,hothers⟩ := removeSteps_drops h
  have hindex : ∃ position, place=.index position := by
    cases step with
    | key name => exact absurd rfl (hstep name)
    | index position => exact ⟨position,(Option.some.inj hlast).symm⟩
    | fromEnd offset =>
      obtain ⟨items,-,hplace⟩ := Option.bind_eq_some_iff.mp hlast
      obtain ⟨-,hplace⟩ := Option.ite_none_right_eq_some.mp hplace
      exact ⟨_,(Option.some.inj hplace).symm⟩
    | append =>
      obtain ⟨items,-,hplace⟩ := Option.map_eq_some_iff.mp hlast
      exact ⟨_,hplace.symm⟩
  obtain ⟨position,rfl⟩ := hindex
  cases parent with
  | array items => exact ⟨places,position,items,hplaces,hparent,hdropped,hothers⟩
  | _ => cases hold

end Writes

/-! ## Edits -/

/-- A write does to a value what its path and its mode say. -/
structure WriteRight (serde : SerdeJson N) (value : JsonValue N) (path : List Char)
    (steps : List PathStep) (replacement : JsonValue N) (mode : JsonWriteMode)
    (written : JsonValue N) : Prop where
  others : ∀ places other, namedPlaces value steps=some places → Apart other places →
    written.valueAt other=value.valueAt other
  changed : ∀ old, jsonPathLookup serde value path=.ok (some old) → mode.changes=true →
    jsonPathLookup serde written path=.ok (some replacement)
  inserted : ∀ old, jsonPathLookup serde value path=.ok (some old) → mode=.insert →
    written=value
  replaced : jsonPathLookup serde value path=.ok none → mode=.replace → written=value
  added : jsonPathLookup serde value path=.ok none → mode.adds=true →
    written=value ∨ Grows value written ∧
      (∃ places, namedPlaces value steps=some places ∧
        written.valueAt places=some replacement) ∧
      (steps.all lasting=true → jsonPathLookup serde written path=.ok (some replacement))

/-- A removal takes out what its path leads to. `none` is left of the whole value. -/
structure RemoveRight (serde : SerdeJson N) (value : JsonValue N) (path : List Char)
    (steps : List PathStep) (removed : Option (JsonValue N)) : Prop where
  root : steps=[] → removed=none
  key : ∀ front name, steps=front++[.key name] → ∃ left, removed=some left ∧
    jsonPathLookup serde left path=.ok none ∧
    ∀ places other, namedPlaces value steps=some places → Apart other places →
      left.valueAt other=value.valueAt other
  item : ∀ front step, steps=front++[step] → (∀ name, step≠.key name) →
    ∃ left places position items, removed=some left ∧
      namedPlaces value steps=some (places++[.index position]) ∧
      value.valueAt places=some (.array items) ∧
      left.valueAt places=some (.array (items.eraseIdx position)) ∧
      ∀ other, Apart other places → left.valueAt other=value.valueAt other

section Texts

variable {serde : SerdeJson N} {value replacement : JsonValue N} {mode : JsonWriteMode}
  {text : List Char} {steps : List PathStep}

/-- `json_path_lookup` follows the steps of the path. -/
theorem jsonPathLookup_steps (htext : pathSteps serde text.length text=some steps)
    (value : JsonValue N) :
    jsonPathLookup serde value ('$' :: text)=.ok (lookupSteps value steps) :=
  jsonPathLookupFrom_steps htext value

/-- `json_write_value_step` writes at the steps of the path. -/
theorem jsonWriteValueStep_steps (htext : pathSteps serde text.length text=some steps)
    (hvalue : value.Sorted) (replacement : JsonValue N) (mode : JsonWriteMode) :
    jsonWriteValueStep serde value ('$' :: text) replacement mode=
      .ok (writeAt replacement mode value steps) := by
  have hnil := pathSteps_nil_iff htext
  unfold jsonWriteValueStep writeAt
  cases text with
  | nil => rw [if_pos rfl,if_pos (hnil.mp rfl)]
  | cons first text =>
    have hne : first :: text≠[] := List.cons_ne_nil _ _
    have hpath : '$' :: first :: text≠['$'] := fun h => hne (List.cons.inj h).2
    obtain ⟨created,hwrite⟩ := @jsonWritePathTail_steps N serde _ steps _ value replacement mode
      htext hne hvalue ""
    have hwritten : jsonWritePath serde value ('$' :: first :: text) replacement mode=
        .ok (writeSteps replacement mode value steps) := by
      rw [jsonWritePath,jsonWritePathWithCreatedKeys,hwrite]
      · rfl
      · exact hne
    rw [if_neg hpath,hwritten,if_neg fun h => hne (hnil.mpr h)]
    rfl

/-- `json_remove_value_step` removes what the steps lead to. -/
theorem jsonRemoveValueStep_steps (htext : pathSteps serde text.length text=some steps)
    (hvalue : value.Sorted) :
    jsonRemoveValueStep serde value ('$' :: text)=
      .ok (if steps=[] then none else some (removeSteps value steps)) := by
  have hnil := pathSteps_nil_iff htext
  unfold jsonRemoveValueStep
  cases text with
  | nil => rw [if_pos rfl,if_pos (hnil.mp rfl)]
  | cons first text =>
    have hne : first :: text≠[] := List.cons_ne_nil _ _
    have hpath : '$' :: first :: text≠['$'] := fun h => hne (List.cons.inj h).2
    have hremoved : jsonRemovePath serde value ('$' :: first :: text)=
        .ok (removeSteps value steps) := by
      rw [jsonRemovePath,jsonRemovePathTail_steps htext hne hvalue]
      exact hne
    rw [if_neg hpath,hremoved,if_neg fun h => hne (hnil.mpr h)]
    rfl

/-- A write is right when it replaces or makes nothing of another kind. -/
theorem writeRight_iff (htext : pathSteps serde text.length text=some steps)
    (hvalue : value.Sorted) :
    WriteRight serde value ('$' :: text) steps replacement mode
        (writeAt replacement mode value steps) ↔
      mode=.replace ∨ cleanWrite value steps=true := by
  have hlookup := jsonPathLookup_steps htext
  have hadds : mode.adds=true ↔ mode≠.replace := decide_eq_true_iff
  refine ⟨fun h => ?_,fun h => ⟨?_,?_,?_,?_,?_⟩⟩
  · by_cases hmode : mode=.replace
    · exact .inl hmode
    refine .inr (by_contra fun hclean => ?_)
    obtain ⟨hmissing,hchanged,hharm⟩ := @writeAt_harms N replacement value mode steps hvalue
      (hadds.mpr hmode) (Bool.not_eq_true _▸hclean)
    rcases h.added (by rw [hlookup,hmissing]) (hadds.mpr hmode) with hsame |
      ⟨hgrows,⟨places,hplaces,hwritten⟩,-⟩
    · exact hchanged hsame
    · exact hharm hgrows places hplaces hwritten
  · intro places other hplaces hother
    refine valueAt_writeAt_apart hvalue (fun hmode => ?_) hplaces hother
    exact h.resolve_left (hadds.mp hmode)
  · intro old hold hmode
    rw [hlookup] at hold ⊢
    rw [lookupSteps_writeAt hvalue (Except.ok.inj hold) hmode]
  · rintro old hold rfl
    rw [hlookup] at hold
    exact writeAt_insert hvalue (Except.ok.inj hold) rfl
  · rintro hmissing rfl
    rw [hlookup] at hmissing
    exact writeAt_replace hvalue (Except.ok.inj hmissing) rfl
  · intro hmissing hmode
    rw [hlookup] at hmissing
    have hclean := h.resolve_left (hadds.mp hmode)
    refine (writeAt_adds hvalue hmode hclean (Except.ok.inj hmissing)).imp_right fun h => ?_
    refine ⟨h.grows,h.named,fun hlasting => ?_⟩
    rw [hlookup,h.resolves hlasting]

/-- A removal of what is there is right. -/
theorem removeRight_steps (htext : pathSteps serde text.length text=some steps)
    {old : JsonValue N} (h : lookupSteps value steps=some old) :
    RemoveRight serde value ('$' :: text) steps
      (if steps=[] then none else some (removeSteps value steps)) := by
  refine ⟨fun hnil => if_pos hnil,?_,?_⟩
  · rintro front name rfl
    obtain ⟨hgone,hothers⟩ := removeSteps_key h
    refine ⟨_,if_neg (List.append_ne_nil_of_right_ne_nil _ (List.cons_ne_nil _ _)),?_,hothers⟩
    rw [jsonPathLookup_steps htext,hgone]
  · rintro front step rfl hstep
    obtain ⟨places,position,items,hplaces⟩ := removeSteps_index hstep h
    exact ⟨_,places,position,items,
      if_neg (List.append_ne_nil_of_right_ne_nil _ (List.cons_ne_nil _ _)),hplaces⟩

/-- `JSON_REPLACE` always, and `JSON_SET` and `JSON_INSERT` exactly where the write is clean, do
what the path says; `JSON_REMOVE` does so at every path that resolves. -/
theorem json_path_edits_iff (hvalue : value.Sorted)
    (htext : pathSteps serde text.length text=some steps) (replacement : JsonValue N)
    (mode : JsonWriteMode) :
    (∃ written, jsonWriteValueStep serde value ('$' :: text) replacement mode=.ok written ∧
      (WriteRight serde value ('$' :: text) steps replacement mode written ↔
        mode=.replace ∨ cleanWrite value steps=true)) ∧
    ∀ old, jsonPathLookup serde value ('$' :: text)=.ok (some old) →
      ∃ removed, jsonRemoveValueStep serde value ('$' :: text)=.ok removed ∧
        RemoveRight serde value ('$' :: text) steps removed := by
  refine ⟨⟨_,jsonWriteValueStep_steps htext hvalue replacement mode,writeRight_iff htext hvalue⟩,
    fun old hold => ⟨_,jsonRemoveValueStep_steps htext hvalue,?_⟩⟩
  rw [jsonPathLookup_steps htext] at hold
  exact removeRight_steps htext (Except.ok.inj hold)

end Texts

/-- `{"a":{"b":5}}`. -/
def nested : JsonValue (Fin 10) := .object [("a",.object [("b",.number 5)])]

/-- The example's keys are sorted. -/
theorem nested_sorted : nested.Sorted := by
  refine .object (List.pairwise_singleton _ _) fun field hfield => ?_
  rw [List.mem_singleton.mp hfield]
  refine .object (List.pairwise_singleton _ _) fun field hfield => ?_
  rw [List.mem_singleton.mp hfield]
  exact .number 5

/-- In `{"a":{"b":5}}` the path `$.a.c` is added. -/
theorem json_path_edits_iff_added :
    ∃ written, jsonWriteValueStep Jsonb.digits nested ['$', '.', 'a', '.', 'c'] (.number 1) .set=
        .ok written ∧
      WriteRight Jsonb.digits nested ['$', '.', 'a', '.', 'c'] [.key "a",.key "c"] (.number 1) .set
        written := by
  have htext : pathSteps Jsonb.digits ['.', 'a', '.', 'c'].length ['.', 'a', '.', 'c']=
      some [.key "a",.key "c"] := by
    rfl
  obtain ⟨⟨written,hwritten,hright⟩,-⟩ := json_path_edits_iff nested_sorted htext (.number 1) .set
  exact ⟨written,hwritten,hright.mpr (.inr rfl)⟩

/-- The 5 at `$.a.b` makes way for an object when `$.a.b.c` is set. -/
theorem scalar_overwritten :
    ∃ written, jsonWriteValueStep Jsonb.digits nested ['$', '.', 'a', '.', 'b', '.', 'c']
        (.number 1) .set=.ok written ∧
      ¬WriteRight Jsonb.digits nested ['$', '.', 'a', '.', 'b', '.', 'c']
        [.key "a",.key "b",.key "c"] (.number 1) .set written := by
  have htext : pathSteps Jsonb.digits ['.', 'a', '.', 'b', '.', 'c'].length
      ['.', 'a', '.', 'b', '.', 'c']=some [.key "a",.key "b",.key "c"] := by
    rfl
  refine ⟨_,jsonWriteValueStep_steps htext nested_sorted _ _,fun h => ?_⟩
  rcases (writeRight_iff htext nested_sorted).mp h with hmode | hclean
  · cases hmode
  · cases hclean

end RustSql.Sql
