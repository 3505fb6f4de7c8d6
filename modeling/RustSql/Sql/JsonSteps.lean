import RustSql.Base.JsonPlaces
import RustSql.Sql.JsonPaths

/-!
# Paths step by step

A path of keys and indexes is a list of steps, and each of the walks over its text is a recursion
over the steps.
-/

namespace RustSql.Sql

open JsonValue
open Jsonb (objectKeyPath arrayIndexPath)

variable {N : Type}

/-! ## Steps -/

/-- A key, an index from the front, an index from the end, or the place behind the last item. -/
inductive PathStep where
  | key (name : String)
  | index (position : ℕ)
  | fromEnd (offset : ℕ)
  | append
  deriving DecidableEq

/-- The step that brackets stand for. -/
def indexStep (token : List Char) : Option PathStep :=
  if token=['#'] then some .append
  else
    match token with
    | '#' :: '-' :: tail => (parseUsize tail).map PathStep.fromEnd
    | _ => (parseUsize token).map PathStep.index

/-- The step at the front of a path. -/
def headStep : PathHead → Option PathStep
  | .key name => some (.key name)
  | .index token => indexStep token

/-- The steps of a path of keys and indexes. -/
def pathSteps (serde : SerdeJson N) : ℕ → List Char → Option (List PathStep)
  | _, [] => some []
  | 0, _ => none
  | fuel+1, remaining =>
    match pathHead serde remaining with
    | .error _ => none
    | .ok (head,tail) => do
      let step ← headStep head
      let steps ← pathSteps serde fuel tail
      some (step :: steps)

/-- The place that a step leads to. -/
def stepPlace (value : JsonValue N) : PathStep → Option JsonPlace
  | .key name => some (.key name)
  | .index position => some (.index position)
  | .fromEnd offset =>
    (jsonItems value).bind fun items =>
      if offset ≤ items.length then some (.index (items.length-offset)) else none
  | .append => (jsonItems value).map fun items => .index items.length

/-- What a step can lead into, before there is anything. -/
def containerFor : List PathStep → JsonValue N
  | [] => .object []
  | .key _ :: _ => .object []
  | _ => .array []

/-! ## The walks -/

/-- Look up, step by step. -/
def lookupSteps : JsonValue N → List PathStep → Option (JsonValue N)
  | value, [] => some value
  | value, step :: steps =>
    ((stepPlace value step).bind (child value)).bind fun next => lookupSteps next steps

/-- A value is taken out of the one around it. -/
def dropChild : JsonValue N → JsonPlace → JsonValue N
  | .object fields, .key name => .object (removeField name fields)
  | .array items, .index position => .array (items.eraseIdx position)
  | whole, _ => whole

/-- Remove, step by step. -/
def removeSteps : JsonValue N → List PathStep → JsonValue N
  | value, [] => value
  | value, step :: steps =>
    match stepPlace value step with
    | none => value
    | some place =>
      if steps=[] then dropChild value place
      else
        match child value place with
        | none => value
        | some next => putChild value place (removeSteps next steps)

/-- What a step writes into: where something is added, any value makes way for an object. -/
def writable (mode : JsonWriteMode) (value : JsonValue N) : PathStep → Option (JsonValue N)
  | .key _ => (writableFields mode value).map .object
  | _ => some value

/-- Write, step by step. -/
def writeSteps (replacement : JsonValue N) (mode : JsonWriteMode) :
    JsonValue N → List PathStep → JsonValue N
  | _, [] => replacement
  | value, step :: steps =>
    match writable mode value step with
    | none => value
    | some container =>
      match stepPlace container step with
      | none => value
      | some place =>
        match child container place with
        | some next =>
          if steps=[] then if mode.changes then putChild container place replacement else container
          else putChild container place (writeSteps replacement mode next steps)
        | none =>
          if mode.adds && hasRoom container place then
            putChild container place (writeSteps replacement mode (containerFor steps) steps)
          else container

/-! ## The texts -/

section Texts

variable {serde : SerdeJson N} {head : PathHead} {remaining tail token : List Char}
  {step : PathStep} {steps : List PathStep} {fuel : ℕ} {value : JsonValue N}

/-- A path has a first step and a rest. -/
theorem pathSteps_inv (h : pathSteps serde (fuel+1) remaining=some steps) (hne : remaining≠[]) :
    ∃ head tail step rest, pathHead serde remaining=.ok (head,tail) ∧
      headStep head=some step ∧ pathSteps serde fuel tail=some rest ∧ steps=step :: rest := by
  cases remaining with
  | nil => exact absurd rfl hne
  | cons first remaining =>
    simp only [pathSteps] at h
    cases hhead : pathHead serde (first :: remaining) with
    | error error =>
      rw [hhead] at h
      cases h
    | ok found =>
      rw [hhead] at h
      obtain ⟨step,hstep,h⟩ := Option.bind_eq_some_iff.mp h
      obtain ⟨rest,hrest,h⟩ := Option.bind_eq_some_iff.mp h
      exact ⟨found.1,found.2,step,rest,rfl,hstep,hrest,(Option.some.inj h).symm⟩

/-! ### Indexes -/

/-- The index that brackets stand for, other than the place behind the last item. -/
def stepIndex (value : JsonValue N) : PathStep → Option ℕ
  | .index position => some position
  | .fromEnd offset =>
    (jsonItems value).bind fun items =>
      if offset ≤ items.length then some (items.length-offset) else none
  | _ => none

/-- A quoted text is no number. -/
theorem parseUsize_quote (rest : List Char) : parseUsize ('"' :: rest)=none := by
  have hsign : ('"' :: rest).head?≠some '+' := by
    rw [List.head?_cons]
    decide
  have hdigit : ('"' :: rest).any (fun digit => !digit.isDigit)=true := by
    rw [List.any_cons]
    exact Bool.or_eq_true_iff.mpr (.inl (by decide))
  unfold parseUsize
  rw [if_neg hsign]
  exact if_pos (.inr hdigit)

/-- Nor is it an index. -/
theorem indexStep_quote {rest : List Char} : indexStep ('"' :: rest)=none := by
  have hother : ('"' :: rest)≠['#'] := by
    intro h
    exact absurd (List.cons.inj h).1 (by decide)
  unfold indexStep
  rw [if_neg hother]
  change (parseUsize ('"' :: rest)).map PathStep.index=none
  rw [parseUsize_quote]
  rfl

/-- The end, a place from the end, or a place. -/
theorem indexStep_cases (h : indexStep token=some step) :
    (token=['#'] ∧ step=.append) ∨
      (token≠['#'] ∧ ∃ tail offset, token= '#' :: '-' :: tail ∧ parseUsize tail=some offset ∧
        step=.fromEnd offset) ∨
      (token≠['#'] ∧ (∀ tail, token≠ '#' :: '-' :: tail) ∧
        ∃ position, parseUsize token=some position ∧ step=.index position) := by
  unfold indexStep at h
  by_cases hend : token=['#']
  · rw [if_pos hend] at h
    exact .inl ⟨hend,(Option.some.inj h).symm⟩
  · rw [if_neg hend] at h
    split at h
    · next tail =>
      obtain ⟨offset,hoffset,rfl⟩ := Option.map_eq_some_iff.mp h
      exact .inr (.inl ⟨hend,tail,offset,rfl,hoffset,rfl⟩)
    · next hother =>
      obtain ⟨position,hposition,rfl⟩ := Option.map_eq_some_iff.mp h
      exact .inr (.inr ⟨hend,hother,position,hposition,rfl⟩)

/-- `json_path_array_index` is what the step finds. -/
theorem jsonPathArrayIndex_step (h : indexStep token=some step) (value : JsonValue N) :
    jsonPathArrayIndex serde value token=.ok (stepIndex value step) := by
  have hquote : token.head?≠some '"' := by
    intro hhead
    cases token with
    | nil => cases hhead
    | cons first rest =>
      obtain rfl := Option.some.inj hhead
      rw [indexStep_quote] at h
      cases h
  unfold jsonPathArrayIndex
  rcases indexStep_cases h with ⟨rfl,rfl⟩ | ⟨hend,tail,offset,rfl,hoffset,rfl⟩ |
    ⟨hend,hother,position,hposition,rfl⟩
  · rfl
  · rw [if_neg hend,if_neg fun hboth => hquote hboth.1]
    simp only [hoffset,stepIndex]
    cases jsonItems value <;> rfl
  · rw [if_neg hend,if_neg fun hboth => hquote hboth.1]
    split
    · next tail => exact absurd rfl (hother tail)
    · rw [hposition]
      rfl

/-- The place of an index, where a write may add an item. -/
theorem stepPlace_index (h : indexStep token=some step) (value : JsonValue N) :
    stepPlace value step=
      (if token=['#'] then (jsonItems value).map List.length else stepIndex value step).map
        JsonPlace.index := by
  rcases indexStep_cases h with ⟨rfl,rfl⟩ | ⟨hend,tail,offset,rfl,hoffset,rfl⟩ |
    ⟨hend,hother,position,hposition,rfl⟩
  · rw [if_pos rfl,stepPlace]
    cases jsonItems value <;> rfl
  · rw [if_neg hend,stepPlace,stepIndex]
    cases jsonItems value with
    | none => rfl
    | some items =>
      simp only [Option.bind_some]
      split <;> rfl
  · rw [if_neg hend]
    rfl

/-- The child at a key. -/
theorem child_key (value : JsonValue N) (name : String) :
    child value (.key name)=value.fields.lookup name := by
  cases value <;> rfl

/-- The child at an index. -/
theorem child_index (value : JsonValue N) (position : ℕ) :
    child value (.index position)=(jsonItems value).bind fun items => items[position]? := by
  cases value <;> rfl

/-- No value stands behind the last item. -/
theorem stepIndex_child (h : indexStep token=some step) (value : JsonValue N) :
    ((stepIndex value step).bind fun index => (jsonItems value).bind fun items => items[index]?)=
      (stepPlace value step).bind (child value) := by
  rw [stepPlace_index h,Option.bind_map]
  by_cases hend : token=['#']
  · rcases indexStep_cases h with ⟨-,rfl⟩ | ⟨hne,-⟩ | ⟨hne,-⟩
    · rw [if_pos hend]
      cases hitems : jsonItems value with
      | none => rfl
      | some items =>
        change none=child value (.index items.length)
        rw [child_index,hitems,Option.bind_some,List.getElem?_eq_none le_rfl]
    · exact absurd hend hne
    · exact absurd hend hne
  · rw [if_neg hend]
    refine congrArg _ (funext fun position => ?_)
    exact (child_index value position).symm

/-! ### Looking up -/

/-- The loop follows the steps. -/
theorem jsonPathLookupFrom_steps (h : pathSteps serde fuel remaining=some steps)
    (value : JsonValue N) :
    jsonPathLookupFrom serde fuel value remaining=.ok (lookupSteps value steps) := by
  induction fuel generalizing remaining steps value with
  | zero =>
    cases remaining with
    | nil =>
      obtain rfl := Option.some.inj h
      rfl
    | cons first remaining => cases h
  | succ fuel ih =>
    by_cases hne : remaining=[]
    · subst hne
      obtain rfl := Option.some.inj h
      rfl
    obtain ⟨head,tail,step,rest,hhead,hstep,hrest,rfl⟩ := pathSteps_inv h hne
    have hwalk : ∀ found : Option (JsonValue N), (match found with
        | none => Except.ok none
        | some next => jsonPathLookupFrom serde fuel next tail)=
          .ok (found.bind fun next => lookupSteps next rest) := by
      intro found
      cases found with
      | none => rfl
      | some next => exact ih hrest next
    rw [jsonPathLookupFrom,hhead]
    · cases head with
      | key name =>
        obtain rfl := Option.some.inj hstep
        refine (hwalk (value.fields.lookup name)).trans ?_
        rw [lookupSteps,stepPlace,Option.bind_some,child_key]
      | index token =>
        simp only [bind,Except.bind,jsonPathArrayIndex_step hstep]
        refine (hwalk _).trans ?_
        rw [stepIndex_child hstep,lookupSteps]
    · exact hne

/-! ### Removing -/

/-- A field that is not there is not set. -/
theorem setField_fresh {fields : List (String × JsonValue N)} {name : String}
    (h : ∀ field∈fields, field.1≠name) (value : JsonValue N) : setField name value fields=fields := by
  have hsame : ∀ field∈fields, (if field.1=name then (name,value) else field)=field :=
    fun field hfield => if_neg (h field hfield)
  unfold setField
  rw [List.map_congr_left hsame,List.map_id']

/-- A field that is there is replaced. -/
theorem setField_eq_insertField {fields : List (String × JsonValue N)} {name : String}
    {old : JsonValue N} (h : FieldsSorted fields) (hold : fields.lookup name=some old)
    (value : JsonValue N) : setField name value fields=insertField name value fields := by
  induction fields with
  | nil => cases hold
  | cons field fields ih =>
    obtain ⟨hfirst,hrest⟩ := List.pairwise_cons.mp h
    rw [setField,List.map_cons,insertField]
    by_cases hname : name=field.1
    · rw [if_pos hname.symm,if_neg (fun hlt => hlt.ne hname),if_pos hname]
      refine congrArg _ (setField_fresh (fun other hother => ?_) value)
      rw [hname]
      exact (hfirst other hother).ne'
    · rw [List.lookup_cons,beq_eq_false_iff_ne.mpr hname] at hold
      have hlt := hfirst _ (mem_of_lookup hold)
      rw [if_neg (Ne.symm hname),if_neg hlt.not_gt,if_neg hname]
      exact congrArg _ (ih hrest hold)

/-- Only the empty path has no steps. -/
theorem pathSteps_nil_iff (h : pathSteps serde fuel remaining=some steps) :
    remaining=[] ↔ steps=[] := by
  cases remaining with
  | nil =>
    rw [pathSteps] at h
    exact ⟨fun _ => (Option.some.inj h).symm,fun _ => rfl⟩
  | cons first remaining =>
    cases fuel with
    | zero => cases h
    | succ fuel =>
      obtain ⟨_,_,_,_,_,_,_,rfl⟩ := pathSteps_inv h (List.cons_ne_nil _ _)
      exact ⟨fun hnil => absurd hnil (List.cons_ne_nil _ _),
        fun hnil => absurd hnil (List.cons_ne_nil _ _)⟩

/-- A removal follows the steps. -/
theorem jsonRemovePathTail_steps (h : pathSteps serde fuel remaining=some steps)
    (hne : remaining≠[]) (hvalue : value.Sorted) :
    jsonRemovePathTail serde fuel value remaining=.ok (removeSteps value steps) := by
  induction fuel generalizing remaining steps value with
  | zero =>
    cases remaining with
    | nil => exact absurd rfl hne
    | cons first remaining => cases h
  | succ fuel ih =>
    obtain ⟨head,tail,step,rest,hhead,hstep,hrest,rfl⟩ := pathSteps_inv h hne
    have hend := pathSteps_nil_iff hrest
    simp only [jsonRemovePathTail,hhead,bind,Except.bind]
    cases head with
    | key name =>
      obtain rfl := Option.some.inj hstep
      simp only [removeSteps,stepPlace]
      cases value with
      | object fields =>
        by_cases htail : tail=[]
        · simp only [htail,hend.mp htail,if_true]
          rfl
        · simp only [if_neg htail,if_neg fun hnil => htail (hend.mpr hnil)]
          cases hlookup : fields.lookup name with
          | none =>
            have hchild : child (.object fields) (.key name)=none := hlookup
            rw [hchild]
          | some next =>
            have hchild : child (.object fields) (.key name)=some next := hlookup
            rw [hchild]
            simp only [ih hrest htail (hvalue.child hchild)]
            have hfields : FieldsSorted fields := hvalue.fields
            rw [setField_eq_insertField hfields hlookup]
            rfl
      | _ => by_cases hnil : rest=[] <;> simp [hnil,dropChild,child]
    | index token =>
      have hplace := stepPlace_index hstep value
      simp only [jsonPathArrayIndex_step hstep,removeSteps,hplace]
      by_cases hhash : token=['#']
      · rcases indexStep_cases hstep with ⟨-,rfl⟩ | ⟨hother,-⟩ | ⟨hother,-⟩
        · rw [if_pos hhash]
          cases value with
          | array items =>
            have hchild : child (.array items) (.index items.length)=none :=
              List.getElem?_eq_none le_rfl
            have hdrop : dropChild (.array items) (.index items.length)=.array items :=
              congrArg array (List.eraseIdx_of_length_le le_rfl)
            change Except.ok (array items)=.ok (if rest=[] then _ else
              match child (.array items) (.index items.length) with
              | none => array items
              | some next => _)
            rw [hdrop,hchild]
            simp only [ite_self]
          | _ => rfl
        · exact absurd hhash hother
        · exact absurd hhash hother
      · rw [if_neg hhash]
        cases stepIndex value step with
        | none => rfl
        | some index =>
          simp only [Option.map_some]
          cases value with
          | array items =>
            by_cases htail : tail=[]
            · simp only [htail,hend.mp htail,if_true]
              rfl
            · simp only [if_neg htail,if_neg fun hnil => htail (hend.mpr hnil)]
              cases hitem : items[index]? with
              | none =>
                have hchild : child (.array items) (.index index)=none := hitem
                rw [hchild]
              | some next =>
                have hchild : child (.array items) (.index index)=some next := hitem
                obtain ⟨hlt,-⟩ := List.getElem?_eq_some_iff.mp hitem
                rw [hchild]
                simp only [ih hrest htail (hvalue.child hchild)]
                rw [putChild,if_pos hlt]
          | _ => by_cases hnil : rest=[] <;> simp [hnil,dropChild,child]

/-! ### Writing -/

/-- A dot begins a key and a bracket an index. -/
theorem pathHead_first (h : pathHead serde remaining=.ok (head,tail)) :
    (∃ name, head=.key name ∧ remaining.head?=some '.') ∨
      ∃ token, head=.index token ∧ remaining.head?=some '[' := by
  unfold pathHead at h
  split at h
  · obtain ⟨found,-,hfound⟩ := except_bind_ok h
    have hhead := congrArg Prod.fst (Except.ok.inj hfound)
    exact .inl ⟨found.1,hhead.symm,rfl⟩
  · split at h
    · have hhead := congrArg Prod.fst (Except.ok.inj h)
      exact .inr ⟨_,hhead.symm,rfl⟩
    · cases h
  · cases h

/-- The container made for a rest of a path. -/
theorem containerFor_text (h : pathSteps serde fuel remaining=some steps) (hne : remaining≠[]) :
    (jsonContainerForPathTail remaining : JsonValue N)=containerFor steps := by
  cases fuel with
  | zero =>
    cases remaining with
    | nil => exact absurd rfl hne
    | cons first remaining => cases h
  | succ fuel =>
    obtain ⟨head,tail,step,rest,hhead,hstep,-,rfl⟩ := pathSteps_inv h hne
    unfold jsonContainerForPathTail
    rcases pathHead_first hhead with ⟨name,rfl,hfirst⟩ | ⟨token,rfl,hfirst⟩
    · obtain rfl := Option.some.inj hstep
      rw [hfirst,if_neg (by decide)]
      rfl
    · rw [hfirst,if_pos rfl]
      rcases indexStep_cases hstep with ⟨-,rfl⟩ | ⟨-,_,_,-,-,rfl⟩ | ⟨-,-,_,-,rfl⟩
      · rfl
      · rfl
      · rfl

/-- Its keys are sorted. -/
theorem containerFor_sorted (steps : List PathStep) : (containerFor steps : JsonValue N).Sorted := by
  have hobject : (object [] : JsonValue N).Sorted :=
    .object .nil fun field hfield => absurd hfield List.not_mem_nil
  have harray : (array [] : JsonValue N).Sorted :=
    .array fun item hitem => absurd hitem List.not_mem_nil
  cases steps with
  | nil => exact hobject
  | cons step steps => cases step <;> assumption

/-- A write ends with the path, or goes on with the rest of it. -/
theorem write_rest {replacement written : JsonValue N}
    {call : Except DbError (JsonValue N × List String)} (result : JsonValue N → JsonValue N)
    (keys : List String → List String) (hdone : tail=[] → written=replacement)
    (h : tail≠[] → ∃ created, call=.ok (written,created)) :
    ∃ created, (if tail=[] then (.ok (result replacement,keys []) : Except DbError _)
      else do
        let (next,created) ← call
        .ok (result next,keys created))=.ok (result written,created) := by
  by_cases hnil : tail=[]
  · rw [if_pos hnil,hdone hnil]
    exact ⟨_,rfl⟩
  · obtain ⟨created,hwrite⟩ := h hnil
    rw [if_neg hnil,hwrite]
    exact ⟨_,rfl⟩

/-- Fields to be written are sorted. -/
theorem writableFields_sorted {mode : JsonWriteMode} {fields : List (String × JsonValue N)}
    (hvalue : value.Sorted) (h : writableFields mode value=some fields) :
    (object fields).Sorted := by
  have hempty : (if mode.adds=true then some [] else none)=some fields → (object fields).Sorted := by
    intro h
    obtain ⟨-,h⟩ := Option.ite_none_right_eq_some.mp h
    obtain rfl := Option.some.inj h
    exact .object .nil fun field hfield => absurd hfield List.not_mem_nil
  cases value with
  | object members =>
    obtain rfl := Option.some.inj h
    exact hvalue
  | _ => exact hempty h

/-- The rest of a path is written as its steps are: into the value there, or into a new one. -/
structure RestWrites (serde : SerdeJson N) (replacement : JsonValue N) (mode : JsonWriteMode)
    (fuel : ℕ) (tail : List Char) (rest : List PathStep) : Prop where
  ends : tail=[] ↔ rest=[]
  fresh (path : String) : tail≠[] → ∃ created,
    jsonWritePathTail serde replacement mode fuel (jsonContainerForPathTail tail) tail path=
      .ok (writeSteps replacement mode (containerFor rest) rest,created)
  deeper {next : JsonValue N} (path : String) : next.Sorted → tail≠[] → ∃ created,
    jsonWritePathTail serde replacement mode fuel next tail path=
      .ok (writeSteps replacement mode next rest,created)

namespace RestWrites

variable {replacement : JsonValue N} {mode : JsonWriteMode} {rest : List PathStep}

/-- Where the path ends, the replacement is written. -/
theorem done (h : RestWrites serde replacement mode fuel tail rest) (next : JsonValue N)
    (htail : tail=[]) : writeSteps replacement mode next rest=replacement := by
  rw [h.ends.mp htail,writeSteps]

/-- A write at a key. -/
theorem key (h : RestWrites serde replacement mode fuel tail rest) {name : String}
    (hhead : pathHead serde remaining=.ok (.key name,tail)) (hvalue : value.Sorted)
    (path : String) : ∃ created,
    jsonWritePathTail serde replacement mode (fuel+1) value remaining path=
      .ok (writeSteps replacement mode value (.key name :: rest),created) := by
  simp only [jsonWritePathTail,hhead,bind,Except.bind,writeSteps,writable,stepPlace]
  cases hwritable : writableFields mode value with
  | none => exact ⟨_,rfl⟩
  | some fields =>
    have hsorted := writableFields_sorted hvalue hwritable
    simp only [Option.map_some]
    cases hlookup : fields.lookup name with
    | none =>
      have hchild : child (.object fields) (.key name)=none := hlookup
      rw [hchild]
      cases mode.adds with
      | false => exact ⟨_,rfl⟩
      | true =>
        exact write_rest (fun next => .object (insertField name next fields))
          (fun created => objectKeyPath path name :: created) (h.done _) (h.fresh _)
    | some next =>
      have hchild : child (.object fields) (.key name)=some next := hlookup
      have hfields : FieldsSorted fields := hsorted.fields
      rw [hchild]
      by_cases htail : tail=[]
      · simp only [htail,h.ends.mp htail,if_true]
        cases mode.changes <;> exact ⟨_,rfl⟩
      · obtain ⟨created,hwrite⟩ := h.deeper (objectKeyPath path name) (hsorted.child hchild) htail
        simp only [if_neg htail,if_neg fun hnil => htail (h.ends.mpr hnil),hwrite]
        rw [setField_eq_insertField hfields hlookup]
        exact ⟨_,rfl⟩

variable {token : List Char} {step : PathStep} {items : List (JsonValue N)} {index : ℕ}

/-- A write behind the last item of an array. -/
theorem last (h : RestWrites serde replacement mode fuel tail rest)
    (hhead : pathHead serde remaining=.ok (.index token,tail))
    (hindex : jsonWriteIndex serde (.array items) token=.ok (some items.length))
    (hwritable : writable mode (.array items) step=some (.array items))
    (hplace : stepPlace (.array items) step=some (.index items.length)) (path : String) :
    ∃ created, jsonWritePathTail serde replacement mode (fuel+1) (.array items) remaining path=
      .ok (writeSteps replacement mode (.array items) (step :: rest),created) := by
  have hchild : child (.array items) (.index items.length)=none :=
    List.getElem?_eq_none le_rfl
  have hroom : hasRoom (.array items) (.index items.length)=true := decide_eq_true le_rfl
  have hput : ∀ next : JsonValue N,
      putChild (.array items) (.index items.length) next=.array (items++[next]) := by
    intro next
    rw [putChild,if_neg (Nat.lt_irrefl _)]
  simp only [jsonWritePathTail,hhead,bind,Except.bind,hindex,writeSteps,hwritable,hplace,hchild,
    if_true,hroom,Bool.and_true,hput]
  cases mode.adds with
  | false => exact ⟨_,rfl⟩
  | true =>
    exact write_rest (fun next => .array (items++[next])) (fun created => created) (h.done _)
      (h.fresh _)

/-- A write at another index of an array. -/
theorem item (h : RestWrites serde replacement mode fuel tail rest)
    (hhead : pathHead serde remaining=.ok (.index token,tail))
    (hindex : jsonWriteIndex serde (.array items) token=.ok (some index))
    (hwritable : writable mode (.array items) step=some (.array items))
    (hplace : stepPlace (.array items) step=some (.index index)) (hvalue : (array items).Sorted)
    (hlast : index≠items.length) (path : String) :
    ∃ created, jsonWritePathTail serde replacement mode (fuel+1) (.array items) remaining path=
      .ok (writeSteps replacement mode (.array items) (step :: rest),created) := by
  simp only [jsonWritePathTail,hhead,bind,Except.bind,hindex,writeSteps,hwritable,hplace,
    if_neg hlast]
  cases hitem : items[index]? with
  | none =>
    have hchild : child (.array items) (.index index)=none := hitem
    have hlong := List.getElem?_eq_none_iff.mp hitem
    have hroom : hasRoom (.array items) (.index index)=false := decide_eq_false (by omega)
    rw [hchild]
    simp only [hroom,Bool.and_false]
    exact ⟨_,rfl⟩
  | some next =>
    have hchild : child (.array items) (.index index)=some next := hitem
    obtain ⟨hlt,-⟩ := List.getElem?_eq_some_iff.mp hitem
    have hput : ∀ next : JsonValue N,
        putChild (.array items) (.index index) next=.array (items.set index next) := by
      intro next
      rw [putChild,if_pos hlt]
    rw [hchild]
    simp only [hput]
    by_cases htail : tail=[]
    · simp only [htail,h.ends.mp htail,if_true]
      cases mode.changes <;> exact ⟨_,rfl⟩
    · obtain ⟨created,hwrite⟩ := h.deeper (arrayIndexPath path index) (hvalue.child hchild) htail
      simp only [if_neg htail,if_neg fun hnil => htail (h.ends.mpr hnil),hwrite]
      exact ⟨_,rfl⟩

/-- A write at an index. -/
theorem place (h : RestWrites serde replacement mode fuel tail rest)
    (hhead : pathHead serde remaining=.ok (.index token,tail)) (hstep : indexStep token=some step)
    (hvalue : value.Sorted) (path : String) : ∃ created,
    jsonWritePathTail serde replacement mode (fuel+1) value remaining path=
      .ok (writeSteps replacement mode value (step :: rest),created) := by
  have hplace := stepPlace_index hstep value
  have hwritable : writable mode value step=some value := by
    rcases indexStep_cases hstep with ⟨-,rfl⟩ | ⟨-,_,_,-,-,rfl⟩ | ⟨-,-,_,-,rfl⟩ <;> rfl
  have hindex : jsonWriteIndex serde value token=
      .ok (if token=['#'] then (jsonItems value).map List.length else stepIndex value step) := by
    unfold jsonWriteIndex
    split
    · rfl
    · exact jsonPathArrayIndex_step hstep value
  cases hfound : (if token=['#'] then (jsonItems value).map List.length
      else stepIndex value step) with
  | none =>
    rw [hfound] at hplace hindex
    simp only [jsonWritePathTail,hhead,bind,Except.bind,hindex,writeSteps,hwritable,hplace]
    exact ⟨_,rfl⟩
  | some index =>
    rw [hfound] at hplace hindex
    cases value with
    | array items =>
      by_cases hlast : index=items.length
      · subst hlast
        exact h.last hhead hindex hwritable hplace path
      · exact h.item hhead hindex hwritable hplace hvalue hlast path
    | _ =>
      simp only [jsonWritePathTail,hhead,bind,Except.bind,hindex,writeSteps,hwritable,hplace,
        Option.map_some,child,hasRoom,Bool.and_false]
      exact ⟨_,rfl⟩

end RestWrites

/-- A path is written as its steps are, by induction on the steps left: each writes the rest of
the path below it. -/
theorem jsonWritePathTail_steps {replacement : JsonValue N} {mode : JsonWriteMode}
    (h : pathSteps serde fuel remaining=some steps) (hne : remaining≠[])
    (hvalue : value.Sorted) (path : String) :
    ∃ created, jsonWritePathTail serde replacement mode fuel value remaining path=
      .ok (writeSteps replacement mode value steps,created) := by
  induction fuel generalizing remaining steps value path with
  | zero =>
    cases remaining with
    | nil => exact absurd rfl hne
    | cons first remaining => cases h
  | succ fuel ih =>
    obtain ⟨head,tail,step,rest,hhead,hstep,hrest,rfl⟩ := pathSteps_inv h hne
    have hwrites : RestWrites serde replacement mode fuel tail rest := by
      refine ⟨pathSteps_nil_iff hrest,fun path htail => ?_,fun path hnext htail =>
        ih hrest htail hnext path⟩
      have hcontainer : (jsonContainerForPathTail tail : JsonValue N)=containerFor rest :=
        containerFor_text hrest htail
      rw [hcontainer]
      exact ih hrest htail (containerFor_sorted rest) path
    cases head with
    | key name =>
      obtain rfl := Option.some.inj hstep
      exact hwrites.key hhead hvalue path
    | index token => exact hwrites.place hhead hstep hvalue path

end Texts

end RustSql.Sql
