import RustSql.Base.Panics

/-!
# Texts and byte positions

A text is a list of characters; a position in it counts the bytes before it in UTF-8. A
slice at a position that is not between two characters, or not in the text, panics.
-/

namespace RustSql.Text

variable {text front rest : List Char} {n : ℕ}

/-- `str::len`. -/
def len : List Char → ℕ
  | [] => 0
  | char :: text => char.utf8Size+len text

/-- `&text[start..]`. -/
def sliceFrom : List Char → ℕ → Outcome (List Char)
  | text, 0 => .ok text
  | [], _+1 => .stuck
  | char :: text, n+1 =>
    if char.utf8Size ≤ n+1 then sliceFrom text (n+1-char.utf8Size) else .stuck

/-- `&text[..stop]`. -/
def sliceTo : List Char → ℕ → Outcome (List Char)
  | _, 0 => .ok []
  | [], _+1 => .stuck
  | char :: text, n+1 =>
    if char.utf8Size ≤ n+1 then do
      let front ← sliceTo text (n+1-char.utf8Size)
      .ok (char :: front)
    else .stuck

/-- `&text[start..stop]`. -/
def slice (text : List Char) (start stop : ℕ) : Outcome (List Char) := do
  let front ← sliceTo text stop
  sliceFrom front start

/-- `str::find`: the position of the first place where the needle stands. -/
def find (needle : List Char) : List Char → Option ℕ
  | [] => if needle=[] then some 0 else none
  | char :: text =>
    if needle.isPrefixOf (char :: text) then some 0
    else (find needle text).map (· + char.utf8Size)

/-- The position is between two characters of the text. -/
def Boundary (text : List Char) (n : ℕ) : Prop :=
  ∃ front rest, text=front++rest ∧ len front=n

@[simp] theorem len_nil : len []=0 := rfl

@[simp] theorem len_cons (char : Char) (text : List Char) :
    len (char :: text)=char.utf8Size+len text := rfl

/-- Lengths in bytes add up. -/
@[simp] theorem len_append (front rest : List Char) : len (front++rest)=len front+len rest := by
  induction front with
  | nil => simp
  | cons char front ih => rw [List.cons_append,len_cons,len_cons,ih,Nat.add_assoc]

/-- Every character takes a byte. -/
theorem length_le_len (text : List Char) : text.length ≤ len text := by
  induction text with
  | nil => exact Nat.le_refl _
  | cons char text ih =>
    have hsize := char.utf8Size_pos
    rw [List.length_cons,len_cons]
    omega

/-! ## Boundaries -/

/-- The start is a boundary. -/
theorem boundary_zero (text : List Char) : Boundary text 0 := ⟨[],text,rfl,rfl⟩

/-- No boundary is behind the end. -/
theorem Boundary.le_len (h : Boundary text n) : n ≤ len text := by
  obtain ⟨front,rest,htext,hlen⟩ := h
  rw [htext,len_append,←hlen]
  omega

/-- Boundaries behind the first character are boundaries of what follows it. -/
theorem boundary_cons {char : Char} : Boundary (char :: text) (n+1) ↔
    char.utf8Size ≤ n+1 ∧ Boundary text (n+1-char.utf8Size) := by
  constructor
  · rintro ⟨front,rest,htext,hlen⟩
    cases front with
    | nil => cases hlen
    | cons first front =>
      obtain ⟨hfirst,htext⟩ := List.cons.inj htext
      rw [len_cons,←hfirst] at hlen
      exact ⟨by omega,front,rest,htext,by omega⟩
  · rintro ⟨hsize,front,rest,htext,hlen⟩
    refine ⟨char :: front,rest,by rw [htext,List.cons_append],?_⟩
    rw [len_cons]
    omega

/-! ## Slices -/

/-- The rest of a text. -/
theorem sliceFrom_append (front rest : List Char) :
    sliceFrom (front++rest) (len front)=.ok rest := by
  induction front with
  | nil =>
    cases rest with
    | nil => rfl
    | cons char rest => rfl
  | cons char front ih =>
    have hsize := char.utf8Size_pos
    obtain ⟨n,hn⟩ : ∃ n, len (char :: front)=n+1 := ⟨len (char :: front)-1,by simp; omega⟩
    rw [len_cons] at hn
    rw [List.cons_append,len_cons,hn,sliceFrom,if_pos (by omega),←hn,Nat.add_sub_cancel_left,ih]

/-- The front of a text. -/
theorem sliceTo_append (front rest : List Char) :
    sliceTo (front++rest) (len front)=.ok front := by
  induction front with
  | nil =>
    cases rest with
    | nil => rfl
    | cons char rest => rfl
  | cons char front ih =>
    have hsize := char.utf8Size_pos
    obtain ⟨n,hn⟩ : ∃ n, len (char :: front)=n+1 := ⟨len (char :: front)-1,by simp; omega⟩
    rw [len_cons] at hn
    rw [List.cons_append,len_cons,hn,sliceTo,if_pos (by omega),←hn,Nat.add_sub_cancel_left,ih]
    rfl

/-- What stands between two boundaries. -/
theorem slice_append (front middle rest : List Char) :
    slice (front++middle++rest) (len front) (len (front++middle))=.ok middle := by
  rw [slice,sliceTo_append,Outcome.bind_ok,sliceFrom_append]

/-! ## What stands behind a boundary -/

/-- The rest of the text stands at the position. -/
def At (text : List Char) (n : ℕ) (rest : List Char) : Prop :=
  ∃ front, text=front++rest ∧ len front=n

/-- All of the text is ahead at the start. -/
theorem at_zero (text : List Char) : At text 0 text := ⟨[],rfl,rfl⟩

/-- What is ahead is the slice from there. -/
theorem At.sliceFrom (h : At text n rest) : sliceFrom text n=.ok rest := by
  obtain ⟨front,htext,hlen⟩ := h
  rw [htext,←hlen,sliceFrom_append]

/-- A place in the text is a boundary. -/
theorem At.boundary (h : At text n rest) : Boundary text n := by
  obtain ⟨front,htext,hlen⟩ := h
  exact ⟨front,rest,htext,hlen⟩

/-- A boundary is a place in the text. -/
theorem Boundary.at (h : Boundary text n) : ∃ rest, At text n rest := by
  obtain ⟨front,rest,htext,hlen⟩ := h
  exact ⟨rest,front,htext,hlen⟩

/-- What is behind and what is ahead are the whole. -/
theorem At.len_eq (h : At text n rest) : n+len rest=len text := by
  obtain ⟨front,htext,hlen⟩ := h
  rw [htext,len_append,hlen]

/-- Some characters further. -/
theorem At.pass {front : List Char} (h : At text n (front++rest)) :
    At text (n+len front) rest := by
  obtain ⟨before,htext,hlen⟩ := h
  exact ⟨before++front,by rw [htext,List.append_assoc],by rw [len_append,hlen]⟩

/-- One character further. -/
theorem At.next {char : Char} (h : At text n (char :: rest)) :
    At text (n+char.utf8Size) rest := by
  have hpass := @At.pass text rest n [char] h
  rwa [len_cons,len_nil,Nat.add_zero] at hpass

/-- What stands between two positions. -/
theorem At.between {m : ℕ} {after : List Char} (h : At text n rest) (h' : At text m after)
    (hle : n ≤ m) : ∃ middle, rest=middle++after ∧ m=n+len middle := by
  obtain ⟨front,htext,hlen⟩ := h
  obtain ⟨front',htext',hlen'⟩ := h'
  rcases List.append_eq_append_iff.mp (htext.symm.trans htext') with
    ⟨middle,hfront,hrest⟩ | ⟨middle,hfront,hrest⟩
  · refine ⟨middle,hrest,?_⟩
    rw [←hlen',hfront,len_append,hlen]
  · have hempty : middle=[] := by
      cases middle with
      | nil => rfl
      | cons char middle =>
        have hsize := char.utf8Size_pos
        rw [hfront,len_append,len_cons] at hlen
        omega
    rw [hempty,List.append_nil] at hfront
    rw [hempty,List.nil_append] at hrest
    exact ⟨[],hrest.symm,by rw [←hlen,hfront,hlen']; rfl⟩

/-- The characters passed are the slice. -/
theorem At.slice {front : List Char} (h : At text n (front++rest)) :
    slice text n (n+len front)=.ok front := by
  obtain ⟨before,htext,hlen⟩ := h
  rw [htext,←List.append_assoc,←hlen,←len_append,slice_append]

/-- A slice from the start panics off the boundaries, and only there. -/
theorem sliceTo_eq_stuck : sliceTo text n=.stuck ↔ ¬Boundary text n := by
  induction text generalizing n with
  | nil =>
    cases n with
    | zero => simp [sliceTo,boundary_zero]
    | succ n =>
      refine ⟨fun _ h => ?_,fun _ => rfl⟩
      have := h.le_len
      simp at this
  | cons char text ih =>
    cases n with
    | zero => simp [sliceTo,boundary_zero]
    | succ n =>
      rw [sliceTo,boundary_cons]
      by_cases hsize : char.utf8Size ≤ n+1
      · rw [if_pos hsize,Outcome.bind_eq_stuck,ih,and_iff_right hsize]
        simp
      · simp [hsize]

end RustSql.Text
