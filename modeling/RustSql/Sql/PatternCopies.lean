import RustSql.Sql.PatternRuns

/-!
# The copies of the pattern matchers

The readers of a class agree on what stands between its brackets unless it begins with one,
and the three matchers of `GLOB` and of `LIKE` answer what the pattern means where their runs
come to no place at which they part.
-/

namespace RustSql.Sql

/-! ## Readers of classes -/

/-- What the loops over a class's members have in common: a bracket ends them, and a range takes
three characters. -/
structure ClassReader (char : Char) (negated : Bool)
    (read : List Char → ℕ → Bool → Option (Bool × ℕ)) : Prop where
  unclosed : ∀ index matched, read [] index matched=none
  closed : ∀ rest index matched,
    read (']' :: rest) index matched=some (matched ^^ negated,index+1)
  range : ∀ first last rest index matched, first≠ ']' → last≠ ']' →
    read (first :: '-' :: last :: rest) index matched=
      read rest (index+3) (matched || (first.toNat ≤ char.toNat && char.toNat ≤ last.toNat))
  single : ∀ first rest index matched, first≠ ']' →
    (∀ last after, rest= '-' :: last :: after → last= ']') →
    read (first :: rest) index matched=read rest (index+1) (matched || first==char)

/-- The reader of the `CHECK` evaluator. -/
theorem matchesClassMembers_reader (char : Char) (negated : Bool) :
    ClassReader char negated (Check.matchesClassMembers char negated) where
  unclosed index matched := by rw [Check.matchesClassMembers]
  closed rest index matched := by rw [Check.matchesClassMembers]
  range first last rest index matched hfirst hlast := by
    rw [Check.matchesClassMembers]
    · rw [if_neg hlast]
    · exact hfirst
  single first rest index matched hfirst hrest := by
    by_cases hrange : ∃ last after, rest= '-' :: last :: after
    · obtain ⟨last,after,rfl⟩ := hrange
      rw [Check.matchesClassMembers]
      · rw [if_pos (hrest last after rfl)]
      · exact hfirst
    · rw [Check.matchesClassMembers]
      · exact hfirst
      · intro last after hafter
        exact hrange ⟨last,after,hafter⟩

/-- The reader of the executor. -/
theorem globClassMembers_reader (char : Char) (negated : Bool) :
    ClassReader char negated (fun members index matched =>
      globClassMembers char negated members index matched true) where
  unclosed index matched := by rw [globClassMembers]
  closed rest index matched := by
    by_cases hrange : ∃ last after, rest= '-' :: last :: after
    · obtain ⟨last,after,rfl⟩ := hrange
      simp [globClassMembers]
    · rw [globClassMembers]
      · simp
      · intro last after hafter
        exact hrange ⟨last,after,hafter⟩
  range first last rest index matched hfirst hlast := by
    rw [globClassMembers]
    simp [hfirst,hlast]
  single first rest index matched hfirst hrest := by
    by_cases hrange : ∃ last after, rest= '-' :: last :: after
    · obtain ⟨last,after,rfl⟩ := hrange
      rw [globClassMembers,hrest last after rfl]
      simp [hfirst]
    · rw [globClassMembers]
      · simp [hfirst]
      · intro last after hafter
        exact hrange ⟨last,after,hafter⟩

variable {negated answer caseSensitive : Bool} {rest members tail pattern text : List Char}
    {char head : Char} {p q : Prop} {charClass : List Char → Char → Option (Bool × ℕ)}
    {wildcards : List (Wildcard Char)} {escape : Option Char}

/-- Behind the bracket that opens a class the executor reads as in its middle, unless the class
begins with a bracket. -/
theorem globClassMembers_first {char first : Char}
    {index : ℕ} {matched : Bool} (hfirst : first≠ ']') :
    globClassMembers char negated (first :: rest) index matched false=
      globClassMembers char negated (first :: rest) index matched true := by
  by_cases hrange : ∃ last after, rest= '-' :: last :: after
  · obtain ⟨last,after,rfl⟩ := hrange
    simp [globClassMembers,hfirst]
  · have hnone : ∀ last after, rest= '-' :: last :: after → False :=
      fun last after hafter => hrange ⟨last,after,hafter⟩
    rw [globClassMembers.eq_3 _ _ _ _ _ _ _ hnone,globClassMembers.eq_3 _ _ _ _ _ _ _ hnone]
    simp [hfirst]

/-- Before the bracket behind a class no range begins, unless it does among the members. -/
theorem range_cases (hmembers : ']'∉members)
    (hnone : ∀ last after, members= '-' :: last :: after → False) :
    ∀ last after, members++ ']' :: rest= '-' :: last :: after → last= ']' := by
  intro last after hafter
  cases members with
  | nil => cases hafter
  | cons second members =>
    obtain ⟨rfl,htail⟩ := List.cons.inj hafter
    cases members with
    | nil => exact (List.cons.inj htail).1.symm
    | cons third members => exact absurd rfl (hnone third members)

/-- A class is read up to the bracket behind its members. -/
theorem ClassReader.reads
    {read : List Char → ℕ → Bool → Option (Bool × ℕ)} (h : ClassReader char negated read)
    (rest : List Char) (index : ℕ) (matched : Bool)
    (hmembers : ']'∉members) : ∃ answer,
      read (members++ ']' :: rest) index matched=
        some (answer ^^ negated,index+members.length+1) ∧
      (answer=true ↔ matched=true ∨ ClassHolds char members) := by
  induction members using ClassHolds.induct generalizing index matched with
  | case1 => exact ⟨matched,h.closed rest index matched,by simp [ClassHolds]⟩
  | case2 first last members ih =>
    have hfirst : first≠ ']' := fun hsame => hmembers (by simp [hsame])
    have hlast : last≠ ']' := fun hsame => hmembers (by simp [hsame])
    obtain ⟨answer,hread,hanswer⟩ := ih (index+3)
      (matched || (first.toNat ≤ char.toNat && char.toNat ≤ last.toNat))
      (fun hin => hmembers (by simp [hin]))
    refine ⟨answer,?_,?_⟩
    · have hlength : index+(first :: '-' :: last :: members).length+1=
          index+3+members.length+1 := by
        simp only [List.length_cons]
        omega
      rw [hlength,←hread]
      exact h.range first last _ index matched hfirst hlast
    · rw [hanswer,ClassHolds]
      simp [or_assoc]
  | case3 first members hnone ih =>
    have hfirst : first≠ ']' := fun hsame => hmembers (by simp [hsame])
    obtain ⟨answer,hread,hanswer⟩ := ih (index+1) (matched || first==char)
      (fun hin => hmembers (by simp [hin]))
    refine ⟨answer,?_,?_⟩
    · have hlength : index+(first :: members).length+1=index+1+members.length+1 := by
        simp only [List.length_cons]
        omega
      rw [hlength,←hread]
      exact h.single first _ index matched hfirst
        (range_cases (fun hin => hmembers (by simp [hin])) hnone)
    · rw [hanswer,ClassHolds]
      · simp [or_assoc]
      · exact hnone

/-- The reader of a class in a pattern that starts with the bracket which opens it. -/
structure ReadsClasses (charClass : List Char → Char → Option (Bool × ℕ)) : Prop where
  set : ∀ char first members rest, first≠ '^' → ']'∉first :: members → ∃ answer,
    charClass ('[' :: first :: (members++ ']' :: rest)) char=some (answer,members.length+3) ∧
      (answer=true ↔ ClassHolds char (first :: members))
  negated : ∀ char first members rest, ']'∉first :: members → ∃ answer,
    charClass ('[' :: '^' :: first :: (members++ ']' :: rest)) char=
        some (answer,members.length+4) ∧
      (answer=true ↔ ¬ClassHolds char (first :: members))

/-- The `CHECK` evaluator reads plain classes. -/
theorem matchesCharClass_reads : ReadsClasses Check.matchesCharClass where
  set char first members rest hfirst hmembers := by
    obtain ⟨answer,hread,hanswer⟩ :=
      (matchesClassMembers_reader char false).reads rest 1 false hmembers
    rw [Bool.xor_false,List.length_cons] at hread
    have hlength : 1+(members.length+1)+1=members.length+3 := by omega
    refine ⟨answer,?_,by simpa using hanswer⟩
    rw [hlength] at hread
    rw [Check.matchesCharClass]
    simp only [List.drop_succ_cons,List.drop_zero]
    split
    · next hcaret => exact absurd (List.cons.inj hcaret).1 hfirst
    · exact hread
  negated char first members rest hmembers := by
    obtain ⟨answer,hread,hanswer⟩ :=
      (matchesClassMembers_reader char true).reads rest 2 false hmembers
    have hlength : 2+(first :: members).length+1=members.length+4 := by
      rw [List.length_cons]
      omega
    rw [hlength] at hread
    refine ⟨answer ^^ true,hread,?_⟩
    rw [Bool.xor_true,Bool.not_eq_true',←Bool.not_eq_true,hanswer]
    simp

/-- So does the executor. -/
theorem globCharClass_reads : ReadsClasses globCharClass where
  set char first members rest hfirst hmembers := by
    have hbracket : first≠ ']' := fun hsame => hmembers (by simp [hsame])
    obtain ⟨answer,hread,hanswer⟩ :=
      (globClassMembers_reader char false).reads rest 1 false hmembers
    rw [Bool.xor_false,List.length_cons] at hread
    have hlength : 1+(members.length+1)+1=members.length+3 := by omega
    refine ⟨answer,?_,by simpa using hanswer⟩
    rw [hlength,List.cons_append,←globClassMembers_first hbracket] at hread
    rw [globCharClass]
    simp only [List.drop_succ_cons,List.drop_zero]
    split
    · next hcaret => exact absurd (List.cons.inj hcaret).1 hfirst
    · exact hread
  negated char first members rest hmembers := by
    have hbracket : first≠ ']' := fun hsame => hmembers (by simp [hsame])
    obtain ⟨answer,hread,hanswer⟩ :=
      (globClassMembers_reader char true).reads rest 2 false hmembers
    have hlength : 2+(first :: members).length+1=members.length+4 := by
      rw [List.length_cons]
      omega
    rw [hlength,List.cons_append,←globClassMembers_first hbracket] at hread
    refine ⟨answer ^^ true,hread,?_⟩
    rw [Bool.xor_true,Bool.not_eq_true',←Bool.not_eq_true,hanswer]
    simp

/-! ### Classes that are not plain -/

/-- A class without a bracket behind it is not read. -/
theorem ClassReader.none {read : List Char → ℕ → Bool → Option (Bool × ℕ)}
    (h : ClassReader char negated read) (index : ℕ) (matched : Bool) (hmembers : ']'∉members) :
    read members index matched=none := by
  induction members using ClassHolds.induct generalizing index matched with
  | case1 => exact h.unclosed index matched
  | case2 first last members ih =>
    have hfirst : first≠ ']' := fun hsame => hmembers (by simp [hsame])
    have hlast : last≠ ']' := fun hsame => hmembers (by simp [hsame])
    rw [h.range first last members index matched hfirst hlast]
    exact ih _ _ fun hin => hmembers (by simp [hin])
  | case3 first members hnone ih =>
    have hfirst : first≠ ']' := fun hsame => hmembers (by simp [hsame])
    rw [h.single first members index matched hfirst fun last after hafter =>
      (hnone last after hafter).elim]
    exact ih _ _ fun hin => hmembers (by simp [hin])

/-- Behind a bracket that begins a class the executor takes a range, or the bracket alone. -/
theorem globClassMembers_bracket (rest : List Char) (index : ℕ) (matched : Bool) :
    globClassMembers char negated (']' :: rest) index matched false=
      match rest with
      | '-' :: last :: after =>
        if last = ']' then
          globClassMembers char negated rest (index+1) (matched || ']'==char) true
        else
          globClassMembers char negated after (index+3)
            (matched || (']'.toNat ≤ char.toNat && char.toNat ≤ last.toNat)) true
      | rest => globClassMembers char negated rest (index+1) (matched || ']'==char) true := by
  split
  · rw [globClassMembers]
    simp
  · next hnone =>
    rw [globClassMembers]
    · simp
    · exact hnone

/-- A bracket first in a class closes it only if another one follows. -/
theorem globClassMembers_bracket_none (index : ℕ) (matched : Bool) (hmembers : ']'∉members) :
    globClassMembers char negated (']' :: members) index matched false=none := by
  have hreader := globClassMembers_reader char negated
  rw [globClassMembers_bracket]
  split
  · next last after =>
    rw [if_neg fun hlast => hmembers (by simp [hlast])]
    exact hreader.none _ _ fun hin => hmembers (by simp [hin])
  · exact hreader.none _ _ hmembers

/-- The executor reads a class that begins with a bracket up to the next one. -/
theorem globClassMembers_bracket_closed (rest : List Char) (index : ℕ) (matched : Bool)
    (hmembers : ']'∉members) : ∃ answer,
      globClassMembers char negated (']' :: (members++ ']' :: rest)) index matched false=
        some (answer ^^ negated,index+members.length+2) ∧
      (answer=true ↔ matched=true ∨ ClassHolds char (']' :: members)) := by
  have hreader := globClassMembers_reader char negated
  rw [globClassMembers_bracket]
  by_cases hrange : ∃ last after, members= '-' :: last :: after
  · obtain ⟨last,after,rfl⟩ := hrange
    obtain ⟨answer,hread,hanswer⟩ := hreader.reads rest (index+3)
      (matched || (']'.toNat ≤ char.toNat && char.toNat ≤ last.toNat))
      (fun hin => hmembers (List.mem_cons_of_mem _ (List.mem_cons_of_mem last hin)))
    refine ⟨answer,?_,?_⟩
    · have hlength : index+('-' :: last :: after).length+2=index+3+after.length+1 := by
        simp only [List.length_cons]
        omega
      rw [hlength,←hread]
      simp only [List.cons_append]
      rw [if_neg fun hlast => hmembers (by simp [hlast])]
    · rw [hanswer,ClassHolds]
      simp [or_assoc]
  · have hnone : ∀ last after, members= '-' :: last :: after → False :=
      fun last after h => hrange ⟨last,after,h⟩
    obtain ⟨answer,hread,hanswer⟩ := hreader.reads rest (index+1) (matched || ']'==char) hmembers
    refine ⟨answer,?_,?_⟩
    · have hlength : index+members.length+2=index+1+members.length+1 := by omega
      rw [hlength,←hread]
      split
      · next last after hafter =>
        rw [if_pos (range_cases hmembers hnone last after hafter)]
      · rfl
    · rw [hanswer,ClassHolds.eq_3 _ _ _ hnone]
      simp [or_assoc]

/-! ## What the copies take for a class -/

/-- Without a bracket both readings of the members agree. -/
theorem classMember_plain (h : ']'∉members) :
    ClassMember char members ↔ ClassHolds char members := by
  cases members with
  | nil => exact Iff.rfl
  | cons first members =>
    rw [ClassMember]
    intro rest hsame
    exact h (by simp [hsame])

/-- What a copy does about classes that are plain, and what it refuses. -/
structure TakesPlain (takes : List Char → Char → List Char → Prop) : Prop where
  set : ∀ {first letter members rest behind}, first≠ '^' → ']'∉first :: members →
    (takes (first :: (members++ ']' :: rest)) letter behind ↔
      ClassHolds letter (first :: members) ∧ behind=rest)
  negated : ∀ {first letter members rest behind}, ']'∉first :: members →
    (takes ('^' :: first :: (members++ ']' :: rest)) letter behind ↔
      ¬ClassHolds letter (first :: members) ∧ behind=rest)
  unclosed : ∀ {body letter behind}, ']'∉body → letter≠ '[' → ¬takes body letter behind
  bracketOpen : ∀ {letter members behind}, ']'∉members → ¬takes (']' :: members) letter behind

/-- A class that is not closed takes nothing. -/
theorem not_classTakes_unclosed {body behind : List Char} {letter : Char} (h : ']'∉body) :
    ¬ClassTakes body letter behind := by
  intro htakes
  cases htakes <;> exact h (by simp)

/-- A closed class takes its members. -/
theorem classTakes_set {first letter : Char} {behind : List Char} (hfirst : first≠ '^')
    (hclosed : ']'∉members) :
    ClassTakes (first :: (members++ ']' :: rest)) letter behind ↔
      ClassMember letter (first :: members) ∧ behind=rest := by
  constructor
  · intro h
    generalize hbody : first :: (members++ ']' :: rest)=body at h
    cases h with
    | set _ hclosed' hmember =>
      obtain ⟨rfl,hmembers⟩ := List.cons.inj hbody
      obtain ⟨rfl,rfl⟩ := class_unique hclosed hclosed' hmembers
      exact ⟨hmember,rfl⟩
    | negated => exact absurd (List.cons.inj hbody).1 hfirst
  · rintro ⟨hmember,rfl⟩
    exact .set hfirst hclosed hmember

/-- A closed class with `^` takes all others. -/
theorem classTakes_negated {first letter : Char} {behind : List Char} (hclosed : ']'∉members) :
    ClassTakes ('^' :: first :: (members++ ']' :: rest)) letter behind ↔
      ¬ClassMember letter (first :: members) ∧ behind=rest := by
  constructor
  · intro h
    generalize hbody : '^' :: first :: (members++ ']' :: rest)=body at h
    cases h with
    | set hfirst => exact absurd (List.cons.inj hbody).1.symm hfirst
    | negated hclosed' hmember =>
      obtain ⟨-,hrest⟩ := List.cons.inj hbody
      obtain ⟨rfl,hmembers⟩ := List.cons.inj hrest
      obtain ⟨rfl,rfl⟩ := class_unique hclosed hclosed' hmembers
      exact ⟨hmember,rfl⟩
  · rintro ⟨hmember,rfl⟩
    exact .negated hclosed hmember

/-- A class that begins with a bracket means nothing without another one. -/
theorem not_classTakes_bracketOpen {letter : Char} {behind : List Char} (h : ']'∉members) :
    ¬ClassTakes (']' :: members) letter behind := by
  intro htakes
  generalize hbody : ']' :: members=body at htakes
  cases htakes with
  | set =>
    obtain ⟨-,rfl⟩ := List.cons.inj hbody
    exact h (by simp)
  | negated => exact absurd (List.cons.inj hbody).1 (by decide)

/-- Such a copy takes what is meant wherever nothing parts it, if it refuses a class that begins
with a bracket there. -/
theorem TakesPlain.iff {takes : List Char → Char → List Char → Prop} (h : TakesPlain takes)
    {body tail behind : List Char} {letter : Char}
    (hclear : ¬GlobParting ('[' :: body) (letter :: tail))
    (hbracket : ∀ members rest, ']'∉members → body= ']' :: (members++ ']' :: rest) →
      ¬takes body letter behind) :
    ClassTakes body letter behind ↔ takes body letter behind := by
  by_cases hclosed : ']'∈body
  · obtain ⟨members,rest,rfl,hmembers⟩ := List.eq_append_cons_of_mem hclosed
    cases members with
    | nil =>
      -- the class begins with a bracket
      by_cases hnext : ']'∈rest
      · obtain ⟨members,rest,rfl,hmembers⟩ := List.eq_append_cons_of_mem hnext
        refine iff_of_false (fun htakes => ?_) (hbracket members rest hmembers rfl)
        exact hclear (.bracket hmembers (.inl ((classTakes_set (by decide) hmembers).mp htakes).1))
      · exact iff_of_false (not_classTakes_bracketOpen hnext) (h.bracketOpen hnext)
    | cons first members =>
      have hbehind : ']'∉members := fun hin => hmembers (List.mem_cons_of_mem first hin)
      by_cases hfirst : first= '^'
      · subst hfirst
        cases members with
        | nil => exact absurd .negatedBracket hclear
        | cons first members =>
          have hplain : ']'∉members := fun hin => hbehind (List.mem_cons_of_mem first hin)
          refine (classTakes_negated hplain).trans (Iff.trans ?_ (h.negated hbehind).symm)
          rw [classMember_plain hbehind]
      · refine (classTakes_set hfirst hbehind).trans (Iff.trans ?_ (h.set hfirst hmembers).symm)
        rw [classMember_plain hmembers]
  · refine iff_of_false (not_classTakes_unclosed hclosed) (h.unclosed hclosed fun hletter => ?_)
    exact hclear (hletter ▸ .unclosed hclosed)

/-- What a reader of classes lets its copy take. -/
def readerTakes (charClass : List Char → Char → Option (Bool × ℕ)) (body : List Char)
    (letter : Char) (behind : List Char) : Prop :=
  ∃ next, charClass ('[' :: body) letter=some (true,next) ∧ behind=('[' :: body).drop next

/-- A reader that stops behind the part of a class lets it take what it says. -/
theorem readerTakes_iff {body tail behind : List Char} {letter : Char}
    (hread : charClass ('[' :: (body++tail)) letter=some (answer,body.length+1)) :
    readerTakes charClass (body++tail) letter behind ↔ answer=true ∧ behind=tail := by
  have hdrop : ('[' :: (body++tail)).drop (body.length+1)=tail := by
    rw [List.drop_succ_cons,List.drop_left]
  constructor
  · rintro ⟨next,hnext,hbehind⟩
    obtain ⟨rfl,rfl⟩ := Prod.mk.inj (Option.some.inj (hread.symm.trans hnext))
    exact ⟨rfl,hbehind.trans hdrop⟩
  · rintro ⟨rfl,rfl⟩
    exact ⟨_,hread,hdrop.symm⟩

/-- A class that cannot be read takes nothing. -/
theorem not_readerTakes_none {body behind : List Char} {letter : Char}
    (hread : charClass ('[' :: body) letter=none) : ¬readerTakes charClass body letter behind := by
  rintro ⟨next,hnext,-⟩
  rw [hread] at hnext
  cases hnext

/-- A reader of plain classes takes the members. -/
theorem readerTakes_set (hreads : ReadsClasses charClass) {first letter : Char}
    {behind : List Char} (hfirst : first≠ '^') (hmembers : ']'∉first :: members) :
    readerTakes charClass (first :: (members++ ']' :: rest)) letter behind ↔
      ClassHolds letter (first :: members) ∧ behind=rest := by
  obtain ⟨answer,hread,hanswer⟩ := hreads.set letter first members rest hfirst hmembers
  have hbody : first :: (members++ ']' :: rest)=(first :: members++[']'])++rest := by simp
  have hlength : members.length+3=(first :: members++[']']).length+1 := by simp
  rw [hbody,hlength] at hread
  rw [hbody,readerTakes_iff hread,hanswer]

/-- With `^` it takes all others. -/
theorem readerTakes_negated (hreads : ReadsClasses charClass) {first letter : Char}
    {behind : List Char} (hmembers : ']'∉first :: members) :
    readerTakes charClass ('^' :: first :: (members++ ']' :: rest)) letter behind ↔
      ¬ClassHolds letter (first :: members) ∧ behind=rest := by
  obtain ⟨answer,hread,hanswer⟩ := hreads.negated letter first members rest hmembers
  have hbody : '^' :: first :: (members++ ']' :: rest)=
      ('^' :: first :: members++[']'])++rest := by simp
  have hlength : members.length+4=('^' :: first :: members++[']']).length+1 := by simp
  rw [hbody,hlength] at hread
  rw [hbody,readerTakes_iff hread,hanswer]

/-- For conditions a bracket behind the first one closes a class without members. -/
theorem not_checkTakes_bracket {body behind : List Char} {letter : Char} :
    ¬readerTakes Check.matchesCharClass (']' :: body) letter behind := by
  rintro ⟨next,hnext,-⟩
  change Check.matchesClassMembers letter false (']' :: body) 1 false=some (true,next) at hnext
  rw [Check.matchesClassMembers] at hnext
  cases hnext

/-- The `CHECK` evaluator takes what a plain class means. -/
theorem checkTakes_plain : TakesPlain (readerTakes Check.matchesCharClass) where
  set := readerTakes_set matchesCharClass_reads
  negated := readerTakes_negated matchesCharClass_reads
  unclosed := by
    intro body letter behind hbody _
    refine not_readerTakes_none ?_
    rw [Check.matchesCharClass]
    simp only [List.drop_succ_cons,List.drop_zero]
    split
    · exact (matchesClassMembers_reader letter true).none _ _ fun hin => hbody (by simp [hin])
    · exact (matchesClassMembers_reader letter false).none _ _ hbody
  bracketOpen _ := not_checkTakes_bracket

/-- The executor reads a range where a class begins with one from a bracket. -/
theorem executorTakes_bracket {letter : Char} {behind : List Char} (hmembers : ']'∉members) :
    readerTakes globCharClass (']' :: (members++ ']' :: rest)) letter behind ↔
      ClassHolds letter (']' :: members) ∧ behind=rest := by
  obtain ⟨answer,hread,hanswer⟩ :=
    @globClassMembers_bracket_closed false members letter rest 1 false hmembers
  have hbody : ']' :: (members++ ']' :: rest)=(']' :: members++[']'])++rest := by simp
  have hlength : 1+members.length+2=(']' :: members++[']']).length+1 := by
    simp only [List.length_append,List.length_cons,List.length_nil]
    omega
  rw [Bool.xor_false,hlength] at hread
  have hclass : globCharClass ('[' :: (']' :: members++[']']++rest)) letter=
      some (answer,(']' :: members++[']']).length+1) := by
    rw [←hbody]
    exact hread
  rw [hbody,readerTakes_iff hclass,hanswer]
  simp

/-- So does the executor. -/
theorem executorTakes_plain : TakesPlain (readerTakes globCharClass) where
  set := readerTakes_set globCharClass_reads
  negated := readerTakes_negated globCharClass_reads
  unclosed := by
    intro body letter behind hbody _
    have hnone : ∀ {negated : Bool} {members : List Char} {index : ℕ}, ']'∉members →
        globClassMembers letter negated members index false false=none := by
      intro negated members index hmembers
      cases members with
      | nil => rw [globClassMembers]
      | cons first members =>
        rw [globClassMembers_first fun hfirst => hmembers (by simp [hfirst])]
        exact (globClassMembers_reader letter negated).none _ _ hmembers
    refine not_readerTakes_none ?_
    rw [globCharClass]
    simp only [List.drop_succ_cons,List.drop_zero]
    split
    · exact hnone fun hin => hbody (by simp [hin])
    · exact hnone hbody
  bracketOpen hmembers := not_readerTakes_none (globClassMembers_bracket_none 1 false hmembers)

/-! ### The triggers' classes -/

/-- The triggers' members are the plain ones. -/
theorem triggerClassContains_iff :
    triggerClassContains char members=true ↔ ClassHolds char members := by
  induction members using ClassHolds.induct with
  | case1 => simp [triggerClassContains,ClassHolds]
  | case2 first last members ih =>
    rw [triggerClassContains,ClassHolds,←ih]
    by_cases hrange : first.toNat ≤ char.toNat ∧ char.toNat ≤ last.toNat
    · simp [hrange]
    · rw [if_neg hrange]
      simp [hrange]
  | case3 first members hnone ih =>
    rw [triggerClassContains.eq_3 _ _ _ hnone,ClassHolds.eq_3 _ _ _ hnone,←ih]
    by_cases hsame : first=char
    · simp [hsame]
    · simp [hsame]

/-- The first bracket is the one behind the members. -/
theorem findIdx_bracket (h : ']'∉members) :
    (members++ ']' :: rest).findIdx? (fun char => char == ']')=some members.length := by
  induction members with
  | nil => rfl
  | cons first members ih =>
    have hfirst : (first == ']')=false := beq_eq_false_iff_ne.mpr fun hsame => h (by simp [hsame])
    rw [List.cons_append,List.findIdx?_cons,hfirst,ih fun hin => h (List.mem_cons_of_mem _ hin)]
    rfl

/-- What the triggers take for a class: up to the first bracket, or a bracket alone. -/
def triggerTakes (body : List Char) (letter : Char) (behind : List Char) : Prop :=
  match body.findIdx? fun char => char == ']' with
  | none => letter= '[' ∧ behind=body
  | some stop => triggerClassMatches letter (body.take stop)=true ∧ behind=body.drop (stop+1)

/-- No bracket, no place of one. -/
theorem findIdx_none {body : List Char} (h : ']'∉body) :
    (body.findIdx? fun char => char == ']')=none :=
  List.findIdx?_eq_none_iff.mpr fun _ hchar => beq_eq_false_iff_ne.mpr fun hsame =>
    h (hsame ▸ hchar)

/-- What a closed class takes in a trigger. -/
theorem triggerTakes_closed {letter : Char} {behind : List Char} (h : ']'∉members) :
    triggerTakes (members++ ']' :: rest) letter behind ↔
      triggerClassMatches letter members=true ∧ behind=rest := by
  have htake : (members++ ']' :: rest).take members.length=members := List.take_left
  have hdrop : (members++ ']' :: rest).drop (members.length+1)=rest := by
    rw [←List.drop_drop,List.drop_left]
    rfl
  rw [triggerTakes,findIdx_bracket h]
  simp only
  rw [htake,hdrop]

/-- For triggers a bracket behind the first one closes a class without members. -/
theorem not_triggerTakes_bracket {body behind : List Char} {letter : Char} :
    ¬triggerTakes (']' :: body) letter behind := by
  intro htakes
  have hempty := (@triggerTakes_closed _ [] _ _ List.not_mem_nil).mp htakes
  cases hempty.1

/-- Triggers take what a plain class means. -/
theorem triggerTakes_plain : TakesPlain triggerTakes where
  set := by
    intro first letter members rest behind hfirst hmembers
    have hclass : triggerClassMatches letter (first :: members)=
        (triggerClassContains letter (first :: members) ^^ false) := by
      rw [triggerClassMatches]
      intro rest hsame
      exact hfirst (List.cons.inj hsame).1
    rw [←List.cons_append,triggerTakes_closed hmembers,hclass,Bool.xor_false,
      triggerClassContains_iff]
  negated := by
    intro first letter members rest behind hmembers
    have hcaret : ']'∉ '^' :: first :: members := by
      intro hin
      rcases List.mem_cons.mp hin with hsame | hin
      · exact absurd hsame (by decide)
      · exact hmembers hin
    rw [←List.cons_append,←List.cons_append,triggerTakes_closed hcaret,triggerClassMatches,
      Bool.xor_true,Bool.not_eq_true',←Bool.not_eq_true,triggerClassContains_iff]
  unclosed := by
    intro body letter behind hbody hletter htakes
    rw [triggerTakes,findIdx_none hbody] at htakes
    exact hletter htakes.1
  bracketOpen _ := not_triggerTakes_bracket

/-! ## The recursions of `GLOB` -/

/-- A matcher returns an answer, which is right. -/
def Answers (x : Outcome Bool) (p : Prop) : Prop := ∃ answer, x=.ok answer ∧ (answer=true ↔ p)

/-- The same answer for an equivalent question. -/
theorem Answers.congr {x : Outcome Bool} (h : Answers x p) (hpq : p ↔ q) :
    Answers x q := by
  obtain ⟨answer,hx,hanswer⟩ := h
  exact ⟨answer,hx,hanswer.trans hpq⟩

/-- An answer that is right. -/
theorem answers_ok (h : answer=true ↔ p) : Answers (.ok answer) p := ⟨answer,rfl,h⟩

/-- The answer is no. -/
theorem answers_false (h : ¬p) : Answers (.ok false) p := answers_ok (by simp [h])

/-- The recursions of conditions and of the executor are one, over the reader of a class. -/
theorem matchesGlob_eq (value pattern : List Char) :
    Check.matchesGlob value pattern=globMatches Check.matchesCharClass value pattern := by
  induction hsize : value.length+pattern.length using Nat.strong_induction_on
    generalizing value pattern with
  | _ size ih =>
    subst hsize
    have hless : ∀ value' pattern' : List Char,
        value'.length+pattern'.length < value.length+pattern.length →
        Check.matchesGlob value' pattern'=globMatches Check.matchesCharClass value' pattern' :=
      fun value' pattern' hlt => ih _ hlt value' pattern' rfl
    cases pattern with
    | nil => rw [Check.matchesGlob,globMatches]
    | cons char rest =>
      simp only [List.length_cons] at hless
      by_cases hany : char = '*'
      · have hrest := hless value rest (by omega)
        cases value with
        | nil => rw [hany,Check.matchesGlob,globMatches,hrest]
        | cons head tail =>
          rw [List.length_cons] at hless
          have htail := hless tail ('*' :: rest) (by rw [List.length_cons]; omega)
          rw [hany,Check.matchesGlob,globMatches,hrest]
          simp only [htail]
      · by_cases hone : char = '?'
        · cases value with
          | nil => rw [hone,Check.matchesGlob,globMatches]
          | cons head tail =>
            rw [List.length_cons] at hless
            rw [hone,Check.matchesGlob,globMatches,hless tail rest (by omega)]
        · by_cases hset : char = '['
          · cases value with
            | nil => rw [hset,Check.matchesGlob,globMatches]
            | cons head tail =>
              rw [List.length_cons] at hless
              rw [hset,Check.matchesGlob,globMatches]
              cases Check.matchesCharClass ('[' :: rest) head with
              | none => rfl
              | some answer =>
                have hdrop : (List.drop answer.2 ('[' :: rest)).length ≤ rest.length+1 := by
                  rw [List.length_drop,List.length_cons]
                  omega
                simp only [hless tail (List.drop answer.2 ('[' :: rest)) (by omega)]
          · cases value with
            | nil =>
              rw [Check.matchesGlob,globMatches]
              all_goals assumption
            | cons head tail =>
              rw [List.length_cons] at hless
              rw [Check.matchesGlob,globMatches]
              · rw [hless tail rest (by omega)]
              all_goals assumption

/-- A reader stops inside the pattern. -/
def StaysInside (charClass : List Char → Char → Option (Bool × ℕ)) : Prop :=
  ∀ body letter matched next, charClass ('[' :: body) letter=some (matched,next) →
    next ≤ body.length+1

/-- A reader stops inside the members. -/
theorem ClassReader.inside {read : List Char → ℕ → Bool → Option (Bool × ℕ)}
    (h : ClassReader char negated read) {index next : ℕ} {matched : Bool}
    (hread : read members index matched=some (answer,next)) : next ≤ index+members.length := by
  by_cases hclosed : ']'∈members
  · obtain ⟨front,rest,rfl,hfront⟩ := List.eq_append_cons_of_mem hclosed
    obtain ⟨own,hown,-⟩ := h.reads rest index matched hfront
    rw [hown] at hread
    obtain ⟨-,rfl⟩ := Prod.mk.inj (Option.some.inj hread)
    rw [List.length_append,List.length_cons]
    omega
  · rw [h.none index matched hclosed] at hread
    cases hread

/-- The `CHECK` evaluator stops inside the pattern. -/
theorem matchesCharClass_inside : StaysInside Check.matchesCharClass := by
  intro body letter matched next hread
  rw [Check.matchesCharClass] at hread
  simp only [List.drop_succ_cons,List.drop_zero] at hread
  split at hread
  · have hinside := (matchesClassMembers_reader letter true).inside hread
    rw [List.length_cons]
    omega
  · have hinside := (matchesClassMembers_reader letter false).inside hread
    omega

/-- A loop over members stops inside them. -/
theorem globClassMembers_inside {letter : Char} {index next : ℕ}
    (hread : globClassMembers letter negated members index false false=some (answer,next)) :
    next ≤ index+members.length := by
  have hreader := globClassMembers_reader letter negated
  cases members with
  | nil =>
    rw [globClassMembers] at hread
    cases hread
  | cons first members =>
    by_cases hfirst : first= ']'
    · subst hfirst
      by_cases hclosed : ']'∈members
      · obtain ⟨front,rest,rfl,hfront⟩ := List.eq_append_cons_of_mem hclosed
        obtain ⟨own,hown,-⟩ := @globClassMembers_bracket_closed negated front letter rest index
          false hfront
        rw [hown] at hread
        obtain ⟨-,rfl⟩ := Prod.mk.inj (Option.some.inj hread)
        simp only [List.length_append,List.length_cons]
        omega
      · rw [globClassMembers_bracket_none index false hclosed] at hread
        cases hread
    · rw [globClassMembers_first hfirst] at hread
      exact hreader.inside hread

/-- The executor stops inside the pattern. -/
theorem globCharClass_inside : StaysInside globCharClass := by
  intro body letter matched next hread
  rw [globCharClass] at hread
  simp only [List.drop_succ_cons,List.drop_zero] at hread
  split at hread
  · have hinside := globClassMembers_inside hread
    rw [List.length_cons]
    omega
  · have hinside := globClassMembers_inside hread
    omega

/-- `*`: the rest of the pattern is tried here, then behind each character. -/
theorem globMatches_any
    (hskip : Answers (globMatches charClass text rest)
      ((globMatcher (readerTakes charClass)).Accepts rest text))
    (heat : ∀ first tail, text=first :: tail → Answers (globMatches charClass tail ('*' :: rest))
      ((globMatcher (readerTakes charClass)).Accepts ('*' :: rest) tail)) :
    Answers (globMatches charClass text ('*' :: rest))
      ((globMatcher (readerTakes charClass)).Accepts ('*' :: rest) text) := by
  obtain ⟨answer,hrun,hanswer⟩ := hskip
  rw [globMatcher_any]
  cases text with
  | nil =>
    rw [globMatches,hrun]
    refine ⟨answer,by cases answer <;> rfl,?_⟩
    rw [hanswer]
    simp
  | cons first tail =>
    rw [globMatches,hrun]
    cases answer with
    | true => exact answers_ok (iff_of_true rfl (.inl (hanswer.mp rfl)))
    | false =>
      refine (heat first tail rfl).congr ?_
      constructor
      · exact fun h => .inr ⟨first,tail,rfl,h⟩
      · rintro (h | ⟨letter,tail',htext,h⟩)
        · exact absurd (hanswer.mpr h) (by decide)
        · obtain ⟨-,rfl⟩ := List.cons.inj htext
          exact h

/-- A class is read against the first character. -/
theorem globMatches_class (hinside : StaysInside charClass)
    (htail : ∀ behind : List Char, behind.length ≤ rest.length+1 →
      Answers (globMatches charClass tail behind)
        ((globMatcher (readerTakes charClass)).Accepts behind tail)) :
    Answers (globMatches charClass (head :: tail) ('[' :: rest))
      (∃ behind, readerTakes charClass rest head behind ∧
        (globMatcher (readerTakes charClass)).Accepts behind tail) := by
  rw [globMatches.eq_7]
  cases hread : charClass ('[' :: rest) head with
  | none =>
    refine answers_false ?_
    rintro ⟨behind,htakes,-⟩
    exact not_readerTakes_none hread htakes
  | some found =>
    obtain ⟨matched,next⟩ := found
    cases matched with
    | false =>
      refine answers_false ?_
      rintro ⟨behind,⟨next',hnext,-⟩,-⟩
      rw [hread] at hnext
      cases hnext
    | true =>
      have hshorter : (('[' :: rest).drop next).length ≤ rest.length+1 := by
        rw [List.length_drop,List.length_cons]
        omega
      simp only [Bool.not_true,Bool.false_eq_true,if_false]
      rw [Outcome.check_ok (hinside rest head true next hread)]
      refine (htail _ hshorter).congr ?_
      constructor
      · exact fun h => ⟨_,⟨next,hread,rfl⟩,h⟩
      · rintro ⟨behind,⟨next',hnext,rfl⟩,h⟩
        rw [hread] at hnext
        obtain ⟨-,rfl⟩ := Prod.mk.inj (Option.some.inj hnext)
        exact h

/-- Any other part of a pattern is about the first character. -/
theorem globMatches_char (hinside : StaysInside charClass) (hany : char≠ '*')
    (htail : ∀ behind : List Char, behind.length ≤ rest.length+1 →
      Answers (globMatches charClass tail behind)
        ((globMatcher (readerTakes charClass)).Accepts behind tail)) :
    Answers (globMatches charClass (head :: tail) (char :: rest))
      (∃ behind, GlobEats (readerTakes charClass) (char :: rest) head behind ∧
        (globMatcher (readerTakes charClass)).Accepts behind tail) := by
  by_cases hone : char = '?'
  · subst hone
    rw [globMatches]
    refine (htail rest (by omega)).congr ?_
    simp only [globEats_one,exists_eq_left]
  · by_cases hset : char = '['
    · subst hset
      simp only [globEats_set]
      exact globMatches_class hinside htail
    · rw [globMatches.eq_9 _ _ _ _ _ hany hone hset]
      simp only [globEats_literal hany hone hset]
      by_cases hsame : head=char
      · rw [if_pos hsame]
        refine (htail rest (by omega)).congr ?_
        simp [hsame]
      · rw [if_neg hsame]
        refine answers_false ?_
        rintro ⟨behind,⟨hletter,-⟩,-⟩
        exact hsame hletter

/-- The recursion of `GLOB` accepts what the matcher over its classes does. -/
theorem globMatches_accepts (hinside : StaysInside charClass) :
    Answers (globMatches charClass text pattern)
      ((globMatcher (readerTakes charClass)).Accepts pattern text) := by
  induction hsize : text.length+pattern.length using Nat.strong_induction_on
    generalizing text pattern with
  | _ size ih =>
    subst hsize
    cases pattern with
    | nil =>
      rw [globMatches]
      exact answers_ok (by rw [globMatcher_nil,List.isEmpty_iff])
    | cons char rest =>
      by_cases hany : char = '*'
      · subst hany
        refine globMatches_any (ih _ (by simp) rfl) fun first tail htext => ?_
        exact ih _ (by simp [htext]) rfl
      · rw [globMatcher_cons hany]
        cases text with
        | nil =>
          have hrun : globMatches charClass [] (char :: rest)=.ok false := by
            by_cases hone : char = '?'
            · rw [hone,globMatches]
            · by_cases hset : char = '['
              · rw [hset,globMatches]
              · rw [globMatches.eq_8 _ _ _ hany hone hset]
          rw [hrun]
          refine answers_false ?_
          rintro ⟨letter,tail,behind,htext,-⟩
          cases htext
        | cons first tail =>
          refine (globMatches_char hinside hany fun behind hbehind => ?_).congr ?_
          · refine ih _ ?_ rfl
            simp only [List.length_cons]
            omega
          · constructor
            · rintro ⟨behind,heat,h⟩
              exact ⟨first,tail,behind,rfl,heat,h⟩
            · rintro ⟨letter,tail',behind,htext,heat,h⟩
              obtain ⟨rfl,rfl⟩ := List.cons.inj htext
              exact ⟨behind,heat,h⟩

/-- The triggers' recursion accepts what the matcher over their classes does. -/
theorem triggerGlob_accepts :
    triggerGlob text pattern=true ↔ (globMatcher triggerTakes).Accepts pattern text := by
  induction hsize : text.length+pattern.length using Nat.strong_induction_on
    generalizing text pattern with
  | _ size ih =>
    subst hsize
    have hless : ∀ {text' pattern' : List Char},
        text'.length+pattern'.length < text.length+pattern.length →
        (triggerGlob text' pattern'=true ↔ (globMatcher triggerTakes).Accepts pattern' text') :=
      fun hlt => ih _ hlt rfl
    cases pattern with
    | nil => rw [triggerGlob,globMatcher_nil,List.isEmpty_iff]
    | cons char rest =>
      simp only [List.length_cons] at hless
      rw [triggerGlob.eq_def]
      simp only
      by_cases hany : char = '*'
      · subst hany
        rw [if_pos rfl,globMatcher_any,Bool.or_eq_true,hless (by omega)]
        refine or_congr_right ?_
        cases text with
        | nil => simp
        | cons first tail =>
          simp only [List.length_cons] at hless
          rw [hless (by simp only [List.length_cons]; omega)]
          constructor
          · exact fun h => ⟨first,tail,rfl,h⟩
          · rintro ⟨letter,tail',htext,h⟩
            obtain ⟨-,rfl⟩ := List.cons.inj htext
            exact h
      · rw [if_neg hany,globMatcher_cons hany]
        cases text with
        | nil => simp
        | cons first tail =>
          simp only [List.length_cons] at hless
          have hfirst : (∃ letter tail' behind, first :: tail=letter :: tail' ∧
                GlobEats triggerTakes (char :: rest) letter behind ∧
                  (globMatcher triggerTakes).Accepts behind tail') ↔
              ∃ behind, GlobEats triggerTakes (char :: rest) first behind ∧
                (globMatcher triggerTakes).Accepts behind tail := by
            constructor
            · rintro ⟨letter,tail',behind,htext,heat,h⟩
              obtain ⟨rfl,rfl⟩ := List.cons.inj htext
              exact ⟨behind,heat,h⟩
            · rintro ⟨behind,heat,h⟩
              exact ⟨first,tail,behind,rfl,heat,h⟩
          rw [hfirst]
          by_cases hone : char = '?'
          · subst hone
            simp only [if_true,globEats_one,exists_eq_left]
            exact hless (by omega)
          · simp only [if_neg hone]
            by_cases hset : char = '['
            · subst hset
              simp only [if_true,globEats_set,triggerTakes]
              cases rest.findIdx? fun char => char == ']' with
              | none =>
                simp only [Bool.and_eq_true,decide_eq_true_eq,hless (show
                  tail.length+rest.length < _ by omega)]
                refine ⟨fun h => ⟨rest,⟨h.1,rfl⟩,h.2⟩,?_⟩
                rintro ⟨behind,⟨hletter,rfl⟩,h⟩
                exact ⟨hletter,h⟩
              | some stop =>
                have hshorter : (rest.drop (stop+1)).length ≤ rest.length := by
                  rw [List.length_drop]
                  omega
                simp only [Bool.and_eq_true,hless (show
                  tail.length+(rest.drop (stop+1)).length < _ by omega)]
                refine ⟨fun h => ⟨_,⟨h.1,rfl⟩,h.2⟩,?_⟩
                rintro ⟨behind,⟨hclass,rfl⟩,h⟩
                exact ⟨hclass,h⟩
            · simp only [if_neg hset,globEats_literal hany hone hset,Bool.and_eq_true,
                decide_eq_true_eq,hless (show tail.length+rest.length < _ by omega)]
              refine ⟨fun h => ⟨rest,⟨h.1,rfl⟩,h.2⟩,?_⟩
              rintro ⟨behind,⟨hletter,rfl⟩,h⟩
              exact ⟨hletter,h⟩

/-! ## Places at which the copies of `GLOB` part -/

/-- `GLOB` of the executor. -/
def executorGlob : Matcher (List Char) Char :=
  (globMatcher (readerTakes globCharClass)).stoppingAt '\x00'

/-- Only what a class at the front takes matters. -/
theorem globEats_congr {takes takes' : List Char → Char → List Char → Prop} {behind : List Char}
    {letter : Char} (h : ∀ body, pattern= '[' :: body →
      (takes body letter behind ↔ takes' body letter behind)) :
    GlobEats takes pattern letter behind ↔ GlobEats takes' pattern letter behind := by
  constructor
  · intro heat
    cases heat with
    | any => exact .any
    | one => exact .one
    | set htakes => exact .set ((h _ rfl).mp htakes)
    | literal hany hone hset => exact .literal hany hone hset
  · intro heat
    cases heat with
    | any => exact .any
    | one => exact .one
    | set htakes => exact .set ((h _ rfl).mpr htakes)
    | literal hany hone hset => exact .literal hany hone hset

/-- Every copy moves as is meant. -/
structure GlobInStep (pattern text : List Char) : Prop where
  check : (globMatcher ClassTakes).Same (globMatcher (readerTakes Check.matchesCharClass))
    pattern text
  executor : (globMatcher ClassTakes).Same executorGlob pattern text
  trigger : (globMatcher ClassTakes).Same (globMatcher triggerTakes) pattern text

/-- A copy that never takes a class which begins with a bracket takes what is meant wherever
nothing parts it. -/
theorem TakesPlain.eats_iff {takes : List Char → Char → List Char → Prop} (h : TakesPlain takes)
    (hbracket : ∀ {body letter behind}, ¬takes (']' :: body) letter behind)
    {behind tail : List Char} {letter : Char} (hclear : ¬GlobParting pattern (letter :: tail)) :
    GlobEats ClassTakes pattern letter behind ↔ GlobEats takes pattern letter behind := by
  refine globEats_congr fun body hpattern => ?_
  subst hpattern
  refine h.iff hclear fun members rest _ hbody => ?_
  rw [hbody]
  exact hbracket

/-- Away from the places where it parts, the executor eats what a pattern means. -/
theorem executorGlob_eats_iff {behind tail : List Char} {letter : Char}
    (hclear : ¬GlobParting pattern (letter :: tail)) :
    GlobEats ClassTakes pattern letter behind ↔ executorGlob.eats pattern letter behind := by
  by_cases hletter : letter= '\x00'
  · subst hletter
    exact iff_of_false (fun heat => hclear (.nul heat)) fun heat => heat.1 rfl
  · refine Iff.trans ?_ (and_iff_right hletter).symm
    refine globEats_congr fun body hpattern => ?_
    subst hpattern
    refine executorTakes_plain.iff hclear fun members rest hmembers hbody htakes => ?_
    subst hbody
    exact hclear (.bracket hmembers (.inr ⟨hletter,((executorTakes_bracket hmembers).mp htakes).1⟩))

/-- The copies move as is meant exactly where nothing parts them. -/
theorem globInStep_iff : GlobInStep pattern text ↔ ¬GlobParting pattern text := by
  constructor
  · rintro ⟨hcheck,hexecutor,htrigger⟩ hparting
    cases hparting with
    | nulEnd => exact absurd (hexecutor.ends.mpr ⟨rfl,rfl⟩).2 (List.cons_ne_nil _ _)
    | nul h => exact ((hexecutor.eats _ _ rfl _).mp h).1 rfl
    | @unclosed body tail h =>
      have htakes : triggerTakes body '[' body := by
        rw [triggerTakes,findIdx_none h]
        exact ⟨rfl,rfl⟩
      exact not_classTakes_unclosed h
        (globEats_set.mp ((htrigger.eats _ _ rfl body).mpr (.set htakes)))
    | @bracket letter members rest tail hclosed h =>
      by_cases hmember : ClassMember letter (']' :: members)
      · have hplain : ']'≠ '^' := by decide
        have htakes := (classTakes_set hplain hclosed).mpr
          ⟨hmember,(rfl : rest=rest)⟩
        exact not_checkTakes_bracket
          (globEats_set.mp ((hcheck.eats letter tail rfl rest).mp (.set htakes)))
      · obtain ⟨hletter,hholds⟩ := h.resolve_left hmember
        have htakes := (executorTakes_bracket hclosed).mpr ⟨hholds,(rfl : rest=rest)⟩
        have hmeant := globEats_set.mp
          ((hexecutor.eats letter tail rfl rest).mpr ⟨hletter,.set htakes⟩)
        exact hmember ((classTakes_set (by decide) hclosed).mp hmeant).1
    | @negatedBracket letter rest tail =>
      have htakes : readerTakes Check.matchesCharClass ('^' :: ']' :: rest) letter rest := by
        refine ⟨3,?_,rfl⟩
        change Check.matchesClassMembers letter true (']' :: rest) 2 false=_
        rw [Check.matchesClassMembers]
        rfl
      have hmeant := globEats_set.mp ((hcheck.eats letter tail rfl rest).mpr (.set htakes))
      generalize hbody : '^' :: ']' :: rest=body at hmeant
      cases hmeant with
      | set hfirst => exact hfirst (List.cons.inj hbody).1.symm
      | negated =>
        have hlength := congrArg List.length (List.cons.inj hbody).2
        simp only [List.length_cons,List.length_append] at hlength
        omega
  · intro hclear
    refine ⟨⟨fun rest => Iff.rfl,?_,Iff.rfl⟩,⟨fun rest => Iff.rfl,?_,?_⟩,
      ⟨fun rest => Iff.rfl,?_,Iff.rfl⟩⟩
    · rintro letter tail rfl rest
      exact checkTakes_plain.eats_iff not_checkTakes_bracket hclear
    · rintro letter tail rfl rest
      exact executorGlob_eats_iff hclear
    · refine executor_ends_iff ?_
      rintro rfl tail rfl
      exact hclear .nulEnd
    · rintro letter tail rfl rest
      exact triggerTakes_plain.eats_iff not_triggerTakes_bracket hclear

/-! ## The copies -/

/-- The matcher of conditions refuses a pattern that ends in its escape. -/
theorem likePattern_of_match (h : Check.matchesLike escape caseSensitive text pattern=true) :
    ∃ wildcards, LikePattern escape caseSensitive pattern wildcards := by
  induction pattern using likeTokens.induct escape generalizing text with
  | case1 => exact ⟨[],.nil⟩
  | case2 char hmark =>
    rw [matchesLike_open hmark] at h
    cases h
  | case3 char hescape => exact ⟨_,.char hescape .nil⟩
  | case4 char next rest hmark ih =>
    cases text with
    | nil =>
      rw [matchesLike_escaped_nil hmark] at h
      cases h
    | cons first tail =>
      rw [matchesLike_escaped hmark,Bool.and_eq_true] at h
      obtain ⟨wildcards,hrest⟩ := ih h.2
      exact ⟨_,.escaped hmark hrest⟩
  | case5 char next rest hescape ih =>
    have hrest : ∃ tail, Check.matchesLike escape caseSensitive tail (next :: rest)=true := by
      by_cases hany : char = '%'
      · subst hany
        rw [matchesLike_any hescape,List.any_eq_true] at h
        obtain ⟨tail,_,htail⟩ := h
        exact ⟨tail,htail⟩
      · cases text with
        | nil =>
          rw [matchesLike_nil hescape hany] at h
          cases h
        | cons first tail =>
          by_cases hone : char = '_'
          · subst hone
            rw [matchesLike_one hescape] at h
            exact ⟨tail,h⟩
          · rw [matchesLike_literal hescape hany hone,Bool.and_eq_true] at h
            exact ⟨tail,h.2⟩
    obtain ⟨tail,htail⟩ := hrest
    obtain ⟨wildcards,hrest⟩ := ih htail
    exact ⟨_,.char hescape hrest⟩

/-- A run of `LIKE` comes to no place at which the copies part. -/
def LikeClear (escape : Option Char) (caseSensitive : Bool) (pattern text : List Char) : Prop :=
  ∀ place, (likeMatcher escape caseSensitive).Reaches (pattern,text) place →
    ¬LikeParting escape caseSensitive place.1 place.2

/-- A run of `GLOB` comes to no place at which the copies part. -/
def GlobClear (pattern text : List Char) : Prop :=
  ∀ place, (globMatcher ClassTakes).Reaches (pattern,text) place → ¬GlobParting place.1 place.2

/-- A text of the escape, as the matchers take it. -/
def escapeText (escape : Option Char) : Option String := escape.map fun char => String.ofList [char]

/-- The copies of `LIKE`: those of conditions, of the executor and of triggers. -/
def LikeCopies (value pattern : String) (escape : Option Char) (caseSensitive : Bool) : Prop :=
  let language := InLikeLanguage escape caseSensitive pattern.toList value.toList
  Answers (.ofExcept (Check.matchesLikePattern value pattern (escapeText escape) caseSensitive))
      language ∧
    Answers (.ofExcept (matchesLikePattern value pattern (escapeText escape) caseSensitive))
      language ∧
    Answers (.ok (triggerLikeMatches value pattern escape)) language

/-- The copies of `GLOB`. -/
def GlobCopies (value pattern : String) : Prop :=
  let language := InGlobLanguage pattern.toList value.toList
  Answers (Check.matchesGlobPattern value pattern) language ∧
    Answers (matchesGlobPattern value pattern) language ∧
    Answers (.ok (triggerGlobMatches value pattern)) language

/-- An escape of one character is read by the `CHECK` evaluator. -/
theorem likeEscape_text (escape : Option Char) :
    Check.likeEscape (escapeText escape)=.ok escape := by
  cases escape with
  | none => rfl
  | some char => simp [escapeText,Check.likeEscape]

/-- The executor reads it too. -/
theorem likeEscapeChar_text (escape : Option Char) :
    likeEscapeChar (escapeText escape)=.ok escape := by
  cases escape with
  | none => rfl
  | some char => simp [escapeText,likeEscapeChar]

/-- The matcher of conditions answers `LIKE` right on every input. -/
theorem checkLike_answers (value pattern : String) (escape : Option Char) (caseSensitive : Bool) :
    Answers (.ofExcept (Check.matchesLikePattern value pattern (escapeText escape) caseSensitive))
      (InLikeLanguage escape caseSensitive pattern.toList value.toList) := by
  rw [Check.matchesLikePattern,likeEscape_text]
  refine answers_ok ⟨fun h => ?_,?_⟩
  · obtain ⟨wildcards,hpattern⟩ := likePattern_of_match h
    exact ⟨wildcards,hpattern,(matchesLike_iff hpattern).mp h⟩
  · rintro ⟨wildcards,hpattern,haccepts⟩
    exact (matchesLike_iff hpattern).mpr haccepts

/-- Without such a place the copies of `LIKE` agree. -/
theorem likeCopies_of_clear {value pattern : String}
    (h : LikeClear escape caseSensitive pattern.toList value.toList) :
    LikeCopies value pattern escape caseSensitive := by
  refine ⟨checkLike_answers value pattern escape caseSensitive,?_,?_⟩
  · rw [matchesLikePattern,likeEscapeChar_text]
    refine answers_ok ?_
    rw [likeTable_iff,tokens_accepts,inLikeLanguage_iff,Check.sqliteTextPrefixBeforeNul,
      ←Matcher.stoppingAt_accepts]
    exact (Matcher.accepts_iff fun place hplace => (like_same_iff.mpr (h place hplace)).1).symm
  · refine answers_ok (triggerLike_language.trans ?_)
    rw [inLikeLanguage_iff,inLikeLanguage_iff]
    exact (Matcher.accepts_iff fun place hplace => (like_same_iff.mpr (h place hplace)).2).symm

/-- Without such a place the copies of `GLOB` agree. -/
theorem globCopies_of_clear {value pattern : String}
    (h : GlobClear pattern.toList value.toList) : GlobCopies value pattern := by
  have hstep : ∀ place, (globMatcher ClassTakes).Reaches (pattern.toList,value.toList) place →
      GlobInStep place.1 place.2 := fun place hplace => globInStep_iff.mpr (h place hplace)
  refine ⟨?_,?_,?_⟩
  · rw [Check.matchesGlobPattern,matchesGlob_eq]
    refine (globMatches_accepts matchesCharClass_inside).congr ?_
    rw [inGlobLanguage_iff]
    exact (Matcher.accepts_iff fun place hplace => (hstep place hplace).check).symm
  · rw [matchesGlobPattern]
    refine (globMatches_accepts globCharClass_inside).congr ?_
    rw [inGlobLanguage_iff,Check.sqliteTextPrefixBeforeNul,←Matcher.stoppingAt_accepts]
    exact (Matcher.accepts_iff fun place hplace => (hstep place hplace).executor).symm
  · refine answers_ok (triggerGlob_accepts.trans ?_)
    rw [inGlobLanguage_iff]
    exact (Matcher.accepts_iff fun place hplace => (hstep place hplace).trigger).symm

end RustSql.Sql
