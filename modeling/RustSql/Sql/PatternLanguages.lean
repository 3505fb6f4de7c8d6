import Mathlib
import RustSql.Base.Wildcards
import RustSql.Sql.PatternMatchers

/-!
# The languages of patterns

What patterns mean, as lists of wildcards: `LIKE` with an escape, and `GLOB` with its classes.
A pattern that ends in its escape, or in a class that is not closed, means nothing. The matchers
of conditions, of the executor and of triggers are compared with that.
-/

namespace RustSql.Sql

/-! ## `LIKE` -/

/-- Two characters that count as the same. -/
def SameLetter (caseSensitive : Bool) (left right : Char) : Prop :=
  left=right ∨ caseSensitive=false ∧ left.toLower=right.toLower

/-- The wildcards of a `LIKE` pattern. -/
inductive LikePattern (escape : Option Char) (caseSensitive : Bool) :
    List Char → List (Wildcard Char) → Prop where
  | nil : LikePattern escape caseSensitive [] []
  | escaped {mark char : Char} {rest : List Char} {wildcards : List (Wildcard Char)}
      (hmark : escape=some mark) (h : LikePattern escape caseSensitive rest wildcards) :
      LikePattern escape caseSensitive (mark :: char :: rest)
        (.one (fun letter => SameLetter caseSensitive letter char) :: wildcards)
  | any {rest : List Char} {wildcards : List (Wildcard Char)} (hescape : escape≠some '%')
      (h : LikePattern escape caseSensitive rest wildcards) :
      LikePattern escape caseSensitive ('%' :: rest) (.any :: wildcards)
  | one {rest : List Char} {wildcards : List (Wildcard Char)} (hescape : escape≠some '_')
      (h : LikePattern escape caseSensitive rest wildcards) :
      LikePattern escape caseSensitive ('_' :: rest) (.one (fun _ => True) :: wildcards)
  | literal {char : Char} {rest : List Char} {wildcards : List (Wildcard Char)}
      (hescape : escape≠some char) (hany : char≠ '%') (hone : char≠ '_')
      (h : LikePattern escape caseSensitive rest wildcards) :
      LikePattern escape caseSensitive (char :: rest)
        (.one (fun letter => SameLetter caseSensitive letter char) :: wildcards)

/-- The texts that a `LIKE` pattern means. -/
def InLikeLanguage (escape : Option Char) (caseSensitive : Bool) (pattern text : List Char) :
    Prop :=
  ∃ wildcards, LikePattern escape caseSensitive pattern wildcards ∧
    Wildcard.Accepts wildcards text

/-- Only the capitals among the first 128 characters have another small letter. -/
theorem toLower_of_large {char : Char} (h : ¬char.toNat < 128) : char.toLower=char := by
  have hcapital : ¬(char.val ≥ 'A'.val ∧ char.val ≤ 'Z'.val) := by
    rintro ⟨_,hhigh⟩
    have hle : char.toNat ≤ 90 := UInt32.le_iff_toNat_le.mp hhigh
    omega
  rw [Char.toLower,dif_neg hcapital]

/-- A capital letter and its small one. -/
theorem toLower_capital {char : Char} (h : char.val ≥ 'A'.val ∧ char.val ≤ 'Z'.val) :
    char.toLower.val.toNat=char.val.toNat+32 := by
  have hle : char.val.toNat ≤ 90 := UInt32.le_iff_toNat_le.mp h.2
  have hshift : (char.val+('a'.val- 'A'.val)).toNat=(char.val.toNat+32)%2^32 :=
    UInt32.toNat_add _ _
  rw [Char.toLower,dif_pos h]
  change (char.val+('a'.val- 'A'.val)).toNat=_
  omega

/-- ASCII letters stay ASCII. -/
theorem toLower_small {char : Char} (h : char.toNat < 128) : char.toLower.toNat < 128 := by
  by_cases hcapital : char.val ≥ 'A'.val ∧ char.val ≤ 'Z'.val
  · have hle : char.val.toNat ≤ 90 := UInt32.le_iff_toNat_le.mp hcapital.2
    have hlower := toLower_capital hcapital
    change char.toLower.val.toNat < 128
    omega
  · rw [Char.toLower,dif_neg hcapital]
    exact h

/-- `char_eq` compares letters as the pattern means them. -/
theorem charEq_iff {left right : Char} {caseSensitive : Bool} :
    Check.charEq left right caseSensitive=true ↔ SameLetter caseSensitive left right := by
  cases caseSensitive with
  | true => simp [Check.charEq,SameLetter]
  | false =>
    by_cases hleft : left.toNat < 128
    · by_cases hright : right.toNat < 128
      · simp [Check.charEq,SameLetter,hleft,hright]
        intro h
        rw [h]
      · have hsame := toLower_of_large hright
        simp [Check.charEq,SameLetter,hright,hsame]
        intro h
        have hsmall := toLower_small hleft
        rw [h] at hsmall
        exact absurd hsmall hright
    · have hsame := toLower_of_large hleft
      simp [Check.charEq,SameLetter,hleft,hsame]
      intro h
      by_contra hne
      by_cases hright : right.toNat < 128
      · have hsmall := toLower_small hright
        rw [←h] at hsmall
        exact absurd hsmall hleft
      · rw [toLower_of_large hright] at h
        exact hne h

/-- The wildcard of a character that is not escaped. -/
def likeWildcard (caseSensitive : Bool) (char : Char) : Wildcard Char :=
  if char = '%' then .any
  else if char = '_' then .one fun _ => True
  else .one fun letter => SameLetter caseSensitive letter char

section Like

variable {escape : Option Char} {caseSensitive : Bool}

/-- Any other character stands for itself. -/
theorem LikePattern.char {char : Char} {rest : List Char} {wildcards : List (Wildcard Char)}
    (hescape : escape≠some char) (h : LikePattern escape caseSensitive rest wildcards) :
    LikePattern escape caseSensitive (char :: rest)
      (likeWildcard caseSensitive char :: wildcards) := by
  by_cases hany : char = '%'
  · subst hany
    exact .any hescape h
  · by_cases hone : char = '_'
    · subst hone
      exact .one hescape h
    · rw [likeWildcard,if_neg hany,if_neg hone]
      exact .literal hescape hany hone h

/-! ### The matcher of conditions -/

/-- An escaped character matches no empty text. -/
theorem matchesLike_escaped_nil {mark char : Char} {rest : List Char} (hmark : escape=some mark) :
    Check.matchesLike escape caseSensitive [] (mark :: char :: rest)=false :=
  if_pos hmark

/-- An escaped character matches itself. -/
theorem matchesLike_escaped {mark char first : Char} {rest tail : List Char}
    (hmark : escape=some mark) :
    Check.matchesLike escape caseSensitive (first :: tail) (mark :: char :: rest)=
      (Check.charEq first char caseSensitive &&
        Check.matchesLike escape caseSensitive tail rest) :=
  if_pos hmark

/-- An escape at the end matches nothing. -/
theorem matchesLike_open {mark : Char} {text : List Char} (hmark : escape=some mark) :
    Check.matchesLike escape caseSensitive text [mark]=false :=
  if_pos hmark

/-- `%` skips any number of characters. -/
theorem matchesLike_any {text rest : List Char} (hescape : escape≠some '%') :
    Check.matchesLike escape caseSensitive text ('%' :: rest)=
      text.tails.any fun tail => Check.matchesLike escape caseSensitive tail rest := by
  cases rest with
  | nil => exact if_neg hescape
  | cons next rest => exact if_neg hescape

/-- `_` skips one. -/
theorem matchesLike_one {first : Char} {rest tail : List Char} (hescape : escape≠some '_') :
    Check.matchesLike escape caseSensitive (first :: tail) ('_' :: rest)=
      Check.matchesLike escape caseSensitive tail rest := by
  cases rest with
  | nil => exact if_neg hescape
  | cons next rest => exact if_neg hescape

/-- A literal matches no empty text. -/
theorem matchesLike_nil {char : Char} {rest : List Char} (hescape : escape≠some char)
    (hany : char≠ '%') : Check.matchesLike escape caseSensitive [] (char :: rest)=false := by
  cases rest with
  | nil =>
    refine (if_neg hescape).trans ?_
    simp
  | cons next rest =>
    refine (if_neg hescape).trans ?_
    simp

/-- A literal matches its letter. -/
theorem matchesLike_literal {char first : Char} {rest tail : List Char}
    (hescape : escape≠some char) (hany : char≠ '%') (hone : char≠ '_') :
    Check.matchesLike escape caseSensitive (first :: tail) (char :: rest)=
      (Check.charEq first char caseSensitive &&
        Check.matchesLike escape caseSensitive tail rest) := by
  cases rest with
  | nil =>
    refine (if_neg hescape).trans ?_
    simp
  | cons next rest =>
    refine (if_neg hescape).trans ?_
    simp

/-- The matcher of conditions accepts what the wildcards of the pattern accept. -/
theorem matchesLike_iff {pattern text : List Char} {wildcards : List (Wildcard Char)}
    (h : LikePattern escape caseSensitive pattern wildcards) :
    Check.matchesLike escape caseSensitive text pattern=true ↔
      Wildcard.Accepts wildcards text := by
  induction h generalizing text with
  | nil =>
    rw [Wildcard.accepts_nil,←List.isEmpty_iff]
    cases text <;> exact Iff.rfl
  | escaped hmark h ih =>
    cases text with
    | nil => simp [matchesLike_escaped_nil hmark]
    | cons first tail =>
      rw [matchesLike_escaped hmark,Bool.and_eq_true,charEq_iff,ih,Wildcard.accepts_one]
  | any hescape h ih =>
    rw [matchesLike_any hescape,List.any_eq_true,Wildcard.accepts_any]
    constructor
    · rintro ⟨rest,hrest,hmatch⟩
      obtain ⟨skipped,htext⟩ := (List.mem_tails rest text).mp hrest
      exact ⟨skipped,rest,htext.symm,ih.mp hmatch⟩
    · rintro ⟨skipped,rest,htext,haccepts⟩
      exact ⟨rest,(List.mem_tails rest text).mpr ⟨skipped,htext.symm⟩,ih.mpr haccepts⟩
  | one hescape h ih =>
    cases text with
    | nil => simp [matchesLike_nil hescape]
    | cons first tail =>
      rw [matchesLike_one hescape,ih,Wildcard.accepts_one,true_and]
  | literal hescape hany hone h ih =>
    cases text with
    | nil => simp [matchesLike_nil hescape hany]
    | cons first tail =>
      rw [matchesLike_literal hescape hany hone,Bool.and_eq_true,charEq_iff,ih,
        Wildcard.accepts_one]

/-! ### The executor's table -/

/-- The wildcard of a token. -/
def LikeToken.wildcard (caseSensitive : Bool) : LikeToken → Wildcard Char
  | .any => .any
  | .one => .one fun _ => True
  | .literal char => .one fun letter => SameLetter caseSensitive letter char

/-- Without an escape each character is a token. -/
theorem likeTokens_char {char : Char} {rest : List Char} (hescape : escape≠some char) :
    likeTokens escape (char :: rest)=likeToken char :: likeTokens escape rest := by
  cases rest with
  | nil => exact if_neg hescape
  | cons next rest => exact if_neg hescape

/-- A row of the table: for each beginning of the pattern, from some wildcards on, whether it
accepts a text. -/
def LikeRow (caseSensitive : Bool) (text : List Char) :
    List (Wildcard Char) → List LikeToken → List Bool → Prop
  | done, [], row => ∃ last, row=[last] ∧ (last=true ↔ Wildcard.Accepts done text)
  | done, token :: tokens, row => ∃ first rest, row=first :: rest ∧
      (first=true ↔ Wildcard.Accepts done text) ∧
      LikeRow caseSensitive text (done++[token.wildcard caseSensitive]) tokens rest

/-- The first row is about the empty text. -/
theorem firstLikeRow_row {done : List (Wildcard Char)} {tokens : List LikeToken} {before : Bool}
    (h : before=true ↔ Wildcard.Accepts done []) :
    LikeRow caseSensitive [] done tokens (firstLikeRow before tokens) := by
  induction tokens generalizing done before with
  | nil => exact ⟨before,rfl,h⟩
  | cons token tokens ih =>
    refine ⟨before,_,rfl,h,ih ?_⟩
    cases token with
    | any => simpa [LikeToken.wildcard,Wildcard.accepts_concat_any_nil] using h
    | one => simp [LikeToken.wildcard,Wildcard.not_accepts_concat_one_nil]
    | literal char => simp [LikeToken.wildcard,Wildcard.not_accepts_concat_one_nil]

/-- An entry says whether one wildcard more accepts one character more. -/
theorem likeEntry_iff {done : List (Wildcard Char)} {text : List Char} {char : Char}
    {before aboveBefore above : Bool} {token : LikeToken}
    (hbefore : before=true ↔ Wildcard.Accepts done (text++[char]))
    (haboveBefore : aboveBefore=true ↔ Wildcard.Accepts done text)
    (habove : above=true ↔
      Wildcard.Accepts (done++[token.wildcard caseSensitive]) text) :
    likeEntry char caseSensitive before aboveBefore above token=true ↔
      Wildcard.Accepts (done++[token.wildcard caseSensitive]) (text++[char]) := by
  cases token with
  | any =>
    rw [likeEntry,Bool.or_eq_true,hbefore,habove]
    exact Wildcard.accepts_concat_any.symm
  | one =>
    rw [likeEntry,haboveBefore,LikeToken.wildcard,Wildcard.accepts_concat_one,and_true]
  | literal literal =>
    rw [likeEntry,Bool.and_eq_true,haboveBefore,sqliteLikeCharsEqual,charEq_iff,
      LikeToken.wildcard,Wildcard.accepts_concat_one]

/-- Each next row is about one more character. -/
theorem nextLikeRow_row {done : List (Wildcard Char)} {tokens : List LikeToken}
    {text : List Char} {char : Char} {row : List Bool} {before : Bool}
    (hrow : LikeRow caseSensitive text done tokens row)
    (h : before=true ↔ Wildcard.Accepts done (text++[char])) :
    LikeRow caseSensitive (text++[char]) done tokens
      (nextLikeRow char caseSensitive before tokens row) := by
  induction tokens generalizing done row before with
  | nil =>
    have hlast : nextLikeRow char caseSensitive before [] row=[before] := by simp [nextLikeRow]
    exact ⟨before,hlast,h⟩
  | cons token tokens ih =>
    obtain ⟨aboveBefore,rest,rfl,haboveBefore,hrest⟩ := hrow
    have hrow := hrest
    cases tokens with
    | nil =>
      obtain ⟨above,rfl,habove⟩ := hrest
      exact ⟨before,_,rfl,h,ih hrow (likeEntry_iff h haboveBefore habove)⟩
    | cons next tokens =>
      obtain ⟨above,rest,rfl,habove,_⟩ := hrest
      exact ⟨before,_,rfl,h,ih hrow (likeEntry_iff h haboveBefore habove)⟩

/-- The last entry answers for the whole pattern. -/
theorem LikeRow.last {done : List (Wildcard Char)} {tokens : List LikeToken} {text : List Char}
    {row : List Bool} (h : LikeRow caseSensitive text done tokens row) :
    row.getLastD false=true ↔
      Wildcard.Accepts (done++tokens.map (LikeToken.wildcard caseSensitive)) text := by
  induction tokens generalizing done row with
  | nil =>
    obtain ⟨last,rfl,hlast⟩ := h
    rw [List.map_nil,List.append_nil]
    exact hlast
  | cons token tokens ih =>
    obtain ⟨first,rest,rfl,_,hrest⟩ := h
    have hlast := ih hrest
    rw [List.append_assoc,List.singleton_append,←List.map_cons] at hlast
    rw [←hlast]
    cases tokens with
    | nil =>
      obtain ⟨last,rfl,_⟩ := hrest
      exact Iff.rfl
    | cons next tokens =>
      obtain ⟨second,rest,rfl,_⟩ := hrest
      exact Iff.rfl

/-- The rows follow the text, a character at a time. -/
theorem likeRows {tokens : List LikeToken} {text rest : List Char} {row : List Bool}
    (h : LikeRow caseSensitive text [] tokens row) :
    LikeRow caseSensitive (text++rest) [] tokens
      (rest.foldl (fun row char => nextLikeRow char caseSensitive false tokens row) row) := by
  induction rest generalizing text row with
  | nil =>
    rw [List.append_nil]
    exact h
  | cons char rest ih =>
    have hfalse : false=true ↔ Wildcard.Accepts [] (text++[char]) := by simp
    have hnext := ih (nextLikeRow_row h hfalse)
    rw [List.append_assoc,List.singleton_append] at hnext
    exact hnext

/-- The executor's table accepts what the wildcards of its tokens accept. -/
theorem likeTable_iff {text : List Char} {tokens : List LikeToken} :
    likeTable caseSensitive text tokens=true ↔
      Wildcard.Accepts (tokens.map (LikeToken.wildcard caseSensitive)) text := by
  have hfirst : true=true ↔ Wildcard.Accepts ([] : List (Wildcard Char)) [] := by simp
  have hrow := @likeRows caseSensitive tokens [] text _ (firstLikeRow_row hfirst)
  rw [likeTable]
  exact hrow.last

/-! ### The triggers' matcher -/

/-- In a trigger each character is read by itself. -/
theorem triggerLike_char {char first : Char} {rest tail : List Char} (hescape : escape≠some char)
    (hany : char≠ '%') : triggerLike escape (first :: tail) (char :: rest)=
      if char = '_' then triggerLike escape tail rest
      else Check.charEq first char false && triggerLike escape tail rest := by
  rw [triggerLike.eq_def]
  simp only
  rw [if_neg hescape,if_neg hany]

/-- A character matches no empty text. -/
theorem triggerLike_nil {char : Char} {rest : List Char} (hescape : escape≠some char)
    (hany : char≠ '%') : triggerLike escape [] (char :: rest)=false := by
  rw [triggerLike.eq_def]
  simp only
  rw [if_neg hescape,if_neg hany]

/-- `%` matches the empty text. -/
theorem triggerLike_any_nil {rest : List Char} (hescape : escape≠some '%') :
    triggerLike escape [] ('%' :: rest)=triggerLike escape [] rest := by
  rw [triggerLike.eq_def]
  simp only
  rw [if_neg hescape,if_pos trivial,Bool.or_false]

/-- `%` skips a character or none. -/
theorem triggerLike_any {first : Char} {tail rest : List Char} (hescape : escape≠some '%') :
    triggerLike escape (first :: tail) ('%' :: rest)=
      (triggerLike escape (first :: tail) rest || triggerLike escape tail ('%' :: rest)) := by
  rw [triggerLike.eq_def]
  simp only
  rw [if_neg hescape,if_pos trivial]

/-- The triggers' matcher accepts what the wildcards of the pattern accept, whatever the case of
letters. -/
theorem triggerLike_iff {pattern text : List Char} {wildcards : List (Wildcard Char)}
    (h : LikePattern escape false pattern wildcards) :
    triggerLike escape text pattern=true ↔ Wildcard.Accepts wildcards text := by
  induction h generalizing text with
  | nil =>
    rw [triggerLike,Wildcard.accepts_nil]
    exact List.isEmpty_iff
  | escaped hmark h ih =>
    rw [triggerLike.eq_def]
    simp only
    rw [if_pos hmark]
    cases text with
    | nil => simp
    | cons first tail =>
      simp only
      rw [Bool.and_eq_true,charEq_iff,ih,Wildcard.accepts_one]
  | any hescape h ih =>
    induction text with
    | nil =>
      rw [triggerLike_any_nil hescape,Wildcard.accepts_any_step,ih]
      simp
    | cons first tail ihtext =>
      rw [triggerLike_any hescape,Wildcard.accepts_any_step,Bool.or_eq_true,ih,ihtext]
      constructor
      · rintro (hhere | hlater)
        · exact Or.inl hhere
        · exact Or.inr ⟨first,tail,rfl,hlater⟩
      · rintro (hhere | ⟨letter,rest,htext,hlater⟩)
        · exact Or.inl hhere
        · rw [(List.cons.inj htext).2]
          exact Or.inr hlater
  | one hescape h ih =>
    cases text with
    | nil => simp [triggerLike_nil hescape]
    | cons first tail =>
      rw [triggerLike_char hescape (by decide),if_pos rfl,ih,Wildcard.accepts_one,true_and]
  | literal hescape hany hone h ih =>
    cases text with
    | nil => simp [triggerLike_nil hescape hany]
    | cons first tail =>
      rw [triggerLike_char hescape hany,if_neg hone,Bool.and_eq_true,charEq_iff,ih,
        Wildcard.accepts_one]

/-- The matchers of conditions and of triggers refuse a pattern that ends in its escape. -/
theorem likePattern_of_trigger {pattern text : List Char}
    (h : triggerLike escape text pattern=true) :
    ∃ wildcards, LikePattern escape caseSensitive pattern wildcards := by
  induction pattern using likeTokens.induct escape generalizing text with
  | case1 => exact ⟨[],.nil⟩
  | case2 char hmark =>
    rw [triggerLike.eq_def] at h
    simp only [if_pos hmark] at h
    cases h
  | case3 char hescape => exact ⟨_,.char hescape .nil⟩
  | case4 char next rest hmark ih =>
    rw [triggerLike.eq_def] at h
    simp only [if_pos hmark] at h
    cases text with
    | nil => cases h
    | cons first tail =>
      obtain ⟨wildcards,hrest⟩ := ih (Bool.and_eq_true_iff.mp h).2
      exact ⟨_,.escaped hmark hrest⟩
  | case5 char next rest hescape ih =>
    have hrest : ∃ tail, triggerLike escape tail (next :: rest)=true := by
      by_cases hany : char = '%'
      · subst hany
        induction text with
        | nil =>
          rw [triggerLike_any_nil hescape] at h
          exact ⟨[],h⟩
        | cons first tail ihtext =>
          rw [triggerLike_any hescape,Bool.or_eq_true] at h
          rcases h with h | h
          · exact ⟨_,h⟩
          · exact ihtext h
      · cases text with
        | nil =>
          rw [triggerLike_nil hescape hany] at h
          cases h
        | cons first tail =>
          rw [triggerLike_char hescape hany] at h
          split at h
          · exact ⟨tail,h⟩
          · exact ⟨tail,(Bool.and_eq_true_iff.mp h).2⟩
    obtain ⟨tail,htail⟩ := hrest
    obtain ⟨wildcards,hrest⟩ := ih htail
    exact ⟨_,.char hescape hrest⟩

/-- The triggers' matcher never heeds the case of letters, and is right otherwise. -/
theorem triggerLike_language {pattern text : List Char} :
    triggerLike escape text pattern=true ↔ InLikeLanguage escape false pattern text := by
  constructor
  · intro h
    obtain ⟨wildcards,hpattern⟩ := @likePattern_of_trigger escape false pattern text h
    exact ⟨wildcards,hpattern,(triggerLike_iff hpattern).mp h⟩
  · rintro ⟨wildcards,hpattern,haccepts⟩
    exact (triggerLike_iff hpattern).mpr haccepts

end Like

/-! ## `GLOB` -/

/-- Whether a class's members hold a character: ranges and single characters. -/
def ClassHolds (char : Char) : List Char → Prop
  | [] => False
  | first :: '-' :: last :: rest =>
    (first.toNat ≤ char.toNat ∧ char.toNat ≤ last.toNat) ∨ ClassHolds char rest
  | first :: rest => first=char ∨ ClassHolds char rest

/-- A bracket at the start is a member. -/
def ClassMember (char : Char) : List Char → Prop
  | ']' :: rest => char = ']' ∨ ClassHolds char rest
  | members => ClassHolds char members

/-- The wildcards of a `GLOB` pattern. -/
inductive GlobPattern : List Char → List (Wildcard Char) → Prop where
  | nil : GlobPattern [] []
  | any {rest : List Char} {wildcards : List (Wildcard Char)}
      (h : GlobPattern rest wildcards) : GlobPattern ('*' :: rest) (.any :: wildcards)
  | one {rest : List Char} {wildcards : List (Wildcard Char)}
      (h : GlobPattern rest wildcards) :
      GlobPattern ('?' :: rest) (.one (fun _ => True) :: wildcards)
  | set {first : Char} {members rest : List Char} {wildcards : List (Wildcard Char)}
      (hfirst : first≠ '^') (hclosed : ']'∉members) (h : GlobPattern rest wildcards) :
      GlobPattern ('[' :: first :: (members++ ']' :: rest))
        (.one (fun letter => ClassMember letter (first :: members)) :: wildcards)
  | negated {first : Char} {members rest : List Char} {wildcards : List (Wildcard Char)}
      (hclosed : ']'∉members) (h : GlobPattern rest wildcards) :
      GlobPattern ('[' :: '^' :: first :: (members++ ']' :: rest))
        (.one (fun letter => ¬ClassMember letter (first :: members)) :: wildcards)
  | literal {char : Char} {rest : List Char} {wildcards : List (Wildcard Char)}
      (hany : char≠ '*') (hone : char≠ '?') (hset : char≠ '[')
      (h : GlobPattern rest wildcards) :
      GlobPattern (char :: rest) (.one (fun letter => letter=char) :: wildcards)

/-- The texts that a `GLOB` pattern means. -/
def InGlobLanguage (pattern text : List Char) : Prop :=
  ∃ wildcards, GlobPattern pattern wildcards ∧ Wildcard.Accepts wildcards text

/-- A class ends with one bracket only. -/
theorem class_unique {members members' rest rest' : List Char} (h : ']'∉members)
    (h' : ']'∉members') (hsame : members++ ']' :: rest=members'++ ']' :: rest') :
    members=members' ∧ rest=rest' := by
  induction members generalizing members' with
  | nil =>
    cases members' with
    | nil => exact ⟨rfl,(List.cons.inj hsame).2⟩
    | cons first members' =>
      have hfirst := (List.cons.inj hsame).1
      rw [←hfirst] at h'
      exact absurd List.mem_cons_self h'
  | cons first members ih =>
    cases members' with
    | nil =>
      have hfirst := (List.cons.inj hsame).1
      rw [hfirst] at h
      exact absurd List.mem_cons_self h
    | cons first' members' =>
      obtain ⟨hfirst,hrest⟩ := List.cons.inj hsame
      obtain ⟨rfl,rfl⟩ := ih (fun hin => h (List.mem_cons_of_mem _ hin))
        (fun hin => h' (List.mem_cons_of_mem _ hin)) hrest
      exact ⟨by rw [hfirst],rfl⟩

end RustSql.Sql
