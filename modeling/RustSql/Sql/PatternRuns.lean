import RustSql.Base.Matchers
import RustSql.Sql.PatternLanguages

/-!
# Runs through patterns

What patterns mean, as matchers that take one character at a time, and the places in a pattern
and a text at which the copies of the code do something else.
-/

namespace RustSql.Sql

/-- A text without a NUL at its start ends for the executor where it ends. -/
theorem executor_ends_iff {pattern text : List Char}
    (hnul : pattern=[] → ∀ tail, text≠ '\x00' :: tail) :
    pattern=[] ∧ text=[] ↔ pattern=[] ∧ (text.takeWhile fun letter => letter != '\x00')=[] := by
  refine and_congr_right fun hpattern => ⟨fun htext => by rw [htext]; rfl,fun htext => ?_⟩
  cases text with
  | nil => rfl
  | cons first tail =>
    by_cases hfirst : first= '\x00'
    · exact absurd (hfirst ▸ rfl) (hnul hpattern tail)
    · rw [List.takeWhile_cons,if_pos (bne_iff_ne.mpr hfirst)] at htext
      cases htext

/-! ## `LIKE` -/

section Like

variable {escape : Option Char} {caseSensitive : Bool} {pattern text rest : List Char}
  {char letter : Char}

/-- The character that a `LIKE` pattern takes, and the pattern behind it. -/
inductive LikeEats (escape : Option Char) (caseSensitive : Bool) :
    List Char → Char → List Char → Prop where
  | any {letter : Char} {rest : List Char} (hescape : escape≠some '%') :
      LikeEats escape caseSensitive ('%' :: rest) letter ('%' :: rest)
  | one {letter : Char} {rest : List Char} (hescape : escape≠some '_') :
      LikeEats escape caseSensitive ('_' :: rest) letter rest
  | literal {char letter : Char} {rest : List Char} (hescape : escape≠some char)
      (hany : char≠ '%') (hone : char≠ '_') (hsame : SameLetter caseSensitive letter char) :
      LikeEats escape caseSensitive (char :: rest) letter rest
  | escaped {mark char letter : Char} {rest : List Char} (hmark : escape=some mark)
      (hsame : SameLetter caseSensitive letter char) :
      LikeEats escape caseSensitive (mark :: char :: rest) letter rest

/-- A `%` stands for nothing. -/
def likeSkips (escape : Option Char) (pattern rest : List Char) : Prop :=
  escape≠some '%' ∧ pattern= '%' :: rest

/-- `LIKE` as it is meant. -/
def likeMatcher (escape : Option Char) (caseSensitive : Bool) : Matcher (List Char) Char where
  skips := likeSkips escape
  eats := LikeEats escape caseSensitive
  ends pattern text := pattern=[] ∧ text=[]

/-- What a pattern that starts with `%` means. -/
theorem LikePattern.any_inv {wildcards : List (Wildcard Char)} (hescape : escape≠some '%')
    (h : LikePattern escape caseSensitive ('%' :: rest) wildcards) :
    ∃ behind, wildcards=.any :: behind ∧ LikePattern escape caseSensitive rest behind := by
  generalize hpattern : '%' :: rest=pattern at h
  cases h with
  | nil => cases hpattern
  | escaped hmark =>
    obtain ⟨rfl,-⟩ := List.cons.inj hpattern
    exact absurd hmark hescape
  | any _ h =>
    cases hpattern
    exact ⟨_,rfl,h⟩
  | one => exact absurd (List.cons.inj hpattern).1 (by decide)
  | literal _ hany =>
    obtain ⟨rfl,-⟩ := List.cons.inj hpattern
    exact absurd rfl hany

/-- The texts that a pattern means are those that its matcher accepts. -/
theorem inLikeLanguage_iff :
    InLikeLanguage escape caseSensitive pattern text ↔
      (likeMatcher escape caseSensitive).Accepts pattern text := by
  constructor
  · rintro ⟨wildcards,hpattern,haccepts⟩
    induction hpattern generalizing text with
    | nil => exact .done ⟨rfl,Wildcard.accepts_nil.mp haccepts⟩
    | escaped hmark _ ih =>
      cases haccepts with
      | one hletter haccepts => exact .eat (.escaped hmark hletter) (ih haccepts)
    | any hescape _ ih =>
      obtain ⟨skipped,behind,rfl,hbehind⟩ := Wildcard.accepts_any.mp haccepts
      clear haccepts
      induction skipped with
      | nil => exact .skip ⟨hescape,rfl⟩ (ih hbehind)
      | cons first skipped ihskipped => exact .eat (.any hescape) ihskipped
    | one hescape _ ih =>
      cases haccepts with
      | one _ haccepts => exact .eat (.one hescape) (ih haccepts)
    | literal hescape hany hone _ ih =>
      cases haccepts with
      | one hletter haccepts => exact .eat (.literal hescape hany hone hletter) (ih haccepts)
  · intro haccepts
    induction haccepts with
    | done hends =>
      obtain ⟨rfl,rfl⟩ := hends
      exact ⟨[],.nil,.nil⟩
    | skip hskip _ ih =>
      obtain ⟨hescape,rfl⟩ := hskip
      obtain ⟨wildcards,hpattern,haccepts⟩ := ih
      exact ⟨_,.any hescape hpattern,.any [] haccepts⟩
    | eat heat _ ih =>
      obtain ⟨wildcards,hpattern,haccepts⟩ := ih
      cases heat with
      | any hescape =>
        obtain ⟨behind,rfl,hbehind⟩ := hpattern.any_inv hescape
        exact ⟨_,hpattern,Wildcard.accepts_any_step.mpr (.inr ⟨_,_,rfl,haccepts⟩)⟩
      | one hescape => exact ⟨_,.one hescape hpattern,.one trivial haccepts⟩
      | literal hescape hany hone hsame =>
        exact ⟨_,.literal hescape hany hone hpattern,.one hsame haccepts⟩
      | escaped hmark hsame => exact ⟨_,.escaped hmark hpattern,.one hsame haccepts⟩

/-- The executor's own reading: an escape at the pattern's end is taken as itself. -/
def openMatcher (escape : Option Char) (caseSensitive : Bool) : Matcher (List Char) Char where
  skips := likeSkips escape
  eats pattern letter rest := LikeEats escape caseSensitive pattern letter rest ∨
    ∃ mark, escape=some mark ∧ pattern=[mark] ∧ rest=[] ∧ SameLetter caseSensitive letter mark
  ends pattern text := pattern=[] ∧ text=[]

/-- `LIKE` of the executor. -/
def executorLike (escape : Option Char) (caseSensitive : Bool) : Matcher (List Char) Char :=
  (openMatcher escape caseSensitive).stoppingAt '\x00'

/-- The places where the executor or the triggers do something else: the text has a NUL, an
escape at the end stands against itself, or letters differ in case where case counts. -/
inductive LikeParting (escape : Option Char) (caseSensitive : Bool) :
    List Char → List Char → Prop where
  | nulEnd {tail : List Char} : LikeParting escape caseSensitive [] ('\x00' :: tail)
  | nul {pattern rest tail : List Char} (h : LikeEats escape caseSensitive pattern '\x00' rest) :
      LikeParting escape caseSensitive pattern ('\x00' :: tail)
  | openEscape {mark letter : Char} {tail : List Char} (hmark : escape=some mark)
      (hnul : letter≠ '\x00') (hsame : SameLetter caseSensitive letter mark) :
      LikeParting escape caseSensitive [mark] (letter :: tail)
  | letter {pattern rest tail : List Char} {letter : Char}
      (h : LikeEats escape false pattern letter rest)
      (hcase : ¬LikeEats escape caseSensitive pattern letter rest) :
      LikeParting escape caseSensitive pattern (letter :: tail)

/-- An escape at the end takes no character. -/
theorem not_likeEats_open {mark : Char} (hmark : escape=some mark) :
    ¬LikeEats escape caseSensitive [mark] letter rest := by
  intro h
  generalize hpattern : [mark]=pattern at h
  cases h with
  | any hescape =>
    obtain ⟨rfl,-⟩ := List.cons.inj hpattern
    exact hescape hmark
  | one hescape =>
    obtain ⟨rfl,-⟩ := List.cons.inj hpattern
    exact hescape hmark
  | literal hescape =>
    obtain ⟨rfl,-⟩ := List.cons.inj hpattern
    exact hescape hmark
  | escaped => cases hpattern

/-- Who tells cases apart eats what others eat. -/
theorem LikeEats.caseless (h : LikeEats escape caseSensitive pattern letter rest) :
    LikeEats escape false pattern letter rest := by
  have hsame : ∀ {letter char : Char}, SameLetter caseSensitive letter char →
      SameLetter false letter char := by
    rintro letter char (h | ⟨-,h⟩)
    · exact .inl h
    · exact .inr ⟨rfl,h⟩
  cases h with
  | any hescape => exact .any hescape
  | one hescape => exact .one hescape
  | literal hescape hany hone h => exact .literal hescape hany hone (hsame h)
  | escaped hmark h => exact .escaped hmark (hsame h)

/-- The executor and the triggers move as is meant exactly where nothing parts them. -/
theorem like_same_iff :
    ((likeMatcher escape caseSensitive).Same (executorLike escape caseSensitive) pattern text ∧
      (likeMatcher escape caseSensitive).Same (likeMatcher escape false) pattern text) ↔
      ¬LikeParting escape caseSensitive pattern text := by
  constructor
  · rintro ⟨hexecutor,htrigger⟩ hparting
    cases hparting with
    | nulEnd =>
      have hends := hexecutor.ends.mpr ⟨rfl,rfl⟩
      exact absurd hends.2 (List.cons_ne_nil _ _)
    | nul h => exact ((hexecutor.eats _ _ rfl _).mp h).1 rfl
    | @openEscape mark letter tail hmark hnul hsame =>
      have heats := (hexecutor.eats letter tail rfl []).mpr
        ⟨hnul,.inr ⟨mark,hmark,rfl,rfl,hsame⟩⟩
      exact not_likeEats_open hmark heats
    | letter h hcase => exact hcase ((htrigger.eats _ _ rfl _).mpr h)
  · intro hclear
    refine ⟨⟨fun rest => Iff.rfl,fun letter tail htext rest => ⟨fun h => ?_,fun h => ?_⟩,?_⟩,
      ⟨fun rest => Iff.rfl,fun letter tail htext rest => ⟨LikeEats.caseless,fun h => ?_⟩,Iff.rfl⟩⟩
    · refine ⟨?_,.inl h⟩
      rintro rfl
      exact hclear (htext ▸ .nul h)
    · obtain ⟨hnul,h | ⟨mark,hmark,rfl,rfl,hsame⟩⟩ := h
      · exact h
      · exact absurd (htext ▸ .openEscape hmark hnul hsame) hclear
    · refine executor_ends_iff ?_
      rintro rfl tail rfl
      exact hclear .nulEnd
    · by_contra hcase
      exact hclear (htext ▸ .letter h hcase)

/-! ### The executor's tokens -/

/-- The token of a character that is not escaped does as the matcher does at it. -/
theorem openMatcher_char {wildcards : List (Wildcard Char)} (hescape : escape≠some char)
    (hrest : ∀ text, Wildcard.Accepts wildcards text →
      (openMatcher escape caseSensitive).Accepts rest text)
    (h : Wildcard.Accepts ((likeToken char).wildcard caseSensitive :: wildcards) text) :
    (openMatcher escape caseSensitive).Accepts (char :: rest) text := by
  by_cases hany : char = '%'
  · subst hany
    obtain ⟨skipped,behind,rfl,hbehind⟩ := Wildcard.accepts_any.mp h
    clear h
    induction skipped with
    | nil => exact .skip ⟨hescape,rfl⟩ (hrest _ hbehind)
    | cons first skipped ih => exact .eat (.inl (.any hescape)) ih
  · by_cases hone : char = '_'
    · subst hone
      cases h with
      | one _ h => exact .eat (.inl (.one hescape)) (hrest _ h)
    · rw [likeToken,if_neg hany,if_neg hone] at h
      cases h with
      | one hletter h => exact .eat (.inl (.literal hescape hany hone hletter)) (hrest _ h)

/-- The open matcher accepts what the tokens mean. -/
theorem openMatcher_of_tokens
    (h : Wildcard.Accepts ((likeTokens escape pattern).map (LikeToken.wildcard caseSensitive))
      text) : (openMatcher escape caseSensitive).Accepts pattern text := by
  induction pattern using likeTokens.induct escape generalizing text with
  | case1 => exact .done ⟨rfl,Wildcard.accepts_nil.mp h⟩
  | case2 char hmark =>
    rw [likeTokens,if_pos hmark] at h
    cases h with
    | one hletter h =>
      obtain rfl := Wildcard.accepts_nil.mp h
      exact .eat (.inr ⟨char,hmark,rfl,rfl,hletter⟩) (.done ⟨rfl,rfl⟩)
  | case3 char hescape =>
    rw [likeTokens_char hescape] at h
    exact openMatcher_char hescape (fun text hnil => .done ⟨rfl,Wildcard.accepts_nil.mp hnil⟩) h
  | case4 char next rest hmark ih =>
    rw [likeTokens,if_pos hmark] at h
    cases h with
    | one hletter h => exact .eat (.inl (.escaped hmark hletter)) (ih h)
  | case5 char next rest hescape ih =>
    rw [likeTokens_char hescape] at h
    exact openMatcher_char hescape (fun text => ih) h

/-- The wildcards of the executor's tokens accept what its matcher does. -/
theorem tokens_accepts :
    Wildcard.Accepts ((likeTokens escape pattern).map (LikeToken.wildcard caseSensitive)) text ↔
      (openMatcher escape caseSensitive).Accepts pattern text := by
  refine ⟨openMatcher_of_tokens,fun haccepts => ?_⟩
  induction haccepts with
  | done hends =>
    obtain ⟨rfl,rfl⟩ := hends
    exact .nil
  | skip hskip _ ih =>
    obtain ⟨hescape,rfl⟩ := hskip
    rw [likeTokens_char hescape]
    exact .any [] ih
  | eat heat _ ih =>
    rcases heat with heat | ⟨mark,hmark,rfl,rfl,hsame⟩
    · cases heat with
      | any hescape =>
        rw [likeTokens_char hescape] at ih ⊢
        exact Wildcard.accepts_any_step.mpr (.inr ⟨_,_,rfl,ih⟩)
      | one hescape =>
        rw [likeTokens_char hescape]
        exact .one trivial ih
      | @literal char letter rest hescape hany hone hsame =>
        rw [likeTokens_char hescape,likeToken,if_neg hany,if_neg hone]
        exact .one hsame ih
      | escaped hmark hsame =>
        rw [likeTokens,if_pos hmark]
        exact .one hsame ih
    · rw [likeTokens,if_pos hmark]
      exact .one hsame ih

end Like

/-! ## `GLOB` -/

section Glob

variable {pattern text rest body members : List Char} {char letter : Char}
  {takes : List Char → Char → List Char → Prop}

/-- The character that a `GLOB` pattern takes, and the pattern behind it, over what stands
behind the bracket of a class. -/
inductive GlobEats (takes : List Char → Char → List Char → Prop) :
    List Char → Char → List Char → Prop where
  | any {letter : Char} {rest : List Char} : GlobEats takes ('*' :: rest) letter ('*' :: rest)
  | one {letter : Char} {rest : List Char} : GlobEats takes ('?' :: rest) letter rest
  | set {letter : Char} {body rest : List Char} (h : takes body letter rest) :
      GlobEats takes ('[' :: body) letter rest
  | literal {char : Char} {rest : List Char} (hany : char≠ '*') (hone : char≠ '?')
      (hset : char≠ '[') : GlobEats takes (char :: rest) char rest

/-- `GLOB`, over how classes are read. -/
def globMatcher (takes : List Char → Char → List Char → Prop) : Matcher (List Char) Char where
  skips pattern rest := pattern= '*' :: rest
  eats := GlobEats takes
  ends pattern text := pattern=[] ∧ text=[]

/-- Classes as they are meant. -/
inductive ClassTakes : List Char → Char → List Char → Prop where
  | set {first letter : Char} {members rest : List Char} (hfirst : first≠ '^')
      (hclosed : ']'∉members) (hmember : ClassMember letter (first :: members)) :
      ClassTakes (first :: (members++ ']' :: rest)) letter rest
  | negated {first letter : Char} {members rest : List Char} (hclosed : ']'∉members)
      (hmember : ¬ClassMember letter (first :: members)) :
      ClassTakes ('^' :: first :: (members++ ']' :: rest)) letter rest

/-- What a pattern that starts with `*` means. -/
theorem GlobPattern.any_inv {wildcards : List (Wildcard Char)}
    (h : GlobPattern ('*' :: rest) wildcards) :
    ∃ behind, wildcards=.any :: behind ∧ GlobPattern rest behind := by
  generalize hpattern : '*' :: rest=pattern at h
  cases h with
  | nil => cases hpattern
  | any h =>
    cases hpattern
    exact ⟨_,rfl,h⟩
  | one => exact absurd (List.cons.inj hpattern).1 (by decide)
  | set => exact absurd (List.cons.inj hpattern).1 (by decide)
  | negated => exact absurd (List.cons.inj hpattern).1 (by decide)
  | literal hany =>
    obtain ⟨rfl,-⟩ := List.cons.inj hpattern
    exact absurd rfl hany

/-- The texts that a pattern means are those that its matcher accepts. -/
theorem inGlobLanguage_iff :
    InGlobLanguage pattern text ↔ (globMatcher ClassTakes).Accepts pattern text := by
  constructor
  · rintro ⟨wildcards,hpattern,haccepts⟩
    induction hpattern generalizing text with
    | nil => exact .done ⟨rfl,Wildcard.accepts_nil.mp haccepts⟩
    | any _ ih =>
      obtain ⟨skipped,behind,rfl,hbehind⟩ := Wildcard.accepts_any.mp haccepts
      clear haccepts
      induction skipped with
      | nil => exact .skip rfl (ih hbehind)
      | cons first skipped ihskipped => exact .eat .any ihskipped
    | one _ ih =>
      cases haccepts with
      | one _ haccepts => exact .eat .one (ih haccepts)
    | set hfirst hclosed _ ih =>
      cases haccepts with
      | one hletter haccepts => exact .eat (.set (.set hfirst hclosed hletter)) (ih haccepts)
    | negated hclosed _ ih =>
      cases haccepts with
      | one hletter haccepts => exact .eat (.set (.negated hclosed hletter)) (ih haccepts)
    | literal hany hone hset _ ih =>
      cases haccepts with
      | one hletter haccepts =>
        subst hletter
        exact .eat (.literal hany hone hset) (ih haccepts)
  · intro haccepts
    induction haccepts with
    | done hends =>
      obtain ⟨rfl,rfl⟩ := hends
      exact ⟨[],.nil,.nil⟩
    | skip hskip _ ih =>
      obtain rfl := hskip
      obtain ⟨wildcards,hpattern,haccepts⟩ := ih
      exact ⟨_,.any hpattern,.any [] haccepts⟩
    | eat heat _ ih =>
      obtain ⟨wildcards,hpattern,haccepts⟩ := ih
      cases heat with
      | any =>
        obtain ⟨behind,rfl,hbehind⟩ := hpattern.any_inv
        exact ⟨_,hpattern,Wildcard.accepts_any_step.mpr (.inr ⟨_,_,rfl,haccepts⟩)⟩
      | one => exact ⟨_,.one hpattern,.one trivial haccepts⟩
      | set h =>
        cases h with
        | set hfirst hclosed hmember =>
          exact ⟨_,.set hfirst hclosed hpattern,.one hmember haccepts⟩
        | negated hclosed hmember => exact ⟨_,.negated hclosed hpattern,.one hmember haccepts⟩
      | literal hany hone hset => exact ⟨_,.literal hany hone hset hpattern,.one rfl haccepts⟩

/-! ### Places of a `GLOB` -/

/-- The empty pattern accepts the empty text. -/
theorem globMatcher_nil : (globMatcher takes).Accepts [] text ↔ text=[] := by
  constructor
  · intro h
    cases h with
    | done hends => exact hends.2
    | skip hskip => exact absurd hskip (List.cons_ne_nil _ _).symm
    | eat heat => cases heat
  · rintro rfl
    exact .done ⟨rfl,rfl⟩

/-- `*` is skipped or takes a character. -/
theorem globMatcher_any :
    (globMatcher takes).Accepts ('*' :: rest) text ↔
      (globMatcher takes).Accepts rest text ∨
        ∃ letter tail, text=letter :: tail ∧ (globMatcher takes).Accepts ('*' :: rest) tail := by
  constructor
  · intro h
    cases h with
    | done hends => exact absurd hends.1 (List.cons_ne_nil _ _)
    | skip hskip h =>
      obtain ⟨-,rfl⟩ := List.cons.inj hskip
      exact .inl h
    | eat heat h =>
      generalize hpattern : '*' :: rest=pattern at heat
      cases heat with
      | any => exact .inr ⟨_,_,rfl,h⟩
      | one => exact absurd (List.cons.inj hpattern).1 (by decide)
      | set => exact absurd (List.cons.inj hpattern).1 (by decide)
      | literal hany => exact absurd (List.cons.inj hpattern).1.symm hany
  · rintro (h | ⟨letter,tail,rfl,h⟩)
    · exact .skip rfl h
    · exact .eat .any h

/-- Any other part of a pattern takes one character. -/
theorem globMatcher_cons (hchar : char≠ '*') :
    (globMatcher takes).Accepts (char :: rest) text ↔
      ∃ letter tail behind, text=letter :: tail ∧ GlobEats takes (char :: rest) letter behind ∧
        (globMatcher takes).Accepts behind tail := by
  constructor
  · intro h
    cases h with
    | done hends => exact absurd hends.1 (List.cons_ne_nil _ _)
    | skip hskip => exact absurd (List.cons.inj hskip).1 hchar
    | eat heat h => exact ⟨_,_,_,rfl,heat,h⟩
  · rintro ⟨letter,tail,behind,rfl,heat,h⟩
    exact .eat heat h

/-- `?` eats any character. -/
theorem globEats_one : GlobEats takes ('?' :: body) letter rest ↔ rest=body := by
  constructor
  · intro h
    generalize hpattern : '?' :: body=pattern at h
    cases h with
    | any => exact absurd (List.cons.inj hpattern).1 (by decide)
    | one => exact (List.cons.inj hpattern).2.symm
    | set => exact absurd (List.cons.inj hpattern).1 (by decide)
    | literal _ hone => exact absurd (List.cons.inj hpattern).1.symm hone
  · rintro rfl
    exact .one

/-- A class eats what it takes. -/
theorem globEats_set : GlobEats takes ('[' :: body) letter rest ↔ takes body letter rest := by
  constructor
  · intro h
    generalize hpattern : '[' :: body=pattern at h
    cases h with
    | any => exact absurd (List.cons.inj hpattern).1 (by decide)
    | one => exact absurd (List.cons.inj hpattern).1 (by decide)
    | set h =>
      obtain ⟨-,rfl⟩ := List.cons.inj hpattern
      exact h
    | literal _ _ hset => exact absurd (List.cons.inj hpattern).1.symm hset
  · exact .set

/-- A literal eats itself. -/
theorem globEats_literal (hany : char≠ '*') (hone : char≠ '?') (hset : char≠ '[') :
    GlobEats takes (char :: body) letter rest ↔ letter=char ∧ rest=body := by
  constructor
  · intro h
    generalize hpattern : char :: body=pattern at h
    cases h with
    | any => exact absurd (List.cons.inj hpattern).1 hany
    | one => exact absurd (List.cons.inj hpattern).1 hone
    | set => exact absurd (List.cons.inj hpattern).1 hset
    | literal =>
      obtain ⟨rfl,rfl⟩ := List.cons.inj hpattern
      exact ⟨rfl,rfl⟩
  · rintro ⟨rfl,rfl⟩
    exact .literal hany hone hset

/-- The places where a copy does something else: the text has a NUL, a class is not closed and
a bracket stands against it, or a class begins with a bracket that one of the copies does not
read as is meant. -/
inductive GlobParting : List Char → List Char → Prop where
  | nulEnd {tail : List Char} : GlobParting [] ('\x00' :: tail)
  | nul {pattern rest tail : List Char} (h : GlobEats ClassTakes pattern '\x00' rest) :
      GlobParting pattern ('\x00' :: tail)
  | unclosed {body tail : List Char} (h : ']'∉body) : GlobParting ('[' :: body) ('[' :: tail)
  | bracket {letter : Char} {members rest tail : List Char} (hclosed : ']'∉members)
      (h : ClassMember letter (']' :: members) ∨
        letter≠ '\x00' ∧ ClassHolds letter (']' :: members)) :
      GlobParting ('[' :: ']' :: (members++ ']' :: rest)) (letter :: tail)
  | negatedBracket {letter : Char} {rest tail : List Char} :
      GlobParting ('[' :: '^' :: ']' :: rest) (letter :: tail)

end Glob

end RustSql.Sql
