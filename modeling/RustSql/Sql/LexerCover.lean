import Mathlib.Logic.Relation
import RustSql.Sql.Lexer

/-!
# What the lexer covers

The lexer comes back from every text unless it reaches a blob literal that is cut inside a
character. The tokens it returns stand between boundaries of the text, one behind the other, and
what is between them is white space and comments.
-/

namespace RustSql.Sql

open Text (len At Boundary)
open Check (isWhitespace)

/-- A comment up to the end of its line or of the text. -/
def LineComment (text rest : List Char) : Prop :=
  ∃ body, '\n'∉body ∧
    (text=['-', '-']++body++['\n'] ∨ text=['-', '-']++body ∧ rest=[])

/-- A comment up to the first end mark. -/
def BlockComment (text : List Char) : Prop :=
  ∃ body, text=['/', '*']++body++['*', '/'] ∧ ¬['*', '/']<:+:body++['*']

/-- What `lex` skips before the rest of the text. -/
def Skipped (text rest : List Char) : Prop :=
  (∃ char, isWhitespace char ∧ text=[char]) ∨ LineComment text rest ∨ BlockComment text

/-- The tokens and what is skipped make up the text from a position on. -/
inductive Covers (parseReal : String → Option UInt64) (input : List Char) :
    ℕ → List Char → List Token → Prop where
  | done (n : ℕ) : Covers parseReal input n [] [⟨.eof,n⟩]
  | skip {n : ℕ} {text rest : List Char} {tokens : List Token} (hskipped : Skipped text rest)
      (hrest : Covers parseReal input (n+len text) rest tokens) :
      Covers parseReal input n (text++rest) tokens
  | token {n : ℕ} {char : Char} {text rest : List Char} {kind : TokenKind} {tokens : List Token}
      (hkind : Lexer.lexToken parseReal input char n=.ok (kind,n+len (char :: text)))
      (hrest : Covers parseReal input (n+len (char :: text)) rest tokens) :
      Covers parseReal input n (char :: text++rest) (⟨kind,n⟩ :: tokens)

/-- The digits of a blob literal are cut inside a character: behind pairs of digits stands a wide
character, or one of a byte before one that is not. -/
def CutInside : List Char → Prop
  | [] => False
  | [char] => 2 < char.utf8Size
  | first :: second :: hex => 2 < first.utf8Size ∨ first.utf8Size=1 ∧ 1 < second.utf8Size ∨
      first.utf8Size=1 ∧ second.utf8Size=1 ∧
        (fromStrRadix16 256 [first,second]).isOk ∧ CutInside hex

/-- A quoted text, where the closer is doubled. -/
def quoted (closer : Char) (text : List Char) : List Char :=
  text.flatMap fun char => if char=closer then [closer,closer] else [char]

/-- A blob literal with digits of an even length that are cut inside a character. -/
def CutBlob (rest : List Char) : Prop :=
  ∃ mark hex after, (mark= 'x' ∨ mark= 'X') ∧
    rest=mark :: '\'' :: (quoted '\'' hex++ '\'' :: after) ∧ after.head?≠some '\'' ∧
    len hex%2=0 ∧ CutInside hex

namespace Lexer

variable {parseReal : String → Option UInt64} {input rest : List Char} {n : ℕ}

/-- A boundary from a position on. -/
def From (input : List Char) (n m : ℕ) : Prop := n ≤ m ∧ Boundary input m

/-- A position behind a later place is behind an earlier one. -/
theorem From.le {k m : ℕ} (h : From input m k) (hle : n ≤ m) : From input n k :=
  ⟨by have := h.1; omega,h.2⟩

/-- Where the lexer stands is a position from there on. -/
theorem at_from (h : At input n rest) : From input n n := ⟨Nat.le_refl n,h.boundary⟩

variable {char closer : Char} {m fuel index : ℕ} {text value body after hex : List Char}
    {unterminated : String}

/-- The position behind a character. -/
theorem next_from (h : At input n (char :: rest)) :
    From input (n+1) (n+char.utf8Size) := by
  have hsize := char.utf8Size_pos
  exact ⟨by omega,h.next.boundary⟩

/-! ## Looking and moving on -/

/-- `peek` shows the next character. -/
theorem peek_at (h : At input n rest) : peek input n=.ok rest.head? := by
  rw [peek,h.sliceFrom,Outcome.bind_ok]

/-- `peek_next` shows the one behind it. -/
theorem peekNext_at (h : At input n rest) : peekNext input n=.ok rest.tail.head? := by
  rw [peekNext,h.sliceFrom,Outcome.bind_ok]

/-- `advance_char` takes the next character. -/
theorem advanceChar_next (h : At input n (char :: rest)) :
    advanceChar input n=.ok (some char,n+char.utf8Size) := by
  rw [advanceChar,peek_at h,Outcome.bind_ok]
  rfl

/-- At the end it takes none. -/
theorem advanceChar_end (h : At input n []) : advanceChar input n=.ok (none,n) := by
  rw [advanceChar,peek_at h,Outcome.bind_ok]
  rfl

/-- It never goes back. -/
theorem advanceChar_from (h : Boundary input n) :
    (advanceChar input n).Gives fun result => From input n result.2 := by
  obtain ⟨rest,hat⟩ := h.at
  cases rest with
  | nil =>
    rw [advanceChar_end hat]
    exact Outcome.gives_ok (at_from hat)
  | cons char rest =>
    rw [advanceChar_next hat]
    exact Outcome.gives_ok ((next_from hat).le (by omega))

/-- There are rounds for every character that is left. -/
theorem length_lt_rounds (h : At input n rest) : rest.length < rounds input := by
  have hlen := h.len_eq
  have hlength := Text.length_le_len rest
  rw [rounds]
  omega

/-- A run of characters ends where it began or later. -/
theorem advanceWhile_from (accepts : Char → Bool) (h : At input n rest)
    (hfuel : rest.length < fuel) : (advanceWhile input accepts fuel n).Gives (From input n) := by
  induction fuel generalizing n rest with
  | zero => omega
  | succ fuel ih =>
    rw [advanceWhile,peek_at h,Outcome.bind_ok]
    split
    · next haccepts =>
      cases rest with
      | nil => cases haccepts
      | cons char rest =>
        rw [advanceChar_next h,Outcome.bind_ok]
        have hsize := char.utf8Size_pos
        have hrest := ih h.next (by rw [List.length_cons] at hfuel; omega)
        exact hrest.mono fun m hm => hm.le (by omega)
    · exact Outcome.gives_ok (at_from h)

/-- A loop advances when its first character matches. -/
theorem advanceWhile_first {accepts : Char → Bool}
    (h : At input n (char :: rest)) (haccepts : accepts char) :
    (advanceWhile input accepts (rounds input) n).Gives (From input (n+1)) := by
  have hlt := length_lt_rounds h
  rw [rounds] at hlt ⊢
  rw [List.length_cons] at hlt
  have hsize := char.utf8Size_pos
  have haccepts' : (char :: rest).head?.any accepts=true := haccepts
  rw [advanceWhile,peek_at h,Outcome.bind_ok,if_pos haccepts',advanceChar_next h,
    Outcome.bind_ok]
  exact (advanceWhile_from accepts h.next (by omega)).mono fun m hm => hm.le (by omega)

/-- The rounds of an input are enough for it. -/
theorem advanceWhile_rounds (accepts : Char → Bool) (h : Boundary input n) :
    (advanceWhile input accepts (rounds input) n).Gives (From input n) := by
  obtain ⟨rest,hat⟩ := h.at
  exact advanceWhile_from accepts hat (length_lt_rounds hat)

/-- A slice between boundaries. -/
theorem slice_from (h : Boundary input n) (h' : From input n m) :
    ∃ text, Text.slice input n m=.ok text := by
  obtain ⟨rest,hat⟩ := h.at
  obtain ⟨after,hat'⟩ := h'.2.at
  obtain ⟨middle,hrest,hm⟩ := hat.between hat' h'.1
  rw [hrest] at hat
  exact ⟨middle,by rw [hm,hat.slice]⟩

/-- A token accepted here ends here or later. -/
theorem accept_from (kind : TokenKind) (h : Boundary input n) :
    (accept input kind n).Gives fun result => From input n result.2 :=
  (advanceChar_from h).bind fun _ hm => Outcome.gives_ok hm

/-- A token accepted at a character is not empty. -/
theorem accept_next (kind : TokenKind) (h : At input n (char :: rest)) :
    (accept input kind n).Gives fun result => From input (n+1) result.2 := by
  rw [accept,advanceChar_next h,Outcome.bind_ok]
  exact Outcome.gives_ok (next_from h)

/-! ## Comments -/

/-- A line comment ends behind its line feed or with the input. -/
theorem lineCommentLoop_gives (h : At input n rest) (hfuel : rest.length < fuel) :
    (lineCommentLoop input fuel n).Gives fun m => ∃ body rest', '\n'∉body ∧
      (rest=body++['\n']++rest' ∧ m=n+len (body++['\n']) ∨
        rest=body ∧ rest'=[] ∧ m=n+len body) := by
  induction fuel generalizing n rest with
  | zero => omega
  | succ fuel ih =>
    rw [lineCommentLoop,peek_at h,Outcome.bind_ok]
    cases rest with
    | nil => exact Outcome.gives_ok ⟨[],[],by simp,Or.inr ⟨rfl,rfl,rfl⟩⟩
    | cons char rest =>
      dsimp only [List.head?_cons]
      rw [advanceChar_next h,Outcome.bind_ok]
      dsimp only
      split
      · next hline =>
        refine Outcome.gives_ok ⟨[],rest,by simp,Or.inl ⟨?_,?_⟩⟩
        · rw [hline]
          rfl
        · rw [hline]
          rfl
      · next hline =>
        refine (ih h.next (by rw [List.length_cons] at hfuel; omega)).mono ?_
        rintro m ⟨body,rest',hbody,hend⟩
        refine ⟨char :: body,rest',?_,?_⟩
        · rw [List.mem_cons]
          rintro (rfl | hmem)
          · exact hline rfl
          · exact hbody hmem
        · rcases hend with ⟨hrest,hm⟩ | ⟨hrest,hend,hm⟩
          · refine Or.inl ⟨by rw [hrest]; rfl,?_⟩
            rw [hm,List.cons_append,Text.len_cons]
            omega
          · refine Or.inr ⟨by rw [hrest],hend,?_⟩
            rw [hm,Text.len_cons]
            omega

/-- What is skipped there is a line comment. -/
theorem skipLineComment_gives (h : At input n ('-' :: '-' :: rest)) :
    (skipLineComment input n).Gives fun m => ∃ text rest', '-' :: '-' :: rest=text++rest' ∧
      m=n+len text ∧ LineComment text rest' := by
  rw [skipLineComment,advanceChar_next h,Outcome.bind_ok]
  dsimp only
  rw [advanceChar_next h.next,Outcome.bind_ok]
  refine (lineCommentLoop_gives h.next.next (length_lt_rounds h.next.next)).mono ?_
  rintro m ⟨body,rest',hbody,⟨hrest,hm⟩ | ⟨hrest,hend,hm⟩⟩
  · refine ⟨['-', '-']++body++['\n'],rest',by rw [hrest]; simp,?_,body,hbody,Or.inl rfl⟩
    rw [hm]
    simp
    omega
  · refine ⟨['-', '-']++body,rest',by rw [hrest,hend]; simp,?_,body,hbody,Or.inr ⟨rfl,hend⟩⟩
    rw [hm]
    simp
    omega

/-- A mark begins with the first character or stands behind it. -/
theorem mark_infix_cons {first second char : Char} :
    [first,second]<:+:char :: text ↔
      char=first ∧ text.head?=some second ∨ [first,second]<:+:text := by
  rw [List.infix_cons_iff,List.cons_prefix_cons]
  cases text with
  | nil => simp
  | cons next text => simp [List.cons_prefix_cons,eq_comm]

/-- A block comment ends behind its first closer. -/
theorem blockCommentLoop_gives (h : At input n rest) (hfuel : rest.length < fuel) :
    (blockCommentLoop input fuel n).Gives fun m => ∃ body rest',
      rest=body++['*', '/']++rest' ∧ m=n+len (body++['*', '/']) ∧ ¬['*', '/']<:+:body++['*'] := by
  induction fuel generalizing n rest with
  | zero => omega
  | succ fuel ih =>
    rw [blockCommentLoop]
    cases rest with
    | nil =>
      rw [advanceChar_end h,Outcome.bind_ok]
      exact Outcome.gives_err _ _
    | cons char rest =>
      rw [advanceChar_next h,Outcome.bind_ok]
      dsimp only
      rw [peek_at h.next,Outcome.bind_ok]
      split
      · next hmark =>
        obtain ⟨hstar,hslash⟩ := hmark
        cases rest with
        | nil => cases hslash
        | cons next rest =>
          obtain rfl := Option.some.inj hslash
          rw [advanceChar_next h.next,Outcome.bind_ok]
          refine Outcome.gives_ok ⟨[],rest,?_,?_,?_⟩
          · rw [hstar]
            rfl
          · rw [hstar]
            rfl
          · rintro ⟨before,after,heq⟩
            have hlength := congrArg List.length heq
            simp at hlength
            omega
      · next hmark =>
        refine (ih h.next (by rw [List.length_cons] at hfuel; omega)).mono ?_
        rintro m ⟨body,rest',hrest,hm,hfree⟩
        refine ⟨char :: body,rest',by rw [hrest]; rfl,?_,?_⟩
        · rw [hm,List.cons_append,Text.len_cons]
          omega
        · rw [List.cons_append,mark_infix_cons]
          rintro (⟨hstar,hslash⟩ | hmem)
          · cases body with
            | nil => cases hslash
            | cons next body =>
              rw [hrest] at hmark
              exact hmark ⟨hstar,hslash⟩
          · exact hfree hmem

/-- What is skipped there is a block comment. -/
theorem skipBlockComment_gives (h : At input n ('/' :: '*' :: rest)) :
    (skipBlockComment input n).Gives fun m => ∃ text rest', '/' :: '*' :: rest=text++rest' ∧
      m=n+len text ∧ BlockComment text := by
  rw [skipBlockComment,advanceChar_next h,Outcome.bind_ok]
  dsimp only
  rw [advanceChar_next h.next,Outcome.bind_ok]
  refine (blockCommentLoop_gives h.next.next (length_lt_rounds h.next.next)).mono ?_
  rintro m ⟨body,rest',hrest,hm,hfree⟩
  refine ⟨['/', '*']++body++['*', '/'],rest',by rw [hrest]; simp,?_,body,rfl,hfree⟩
  rw [hm]
  simp
  omega

/-! ## Literals and names -/

/-- A quoted text, one character at a time. -/
theorem len_quoted_cons :
    quoted closer (char :: text)=
      (if char=closer then [closer,closer] else [char])++quoted closer text := rfl

/-- What stands between quotes is a quoted text, if the closer may be doubled. -/
theorem quotedLoop_gives {doubled : Bool} (h : At input n rest) (hfuel : rest.length < fuel) :
    (quotedLoop input closer doubled unterminated fuel value n).Gives fun result =>
      From input n result.2 ∧ (doubled=true → ∃ body after, result.1=value++body ∧
        rest=quoted closer body++closer :: after ∧ after.head?≠some closer) := by
  induction fuel generalizing n rest value with
  | zero => omega
  | succ fuel ih =>
    rw [quotedLoop]
    cases rest with
    | nil =>
      rw [advanceChar_end h,Outcome.bind_ok]
      exact Outcome.gives_err _ _
    | cons char rest =>
      have hsize := char.utf8Size_pos
      rw [List.length_cons] at hfuel
      rw [advanceChar_next h,Outcome.bind_ok]
      dsimp only
      split
      · next hcloser =>
        rw [peek_at h.next,Outcome.bind_ok]
        split
        · next hdoubled =>
          obtain ⟨-,hnext⟩ := hdoubled
          cases rest with
          | nil => cases hnext
          | cons next rest =>
            obtain rfl := Option.some.inj hnext
            rw [List.length_cons] at hfuel
            rw [advanceChar_next h.next,Outcome.bind_ok]
            refine (ih h.next.next (by omega)).mono ?_
            rintro ⟨text,m⟩ ⟨hfrom,hbody⟩
            refine ⟨hfrom.le (by omega),fun hd => ?_⟩
            obtain ⟨body,after,htext,hrest,hafter⟩ := hbody hd
            refine ⟨next :: body,after,?_,?_,hafter⟩
            · rw [htext,List.append_assoc]
              rfl
            · rw [len_quoted_cons,if_pos rfl,hrest,hcloser]
              rfl
        · next hdoubled =>
          refine Outcome.gives_ok ⟨(next_from h).le (by omega),fun hd => ?_⟩
          exact ⟨[],rest,(List.append_nil value).symm,by rw [hcloser]; rfl,
            fun hnext => hdoubled ⟨hd,hnext⟩⟩
      · next hcloser =>
        refine (ih h.next (by omega)).mono ?_
        rintro ⟨text,m⟩ ⟨hfrom,hbody⟩
        refine ⟨hfrom.le (by omega),fun hd => ?_⟩
        obtain ⟨body,after,htext,hrest,hafter⟩ := hbody hd
        refine ⟨char :: body,after,?_,?_,hafter⟩
        · rw [htext,List.append_assoc]
          rfl
        · rw [len_quoted_cons,if_neg hcloser,hrest]
          rfl

/-- A quoted text is read to its end. -/
theorem quotedLoop_quoted (h : At input n (quoted closer body++closer :: after))
    (hafter : after.head?≠some closer) (hfuel : body.length < fuel) :
    ∃ m, quotedLoop input closer true unterminated fuel value n=.ok (value++body,m) := by
  induction fuel generalizing n value body with
  | zero => omega
  | succ fuel ih =>
    rw [quotedLoop]
    cases body with
    | nil =>
      change At input n (closer :: after) at h
      rw [advanceChar_next h,Outcome.bind_ok]
      dsimp only
      rw [if_pos rfl,peek_at h.next,Outcome.bind_ok,if_neg fun hd => hafter hd.2,
        List.append_nil]
      exact ⟨_,rfl⟩
    | cons char body =>
      rw [List.length_cons] at hfuel
      rw [len_quoted_cons] at h
      by_cases hcloser : char=closer
      · rw [if_pos hcloser] at h
        change At input n (closer :: closer :: (quoted closer body++closer :: after)) at h
        rw [advanceChar_next h,Outcome.bind_ok]
        dsimp only
        rw [if_pos rfl,peek_at h.next,Outcome.bind_ok,if_pos ⟨rfl,rfl⟩,
          advanceChar_next h.next,Outcome.bind_ok]
        obtain ⟨m,hm⟩ := @ih _ (value++[closer]) body h.next.next (by omega)
        refine ⟨m,hm.trans ?_⟩
        rw [hcloser,List.append_assoc]
        rfl
      · rw [if_neg hcloser] at h
        change At input n (char :: (quoted closer body++closer :: after)) at h
        rw [advanceChar_next h,Outcome.bind_ok]
        dsimp only
        rw [if_neg hcloser]
        obtain ⟨m,hm⟩ := @ih _ (value++[char]) body h.next (by omega)
        refine ⟨m,hm.trans ?_⟩
        rw [List.append_assoc]
        rfl

/-- Doubled closers only make a text longer. -/
theorem length_le_quoted (closer : Char) (text : List Char) :
    text.length ≤ (quoted closer text).length := by
  induction text with
  | nil => exact Nat.le_refl 0
  | cons char text ih =>
    rw [len_quoted_cons,List.length_append,List.length_cons]
    split
    · rw [List.length_cons]
      omega
    · rw [List.length_singleton]
      omega

/-- The text of a literal, where the quote stands. -/
theorem lexStringText_gives (h : At input n ('\'' :: rest)) :
    (lexStringText input n).Gives fun result => From input (n+1) result.2 ∧
      ∃ after, rest=quoted '\'' result.1++ '\'' :: after ∧ after.head?≠some '\'' := by
  have hsize := Char.utf8Size_pos '\''
  rw [lexStringText,advanceChar_next h,Outcome.bind_ok]
  refine (quotedLoop_gives h.next (length_lt_rounds h.next)).mono ?_
  rintro ⟨text,m⟩ ⟨hfrom,hbody⟩
  obtain ⟨body,after,htext,hrest,hafter⟩ := hbody rfl
  rw [List.nil_append] at htext
  exact ⟨hfrom.le (by omega),after,by rw [htext]; exact hrest,hafter⟩

/-- A quoted text is read back. -/
theorem lexStringText_quoted (h : At input n ('\'' :: (quoted '\'' body++ '\'' :: after)))
    (hafter : after.head?≠some '\'') : ∃ m, lexStringText input n=.ok (body,m) := by
  have hlt := length_lt_rounds h.next
  have hle := length_le_quoted '\'' body
  rw [List.length_append] at hlt
  rw [lexStringText,advanceChar_next h,Outcome.bind_ok]
  exact quotedLoop_quoted h.next hafter (by omega)

/-- A string literal is not empty. -/
theorem lexString_from (h : At input n ('\'' :: rest)) :
    (lexString input n).Gives fun result => From input (n+1) result.2 :=
  (lexStringText_gives h).bind fun _ hm => Outcome.gives_ok hm.1

/-- A quoted identifier is not empty. -/
theorem lexQuotedIdentifier_from (opener closer : Char) (h : At input n (char :: rest)) :
    (lexQuotedIdentifier input opener closer n).Gives fun result =>
      From input (n+1) result.2 := by
  have hsize := char.utf8Size_pos
  rw [lexQuotedIdentifier,advanceChar_next h,Outcome.bind_ok]
  refine (quotedLoop_gives h.next (length_lt_rounds h.next)).bind ?_
  rintro ⟨text,m⟩ ⟨hfrom,-⟩
  exact Outcome.gives_ok (hfrom.le (by omega))

/-- A word is not empty. -/
theorem lexWord_from (h : At input n (char :: rest)) (hstart : isIdentifierContinue char) :
    (lexWord input n).Gives fun result => From input (n+1) result.2 := by
  rw [lexWord]
  refine (advanceWhile_first h hstart).bind fun m hm => ?_
  obtain ⟨text,htext⟩ := slice_from h.boundary (hm.le (by omega))
  rw [htext,Outcome.bind_ok]
  exact Outcome.gives_ok hm

/-! ## Numbers -/

/-- A hexadecimal number is not empty. -/
theorem lexHexNumber_from (h : At input n (char :: rest)) :
    (lexHexNumber input n).Gives fun result => From input (n+1) result.2 := by
  have hsize := char.utf8Size_pos
  rw [lexHexNumber,advanceChar_next h,Outcome.bind_ok]
  refine (advanceChar_from h.next.boundary).bind ?_
  rintro ⟨_,hexStart⟩ hstart
  refine (advanceWhile_rounds isHexChar hstart.2).bind fun m hm => ?_
  split
  · exact Outcome.gives_err _ _
  · obtain ⟨text,htext⟩ := slice_from hstart.2 hm
    rw [htext,Outcome.bind_ok]
    split
    · exact Outcome.gives_err _ _
    · have hle := hstart.1
      exact Outcome.gives_ok (hm.le (by dsimp only at hle; omega))

/-- The fraction, from a digit or a point before a digit. -/
theorem lexFraction_from (h : At input n (char :: rest))
    (hfirst : isNumberChar char=true ∨ char= '.' ∧ rest.head?.any Char.isDigit=true) :
    (lexFraction input n).Gives fun result => From input (n+1) result.2 := by
  rw [lexFraction]
  by_cases hdigit : isNumberChar char=true
  · refine (advanceWhile_first h hdigit).bind fun m hm => ?_
    obtain ⟨after,hafter⟩ := hm.2.at
    rw [peek_at hafter,Outcome.bind_ok]
    split
    · rw [peekNext_at hafter,Outcome.bind_ok]
      split
      · refine (advanceChar_from hm.2).bind ?_
        rintro ⟨_,k⟩ hk
        refine (advanceWhile_rounds isNumberChar hk.2).bind fun l hl => ?_
        have h1 := hm.1
        have h2 := hk.1
        exact Outcome.gives_ok (hl.le (by dsimp only at h2; omega))
      · exact Outcome.gives_ok hm
    · exact Outcome.gives_ok hm
  · obtain ⟨hpoint,hnext⟩ := hfirst.resolve_left hdigit
    have hstay : advanceWhile input isNumberChar (rounds input) n=.ok n := by
      have hfalse : ¬(char :: rest).head?.any isNumberChar=true := hdigit
      rw [rounds,advanceWhile,peek_at h,Outcome.bind_ok,if_neg hfalse]
    have hpeek : (char :: rest).head?=some '.' := congrArg some hpoint
    have hnext' : (char :: rest).tail.head?.any Char.isDigit=true := hnext
    rw [hstay,Outcome.bind_ok,peek_at h,Outcome.bind_ok,if_pos hpeek,peekNext_at h,
      Outcome.bind_ok,if_pos (Or.inr hnext'),advanceChar_next h,Outcome.bind_ok]
    refine (advanceWhile_rounds isNumberChar h.next.boundary).bind fun m hm => ?_
    have hsize := char.utf8Size_pos
    exact Outcome.gives_ok (hm.le (by omega))

/-- A sign may be missing. -/
theorem lexSign_from (h : Boundary input n) : (lexSign input n).Gives (From input n) := by
  obtain ⟨rest,hat⟩ := h.at
  rw [lexSign,peek_at hat,Outcome.bind_ok]
  split
  · exact (advanceChar_from h).bind fun _ hm => Outcome.gives_ok hm
  · exact Outcome.gives_ok (at_from hat)

/-- An exponent may be missing. -/
theorem lexExponent_from (h : Boundary input n) :
    (lexExponent input n).Gives fun result => From input n result.2 := by
  obtain ⟨rest,hat⟩ := h.at
  rw [lexExponent,peek_at hat,Outcome.bind_ok]
  split
  · refine (advanceChar_from h).bind ?_
    rintro ⟨_,m⟩ hm
    refine (lexSign_from hm.2).bind fun k hk => ?_
    obtain ⟨after,hafter⟩ := hk.2.at
    rw [peek_at hafter,Outcome.bind_ok]
    split
    · refine (advanceWhile_rounds isNumberChar hk.2).bind fun l hl => ?_
      have h1 := hm.1
      have h2 := hk.1
      exact Outcome.gives_ok (hl.le (by dsimp only at h1 h2; omega))
    · exact Outcome.gives_ok (at_from hat)
  · exact Outcome.gives_ok (at_from hat)

/-- What cannot panic gives something or an error. -/
theorem ofExcept_gives {α : Type} (x : Except DbError α) :
    (Outcome.ofExcept x).Gives fun _ => True :=
  ⟨Outcome.returns_ofExcept x,fun _ _ => trivial⟩

/-- A number is not empty. -/
theorem lexNumber_from (h : At input n (char :: rest))
    (hfirst : isNumberChar char=true ∨ char= '.' ∧ rest.head?.any Char.isDigit=true) :
    (lexNumber parseReal input n).Gives fun result => From input (n+1) result.2 := by
  rw [lexNumber,peek_at h,Outcome.bind_ok,peekNext_at h,Outcome.bind_ok]
  split
  · exact lexHexNumber_from h
  · refine (lexFraction_from h hfirst).bind ?_
    rintro ⟨point,m⟩ hm
    refine (lexExponent_from hm.2).bind ?_
    rintro ⟨exponent,k⟩ hk
    have h1 := hm.1
    have hto := hk.le h1
    obtain ⟨text,htext⟩ := slice_from h.boundary (hto.le (by omega))
    dsimp only
    rw [htext,Outcome.bind_ok]
    exact (ofExcept_gives _).bind fun _ _ => Outcome.gives_ok hto

/-! ## Blob literals -/

/-- Hexadecimal digits are single bytes. -/
theorem hexDigitValue_size {value : ℕ} (h : hexDigitValue char=some value) :
    char.utf8Size=1 := by
  have hcode : char.toNat < 128 := by
    unfold hexDigitValue at h
    split at h
    · next hdigit =>
      have hle := Char.le_def.mp hdigit.2
      have hnat : char.toNat ≤ 57 := hle
      omega
    · split at h
      · next hletter =>
        have hnat : char.toNat ≤ 102 := Char.le_def.mp hletter.2
        omega
      · split at h
        · next hletter =>
          have hnat : char.toNat ≤ 70 := Char.le_def.mp hletter.2
          omega
        · cases h
  exact Char.utf8Size_eq_one_iff.mpr (by
    have hval : char.val.toNat < 128 := hcode
    exact UInt32.le_iff_toNat_le.mpr (by change char.val.toNat ≤ 127; omega))

/-- A character of two bytes is no number. -/
theorem fromStrRadix16_wide (h : 1 < char.utf8Size) :
    (fromStrRadix16 256 [char]).isOk=false := by
  have hnone : hexDigitValue char=none := by
    cases hvalue : hexDigitValue char with
    | none => rfl
    | some value =>
      have hsize := hexDigitValue_size hvalue
      omega
  have hplus : char≠ '+' := by
    rintro rfl
    exact absurd h (by decide)
  have hminus : char≠ '-' := by
    rintro rfl
    exact absurd h (by decide)
  unfold fromStrRadix16
  dsimp only
  rw [if_neg (by simp [hplus,hminus]),if_neg hplus,hexNumber,hnone]
  rfl

/-- Two bytes that cut a character cannot be sliced out. -/
theorem slice_cut (h : At hex index rest)
    (hcut : ∀ middle after, rest=middle++after → len middle≠2) :
    Text.slice hex index (index+2)=.stuck := by
  have hbound : ¬Boundary hex (index+2) := by
    intro hbound
    obtain ⟨after,hafter⟩ := hbound.at
    obtain ⟨middle,hrest,hm⟩ := h.between hafter (by omega)
    exact hcut middle after hrest (by omega)
  rw [Text.slice,Text.sliceTo_eq_stuck.mpr hbound]
  rfl

/-- A round of the loop over a pair that is not cut. -/
theorem blobBytes_pair {hex pair after : List Char}
    (h : At hex index (pair++after)) (hpair : len pair=2) :
    blobBytes hex (fuel+1) index=.stuck ↔
      (fromStrRadix16 256 pair).isOk ∧ blobBytes hex fuel (index+2)=.stuck := by
  have hlen := h.len_eq
  have hslice := h.slice
  rw [hpair] at hslice
  rw [Text.len_append] at hlen
  rw [blobBytes,if_pos (by omega),hslice,Outcome.bind_ok]
  cases fromStrRadix16 256 pair with
  | error error => simp [Except.isOk,Except.toBool]
  | ok byte =>
    dsimp only
    rw [Outcome.bind_eq_stuck]
    simp [Except.isOk,Except.toBool]

/-- There the bytes of a blob panic. -/
theorem blobBytes_cut (h : At hex index rest)
    (hrest : rest≠[]) (hcut : ∀ middle after, rest=middle++after → len middle≠2) :
    blobBytes hex (fuel+1) index=.stuck := by
  have hlen := h.len_eq
  have hpos : 0 < len rest := by
    cases rest with
    | nil => exact absurd rfl hrest
    | cons char rest =>
      have hsize := char.utf8Size_pos
      rw [Text.len_cons]
      omega
  rw [blobBytes,if_pos (by omega),slice_cut h hcut]
  rfl

/-- No two bytes stand before the end of a character of another size. -/
theorem cut_single {first : Char} (h : first.utf8Size≠2) (middle after : List Char)
    (hmiddle : [first]=middle++after) : len middle≠2 := by
  cases middle with
  | nil => simp
  | cons char middle =>
    obtain ⟨rfl,htail⟩ := List.cons.inj hmiddle
    have hempty := (List.append_eq_nil_iff.mp htail.symm).1
    rw [hempty,Text.len_cons,Text.len_nil]
    omega

/-- Two characters without a cut after two bytes. -/
theorem cut_pair {first second : Char} (h : first.utf8Size≠2)
    (hones : ¬(first.utf8Size=1 ∧ second.utf8Size=1)) (middle after : List Char)
    (hmiddle : first :: second :: rest=middle++after) : len middle≠2 := by
  have hpos := first.utf8Size_pos
  have hpos' := second.utf8Size_pos
  cases middle with
  | nil => simp
  | cons char middle =>
    obtain ⟨rfl,htail⟩ := List.cons.inj hmiddle
    cases middle with
    | nil =>
      rw [Text.len_cons,Text.len_nil]
      omega
    | cons char middle =>
      obtain ⟨rfl,htail⟩ := List.cons.inj htail
      rw [Text.len_cons,Text.len_cons]
      omega

/-- The loop over the digits panics where they are cut inside a character. -/
theorem blobBytes_stuck_iff (h : At hex index rest)
    (heven : len rest%2=0) (hfuel : len rest < fuel) :
    blobBytes hex fuel index=.stuck ↔ CutInside rest := by
  induction fuel generalizing index rest with
  | zero => omega
  | succ fuel ih =>
    rcases rest with _ | ⟨first,_ | ⟨second,rest⟩⟩
    · have hlen := h.len_eq
      rw [blobBytes,if_neg (by simp at hlen; omega)]
      simp [CutInside]
    · have hfour := first.utf8Size_le_four
      have hone : len [first]=first.utf8Size := by simp
      rw [hone] at heven
      rw [CutInside]
      by_cases hsize : first.utf8Size=2
      · have hpair := @blobBytes_pair fuel index hex [first] [] h (by omega)
        rw [hpair,fromStrRadix16_wide (by omega)]
        simp [hsize]
      · have hpos := first.utf8Size_pos
        exact iff_of_true (blobBytes_cut h (by simp) (cut_single hsize)) (by omega)
    · have hpos := first.utf8Size_pos
      have hpos' := second.utf8Size_pos
      rw [CutInside]
      rw [Text.len_cons,Text.len_cons] at heven hfuel
      by_cases htwo : first.utf8Size=2
      · have hpair := @blobBytes_pair fuel index hex [first] (second :: rest) h (by simp [htwo])
        rw [hpair,fromStrRadix16_wide (by omega)]
        simp [htwo]
      · by_cases hones : first.utf8Size=1 ∧ second.utf8Size=1
        · have hpair := @blobBytes_pair fuel index hex [first,second] rest h (by simp [hones])
          have hnext := h.next.next
          rw [hones.1,hones.2,Nat.add_assoc] at hnext
          rw [hpair,ih hnext (by omega) (by omega)]
          simp [hones]
        · exact iff_of_true (blobBytes_cut h (by simp) (cut_pair htwo hones)) (by omega)

/-- A blob literal whose characters are not cut is not empty. -/
theorem lexBlobLiteral_from {mark : Char} (h : At input n (mark :: '\'' :: rest))
    (hmark : mark= 'x' ∨ mark= 'X') (hcut : ¬CutBlob (mark :: '\'' :: rest)) :
    (lexBlobLiteral input n).Gives fun result => From input (n+1) result.2 := by
  have hsize := mark.utf8Size_pos
  rw [lexBlobLiteral,advanceChar_next h,Outcome.bind_ok]
  refine (lexStringText_gives h.next).bind ?_
  rintro ⟨hex,m⟩ ⟨hfrom,after,hrest,hafter⟩
  dsimp only
  split
  · exact Outcome.gives_err _ _
  · next heven =>
    rw [not_not] at heven
    have hinside : ¬CutInside hex := by
      intro hinside
      exact hcut ⟨mark,hex,after,hmark,by rw [hrest],hafter,heven,hinside⟩
    have hstuck := blobBytes_stuck_iff (Text.at_zero hex) heven (Nat.lt_succ_self _)
    have hbytes : (blobBytes hex (len hex+1) 0).Gives fun _ => True :=
      ⟨fun h => hinside (hstuck.mp h),fun _ _ => trivial⟩
    exact hbytes.bind fun _ _ => Outcome.gives_ok (hfrom.le (by omega))

/-- A blob literal that cuts a character panics. -/
theorem lexBlobLiteral_stuck (h : At input n rest) (hcut : CutBlob rest) :
    lexBlobLiteral input n=.stuck := by
  obtain ⟨mark,hex,after,-,hrest,hafter,heven,hinside⟩ := hcut
  rw [hrest] at h
  obtain ⟨m,hm⟩ := lexStringText_quoted h.next hafter
  rw [lexBlobLiteral,advanceChar_next h,Outcome.bind_ok]
  dsimp only
  rw [hm,Outcome.bind_ok]
  dsimp only
  rw [if_neg (by omega),(blobBytes_stuck_iff (Text.at_zero hex) heven (Nat.lt_succ_self _)).mpr
    hinside]
  rfl

/-! ## Tokens -/

/-- A comparison operator is not empty. -/
theorem lexComparison_from (h : At input n (char :: rest)) :
    (lexComparison input char n).Gives fun result => From input (n+1) result.2 := by
  have hsize := char.utf8Size_pos
  have hone (kind : TokenKind) : (Outcome.ok (kind,n+char.utf8Size)).Gives
      fun result => From input (n+1) result.2 := Outcome.gives_ok (next_from h)
  have htwo (kind : TokenKind) : (accept input kind (n+char.utf8Size)).Gives
      fun result => From input (n+1) result.2 :=
    (accept_from kind h.next.boundary).mono fun _ hm => hm.le (by omega)
  rw [lexComparison,advanceChar_next h,Outcome.bind_ok]
  dsimp only
  rw [peek_at h.next,Outcome.bind_ok]
  split_ifs
  · exact htwo .eq
  · exact hone .eq
  · exact htwo .gte
  · exact htwo .shiftRight
  · exact hone .gt
  · exact htwo .lte
  · exact htwo .ne
  · exact htwo .shiftLeft
  · exact hone .lt

/-- A token that starts with `-` is not empty. -/
theorem lexMinus_from (h : At input n (char :: rest)) :
    (lexMinus input n).Gives fun result => From input (n+1) result.2 := by
  have hsize := char.utf8Size_pos
  rw [lexMinus,advanceChar_next h,Outcome.bind_ok]
  dsimp only
  rw [peek_at h.next,Outcome.bind_ok]
  split
  · refine (advanceChar_from h.next.boundary).bind ?_
    rintro ⟨_,m⟩ hm
    obtain ⟨after,hafter⟩ := hm.2.at
    dsimp only at hafter ⊢
    rw [peek_at hafter,Outcome.bind_ok]
    split
    · refine (accept_from .arrowText hm.2).mono fun _ hk => ?_
      have hle := hm.1
      exact hk.le (by dsimp only at hle; omega)
    · exact Outcome.gives_ok (hm.le (by omega))
  · exact Outcome.gives_ok (next_from h)

/-- A token of two characters is not empty. -/
theorem acceptTwo_from (kind : TokenKind) (h : At input n (char :: rest)) :
    (acceptTwo input kind n).Gives fun result => From input (n+1) result.2 := by
  have hsize := char.utf8Size_pos
  rw [acceptTwo,advanceChar_next h,Outcome.bind_ok]
  exact (accept_from kind h.next.boundary).mono fun _ hm => hm.le (by omega)

/-- A token advances, unless it is a blob literal that is cut. -/
theorem lexToken_from (h : At input n (char :: rest)) (hcut : ¬CutBlob (char :: rest)) :
    (lexToken parseReal input char n).Gives fun result => From input (n+1) result.2 := by
  rw [lexToken,peekNext_at h,Outcome.bind_ok]
  cases punctuation.lookup char with
  | some kind => exact accept_next kind h
  | none =>
    dsimp only
    refine .ite (fun hpoint => .ite (fun hdigits => ?_) fun _ => accept_next .dot h) fun _ => ?_
    · exact lexNumber_from h (Or.inr ⟨hpoint,hdigits⟩)
    refine .ite (fun _ => lexComparison_from h) fun _ => ?_
    refine .ite (fun _ => .ite (fun _ => acceptTwo_from .ne h) fun _ => ?_) fun _ => ?_
    · exact Outcome.gives_err _ _
    refine .ite (fun _ => lexMinus_from h) fun _ => ?_
    refine .ite (fun _ => .ite (fun _ => acceptTwo_from .pipePipe h) fun _ => ?_) fun _ => ?_
    · exact accept_next .pipe h
    refine .ite (fun hquote => ?_) fun _ => ?_
    · rw [hquote] at h
      exact lexString_from h
    refine .ite (fun _ => lexQuotedIdentifier_from '"' '"' h) fun _ => ?_
    refine .ite (fun _ => lexQuotedIdentifier_from backtick backtick h) fun _ => ?_
    refine .ite (fun _ => lexQuotedIdentifier_from '[' ']' h) fun _ => ?_
    refine .ite (fun hdigit => ?_) fun _ => ?_
    · exact lexNumber_from h (Or.inl (by rw [isNumberChar,hdigit]; rfl))
    refine .ite (fun hblob => ?_) fun _ => ?_
    · obtain ⟨hmark,hnext⟩ := hblob
      cases rest with
      | nil => cases hnext
      | cons next rest =>
        obtain rfl := Option.some.inj hnext
        exact lexBlobLiteral_from h hmark hcut
    refine .ite (fun hword => ?_) fun _ => Outcome.gives_err _ _
    refine lexWord_from h ?_
    rw [isIdentifierContinue,Char.isAlphanum]
    rw [isIdentifierStart] at hword
    cases halpha : char.isAlpha with
    | false =>
      rw [halpha,Bool.false_or] at hword
      rw [hword,Bool.or_true]
    | true => rfl

/-- A token panics at a blob that cuts a character. -/
theorem lexToken_stuck (h : At input n (char :: rest))
    (hcut : CutBlob (char :: rest)) : lexToken parseReal input char n=.stuck := by
  have hblob := lexBlobLiteral_stuck h hcut
  obtain ⟨mark,hex,after,hmark,hrest,-⟩ := hcut
  obtain ⟨rfl,rfl⟩ := List.cons.inj hrest
  have hlookup : punctuation.lookup char=none := by
    rcases hmark with rfl | rfl
    · rfl
    · rfl
  have hplain : ¬char= '.' ∧ ¬(char= '=' ∨ char= '>' ∨ char= '<') ∧ ¬char= '!' ∧ ¬char= '-' ∧
      ¬char= '|' ∧ ¬char= '\'' ∧ ¬char= '"' ∧ ¬char=backtick ∧ ¬char= '[' ∧
      ¬char.isDigit=true := by
    rcases hmark with rfl | rfl
    · decide
    · decide
  obtain ⟨h1,h2,h3,h4,h5,h6,h7,h8,h9,h10⟩ := hplain
  rw [lexToken,peekNext_at h,Outcome.bind_ok,hlookup]
  dsimp only
  rw [if_neg h1,if_neg h2,if_neg h3,if_neg h4,if_neg h5,if_neg h6,if_neg h7,if_neg h8,if_neg h9,
    if_neg h10,if_pos ⟨hmark,rfl⟩,hblob]

/-! ## Rounds of the lexer -/

/-- A round passes a part of the text: it is skipped, or it is the text of a token. -/
theorem lexStep_gives (h : At input n (char :: rest)) (hcut : ¬CutBlob (char :: rest)) :
    (lexStep parseReal input char n).Gives fun result => ∃ text rest',
      char :: rest=char :: text++rest' ∧ result.2=n+len (char :: text) ∧
      (result.1=none ∧ Skipped (char :: text) rest' ∨ ∃ kind, result.1=some ⟨kind,n⟩ ∧
        lexToken parseReal input char n=.ok (kind,result.2)) := by
  rw [lexStep,peekNext_at h,Outcome.bind_ok]
  refine .ite (fun hspace => ?_) fun _ => ?_
  · rw [advanceChar_next h,Outcome.bind_ok]
    exact Outcome.gives_ok ⟨[],rest,rfl,rfl,Or.inl ⟨rfl,Or.inl ⟨char,hspace,rfl⟩⟩⟩
  refine .ite (fun hline => ?_) fun _ => ?_
  · obtain ⟨rfl,hnext⟩ := hline
    cases rest with
    | nil => cases hnext
    | cons next rest =>
      obtain rfl := Option.some.inj hnext
      refine (skipLineComment_gives h).bind ?_
      rintro m ⟨text,rest',hrest,hm,hcomment⟩
      cases text with
      | nil =>
        obtain ⟨body,-,htext | ⟨htext,-⟩⟩ := hcomment
        · cases htext
        · cases htext
      | cons char text =>
        obtain ⟨rfl,-⟩ := List.cons.inj hrest
        exact Outcome.gives_ok ⟨text,rest',hrest,hm,Or.inl ⟨rfl,Or.inr (Or.inl hcomment)⟩⟩
  refine .ite (fun hblock => ?_) fun _ => ?_
  · obtain ⟨rfl,hnext⟩ := hblock
    cases rest with
    | nil => cases hnext
    | cons next rest =>
      obtain rfl := Option.some.inj hnext
      refine (skipBlockComment_gives h).bind ?_
      rintro m ⟨text,rest',hrest,hm,hcomment⟩
      cases text with
      | nil =>
        obtain ⟨body,htext,-⟩ := hcomment
        cases htext
      | cons char text =>
        obtain ⟨rfl,-⟩ := List.cons.inj hrest
        exact Outcome.gives_ok ⟨text,rest',hrest,hm,Or.inl ⟨rfl,Or.inr (Or.inr hcomment)⟩⟩
  have htoken := @lexToken_from parseReal input rest n char h hcut
  cases hkind : lexToken parseReal input char n with
  | stuck => exact absurd hkind htoken.1
  | err e => exact Outcome.gives_err _ _
  | ok result =>
    obtain ⟨kind,m⟩ := result
    obtain ⟨hle,hbound⟩ := htoken.2 _ hkind
    obtain ⟨after,hafter⟩ := hbound.at
    dsimp only at hle hafter
    obtain ⟨middle,hmiddle,hm⟩ := h.between hafter (by omega)
    cases middle with
    | nil =>
      rw [Text.len_nil] at hm
      omega
    | cons first middle =>
      obtain ⟨rfl,-⟩ := List.cons.inj hmiddle
      exact Outcome.gives_ok ⟨middle,after,hmiddle,hm,Or.inr ⟨kind,rfl,rfl⟩⟩

/-- So does a step of the lexer. -/
theorem lexStep_stuck (h : At input n (char :: rest))
    (hcut : CutBlob (char :: rest)) : lexStep parseReal input char n=.stuck := by
  have htoken := @lexToken_stuck parseReal input rest n char h hcut
  obtain ⟨mark,hex,after,hmark,hrest,-⟩ := hcut
  obtain ⟨rfl,-⟩ := List.cons.inj hrest
  have hplain : ¬isWhitespace char=true ∧ ¬char= '-' ∧ ¬char= '/' := by
    rcases hmark with rfl | rfl
    · decide
    · decide
  rw [lexStep,peekNext_at h,Outcome.bind_ok,if_neg hplain.1,if_neg fun hline => hplain.2.1 hline.1,
    if_neg fun hblock => hplain.2.2 hblock.1,htoken]
  rfl

variable (parseReal input)

/-- A round of the lexer takes it from one position to another. -/
def Step (n m : ℕ) : Prop :=
  ∃ char rest token, At input n (char :: rest) ∧ lexStep parseReal input char n=.ok (token,m)

/-- The lexer comes to the position. -/
def Reached (n : ℕ) : Prop := Relation.ReflTransGen (Step parseReal input) 0 n

variable {parseReal input}

/-- The loop covers the rest of the text if it comes to no blob literal that is cut. -/
theorem lexLoop_covers (h : At input n rest) (hfuel : rest.length < fuel)
    (hcut : ∀ m after, Relation.ReflTransGen (Step parseReal input) n m → At input m after →
      ¬CutBlob after) :
    (lexLoop parseReal input fuel n).Gives (Covers parseReal input n rest) := by
  induction fuel generalizing n rest with
  | zero => omega
  | succ fuel ih =>
    rw [lexLoop,peek_at h,Outcome.bind_ok]
    cases rest with
    | nil =>
      have hlen := h.len_eq
      rw [Text.len_nil,Nat.add_zero] at hlen
      rw [←hlen]
      exact Outcome.gives_ok (.done n)
    | cons char rest =>
      have hstep := @lexStep_gives parseReal input rest n char h (hcut n _ .refl h)
      dsimp only [List.head?_cons]
      cases hresult : lexStep parseReal input char n with
      | stuck => exact absurd hresult hstep.1
      | err e => exact Outcome.gives_err _ _
      | ok result =>
        obtain ⟨token,m⟩ := result
        obtain ⟨text,rest',hrest,hm,hpart⟩ := hstep.2 _ hresult
        dsimp only at hm hpart
        have hnext : At input m rest' := by
          rw [hm]
          rw [hrest] at h
          exact h.pass
        have hlength := congrArg List.length hrest
        simp only [List.length_append,List.length_cons] at hlength hfuel
        have htail := ih hnext (by omega) fun k after hk =>
          hcut k after (.head ⟨char,rest,token,h,hresult⟩ hk)
        rw [Outcome.bind_ok]
        refine htail.bind fun tokens htokens => Outcome.gives_ok ?_
        rw [hrest]
        rw [hm] at htokens
        rcases hpart with ⟨rfl,hskipped⟩ | ⟨kind,rfl,hkind⟩
        · exact .skip hskipped htokens
        · rw [hm] at hkind
          exact .token hkind htokens

/-- A loop that comes back came to no blob literal that is cut. -/
theorem lexLoop_returns (h : (lexLoop parseReal input fuel n).Returns)
    (hreached : Relation.ReflTransGen (Step parseReal input) n m) (hat : At input m after) :
    ¬CutBlob after := by
  induction fuel generalizing n with
  | zero => exact absurd rfl h
  | succ fuel ih =>
    rcases hreached.cases_head with rfl | ⟨k,⟨char,rest,token,hn,hstep⟩,hreached⟩
    · intro hcut
      refine h ?_
      rw [lexLoop,peek_at hat,Outcome.bind_ok]
      cases after with
      | nil =>
        obtain ⟨mark,hex,after,-,hrest,-⟩ := hcut
        cases hrest
      | cons char rest =>
        dsimp only [List.head?_cons]
        rw [lexStep_stuck hat hcut]
        rfl
    · refine ih (fun hstuck => h ?_) hreached
      rw [lexLoop,peek_at hn,Outcome.bind_ok]
      dsimp only [List.head?_cons]
      rw [hstep,Outcome.bind_ok]
      dsimp only
      rw [hstuck]
      rfl

end Lexer

variable {parseReal : String → Option UInt64} {input rest : List Char} {n : ℕ}

/-- The tokens stand at boundaries from the position on, one behind the other. -/
theorem Covers.positions {tokens : List Token} (h : Covers parseReal input n rest tokens)
    (hat : At input n rest) : (tokens.map Token.position).Pairwise (· < ·) ∧
      ∀ token∈tokens, n ≤ token.position ∧ Boundary input token.position := by
  induction h with
  | done n =>
    refine ⟨List.pairwise_singleton _ _,fun token htoken => ?_⟩
    obtain rfl := List.mem_singleton.mp htoken
    exact ⟨Nat.le_refl n,hat.boundary⟩
  | skip hskipped hrest ih =>
    obtain ⟨hpairwise,hall⟩ := ih hat.pass
    refine ⟨hpairwise,fun token htoken => ?_⟩
    have hle := (hall token htoken).1
    exact ⟨by omega,(hall token htoken).2⟩
  | @token n char text rest kind tokens hkind hrest ih =>
    obtain ⟨hpairwise,hall⟩ := ih hat.pass
    have hsize := char.utf8Size_pos
    rw [Text.len_cons] at hall
    constructor
    · rw [List.map_cons,List.pairwise_cons]
      refine ⟨fun position hposition => ?_,hpairwise⟩
      obtain ⟨token,htoken,rfl⟩ := List.mem_map.mp hposition
      have hle := (hall token htoken).1
      dsimp only
      omega
    · intro token htoken
      rcases List.mem_cons.mp htoken with rfl | htoken
      · exact ⟨Nat.le_refl n,hat.boundary⟩
      · have hle := (hall token htoken).1
        exact ⟨by omega,(hall token htoken).2⟩

/-- The lexer comes back, and the tokens it returns cover the text, at boundaries that increase. -/
def LexesSafely (parseReal : String → Option UInt64) (input : List Char) : Prop :=
  (lex parseReal input).Gives fun tokens => Covers parseReal input 0 input tokens ∧
    (tokens.map Token.position).Pairwise (· < ·) ∧
    ∀ token∈tokens, Boundary input token.position

/-- The lexer is safe exactly on the texts where it comes to no blob literal that is cut inside a
character. -/
theorem lexes_safely_iff : LexesSafely parseReal input ↔
    ∀ n rest, Lexer.Reached parseReal input n → At input n rest → ¬CutBlob rest := by
  constructor
  · intro h n rest hreached hat
    exact Lexer.lexLoop_returns h.1 hreached hat
  · intro h
    have hloop := Lexer.lexLoop_covers (Text.at_zero input)
      (Lexer.length_lt_rounds (Text.at_zero input)) h
    refine hloop.mono fun tokens htokens => ?_
    obtain ⟨hpairwise,hall⟩ := htokens.positions (Text.at_zero input)
    exact ⟨htokens,hpairwise,fun token htoken => (hall token htoken).2⟩

/-- `X'€1'`: the first two bytes of the digits are a part of a character. -/
theorem cut_literal_panics :
    ¬LexesSafely (fun _ => none) ['X', '\'', '€', '1', '\''] := by
  intro h
  exact h.1 rfl

end RustSql.Sql
