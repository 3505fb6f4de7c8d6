import RustSql.Check.Functions

/-!
# Functions of conditions that always return

Each function the evaluator calls returns a value on every input, except that a regular
expression may be refused and that a division may panic. The scanners keep their positions on
character boundaries.
-/

namespace RustSql.Check

open Outcome

/-! ## The number a text begins with -/

section Numbers

variable {text : List Char}

/-- A scan stands between the text it has read and the rest, and the number ends between two
characters. -/
structure Scanned (text : List Char) (scan : NumberScan) : Prop where
  place : ∃ front, text=front++scan.rest ∧ Text.len front=scan.index
  stop : Text.Boundary text scan.stop

/-- The position behind a character that follows a position. -/
theorem place_next {front rest : List Char} {char : Char} {index : ℕ}
    (h : text=front++char :: rest) (hindex : Text.len front=index) :
    text=(front++[char])++rest ∧ Text.len (front++[char])=index+char.utf8Size := by
  constructor
  · rw [h,List.append_assoc,List.singleton_append]
  · rw [Text.len_append,hindex,Text.len_cons,Text.len_nil,Nat.add_zero]

/-- The digits end at a character of the text. -/
theorem scanDigits_scanned {index stop : ℕ} {rest : List Char} (sawDigit sawDot : Bool)
    (hplace : ∃ front, text=front++rest ∧ Text.len front=index) (hstop : Text.Boundary text stop) :
    Scanned text (scanDigits index rest stop sawDigit sawDot) := by
  induction rest generalizing index stop sawDigit sawDot with
  | nil => exact ⟨hplace,hstop⟩
  | cons char rest ih =>
    obtain ⟨front,htext,hindex⟩ := hplace
    obtain ⟨hnext,hlen⟩ := place_next htext hindex
    have hbound : Text.Boundary text (index+char.utf8Size) := ⟨_,rest,hnext,hlen⟩
    rw [scanDigits]
    split_ifs
    · exact ih _ _ ⟨_,hnext,hlen⟩ hbound
    · exact ih _ _ ⟨_,hnext,hlen⟩ hbound
    · exact ⟨⟨front,htext,hindex⟩,hstop⟩

/-- So do those of an exponent. -/
theorem scanExponentDigits_boundary {index stop : ℕ} {rest : List Char} {sawDigit : Bool}
    (hplace : ∃ front, text=front++rest ∧ Text.len front=index) (hstop : Text.Boundary text stop) :
    Text.Boundary text (scanExponentDigits index rest stop sawDigit).1 := by
  induction rest generalizing index stop sawDigit with
  | nil => exact hstop
  | cons char rest ih =>
    obtain ⟨front,htext,hindex⟩ := hplace
    obtain ⟨hnext,hlen⟩ := place_next htext hindex
    rw [scanExponentDigits]
    split_ifs
    · exact ih ⟨_,hnext,hlen⟩ ⟨_,rest,hnext,hlen⟩
    · exact hstop

/-- So does the exponent. -/
theorem scanExponent_boundary {index stop : ℕ} {rest : List Char}
    (hplace : ∃ front, text=front++rest ∧ Text.len front=index)
    (h : scanExponent index rest=some stop) : Text.Boundary text stop := by
  cases rest with
  | nil => cases h
  | cons exp rest =>
    obtain ⟨front,htext,hindex⟩ := hplace
    obtain ⟨hnext,hlen⟩ := place_next htext hindex
    have hstart : Text.Boundary text (index+exp.utf8Size) := ⟨_,rest,hnext,hlen⟩
    simp only [scanExponent] at h
    split_ifs at h with hexp hfound
    obtain rfl := Option.some.inj h
    cases rest with
    | nil => exact hstart
    | cons sign digits =>
      obtain ⟨hdigits,hlen'⟩ := place_next hnext hlen
      dsimp only
      split_ifs
      · exact scanExponentDigits_boundary ⟨_,hdigits,hlen'⟩ hstart
      · exact scanExponentDigits_boundary ⟨_,hnext,hlen⟩ hstart

/-- A sign is one byte or none. -/
theorem scanSign_place (text : List Char) :
    ∃ front, text=front++(scanSign text).2 ∧ Text.len front=(scanSign text).1 := by
  cases text with
  | nil => exact ⟨[],rfl,rfl⟩
  | cons char rest =>
    rw [scanSign]
    split_ifs
    · exact ⟨[char],rfl,rfl⟩
    · exact ⟨[],rfl,rfl⟩

/-- A front that ends between two characters is sliced out. -/
theorem sliceTo_total {stop : ℕ} (h : Text.Boundary text stop) : (Text.sliceTo text stop).Total := by
  obtain ⟨front,rest,htext,hlen⟩ := h
  rw [htext,←hlen,Text.sliceTo_append]
  exact total_ok front

/-- The sign ends between two characters. -/
theorem scanSign_boundary (text : List Char) : Text.Boundary text (scanSign text).1 := by
  obtain ⟨front,htext,hlen⟩ := scanSign_place text
  exact ⟨front,_,htext,hlen⟩

/-- The number a text begins with ends between two characters. -/
theorem number_boundary (text : List Char) :
    let scan := scanDigits (scanSign text).1 (scanSign text).2 (scanSign text).1 false false
    Text.Boundary text ((scanExponent scan.index scan.rest).getD scan.stop) := by
  have hscan := scanDigits_scanned false false (scanSign_place text) (scanSign_boundary text)
  dsimp only
  cases hexp : scanExponent _ _ with
  | none => exact hscan.stop
  | some stop => exact scanExponent_boundary hscan.place hexp

variable (machine : Machine)

/-- The numeric prefix of a text is always found. -/
theorem sqliteTextNumericPrefix_total (value : String) :
    (sqliteTextNumericPrefix machine value).Total := by
  unfold sqliteTextNumericPrefix
  dsimp only
  split
  · exact total_ok _
  · refine (sliceTo_total (number_boundary _)).bind fun found _ => ?_
    split_ifs
    · exact total_ok _
    · exact total_ok _

/-- So is its integer prefix. -/
theorem sqliteTextIntegerPrefix_total (value : String) :
    (sqliteTextIntegerPrefix machine value).Total := by
  refine (sqliteTextNumericPrefix_total machine value).bind fun numeric _ => ?_
  split_ifs
  · exact total_ok _
  · exact total_ok _
  · exact total_ok _
  · exact total_ok _

/-- So is its value. -/
theorem sqliteTextNumericValue_total (value : String) :
    (sqliteTextNumericValue machine value).Total := by
  refine (sqliteTextNumericPrefix_total machine value).bind fun numeric _ => ?_
  split_ifs
  · exact total_ok _
  · exact total_ok _

/-- Every value has a float. -/
theorem sqliteCheckNumericReal_total (value : Value) :
    (sqliteCheckNumericReal machine value).Total := by
  cases value with
  | null => exact total_ok _
  | boolean value => exact total_ok _
  | integer value => exact total_ok _
  | real bits => exact total_ok _
  | blob bytes => exact sqliteTextNumericPrefix_total machine _
  | text value => exact sqliteTextNumericPrefix_total machine _

/-- Every value has a truth value. -/
theorem sqliteCheckTruthy_total (value : Value) : (sqliteCheckTruthy machine value).Total := by
  cases value with
  | null => exact total_ok _
  | boolean value => exact total_ok _
  | integer value => exact total_ok _
  | real bits => exact total_ok _
  | blob bytes => exact (sqliteTextNumericPrefix_total machine _).bind fun _ _ => total_ok _
  | text value => exact (sqliteTextNumericPrefix_total machine _).bind fun _ _ => total_ok _

end Numbers

/-! ## Positions in texts -/

variable {index count next : ℕ} {char : Char} {rest pattern : List Char}

/-- A text is found between two characters, and before the end. -/
theorem find_place {needle text : List Char} (hneedle : needle≠[])
    (h : Text.find needle text=some index) :
    ∃ front char rest, text=front++char :: rest ∧ Text.len front=index := by
  induction text generalizing index with
  | nil =>
    rw [Text.find,if_neg hneedle] at h
    cases h
  | cons char text ih =>
    rw [Text.find] at h
    split_ifs at h
    · obtain rfl := Option.some.inj h
      exact ⟨[],char,text,rfl,rfl⟩
    · obtain ⟨before,hbefore,rfl⟩ := Option.map_eq_some_iff.mp h
      obtain ⟨front,next,rest,htext,hlen⟩ := ih hbefore
      refine ⟨char :: front,next,rest,by rw [htext,List.cons_append],?_⟩
      rw [Text.len_cons,hlen,Nat.add_comm]

/-- A non-empty needle is found before the end. -/
theorem findBytes_lt {needle haystack : Bytes} (h : findBytes needle haystack=some index) :
    index < haystack.length := by
  induction haystack generalizing index with
  | nil => cases h
  | cons byte rest ih =>
    rw [findBytes] at h
    split_ifs at h
    · obtain rfl := Option.some.inj h
      exact Nat.succ_pos _
    · obtain ⟨before,hbefore,rfl⟩ := Option.map_eq_some_iff.mp h
      exact Nat.succ_lt_succ (ih hbefore)

/-- A count that fits is its own `i64`. -/
theorem countAsI64_toInt (h : count < 2^63) : (countAsI64 count).toInt=count :=
  Int64.toInt_ofNat_of_lt h

/-- A count that fits can be counted on. -/
theorem addI64_one_total (h : count+1 < 2^63) : (addI64 (countAsI64 count) 1).Total := by
  refine Total.bind ?_ fun _ _ => total_ok _
  refine ⟨(),check_ok ?_⟩
  have hone : (1 : Int64).toInt=1 := rfl
  rw [countAsI64_toInt (by omega),hone]
  omega

/-- The texts and bytes of a value are shorter than `isize::MAX`, as all in memory are. -/
def Fits (machine : Machine) (value : Value) : Prop :=
  (sqliteTextLikeValue machine value).toList.length < 2^63 ∧
    ∀ bytes, value=.blob bytes → bytes.length < 2^63

/-- A position from either end of a text that fits fits. -/
theorem substrStartIndex_total (h : count < 2^63) (start : Int64) :
    (substrStartIndex (countAsI64 count) start).Total := by
  have hlen := countAsI64_toInt h
  have hlow := start.le_toInt
  have hhigh := start.toInt_lt
  have hone : (1 : Int64).toInt=1 := rfl
  unfold substrStartIndex
  split_ifs with hpos hneg
  · have hpos' : 0 < start.toInt := Int64.lt_iff_toInt_lt.mp hpos
    exact Total.bind ⟨(),check_ok (by omega)⟩ fun _ _ => total_ok _
  · have hneg' : start.toInt < 0 := Int64.lt_iff_toInt_lt.mp hneg
    exact Total.bind ⟨(),check_ok (by omega)⟩ fun _ _ => total_ok _
  · exact total_ok _

/-- `substr` of a text that fits. -/
theorem sqliteSubstrText_total {value : String} (hfits : value.toList.length < 2^63) (start : Int64)
    (length : Option Int64) : (sqliteSubstrText value start length).Total := by
  have hclamp : (0 : Int64) ≤ countAsI64 value.toList.length := by
    rw [Int64.le_iff_toInt_le,countAsI64_toInt hfits]
    exact Int.natCast_nonneg _
  unfold sqliteSubstrText
  dsimp only
  split
  · exact total_ok _
  · exact (substrStartIndex_total hfits start).bind fun _ _ =>
      Total.bind ⟨(),check_ok hclamp⟩ fun _ _ => total_ok _

/-- The place of a text in a text. -/
theorem textPosition_total {haystack needle : List Char} (hfits : haystack.length < 2^63)
    (hneedle : needle≠[]) :
    (match Text.find needle haystack with
      | some byteIndex => do
        let front ← Text.sliceTo haystack byteIndex
        let position ← addI64 (countAsI64 front.length) 1
        .ok (some position)
      | none => .ok (some 0) : Outcome (Option Int64)).Total := by
  cases hfind : Text.find needle haystack with
  | none => exact total_ok _
  | some byteIndex =>
    obtain ⟨front,char,rest,htext,hlen⟩ := find_place hneedle hfind
    dsimp only
    rw [htext,←hlen,Text.sliceTo_append,bind_ok]
    refine (addI64_one_total ?_).bind fun _ _ => total_ok _
    rw [htext,List.length_append,List.length_cons] at hfits
    omega

variable {machine : Machine}

/-- `instr` of a value that fits. -/
theorem sqliteCheckInstr_total {value : Value} (hfits : Fits machine value) (needle : Value) :
    (sqliteCheckInstr machine value needle).Total := by
  unfold sqliteCheckInstr
  split
  · exact total_ok _
  · split
    · rename_i haystack needle _
      split_ifs with hneedle
      · exact total_ok _
      · cases hfind : findBytes needle haystack with
        | none => exact total_ok _
        | some index =>
          have hindex := findBytes_lt hfind
          have hbytes := hfits.2 haystack rfl
          exact (addI64_one_total (by omega)).bind fun _ _ => total_ok _
    · dsimp only
      split_ifs with hneedle
      · exact total_ok _
      · exact textPosition_total hfits.1 hneedle

/-! ## Rounding -/

section Rounding

variable (machine : Machine)

/-- Powers of ten up to 18 digits. -/
theorem powU128_total {precision : ℕ} (h : precision ≤ 18) : (powU128 10 precision).Total := by
  have hpow : 10^precision < 2^128 := by
    calc 10^precision ≤ 10^18 := Nat.pow_le_pow_right (by omega) h
      _ < 2^128 := by norm_num
  exact Total.bind ⟨(),check_ok hpow⟩ fun _ _ => total_ok _

/-- A power of two below the width of the number is shifted without a loss. -/
theorem shlU128_pow (exponent shift : ℕ) (h : exponent+shift < 128) :
    shlU128 (2^exponent) shift=.ok (2^(exponent+shift)) := by
  have hshift : shift < 128 := by omega
  have hpow : 2^exponent*2^shift < 2^128 := by
    rw [←Nat.pow_add]
    exact Nat.pow_lt_pow_right (by omega) h
  rw [shlU128,check_ok hshift,bind_ok,Nat.mod_eq_of_lt hpow,←Nat.pow_add]

/-- So many digits can be rounded exactly. -/
theorem roundExactly_total (sign value : UInt64) {precision : ℕ} (h : precision ≤ 18) :
    (roundExactly machine sign value precision).Total := by
  refine (powU128_total h).bind fun pow10 _ => ?_
  dsimp only
  split
  · exact total_ok _
  · split_ifs with hshift hsmall
    · split
      · exact total_ok _
      · exact total_ok _
    · exact total_ok _
    · have hone := shlU128_pow 0 (-binaryShift value).toNat (by omega)
      have htwo := shlU128_pow (-binaryShift value).toNat 1 (by omega)
      rw [Nat.pow_zero,Nat.zero_add] at hone
      rw [hone,bind_ok]
      split
      · exact total_ok _
      · rw [htwo,bind_ok]
        have hdivisor : 2^((-binaryShift value).toNat+1)≠0 := Nat.pow_pos (by omega) |>.ne'
        exact Total.bind (Total.bind ⟨(),check_ok hdivisor⟩ fun _ _ => total_ok _) fun _ _ => total_ok _

/-- A float is rounded. -/
theorem sqliteRoundF64_total (value : UInt64) (precision : Int32) :
    (sqliteRoundF64 machine value precision).Total := by
  unfold sqliteRoundF64
  dsimp only
  split
  · exact total_ok _
  · split
    · exact total_ok _
    · rename_i hprecision
      split
      · exact total_ok _
      · exact roundExactly_total machine _ _ (Nat.le_of_not_lt hprecision)

/-- `round` of any value. -/
theorem sqliteCheckRound_total (value : Value) (precision : Option Int32) :
    (sqliteCheckRound machine value precision).Total := by
  unfold sqliteCheckRound
  split
  · exact total_ok _
  · exact (sqliteCheckNumericReal_total machine value).bind fun real _ =>
      (sqliteRoundF64_total machine real _).bind fun _ _ => total_ok _

end Rounding

/-! ## JSON5 -/

/-- The text between two positions that a scan over the rest of a text comes to. -/
theorem slice_taken {json front rest : List Char} (taken : Char → Bool)
    (h : json=front++char :: rest) :
    let start := Text.len json-Text.len (char :: rest)
    let stop := start+char.utf8Size+Text.len (rest.takeWhile taken)
    Text.slice json start stop=.ok (char :: rest.takeWhile taken) ∧
      Text.sliceFrom json stop=.ok (rest.dropWhile taken) := by
  have hjson : json=front++(char :: rest.takeWhile taken)++rest.dropWhile taken := by
    rw [h,List.append_assoc,List.cons_append,List.takeWhile_append_dropWhile]
  have hstart : Text.len json-Text.len (char :: rest)=Text.len front := by
    rw [h,Text.len_append]
    omega
  have hstop : Text.len front+char.utf8Size+Text.len (rest.takeWhile taken)=
      Text.len (front++(char :: rest.takeWhile taken)) := by
    rw [Text.len_append,Text.len_cons]
    omega
  dsimp only
  rw [hstart,hstop]
  refine ⟨?_,?_⟩
  · conv_lhs => rw [hjson]
    exact Text.slice_append _ _ _
  · conv_lhs => rw [hjson]
    exact Text.sliceFrom_append _ _

/-- The names of a JSON5 text are sliced out between two characters. -/
theorem json5Loop_total (json out : List Char) (h : rest <:+ json) :
    (json5Loop json out rest).Total := by
  induction out, rest using json5Loop.induct json with
  | case1 out =>
    rw [json5Loop]
    exact total_ok out
  | case2 out rest behind ih =>
    rw [json5Loop]
    have hdrop : behind.drop 1 <:+ rest := (List.drop_suffix _ _).trans (List.dropWhile_suffix _)
    exact ih (hdrop.trans ((List.suffix_append ['/', '/'] rest).trans h))
  | case3 out rest ih =>
    rw [json5Loop]
    exact ih (((skipBlockComment_suffix _ rest).trans (List.suffix_append ['/', '*'] rest)).trans h)
  | case4 out rest quoted hline hblock ih =>
    rw [json5Loop,if_pos rfl]
    · exact ih (((scanQuoted_suffix _ _ rest).trans (List.suffix_cons _ rest)).trans h)
    · exact hline
    · exact hblock
  | case5 out char rest hline hblock hquote hident ihnamed ih =>
    obtain ⟨front,hfront⟩ := h
    obtain ⟨hslice,hbehind⟩ := slice_taken isJson5IdentifierContinue hfront.symm
    have hrest := (List.dropWhile_suffix isJson5IdentifierContinue).trans
      ((List.suffix_cons char rest).trans ⟨front,hfront⟩)
    rw [json5Loop,if_neg hquote,if_pos hident]
    · dsimp only
      rw [hslice,bind_ok,hbehind,bind_ok]
      split
      · exact ihnamed _ hrest
      · exact ih _ hrest
    · exact hline
    · exact hblock
  | case6 out char rest hline hblock hquote hident ih =>
    rw [json5Loop,if_neg hquote,if_neg hident]
    · exact ih ((List.suffix_cons char rest).trans h)
    · exact hline
    · exact hblock

/-- `json_valid` of any value. -/
theorem sqliteCheckJsonValid_total (machine : Machine) (value : Value) (flags : Option Int64) :
    (sqliteCheckJsonValid machine value flags).Total := by
  unfold sqliteCheckJsonValid
  dsimp only
  split_ifs
  · exact total_ok _
  · exact total_ok _
  · refine Total.bind ?_ fun _ _ => total_ok _
    exact (json5Loop_total _ [] List.suffix_rfl).bind fun _ _ => total_ok _
  · exact total_ok _

/-! ## Patterns -/

/-- A class ends in the pattern. -/
theorem matchesClassMembers_le {negated matched found : Bool} {members : List Char}
    (h : matchesClassMembers char negated members index matched=some (found,next)) :
    next ≤ index+members.length := by
  induction members, index, matched using matchesClassMembers.induct char with
  | case1 index matched => cases h
  | case2 rest index matched =>
    rw [matchesClassMembers] at h
    obtain ⟨-,rfl⟩ := Prod.mk.inj (Option.some.inj h)
    rw [List.length_cons]
    omega
  | case3 first rest index matched hfirst ih =>
    rw [matchesClassMembers,if_pos rfl] at h
    · have hle := ih h
      simp only [List.length_cons] at hle ⊢
      omega
    · exact hfirst
  | case4 first last rest index matched hfirst hlast ih =>
    rw [matchesClassMembers,if_neg hlast] at h
    · have hle := ih h
      simp only [List.length_cons]
      omega
    · exact hfirst
  | case5 first rest index matched hfirst hrange ih =>
    rw [matchesClassMembers] at h
    · have hle := ih h
      rw [List.length_cons]
      omega
    · exact hfirst
    · exact hrange

/-- A class ends inside its pattern. -/
theorem matchesCharClass_le {found : Bool}
    (h : matchesCharClass ('[' :: rest) char=some (found,next)) : next ≤ rest.length+1 := by
  unfold matchesCharClass at h
  split at h
  · rename_i members hmembers
    have hle := matchesClassMembers_le h
    have hlength := congrArg List.length hmembers
    simp only [List.drop_succ_cons,List.drop_zero,List.length_cons] at hlength
    omega
  · rename_i members hmembers
    have hle := matchesClassMembers_le h
    simp only [List.drop_succ_cons,List.drop_zero] at hle
    omega

/-- A pattern is sliced behind a class only where the class ends in it. -/
theorem matchesGlob_total (value pattern : List Char) : (matchesGlob value pattern).Total := by
  -- one of the two texts gets shorter at every call
  induction hsize : value.length+pattern.length using Nat.strong_induction_on
    generalizing value pattern with
  | _ size ih =>
    unfold matchesGlob
    split
    · exact total_ok _
    · rename_i rest
      have hrest := ih _ (by simp at hsize; omega) value rest rfl
      refine hrest.bind fun found _ => ?_
      split
      · exact total_ok _
      · cases value with
        | nil => exact total_ok _
        | cons head tail => exact ih _ (by simp at hsize ⊢; omega) tail ('*' :: rest) rfl
    · rename_i rest
      cases value with
      | nil => exact total_ok _
      | cons head tail => exact ih _ (by simp at hsize ⊢; omega) tail rest rfl
    · rename_i rest
      cases value with
      | nil => exact total_ok _
      | cons head tail =>
        dsimp only
        cases hclass : matchesCharClass ('[' :: rest) head with
        | none => exact total_ok _
        | some found =>
          obtain ⟨matched,next⟩ := found
          dsimp only
          split
          · exact total_ok _
          · rw [check_ok (matchesCharClass_le hclass),bind_ok]
            refine ih _ ?_ tail _ rfl
            have hdrop := List.length_drop (i := next) (l := '[' :: rest)
            simp at hsize hdrop ⊢
            omega
    · rename_i char rest _ _ _
      cases value with
      | nil => exact total_ok _
      | cons head tail =>
        dsimp only
        split
        · exact ih _ (by simp at hsize ⊢; omega) tail rest rfl
        · exact total_ok _

/-- A call that comes back with a value, which has a property, or with an error. -/
def Comes {α : Type} (x : Outcome α) (Q : α → Prop) : Prop := (∃ a, x=.ok a ∧ Q a) ∨ ∃ e, x=.err e

/-- What comes is handed on. -/
theorem Comes.bind {α β : Type} {x : Outcome α} {Q : α → Prop} {f : α → Outcome β} (h : Comes x Q)
    (hf : ∀ a, Q a → (f a).Returns) : (x >>= f).Returns := by
  rcases h with ⟨a,ha,hQ⟩ | ⟨e,he⟩
  · rw [ha,bind_ok]
    exact hf a hQ
  · rw [he]
    exact returns_err e

/-- A class of a regular expression is read to its end. -/
theorem regexpClassMembers_comes (value : Char) (negated : Bool) (members : List Char) (cursor : ℕ)
    (matched sawMember : Bool) :
    Comes (regexpClassMembers value negated members cursor matched sawMember)
      fun found => cursor < found.2 ∧ found.2 ≤ cursor+members.length := by
  induction members, cursor, matched, sawMember using regexpClassMembers.induct value with
  | case1 cursor matched sawMember => exact Or.inr ⟨_,rfl⟩
  | case2 first last rest cursor matched sawMember hstop =>
    rw [regexpClassMembers,if_pos hstop]
    refine Or.inl ⟨_,rfl,?_⟩
    simp only [List.length_cons]
    omega
  | case3 first rest cursor matched sawMember hgo ih =>
    rw [regexpClassMembers,if_neg hgo,if_pos rfl]
    refine ih.imp_left ?_
    rintro ⟨found,hfound,hle⟩
    refine ⟨found,hfound,?_⟩
    simp only [List.length_cons] at hle ⊢
    omega
  | case4 first last rest cursor matched sawMember hgo hlast ih =>
    rw [regexpClassMembers,if_neg hgo,if_neg hlast]
    refine ih.imp_left ?_
    rintro ⟨found,hfound,hle⟩
    refine ⟨found,hfound,?_⟩
    simp only [List.length_cons]
    omega
  | case5 first rest cursor matched sawMember hrange hstop =>
    rw [regexpClassMembers,if_pos hstop]
    · refine Or.inl ⟨_,rfl,?_⟩
      simp only [List.length_cons]
      omega
    · exact hrange
  | case6 first rest cursor matched sawMember hrange hgo ih =>
    rw [regexpClassMembers,if_neg hgo]
    · refine ih.imp_left ?_
      rintro ⟨found,hfound,hle⟩
      refine ⟨found,hfound,?_⟩
      simp only [List.length_cons]
      omega
    · exact hrange

/-- An atom that starts in the pattern ends in it. -/
theorem regexpAtomMatches_comes (hindex : index < pattern.length) (value : Char) :
    Comes (regexpAtomMatches pattern index value)
      fun found => index < found.2 ∧ found.2 ≤ pattern.length := by
  have hfirst : charAt pattern index=.ok pattern[index] := by
    rw [charAt,List.getElem?_eq_getElem hindex]
  have hmembers : ∀ negated start, index < start → start ≤ pattern.length →
      Comes (regexpClassMembers value negated (pattern.drop start) start false false)
        fun found => index < found.2 ∧ found.2 ≤ pattern.length := by
    intro negated start hlow hhigh
    refine (regexpClassMembers_comes value negated _ start false false).imp_left ?_
    rintro ⟨found,hfound,hle⟩
    rw [List.length_drop] at hle
    exact ⟨found,hfound,by omega⟩
  rw [regexpAtomMatches,hfirst,bind_ok]
  split_ifs with hany hplain hcaret
  · exact Or.inl ⟨_,rfl,by dsimp only; omega⟩
  · exact Or.inl ⟨_,rfl,by dsimp only; omega⟩
  · obtain ⟨hnext,-⟩ := List.getElem?_eq_some_iff.mp hcaret
    exact hmembers true (index+2) (by omega) (by omega)
  · exact hmembers false (index+1) (by omega) (by omega)

/-- `*` returns when the rest does. -/
theorem regexpMatchStar_returns {matchRest : ℕ → Outcome Bool}
    (h : ∀ index, (matchRest index).Returns) {atomIndex : ℕ} (hatom : atomIndex < pattern.length) (rest : List Char)
    (index : ℕ) : (regexpMatchStar matchRest pattern atomIndex rest index).Returns := by
  induction rest generalizing index with
  | nil => exact h index
  | cons char rest ih =>
    rw [regexpMatchStar]
    refine (h index).bind fun found _ => ?_
    split
    · exact returns_ok _
    · refine (regexpAtomMatches_comes hatom char).bind ?_
      rintro ⟨matched,next⟩ -
      dsimp only
      split
      · exact ih _
      · exact returns_ok _

/-- Each call goes on behind an atom of the pattern, so the pattern bounds the depth. -/
theorem regexpMatchHere_returns {depth : ℕ}
    (hindex : index ≤ pattern.length) (hdepth : pattern.length < depth+index) (value : List Char)
    (valueIndex : ℕ) : (regexpMatchHere depth pattern index value valueIndex).Returns := by
  induction depth generalizing index valueIndex with
  | zero => omega
  | succ depth ih =>
    rw [regexpMatchHere]
    split
    · exact returns_ok _
    · rename_i hend
      have hlt : index < pattern.length := by omega
      have hfirst : charAt pattern index=.ok pattern[index] := by
        rw [charAt,List.getElem?_eq_getElem hlt]
      rw [hfirst,bind_ok]
      split
      · exact returns_ok _
      · have hatom := regexpAtomMatches_comes hlt
        refine (hatom '\x00').bind ?_
        rintro ⟨matched,next⟩ ⟨hlow,hhigh⟩
        dsimp only at hlow hhigh ⊢
        split
        · rename_i hstar
          obtain ⟨hnext,-⟩ := List.getElem?_eq_some_iff.mp hstar
          exact regexpMatchStar_returns (fun start => ih (by omega) (by omega) start) hlt _ _
        · split
          · exact returns_ok _
          · rename_i char _
            refine (hatom char).bind ?_
            rintro ⟨matched,next⟩ ⟨hlow,hhigh⟩
            dsimp only at hlow hhigh ⊢
            split
            · exact ih hhigh (by omega) _
            · exact returns_ok _

/-- So does a search from many places. -/
theorem regexpMatchFrom_returns {matchAt : ℕ → Outcome Bool} (h : ∀ index, (matchAt index).Returns)
    (places : List ℕ) : (regexpMatchFrom matchAt places).Returns := by
  induction places with
  | nil => exact returns_ok _
  | cons index rest ih =>
    refine (h index).bind fun found _ => ?_
    split
    · exact returns_ok _
    · exact ih

/-- `REGEXP` returns. -/
theorem sqliteCheckRegexp_returns (pattern value : String) :
    (sqliteCheckRegexp pattern value).Returns := by
  unfold sqliteCheckRegexp
  dsimp only
  split
  · rename_i hcaret
    have hlength : 1 ≤ pattern.toList.length := by
      cases hpattern : pattern.toList with
      | nil =>
        rw [hpattern] at hcaret
        cases hcaret
      | cons first rest => exact Nat.succ_pos _
    exact regexpMatchHere_returns hlength (by omega) _ _
  · exact regexpMatchFrom_returns (fun index => regexpMatchHere_returns (by omega) (by omega) _ index) _

/-! ## Casts and arithmetic -/

section Arithmetic

variable (machine : Machine)

/-- `CAST` of any value. -/
theorem sqliteCheckCast_total (value : Value) (targetType : Sql.ColumnType) :
    (sqliteCheckCast machine value targetType).Total := by
  have hinteger := sqliteTextIntegerPrefix_total machine
  have hreal := sqliteTextNumericPrefix_total machine
  have hnumeric := sqliteTextNumericValue_total machine
  cases targetType <;> cases value
  all_goals first
    | exact total_ok _
    | exact hnumeric _
    | exact (hinteger _).bind fun _ _ => total_ok _
    | exact (hreal _).bind fun _ _ => total_ok _

/-- `abs` of any value. -/
theorem sqliteCheckAbs_total (value : Value) : (sqliteCheckAbs machine value).Total := by
  cases value with
  | null => exact total_ok _
  | boolean value => exact total_ok _
  | integer value =>
    rw [sqliteCheckAbs]
    split
    · exact total_ok _
    · exact total_ok _
  | real bits => exact total_ok _
  | blob bytes => exact (sqliteTextNumericPrefix_total machine _).bind fun _ _ => total_ok _
  | text value => exact (sqliteTextNumericPrefix_total machine _).bind fun _ _ => total_ok _

/-- A sum of any two values. -/
theorem sqliteCheckAdd_total (left right : Value) : (sqliteCheckAdd machine left right).Total := by
  unfold sqliteCheckAdd
  split
  · exact total_ok _
  · split
    · split
      · exact total_ok _
      · exact total_ok _
    · exact (sqliteCheckNumericReal_total machine _).bind fun _ _ =>
        (sqliteCheckNumericReal_total machine _).bind fun _ _ => total_ok _

/-- A product of any two values. -/
theorem sqliteCheckMultiply_total (left right : Value) :
    (sqliteCheckMultiply machine left right).Total := by
  unfold sqliteCheckMultiply
  split
  · exact total_ok _
  · split
    · split
      · exact total_ok _
      · exact total_ok _
    · exact (sqliteCheckNumericReal_total machine _).bind fun _ _ =>
        (sqliteCheckNumericReal_total machine _).bind fun _ _ => total_ok _

end Arithmetic

/-! ## Divisions -/

/-- The smallest integer over minus one. -/
def Overflows (left right : Int64) : Prop := left=Int64.minValue ∧ right=-1

/-- A quotient panics exactly when it overflows. -/
theorem divI64_cases (left : Int64) {right : Int64} (h : right≠0) :
    (Overflows left right ∧ divI64 left right=.stuck) ∨
      ¬Overflows left right ∧ (divI64 left right).Total := by
  by_cases hover : Overflows left right
  · refine Or.inl ⟨hover,?_⟩
    rw [divI64,check,if_neg fun hgo => hgo.2 hover]
    rfl
  · exact Or.inr ⟨hover,Total.bind ⟨(),check_ok ⟨h,hover⟩⟩ fun _ _ => total_ok _⟩

/-- A remainder panics at the same operands. -/
theorem remI64_cases (left : Int64) {right : Int64} (h : right≠0) :
    (Overflows left right ∧ remI64 left right=.stuck) ∨
      ¬Overflows left right ∧ (remI64 left right).Total := by
  by_cases hover : Overflows left right
  · refine Or.inl ⟨hover,?_⟩
    rw [remI64,check,if_neg fun hgo => hgo.2 hover]
    rfl
  · exact Or.inr ⟨hover,Total.bind ⟨(),check_ok ⟨h,hover⟩⟩ fun _ _ => total_ok _⟩

section Divisions

variable (machine : Machine)

/-- A quotient of values panics for the smallest integer over minus one only. -/
theorem sqliteCheckDivide_cases (left right : Value) :
    ((left=.integer Int64.minValue ∧ right=.integer (-1)) ∧
      sqliteCheckDivide machine left right=.stuck) ∨
    (¬(left=.integer Int64.minValue ∧ right=.integer (-1)) ∧
      (sqliteCheckDivide machine left right).Total) := by
  by_cases hnull : left=.null ∨ right=.null
  · refine Or.inr ⟨?_,?_⟩
    · rintro ⟨rfl,rfl⟩
      simp at hnull
    · unfold sqliteCheckDivide
      rw [if_pos hnull]
      exact total_ok _
  · unfold sqliteCheckDivide
    rw [if_neg hnull]
    by_cases hzero : isZero right=true
    · refine Or.inr ⟨?_,?_⟩
      · rintro ⟨-,rfl⟩
        cases hzero
      · rw [if_pos hzero]
        exact total_ok _
    · rw [if_neg hzero]
      split
      · rename_i left right
        have hright : right≠0 := by
          rintro rfl
          exact hzero rfl
        rw [Value.integer.injEq,Value.integer.injEq]
        rcases divI64_cases left hright with ⟨hover,hstuck⟩ | ⟨hover,htotal⟩
        · refine Or.inl ⟨hover,?_⟩
          rw [hstuck]
          rfl
        · exact Or.inr ⟨hover,htotal.bind fun _ _ => total_ok _⟩
      · rename_i hintegers
        refine Or.inr ⟨?_,?_⟩
        · rintro ⟨rfl,rfl⟩
          exact hintegers _ _ rfl rfl
        · exact (sqliteCheckNumericReal_total machine left).bind fun _ _ =>
            (sqliteCheckNumericReal_total machine right).bind fun _ _ => total_ok _

/-- The numbers of two values, taken to integers, are the smallest one and minus one. -/
def RemainderOverflows (left right : Value) : Prop :=
  ∃ leftReal rightReal, left≠.null ∧ right≠.null ∧
    sqliteCheckNumericReal machine left=.ok leftReal ∧
    sqliteCheckNumericReal machine right=.ok rightReal ∧
    Overflows (realToI64 leftReal) (realToI64 rightReal)

/-- A remainder of values panics for such numbers only. -/
theorem sqliteCheckModulo_cases (left right : Value) :
    (RemainderOverflows machine left right ∧ sqliteCheckModulo machine left right=.stuck) ∨
    (¬RemainderOverflows machine left right ∧ (sqliteCheckModulo machine left right).Total) := by
  by_cases hnull : left=.null ∨ right=.null
  · refine Or.inr ⟨?_,?_⟩
    · rintro ⟨_,_,hleft,hright,-⟩
      exact hnull.elim hleft hright
    · rw [sqliteCheckModulo,if_pos hnull]
      exact total_ok _
  · obtain ⟨leftReal,hleft⟩ := sqliteCheckNumericReal_total machine left
    obtain ⟨rightReal,hright⟩ := sqliteCheckNumericReal_total machine right
    obtain ⟨hleftnull,hrightnull⟩ := not_or.mp hnull
    have hover : RemainderOverflows machine left right ↔
        Overflows (realToI64 leftReal) (realToI64 rightReal) := by
      constructor
      · rintro ⟨leftReal',rightReal',-,-,hleft',hright',hover⟩
        rw [hleft] at hleft'
        rw [hright] at hright'
        rw [Outcome.ok.inj hleft',Outcome.ok.inj hright']
        exact hover
      · exact fun hover => ⟨leftReal,rightReal,hleftnull,hrightnull,hleft,hright,hover⟩
    rw [hover,sqliteCheckModulo,if_neg hnull,hleft,bind_ok,hright,bind_ok]
    by_cases hzero : realToI64 rightReal=0
    · refine Or.inr ⟨?_,?_⟩
      · rintro ⟨-,hone⟩
        rw [hzero] at hone
        exact absurd hone (by decide)
      · rw [if_pos hzero]
        exact total_ok _
    · rw [if_neg hzero]
      rcases remI64_cases (realToI64 leftReal) hzero with ⟨hover,hstuck⟩ | ⟨hover,htotal⟩
      · refine Or.inl ⟨hover,?_⟩
        rw [hstuck]
        rfl
      · exact Or.inr ⟨hover,htotal.bind fun _ _ => total_ok _⟩

end Divisions

end RustSql.Check
