import RustSql.Base.JsonTexts
import Mathlib.Data.List.TakeWhile

/-!
# A reader of JSON texts

A library that reads and writes JSON, character by character, over any way to read and write
numbers. It keeps what `SerdeJson.Lawful` asks for.
-/

namespace RustSql

/-! ## Strings -/

/-- A digit in base 16. -/
def hexDigit (value : ℕ) : Char := Nat.digitChar value

/-- The value of a digit in base 16. -/
def hexValue (char : Char) : Option ℕ :=
  if '0' ≤ char ∧ char ≤ '9' then some (char.toNat-48)
  else if 'a' ≤ char ∧ char ≤ 'f' then some (char.toNat-87)
  else if 'A' ≤ char ∧ char ≤ 'F' then some (char.toNat-55)
  else none

/-- A character inside quotes. -/
def escapeChar (char : Char) : List Char :=
  if char= '"' then ['\\', '"']
  else if char= '\\' then ['\\', '\\']
  else if char.toNat=8 then ['\\', 'b']
  else if char.toNat=12 then ['\\', 'f']
  else if char.toNat=10 then ['\\', 'n']
  else if char.toNat=13 then ['\\', 'r']
  else if char.toNat=9 then ['\\', 't']
  else if char.toNat < 32 then
    ['\\', 'u', '0', '0',hexDigit (char.toNat/16),hexDigit (char.toNat%16)]
  else [char]

/-- A text inside quotes. -/
def escapeText (text : List Char) : List Char := text.flatMap escapeChar

/-- A text in quotes. -/
def quoteText (text : String) : List Char := '"' :: escapeText text.toList++['"']

/-- What a single letter stands for behind a backslash. -/
def simpleEscape (char : Char) : Option Char :=
  if char= '"' ∨ char= '\\' ∨ char= '/' then some char
  else if char= 'b' then some (Char.ofNat 8)
  else if char= 'f' then some (Char.ofNat 12)
  else if char= 'n' then some (Char.ofNat 10)
  else if char= 'r' then some (Char.ofNat 13)
  else if char= 't' then some (Char.ofNat 9)
  else none

/-- Four digits in base 16. -/
def hexUnit (first second third fourth : Char) : Option ℕ := do
  let first ← hexValue first
  let second ← hexValue second
  let third ← hexValue third
  let fourth ← hexValue fourth
  some (((first*16+second)*16+third)*16+fourth)

/-- The half of a character outside the first plane that comes first. -/
def isHighHalf (unit : ℕ) : Bool := 0xD800 ≤ unit && unit < 0xDC00

/-- The half that comes second. -/
def isLowHalf (unit : ℕ) : Bool := 0xDC00 ≤ unit && unit < 0xE000

/-- A character is put in front of what was read. -/
def readChar (char : Char) (read : Option (List Char × List Char)) :
    Option (List Char × List Char) :=
  read.map fun found => (char :: found.1,found.2)

/-- The text up to the closing quote, and what stands behind it. -/
def readString : List Char → Option (List Char × List Char)
  | [] => none
  | '"' :: rest => some ([],rest)
  | '\\' :: 'u' :: first :: second :: third :: fourth :: rest =>
    match hexUnit first second third fourth with
    | none => none
    | some unit =>
      if isLowHalf unit then none
      else if isHighHalf unit then
        match rest with
        | '\\' :: 'u' :: first :: second :: third :: fourth :: rest =>
          match hexUnit first second third fourth with
          | none => none
          | some low =>
            if isLowHalf low then
              readChar (Char.ofNat (0x10000+(unit-0xD800)*0x400+(low-0xDC00))) (readString rest)
            else none
        | _ => none
      else readChar (Char.ofNat unit) (readString rest)
  | '\\' :: char :: rest =>
    match simpleEscape char with
    | none => none
    | some char => readChar char (readString rest)
  | char :: rest => if char.toNat < 32 then none else readChar char (readString rest)

theorem hexDigit_read : ∀ n < 32,
    hexUnit '0' '0' (hexDigit (n/16)) (hexDigit (n%16))=some n := by
  decide

/-- A plain character is read as it stands. -/
theorem readString_plain {char : Char} (hquote : char≠ '"') (hslash : char≠ '\\')
    (hcontrol : ¬char.toNat < 32) (rest : List Char) :
    readString (char :: rest)=readChar char (readString rest) := by
  rw [readString.eq_def]
  split
  · next h => cases h
  · next h => exact absurd (List.cons.inj h).1 hquote
  · next h => exact absurd (List.cons.inj h).1 hslash
  · next h => exact absurd (List.cons.inj h).1 hslash
  · next h =>
    obtain ⟨rfl,rfl⟩ := List.cons.inj h
    rw [if_neg hcontrol]

/-- A letter behind a backslash is read as what it stands for. -/
theorem readString_simple {letter char : Char} (hletter : letter≠ 'u')
    (h : simpleEscape letter=some char) (rest : List Char) :
    readString ('\\' :: letter :: rest)=readChar char (readString rest) := by
  rw [readString.eq_def]
  split
  · next h => cases h
  · next h => exact absurd (List.cons.inj h).1 (by decide)
  · next h => exact absurd (List.cons.inj (List.cons.inj h).2).1 hletter
  · next other rest' _ hsame =>
    obtain ⟨rfl,rfl⟩ := List.cons.inj (List.cons.inj hsame).2
    rw [h]
  · next hother hsame =>
    obtain ⟨rfl,rfl⟩ := List.cons.inj hsame
    exact absurd rfl (hother letter rest rfl)

/-- A character by its number is read as that character. -/
theorem readString_unit {first second third fourth : Char} {unit : ℕ}
    (h : hexUnit first second third fourth=some unit) (hunit : unit < 0xD800)
    (rest : List Char) :
    readString ('\\' :: 'u' :: first :: second :: third :: fourth :: rest)=
      readChar (Char.ofNat unit) (readString rest) := by
  rw [readString,h]
  have hlow : isLowHalf unit=false := by simp [isLowHalf]; omega
  have hhigh : isHighHalf unit=false := by simp [isHighHalf]; omega
  simp only [hlow,hhigh,Bool.false_eq_true,if_false]

/-- An escaped character is read back. -/
theorem readString_escapeChar (char : Char) (rest : List Char) :
    readString (escapeChar char++rest)=readChar char (readString rest) := by
  have hchar (n : ℕ) (h : char.toNat=n) : Char.ofNat n=char := by
    rw [←h,Char.ofNat_toNat]
  have hsimple (letter : Char) (n : ℕ) (h : char.toNat=n) (hletter : letter≠ 'u')
      (hvalue : simpleEscape letter=some (Char.ofNat n)) :
      readString ('\\' :: letter :: rest)=readChar char (readString rest) :=
    readString_simple hletter (hvalue.trans (congrArg some (hchar n h))) rest
  unfold escapeChar
  split
  · next h => rw [h]; exact readString_simple (by decide) (by decide) rest
  split
  · next h => rw [h]; exact readString_simple (by decide) (by decide) rest
  split
  · next h => exact hsimple 'b' 8 h (by decide) rfl
  split
  · next h => exact hsimple 'f' 12 h (by decide) rfl
  split
  · next h => exact hsimple 'n' 10 h (by decide) rfl
  split
  · next h => exact hsimple 'r' 13 h (by decide) rfl
  split
  · next h => exact hsimple 't' 9 h (by decide) rfl
  split
  · next h =>
    have hread := readString_unit (hexDigit_read char.toNat h) (by omega) rest
    rw [Char.ofNat_toNat] at hread
    exact hread
  · next hquote hslash _ _ _ _ _ hcontrol => exact readString_plain hquote hslash hcontrol rest

/-- An escaped text is read back up to its closing quote. -/
theorem readString_escapeText (text rest : List Char) :
    readString (escapeText text++ '"' :: rest)=some (text,rest) := by
  induction text with
  | nil => rfl
  | cons char text ih =>
    rw [escapeText,List.flatMap_cons,List.append_assoc,readString_escapeChar]
    rw [escapeText] at ih
    rw [ih]
    rfl

/-! ## Whole texts -/

/-- How numbers are written and read. -/
structure JsonNumbers (N : Type) where
  isF64 : N → Bool
  toText : N → List Char
  read : List Char → Option N

/-- White space between the parts of a text. -/
def isBlank (char : Char) : Bool := char== ' ' || char== '\n' || char== '\t' || char== '\r'

/-- Skip white space. -/
def skipBlanks (text : List Char) : List Char := text.dropWhile isBlank

/-- What numbers begin with. -/
def startsNumber (char : Char) : Bool := char== '-' || ('0' ≤ char && char ≤ '9')

/-- What numbers are made of. -/
def isNumberChar (char : Char) : Bool :=
  startsNumber char || char== '+' || char== '.' || char== 'e' || char== 'E'

/-- A number that was written looks like a number and is read back. -/
structure JsonNumbers.Lawful {N : Type} (numbers : JsonNumbers N) : Prop where
  read_toText (n : N) : numbers.read (numbers.toText n)=some n
  starts (n : N) : ∃ first rest, numbers.toText n=first :: rest ∧ startsNumber first=true
  made (n : N) : ∀ char∈numbers.toText n, isNumberChar char=true

section Reader

variable {N : Type} (numbers : JsonNumbers N)

/-- Read a number off the front of a text. -/
def readNumber : List Char → Option (JsonValue N × List Char)
  | [] => none
  | first :: rest =>
    if startsNumber first then
      (numbers.read ((first :: rest).takeWhile isNumberChar)).map fun n =>
        (.number n,(first :: rest).dropWhile isNumberChar)
    else none

mutual

/-- Read a value off the front of a text, with the arrays and objects that may still open. -/
def readValue : ℕ → ℕ → List Char → Option (JsonValue N × List Char)
  | 0, _, _ => none
  | fuel+1, remaining, text =>
    match skipBlanks text with
    | 'n' :: 'u' :: 'l' :: 'l' :: rest => some (.null,rest)
    | 't' :: 'r' :: 'u' :: 'e' :: rest => some (.bool true,rest)
    | 'f' :: 'a' :: 'l' :: 's' :: 'e' :: rest => some (.bool false,rest)
    | '"' :: rest => do
      let (found,rest) ← readString rest
      some (.string (String.ofList found),rest)
    | '[' :: rest =>
      if remaining ≤ 1 then none
      else
        match skipBlanks rest with
        | ']' :: rest => some (.array [],rest)
        | _ => do
          let (items,rest) ← readItems fuel (remaining-1) rest
          some (.array items,rest)
    | '{' :: rest =>
      if remaining ≤ 1 then none
      else
        match skipBlanks rest with
        | '}' :: rest => some (.object [],rest)
        | _ => do
          let (fields,rest) ← readFields fuel (remaining-1) rest
          some (.object (fromFields fields),rest)
    | text => readNumber numbers text

/-- Read the items of an array up to its end. -/
def readItems : ℕ → ℕ → List Char → Option (List (JsonValue N) × List Char)
  | 0, _, _ => none
  | fuel+1, remaining, text => do
    let (item,rest) ← readValue fuel remaining text
    match skipBlanks rest with
    | ',' :: rest => do
      let (items,rest) ← readItems fuel remaining rest
      some (item :: items,rest)
    | ']' :: rest => some ([item],rest)
    | _ => none

/-- Read the fields of an object up to its end. -/
def readFields : ℕ → ℕ → List Char → Option (List (String × JsonValue N) × List Char)
  | 0, _, _ => none
  | fuel+1, remaining, text =>
    match skipBlanks text with
    | '"' :: rest => do
      let (name,rest) ← readString rest
      match skipBlanks rest with
      | ':' :: rest => do
        let (value,rest) ← readValue fuel remaining rest
        match skipBlanks rest with
        | ',' :: rest => do
          let (fields,rest) ← readFields fuel remaining rest
          some ((String.ofList name,value) :: fields,rest)
        | '}' :: rest => some ([(String.ofList name,value)],rest)
        | _ => none
      | _ => none
    | _ => none

end

/-- One value, and nothing behind it but white space. -/
def readText (text : List Char) : Option (JsonValue N) :=
  match readValue numbers (text.length+1) 128 text with
  | some (value,rest) => if skipBlanks rest=[] then some value else none
  | none => none

mutual

/-- The text of a value. -/
def writeValue : JsonValue N → List Char
  | .null => ['n', 'u', 'l', 'l']
  | .bool true => ['t', 'r', 'u', 'e']
  | .bool false => ['f', 'a', 'l', 's', 'e']
  | .number value => numbers.toText value
  | .string value => quoteText value
  | .array items => '[' :: commaJoin (writeItems items)++[']']
  | .object fields => '{' :: commaJoin (writeFields fields)++['}']

def writeItems : List (JsonValue N) → List (List Char)
  | [] => []
  | item :: items => writeValue item :: writeItems items

def writeFields : List (String × JsonValue N) → List (List Char)
  | [] => []
  | (name,value) :: fields => (quoteText name++ ':' :: writeValue value) :: writeFields fields

end

/-- The library that reads and writes so. -/
def JsonNumbers.serde : SerdeJson N where
  isF64 := numbers.isF64
  fromStr := readText numbers
  toString := writeValue numbers

/-- What stands behind a value: nothing that could go on with a number. -/
def Closed (rest : List Char) : Prop := ∀ char∈rest.head?, isNumberChar char=false

/-- A text reads as a value, or is refused, wherever it stands. -/
def ReadsAs (remaining : ℕ) (text : List Char) (result : Option (JsonValue N)) : Prop :=
  ∀ fuel rest, text.length < fuel → Closed rest →
    ∃ blanks, (∀ char∈blanks, isBlank char=true) ∧
      readValue numbers fuel remaining (text++rest)=result.map fun value => (value,blanks++rest)

end Reader

/-! ## Reading what was put together -/

section Reading

variable {N : Type} {numbers : JsonNumbers N} {remaining : ℕ}

theorem skipBlanks_append {blanks : List Char} (h : ∀ char∈blanks, isBlank char=true)
    (rest : List Char) : skipBlanks (blanks++rest)=skipBlanks rest :=
  List.dropWhile_append_of_pos h

theorem skipBlanks_cons {char : Char} (h : isBlank char=false) (rest : List Char) :
    skipBlanks (char :: rest)=char :: rest := by
  rw [skipBlanks,List.dropWhile_cons,h]
  rfl

theorem skipBlanks_all {blanks : List Char} (h : ∀ char∈blanks, isBlank char=true) :
    skipBlanks blanks=[] := by
  have hskip := skipBlanks_append h []
  rwa [List.append_nil] at hskip

/-- A value does not begin with a closing bracket. -/
theorem readValue_bracket {fuel : ℕ} {text rest : List Char} {char : Char}
    (hchar : char= ']' ∨ char= '}') (h : skipBlanks text=char :: rest) :
    readValue numbers fuel remaining text=none := by
  cases fuel with
  | zero => rfl
  | succ fuel =>
    rw [readValue,h]
    cases hchar with
    | inl hchar => rw [hchar]; rfl
    | inr hchar => rw [hchar]; rfl

theorem quoteText_append (text : String) (rest : List Char) :
    quoteText text++rest= '"' :: (escapeText text.toList++ '"' :: rest) := by
  rw [quoteText,List.append_assoc]
  rfl

/-- What a text with a number in it looks like. -/
theorem readText_number {text : List Char} {n : N} (h : readText numbers text=some (.number n)) :
    ∃ before token after, text=before++token++after ∧ (∀ char∈before, isBlank char=true) ∧
      (∀ char∈after, isBlank char=true) ∧ (∀ char∈token, isNumberChar char=true) ∧
      (∃ first rest, token=first :: rest ∧ startsNumber first=true) ∧
      numbers.read token=some n := by
  rw [readText] at h
  split at h
  · next value rest hread =>
    split at h
    · next hrest =>
      obtain rfl := Option.some.inj h
      have hbehind : ∀ char∈rest, isBlank char=true := by
        intro char hchar
        exact List.dropWhile_eq_nil_iff.mp hrest char hchar
      have hnumber : readNumber numbers (skipBlanks text)=some (.number n,rest) := by
        rw [readValue] at hread
        split at hread
        · cases hread
        · cases hread
        · cases hread
        · obtain ⟨found,_,hfound⟩ := Option.bind_eq_some_iff.mp hread
          cases hfound
        · split at hread
          · cases hread
          split at hread
          · cases hread
          · obtain ⟨found,_,hfound⟩ := Option.bind_eq_some_iff.mp hread
            cases hfound
        · split at hread
          · cases hread
          split at hread
          · cases hread
          · obtain ⟨found,_,hfound⟩ := Option.bind_eq_some_iff.mp hread
            cases hfound
        · exact hread
      cases hskipped : skipBlanks text with
      | nil => rw [hskipped] at hnumber; cases hnumber
      | cons first more =>
        rw [hskipped,readNumber] at hnumber
        split at hnumber
        · next hstarts =>
          obtain ⟨m,hm,hpair⟩ := Option.map_eq_some_iff.mp hnumber
          obtain ⟨hvalue,hrest⟩ := Prod.mk.inj hpair
          obtain rfl := JsonValue.number.inj hvalue
          refine ⟨text.takeWhile isBlank,(first :: more).takeWhile isNumberChar,
            (first :: more).dropWhile isNumberChar,?_,?_,?_,?_,?_,hm⟩
          · rw [List.append_assoc,List.takeWhile_append_dropWhile,←hskipped]
            exact List.takeWhile_append_dropWhile.symm
          · exact fun char hchar => List.mem_takeWhile_imp hchar
          · rw [hrest]
            exact hbehind
          · exact fun char hchar => List.mem_takeWhile_imp hchar
          · refine ⟨first,more.takeWhile isNumberChar,?_,hstarts⟩
            have hfirst : isNumberChar first=true := by simp [isNumberChar,hstarts]
            rw [List.takeWhile_cons,hfirst]
            rfl
        · cases hnumber
    · cases h
  · cases h

/-- A number between white space reads as the number wherever it stands. -/
theorem reads_numberText {before token after more : List Char} {first : Char} {n : N}
    (hbefore : ∀ char∈before, isBlank char=true) (hafter : ∀ char∈after, isBlank char=true)
    (htoken : ∀ char∈token, isNumberChar char=true) (hfirst : token=first :: more)
    (hstarts : startsNumber first=true) (hread : numbers.read token=some n) :
    ReadsAs numbers remaining (before++token++after) (some (.number n)) := by
  intro fuel rest hfuel hclosed
  obtain ⟨fuel,rfl⟩ : ∃ n, fuel=n+1 := ⟨fuel-1,by omega⟩
  refine ⟨after,hafter,?_⟩
  -- no character of a number is white space
  have hstop : ∀ char∈(after++rest).head?, isNumberChar char=false := by
    intro char hchar
    cases after with
    | nil => exact hclosed char hchar
    | cons blank after =>
      obtain rfl := Option.some.inj hchar
      have hblank := hafter blank List.mem_cons_self
      simp only [isBlank,Bool.or_eq_true,beq_iff_eq] at hblank
      rcases hblank with ((rfl | rfl) | rfl) | rfl <;> decide
  have htake : (token++(after++rest)).takeWhile isNumberChar=token := by
    rw [List.takeWhile_append_of_pos htoken]
    cases hbehind : after++rest with
    | nil => rw [List.takeWhile_nil,List.append_nil]
    | cons char behind =>
      rw [hbehind] at hstop
      rw [List.takeWhile_cons,hstop char rfl]
      exact List.append_nil token
  have hdrop : (token++(after++rest)).dropWhile isNumberChar=after++rest := by
    rw [List.dropWhile_append_of_pos htoken]
    cases hbehind : after++rest with
    | nil => rfl
    | cons char behind =>
      rw [hbehind] at hstop
      rw [List.dropWhile_cons,hstop char rfl]
      rfl
  have hother (char : Char) (hchar : startsNumber char=false) : first≠char := by
    intro hsame
    rw [hsame,hchar] at hstarts
    cases hstarts
  have hshown : isBlank first=false := by
    simp [isBlank,hother ' ' (by decide),hother '\n' (by decide),hother '\t' (by decide),
      hother '\r' (by decide)]
  have hskip : skipBlanks (before++token++after++rest)=first :: (more++(after++rest)) := by
    rw [List.append_assoc,List.append_assoc,skipBlanks_append hbefore,hfirst,
      List.cons_append,skipBlanks_cons hshown]
  have hnumber : readNumber numbers (first :: (more++(after++rest)))=
      some (.number n,after++rest) := by
    rw [hfirst,List.cons_append] at htake hdrop
    rw [readNumber,if_pos hstarts,htake,hdrop,←hfirst,hread]
    rfl
  rw [readValue,hskip]
  split
  · next hsame => exact absurd (List.cons.inj hsame).1 (hother 'n' (by decide))
  · next hsame => exact absurd (List.cons.inj hsame).1 (hother 't' (by decide))
  · next hsame => exact absurd (List.cons.inj hsame).1 (hother 'f' (by decide))
  · next hsame => exact absurd (List.cons.inj hsame).1 (hother '"' (by decide))
  · next hsame => exact absurd (List.cons.inj hsame).1 (hother '[' (by decide))
  · next hsame => exact absurd (List.cons.inj hsame).1 (hother '{' (by decide))
  · exact hnumber

/-- A text with a number in it reads as the number wherever it stands. -/
theorem ReadsAs.of_number {text : List Char} {n : N}
    (h : readText numbers text=some (.number n)) :
    ReadsAs numbers remaining text (some (.number n)) := by
  obtain ⟨before,token,after,htext,hbefore,hafter,htoken,⟨first,more,hfirst,hstarts⟩,hread⟩ :=
    readText_number h
  rw [htext]
  exact reads_numberText hbefore hafter htoken hfirst hstarts hread

/-- A number that was written reads as the number. -/
theorem JsonNumbers.Lawful.reads (h : numbers.Lawful) (n : N) :
    ReadsAs numbers remaining (numbers.toText n) (some (.number n)) := by
  obtain ⟨first,more,hfirst,hstarts⟩ := h.starts n
  have hreads := @reads_numberText N numbers remaining [] (numbers.toText n) [] more first n (by simp)
    (by simp) (h.made n) hfirst hstarts (h.read_toText n)
  rwa [List.nil_append,List.append_nil] at hreads

/-- The value that parts mean, if they do not stand too deep. -/
def JsonParts.within (remaining : ℕ) (parts : JsonParts N) : Option (JsonValue N) :=
  if parts.depth < remaining then some parts.value else none

/-- Parts without others in them are read whatever may still open. -/
theorem JsonParts.within_leaf {parts : JsonParts N} (hdepth : parts.depth=0)
    (hremaining : 0 < remaining) : parts.within remaining=some parts.value :=
  if_pos (hdepth.trans_lt hremaining)

/-- Nothing that reads begins with a closing bracket. -/
theorem ReadsAs.opens {text rest : List Char} {value : JsonValue N} {char : Char}
    (h : ReadsAs numbers remaining text (some value)) (hchar : char= ']' ∨ char= '}')
    (hrest : Closed rest) (more : List Char) : skipBlanks (text++rest)≠char :: more := by
  intro hmore
  obtain ⟨blanks,-,hread⟩ := h (text.length+1) rest (Nat.lt_succ_self _) hrest
  rw [readValue_bracket hchar hmore] at hread
  cases hread

/-- A comma and a closing bracket end a value. -/
theorem closed_cons {char : Char} (h : isNumberChar char=false) (rest : List Char) :
    Closed (char :: rest) := by
  intro other hother
  obtain rfl := Option.some.inj hother
  exact h

/-- Behind white space a comma or a closing bracket is found. -/
theorem skipBlanks_found {blanks : List Char} (h : ∀ char∈blanks, isBlank char=true)
    {char : Char} (hchar : isBlank char=false) (rest : List Char) :
    skipBlanks (blanks++char :: rest)=char :: rest := by
  rw [skipBlanks_append h,skipBlanks_cons hchar]

mutual

/-- The text of parts reads as what they mean, or is refused where they stand too deep. -/
theorem reads_parts (parts : JsonParts N) (h : parts.Reads numbers.serde) (remaining : ℕ)
    (hremaining : 0 < remaining) :
    ReadsAs numbers remaining (parts.text numbers.serde) (parts.within remaining) := by
  match parts with
  | .number text value =>
    rw [JsonParts.within_leaf rfl hremaining]
    exact ReadsAs.of_number h
  | .null =>
    rw [JsonParts.within_leaf rfl hremaining]
    intro fuel rest hfuel _
    obtain ⟨fuel,rfl⟩ : ∃ n, fuel=n+1 := ⟨fuel-1,by omega⟩
    exact ⟨[],by simp,rfl⟩
  | .bool true =>
    rw [JsonParts.within_leaf rfl hremaining]
    intro fuel rest hfuel _
    obtain ⟨fuel,rfl⟩ : ∃ n, fuel=n+1 := ⟨fuel-1,by omega⟩
    exact ⟨[],by simp,rfl⟩
  | .bool false =>
    rw [JsonParts.within_leaf rfl hremaining]
    intro fuel rest hfuel _
    obtain ⟨fuel,rfl⟩ : ∃ n, fuel=n+1 := ⟨fuel-1,by omega⟩
    exact ⟨[],by simp,rfl⟩
  | .string value =>
    rw [JsonParts.within_leaf rfl hremaining]
    intro fuel rest hfuel _
    obtain ⟨fuel,rfl⟩ : ∃ n, fuel=n+1 := ⟨fuel-1,by omega⟩
    refine ⟨[],by simp,?_⟩
    have htext : (JsonParts.string value).text numbers.serde=quoteText value := rfl
    rw [htext,readValue,quoteText_append,skipBlanks_cons (by decide)]
    simp only [readString_escapeText,Option.bind_eq_bind,Option.bind_some,String.ofList_toList]
    rfl
  | .array items =>
    intro fuel rest hfuel _
    obtain ⟨fuel,rfl⟩ : ∃ n, fuel=n+1 := ⟨fuel-1,by omega⟩
    refine ⟨[],by simp,?_⟩
    have htext : (JsonParts.array items).text numbers.serde++rest=
        '[' :: (commaJoin (JsonParts.texts numbers.serde items)++ ']' :: rest) := by
      simp [JsonParts.text]
    rw [JsonParts.text,List.length_append,List.length_cons,List.length_singleton] at hfuel
    rw [htext,readValue,skipBlanks_cons (by decide),JsonParts.within,JsonParts.depth]
    by_cases hdeep : remaining ≤ 1
    · simp only [if_pos hdeep]
      rw [if_neg (by omega)]
      rfl
    simp only [if_neg hdeep]
    match items with
    | [] =>
      rw [if_pos (by simp only [JsonParts.depths]; omega)]
      rfl
    | item :: items =>
      have hopen := (reads_parts item h.1 (item.depth+1) (Nat.succ_pos _))
      rw [JsonParts.within,if_pos (Nat.lt_succ_self _)] at hopen
      have hrun := readItems_parts (item :: items) (List.cons_ne_nil _ _) h (remaining-1)
        (by omega) fuel rest (by omega)
      have hbracket (more : List Char) : skipBlanks
          (commaJoin (JsonParts.texts numbers.serde (item :: items))++ ']' :: rest)≠ ']' :: more := by
        cases items with
        | nil => exact hopen.opens (.inl rfl) (closed_cons (by decide) rest) more
        | cons next items =>
          rw [JsonParts.texts,JsonParts.texts,commaJoin_cons,List.append_assoc,List.cons_append]
          exact hopen.opens (.inl rfl) (closed_cons (by decide) _) more
      simp only [hrun]
      by_cases hdepth : JsonParts.depths (item :: items) < remaining-1
      · rw [if_pos hdepth,if_pos (by omega)]
        rfl
      · rw [if_neg hdepth,if_neg (by omega)]
        rfl
  | .object fields =>
    intro fuel rest hfuel _
    obtain ⟨fuel,rfl⟩ : ∃ n, fuel=n+1 := ⟨fuel-1,by omega⟩
    refine ⟨[],by simp,?_⟩
    have htext : (JsonParts.object fields).text numbers.serde++rest=
        '{' :: (commaJoin (JsonParts.fieldTexts numbers.serde fields)++ '}' :: rest) := by
      simp [JsonParts.text]
    rw [JsonParts.text,List.length_append,List.length_cons,List.length_singleton] at hfuel
    rw [htext,readValue,skipBlanks_cons (by decide),JsonParts.within,JsonParts.depth]
    by_cases hdeep : remaining ≤ 1
    · simp only [if_pos hdeep]
      rw [if_neg (by omega)]
      rfl
    simp only [if_neg hdeep]
    match fields with
    | [] =>
      rw [if_pos (by simp only [JsonParts.fieldDepths]; omega)]
      rfl
    | (name,item) :: fields =>
      have hrun := readFields_parts ((name,item) :: fields) (List.cons_ne_nil _ _) h (remaining-1)
        (by omega) fuel rest (by omega)
      -- the name of the first field stands behind the bracket
      have hquote : ∃ more, commaJoin (JsonParts.fieldTexts numbers.serde ((name,item) :: fields))++
          '}' :: rest= '"' :: more := by
        cases fields with
        | nil => exact ⟨_,rfl⟩
        | cons next fields => exact ⟨_,rfl⟩
      have hbracket (more : List Char) : skipBlanks
          (commaJoin (JsonParts.fieldTexts numbers.serde ((name,item) :: fields))++ '}' :: rest)≠
            '}' :: more := by
        obtain ⟨text,hquote⟩ := hquote
        rw [hquote,skipBlanks_cons (by decide)]
        exact fun hmore => absurd (List.cons.inj hmore).1 (by decide)
      simp only [hrun]
      by_cases hdepth : JsonParts.fieldDepths ((name,item) :: fields) < remaining-1
      · rw [if_pos hdepth,if_pos (by omega)]
        rfl
      · rw [if_neg hdepth,if_neg (by omega)]
        rfl

/-- The items of an array read up to its end. -/
theorem readItems_parts (items : List (JsonParts N)) (hne : items≠[])
    (h : JsonParts.AllRead numbers.serde items) (remaining : ℕ) (hremaining : 0 < remaining)
    (fuel : ℕ) (rest : List Char)
    (hfuel : (commaJoin (JsonParts.texts numbers.serde items)).length+1 < fuel) :
    readItems numbers fuel remaining
        (commaJoin (JsonParts.texts numbers.serde items)++ ']' :: rest)=
      if JsonParts.depths items < remaining then some (JsonParts.values items,rest) else none := by
  obtain ⟨fuel,rfl⟩ : ∃ n, fuel=n+1 := ⟨fuel-1,by omega⟩
  match items with
  | [] => exact absurd rfl hne
  | [item] =>
    have htext : commaJoin (JsonParts.texts numbers.serde [item])=item.text numbers.serde := rfl
    rw [htext] at hfuel
    obtain ⟨blanks,hblanks,hread⟩ := reads_parts item h.1 remaining hremaining fuel (']' :: rest)
      (by omega) (closed_cons (by decide) rest)
    rw [readItems,htext,hread,JsonParts.within,JsonParts.depths,JsonParts.depths,Nat.max_zero]
    split
    · simp only [Option.map_some,Option.bind_eq_bind,Option.bind_some,
        skipBlanks_found hblanks (by decide : isBlank ']'=false)]
      rfl
    · rfl
  | item :: next :: items =>
    have htext : commaJoin (JsonParts.texts numbers.serde (item :: next :: items))=
        item.text numbers.serde++
          ',' :: commaJoin (JsonParts.texts numbers.serde (next :: items)) := rfl
    rw [htext,List.length_append,List.length_cons] at hfuel
    have hrun := readItems_parts (next :: items) (List.cons_ne_nil _ _) h.2 remaining hremaining
      fuel rest (by omega)
    obtain ⟨blanks,hblanks,hread⟩ := reads_parts item h.1 remaining hremaining fuel
      (',' :: (commaJoin (JsonParts.texts numbers.serde (next :: items))++ ']' :: rest)) (by omega)
      (closed_cons (by decide) _)
    rw [readItems,htext,List.append_assoc,List.cons_append,hread,JsonParts.within,JsonParts.depths]
    by_cases hitem : item.depth < remaining
    · simp only [if_pos hitem,Option.map_some,Option.bind_eq_bind,Option.bind_some,
        skipBlanks_found hblanks (by decide : isBlank ','=false),hrun]
      by_cases hitems : JsonParts.depths (next :: items) < remaining
      · rw [if_pos hitems,if_pos (max_lt hitem hitems)]
        rfl
      · rw [if_neg hitems,if_neg fun hmax => hitems (lt_of_le_of_lt (le_max_right _ _) hmax)]
        rfl
    · rw [if_neg hitem,if_neg fun hmax => hitem (lt_of_le_of_lt (le_max_left _ _) hmax)]
      rfl

/-- The fields of an object read up to its end. -/
theorem readFields_parts (fields : List (String × JsonParts N)) (hne : fields≠[])
    (h : JsonParts.FieldsRead numbers.serde fields) (remaining : ℕ) (hremaining : 0 < remaining)
    (fuel : ℕ) (rest : List Char)
    (hfuel : (commaJoin (JsonParts.fieldTexts numbers.serde fields)).length+1 < fuel) :
    readFields numbers fuel remaining
        (commaJoin (JsonParts.fieldTexts numbers.serde fields)++ '}' :: rest)=
      if JsonParts.fieldDepths fields < remaining then some (JsonParts.fieldValues fields,rest)
      else none := by
  obtain ⟨fuel,rfl⟩ : ∃ n, fuel=n+1 := ⟨fuel-1,by omega⟩
  match fields with
  | [] => exact absurd rfl hne
  | [(name,item)] =>
    have htext : commaJoin (JsonParts.fieldTexts numbers.serde [(name,item)])=
        quoteText name++ ':' :: item.text numbers.serde := rfl
    rw [htext,List.length_append,List.length_cons] at hfuel
    obtain ⟨blanks,hblanks,hread⟩ := reads_parts item h.1 remaining hremaining fuel ('}' :: rest)
      (by omega) (closed_cons (by decide) rest)
    rw [readFields,htext,List.append_assoc,List.cons_append,quoteText_append,
      skipBlanks_cons (by decide)]
    simp only [readString_escapeText,Option.bind_eq_bind,Option.bind_some]
    rw [skipBlanks_cons (by decide)]
    simp only [hread,JsonParts.within,JsonParts.fieldDepths,Nat.max_zero]
    split
    · simp only [Option.map_some,Option.bind_some,String.ofList_toList,
        skipBlanks_found hblanks (by decide : isBlank '}'=false)]
      rfl
    · rfl
  | (name,item) :: next :: fields =>
    have htext : commaJoin (JsonParts.fieldTexts numbers.serde ((name,item) :: next :: fields))=
        (quoteText name++ ':' :: item.text numbers.serde)++
          ',' :: commaJoin (JsonParts.fieldTexts numbers.serde (next :: fields)) := rfl
    rw [htext,List.length_append,List.length_append,List.length_cons,List.length_cons] at hfuel
    have hrun := readFields_parts (next :: fields) (List.cons_ne_nil _ _) h.2 remaining hremaining
      fuel rest (by omega)
    obtain ⟨blanks,hblanks,hread⟩ := reads_parts item h.1 remaining hremaining fuel
      (',' :: (commaJoin (JsonParts.fieldTexts numbers.serde (next :: fields))++ '}' :: rest))
      (by omega) (closed_cons (by decide) _)
    rw [readFields,htext,List.append_assoc,List.append_assoc,List.cons_append,List.cons_append,
      quoteText_append,skipBlanks_cons (by decide)]
    simp only [readString_escapeText,Option.bind_eq_bind,Option.bind_some]
    rw [skipBlanks_cons (by decide)]
    simp only [hread,JsonParts.within]
    rw [JsonParts.fieldDepths]
    by_cases hitem : item.depth < remaining
    · simp only [if_pos hitem,Option.map_some,Option.bind_some,String.ofList_toList,
        skipBlanks_found hblanks (by decide : isBlank ','=false),hrun]
      by_cases hitems : JsonParts.fieldDepths (next :: fields) < remaining
      · rw [if_pos hitems,if_pos (max_lt hitem hitems)]
        rfl
      · rw [if_neg hitems,if_neg fun hmax => hitems (lt_of_le_of_lt (le_max_right _ _) hmax)]
        rfl
    · rw [if_neg hitem,if_neg fun hmax => hitem (lt_of_le_of_lt (le_max_left _ _) hmax)]
      rfl

end

/-- What reads, or is refused, wherever it stands does so alone. -/
theorem ReadsAs.readText {text : List Char} {result : Option (JsonValue N)}
    (h : ReadsAs numbers 128 text result) : readText numbers text=result := by
  obtain ⟨blanks,hblanks,hread⟩ := h (text.length+1) [] (Nat.lt_succ_self _)
    fun char hchar => by cases hchar
  rw [List.append_nil] at hread
  rw [RustSql.readText,hread]
  cases result with
  | none => rfl
  | some value =>
    simp only [Option.map_some,List.append_nil]
    exact if_pos (skipBlanks_all hblanks)

/-- The reader keeps what is asked of the library. -/
theorem JsonNumbers.Lawful.serde (h : numbers.Lawful) : numbers.serde.Lawful where
  quoted text := ⟨escapeText text.toList,rfl⟩
  string_only := by
    intro text value hread
    change RustSql.readText numbers ('"' :: text)=some value at hread
    rw [RustSql.readText,readValue,skipBlanks_cons (by decide)] at hread
    cases hstring : readString text with
    | none => simp [hstring] at hread
    | some found =>
      simp only [hstring,Option.bind_eq_bind,Option.bind_some] at hread
      split at hread
      · exact ⟨String.ofList found.1,(Option.some.inj hread).symm⟩
      · cases hread
  fromStr_number n := (h.reads n).readText
  fromStr_text parts hparts := (reads_parts parts hparts 128 (by decide)).readText

end Reading

end RustSql
