import RustSql.Base.JsonReader
import RustSql.Sql.JsonbRoundTrip

/-!
# The two readers of JSONB

`decode` makes a value of an element and `to_json_text` a text. They accept the same elements
but for two kinds: numbers that are no JSON numbers, and keys that are no strings.
-/

namespace RustSql.Jsonb

section Readers

variable {N : Type} (serde : SerdeJson N)

/-! ## Sound and plain elements -/

/-- A payload that is UTF-8. -/
def IsText (payload : Bytes) : Prop := ∃ text, fromUtf8 payload=some text

/-- A payload that is the inside of a quoted string. -/
def IsEscaped (payload : Bytes) : Prop :=
  ∃ text value, fromUtf8 payload=some text ∧
    serde.fromStr ('"' :: text.toList++['"'])=some (.string value)

/-- A payload that is a JSON number. -/
def IsNumber (payload : Bytes) : Prop :=
  ∃ text n, fromUtf8 payload=some text ∧ serde.fromStr text.toList=some (.number n)

/-- The kinds of leaves: a fixed value with its text, numbers, strings, and strings as they
stand inside quotes. -/
inductive LeafKind (N : Type) where
  | fixed (value : JsonValue N) (text : List Char)
  | number
  | text
  | escaped
  | unsupported

/-- The kind of a type. -/
def leafKind (elementType : UInt8) : LeafKind N :=
  if elementType=jsonbNull then .fixed .null ['n', 'u', 'l', 'l']
  else if elementType=jsonbTrue then .fixed (.bool true) ['t', 'r', 'u', 'e']
  else if elementType=jsonbFalse then .fixed (.bool false) ['f', 'a', 'l', 's', 'e']
  else if elementType=jsonbInt ∨ elementType=jsonbFloat then .number
  else if elementType=jsonbText ∨ elementType=jsonbTextRaw then .text
  else if elementType=jsonbTextEscaped then .escaped
  else .unsupported

/-- A leaf of a known type with a payload that goes with it. -/
def LeafSound (elementType : UInt8) (payload : Bytes) : Prop :=
  match (leafKind elementType : LeafKind N) with
  | .fixed _ _ => payload=[]
  | .number | .text => IsText payload
  | .escaped => IsEscaped serde payload
  | .unsupported => False

/-- A leaf that is no number, or a JSON number. -/
def LeafPlain (elementType : UInt8) (payload : Bytes) : Prop :=
  match (leafKind elementType : LeafKind N) with
  | .number => IsNumber serde payload
  | .fixed _ _ | .text | .escaped | .unsupported => True

/-- An element that is a string. -/
def Element.IsString : Element → Prop
  | .leaf elementType _ =>
    elementType=jsonbText ∨ elementType=jsonbTextRaw ∨ elementType=jsonbTextEscaped
  | .array _ | .object _ => False

mutual

/-- All leaves are sound. -/
def Element.Sound : Element → Prop
  | .leaf elementType payload => LeafSound serde elementType payload
  | .array items => Element.AllSound items
  | .object fields => Element.FieldsSound fields

def Element.AllSound : List Element → Prop
  | [] => True
  | element :: elements => Element.Sound element ∧ Element.AllSound elements

def Element.FieldsSound : List (Element × Element) → Prop
  | [] => True
  | (key,value) :: fields =>
    Element.Sound key ∧ Element.Sound value ∧ Element.FieldsSound fields

end

mutual

/-- Numbers are JSON numbers, and keys are strings. -/
def Element.Plain : Element → Prop
  | .leaf elementType payload => LeafPlain serde elementType payload
  | .array items => Element.AllPlain items
  | .object fields => Element.FieldsPlain fields

def Element.AllPlain : List Element → Prop
  | [] => True
  | element :: elements => Element.Plain element ∧ Element.AllPlain elements

def Element.FieldsPlain : List (Element × Element) → Prop
  | [] => True
  | (key,value) :: fields =>
    Element.IsString key ∧ Element.Plain value ∧ Element.FieldsPlain fields

end

/-! ## Leaves -/

variable {elementType : UInt8} {payload : Bytes}

/-- The reader of values, by the kind of the leaf. -/
theorem decodeLeaf_eq : decodeLeaf serde elementType payload=
    match (leafKind elementType : LeafKind N) with
    | .fixed value _ => requireEmptyPayload payload value
    | .number =>
      match fromUtf8 payload with
      | none => .error (.plan "malformed JSONB number")
      | some text =>
        match serde.fromStr text.toList with
        | some (.number value) => .ok (.number value)
        | _ => .error (.plan "malformed JSONB number")
    | .text =>
      match fromUtf8 payload with
      | none => .error (.plan "malformed JSONB text")
      | some text => .ok (.string text)
    | .escaped =>
      match fromUtf8 payload with
      | none => .error (.plan "malformed JSONB text")
      | some text =>
        match serde.fromStr ('"' :: text.toList++['"']) with
        | none => .error (.plan "malformed JSONB text")
        | some value => .ok value
    | .unsupported => .error (.plan "unsupported JSONB element type") := by
  unfold decodeLeaf leafKind
  split_ifs <;> rfl

/-- The writer of texts, by the kind of the leaf. -/
theorem renderLeaf_eq : renderLeaf serde elementType payload=
    match (leafKind elementType : LeafKind N) with
    | .fixed _ text => requireEmptyPayload payload text
    | .number =>
      match fromUtf8 payload with
      | none => .error (.plan "malformed JSONB number")
      | some text => .ok text.toList
    | .text =>
      match fromUtf8 payload with
      | none => .error (.plan "malformed JSONB text")
      | some text => .ok (serde.toString (.string text))
    | .escaped =>
      match fromUtf8 payload with
      | none => .error (.plan "malformed JSONB text")
      | some text =>
        match stringFromStr serde ('"' :: text.toList++['"']) with
        | none => .error (.plan "malformed JSONB text")
        | some decoded => .ok (serde.toString (.string decoded))
    | .unsupported => .error (.plan "unsupported JSONB element type") := by
  unfold renderLeaf leafKind
  split_ifs <;> rfl

/-- The text is put together from parts that mean the value, with so many arrays and objects in
one another. -/
def Spells (depth : ℕ) (text : List Char) (value : JsonValue N) : Prop :=
  ∃ parts : JsonParts N, parts.Reads serde ∧ parts.text serde=text ∧ parts.value=value ∧
    parts.depth=depth

/-- A spelled text reads as the value unless it is too deep. -/
theorem Spells.fromStr_iff {serde : SerdeJson N} (hserde : serde.Lawful) {depth : ℕ}
    {text : List Char} {value : JsonValue N} (h : Spells serde depth text value) :
    serde.fromStr text=some value ↔ depth < 128 := by
  obtain ⟨parts,hreads,rfl,rfl,rfl⟩ := h
  rw [hserde.fromStr_text parts hreads]
  split
  · next hdepth => exact iff_of_true rfl hdepth
  · next hdepth => exact iff_of_false (fun h => by cases h) hdepth

/-- The text of a fixed value spells the value, which is no string. -/
theorem leafKind_fixed {value : JsonValue N} {text : List Char}
    (h : leafKind elementType=.fixed value text) :
    Spells serde 0 text value ∧ ∀ found, value≠.string found := by
  unfold leafKind at h
  split_ifs at h
  · cases h
    exact ⟨⟨.null,trivial,rfl,rfl,rfl⟩,fun found hfound => by cases hfound⟩
  · cases h
    exact ⟨⟨.bool true,trivial,rfl,rfl,rfl⟩,fun found hfound => by cases hfound⟩
  · cases h
    exact ⟨⟨.bool false,trivial,rfl,rfl,rfl⟩,fun found hfound => by cases hfound⟩

/-- The text of a leaf spells its value, and a string is written as one. -/
theorem renderLeaf_of_decodeLeaf (hserde : serde.Lawful) {value : JsonValue N}
    (h : decodeLeaf serde elementType payload=.ok value) :
    ∃ text, renderLeaf serde elementType payload=.ok text ∧ Spells serde 0 text value ∧
      ∀ found, value=.string found → text=serde.toString (.string found) := by
  rw [decodeLeaf_eq] at h
  rw [renderLeaf_eq]
  cases hkind : (leafKind elementType : LeafKind N) with
  | fixed fixedValue text =>
    obtain ⟨hreads,hstring⟩ := leafKind_fixed serde hkind
    simp only [hkind,requireEmptyPayload] at h ⊢
    split at h
    · next hempty =>
      obtain rfl := Except.ok.inj h
      exact ⟨text,if_pos hempty,hreads,fun found hfound => absurd hfound (hstring found)⟩
    · cases h
  | number =>
    simp only [hkind] at h ⊢
    cases htext : fromUtf8 payload with
    | none => rw [htext] at h; cases h
    | some text =>
      simp only [htext] at h ⊢
      split at h
      · next n hread =>
        obtain rfl := Except.ok.inj h
        exact ⟨text.toList,rfl,⟨.number text.toList n,hread,rfl,rfl,rfl⟩,fun found hfound => by cases hfound⟩
      · cases h
  | text =>
    simp only [hkind] at h ⊢
    cases htext : fromUtf8 payload with
    | none => rw [htext] at h; cases h
    | some text =>
      simp only [htext] at h ⊢
      obtain rfl := Except.ok.inj h
      exact ⟨_,rfl,⟨.string text,trivial,rfl,rfl,rfl⟩,
        fun found hfound => by rw [JsonValue.string.inj hfound]⟩
  | escaped =>
    simp only [hkind] at h ⊢
    cases htext : fromUtf8 payload with
    | none => rw [htext] at h; cases h
    | some text =>
      simp only [htext] at h ⊢
      cases hread : serde.fromStr ('"' :: text.toList++['"']) with
      | none => rw [hread] at h; cases h
      | some found =>
        obtain ⟨inner,rfl⟩ := hserde.string_only hread
        rw [hread] at h
        obtain rfl := Except.ok.inj h
        simp only [stringFromStr,hread]
        exact ⟨_,rfl,⟨.string inner,trivial,rfl,rfl,rfl⟩,
          fun found hfound => by rw [JsonValue.string.inj hfound]⟩
  | unsupported => rw [hkind] at h; cases h

/-- `render_at` takes the sound leaves. -/
theorem renderLeaf_ok_iff (hserde : serde.Lawful) :
    (∃ text, renderLeaf serde elementType payload=.ok text) ↔
    LeafSound serde elementType payload := by
  rw [renderLeaf_eq,LeafSound]
  cases (leafKind elementType : LeafKind N) with
  | fixed value text => cases payload <;> simp [requireEmptyPayload]
  | number => cases htext : fromUtf8 payload <;> simp [IsText,htext]
  | text => cases htext : fromUtf8 payload <;> simp [IsText,htext]
  | escaped =>
    cases htext : fromUtf8 payload with
    | none => simp [IsEscaped,htext]
    | some text =>
      simp only [IsEscaped,htext,Option.some.injEq,stringFromStr]
      cases hread : serde.fromStr ('"' :: text.toList++['"']) with
      | none =>
        rw [List.cons_append] at hread
        simp [hread]
      | some found =>
        obtain ⟨inner,rfl⟩ := hserde.string_only hread
        rw [List.cons_append] at hread
        simp [hread]
  | unsupported => simp

/-- `decode_at` takes the ones that are plain, too. -/
theorem decodeLeaf_ok_iff (hserde : serde.Lawful) :
    (∃ value, decodeLeaf serde elementType payload=.ok value) ↔
    LeafSound serde elementType payload ∧ LeafPlain serde elementType payload := by
  rw [decodeLeaf_eq,LeafSound,LeafPlain]
  cases (leafKind elementType : LeafKind N) with
  | fixed value text => cases payload <;> simp [requireEmptyPayload]
  | number =>
    cases htext : fromUtf8 payload with
    | none => simp [IsText,htext]
    | some text =>
      simp only [IsText,IsNumber,htext,Option.some.injEq]
      constructor
      · rintro ⟨value,h⟩
        split at h
        · next n hread => exact ⟨⟨text,rfl⟩,text,n,rfl,hread⟩
        · cases h
      · rintro ⟨-,found,n,rfl,hread⟩
        rw [hread]
        exact ⟨.number n,rfl⟩
  | text => cases htext : fromUtf8 payload <;> simp [IsText,htext]
  | escaped =>
    cases htext : fromUtf8 payload with
    | none => simp [IsEscaped,htext]
    | some text =>
      simp only [IsEscaped,htext,Option.some.injEq]
      cases hread : serde.fromStr ('"' :: text.toList++['"']) with
      | none =>
        rw [List.cons_append] at hread
        simp [hread]
      | some found =>
        obtain ⟨inner,rfl⟩ := hserde.string_only hread
        rw [List.cons_append] at hread
        simp [hread]
  | unsupported => simp

/-- The types of texts. -/
theorem leafKind_string : (leafKind elementType : LeafKind N)=.text ∨
    (leafKind elementType : LeafKind N)=.escaped ↔
      elementType=jsonbText ∨ elementType=jsonbTextRaw ∨ elementType=jsonbTextEscaped := by
  constructor
  · intro h
    unfold leafKind at h
    split_ifs at h with _ _ _ _ htext hescaped
    · exact h.elim (fun h => by cases h) fun h => by cases h
    · exact h.elim (fun h => by cases h) fun h => by cases h
    · exact h.elim (fun h => by cases h) fun h => by cases h
    · exact h.elim (fun h => by cases h) fun h => by cases h
    · exact htext.elim Or.inl fun hraw => Or.inr (Or.inl hraw)
    · exact Or.inr (Or.inr hescaped)
    · exact h.elim (fun h => by cases h) fun h => by cases h
  · rintro (rfl | rfl | rfl)
    · exact Or.inl rfl
    · exact Or.inl rfl
    · exact Or.inr rfl

/-- A leaf that is read as a string has a type of strings, and the other way round. -/
theorem decodeLeaf_string_iff (hserde : serde.Lawful) {value : JsonValue N}
    (h : decodeLeaf serde elementType payload=.ok value) :
    (∃ found, value=.string found) ↔
      elementType=jsonbText ∨ elementType=jsonbTextRaw ∨ elementType=jsonbTextEscaped := by
  rw [←@leafKind_string N]
  rw [decodeLeaf_eq] at h
  cases hkind : (leafKind elementType : LeafKind N) with
  | fixed fixedValue text =>
    obtain ⟨-,hstring⟩ := leafKind_fixed serde hkind
    simp only [hkind,requireEmptyPayload] at h
    split at h
    · obtain rfl := Except.ok.inj h
      exact iff_of_false (fun ⟨found,hfound⟩ => hstring found hfound) (by simp)
    · cases h
  | number =>
    simp only [hkind] at h
    cases htext : fromUtf8 payload with
    | none => rw [htext] at h; cases h
    | some text =>
      simp only [htext] at h
      split at h
      · obtain rfl := Except.ok.inj h
        exact iff_of_false (fun ⟨found,hfound⟩ => by cases hfound) (by simp)
      · cases h
  | text =>
    simp only [hkind] at h
    cases htext : fromUtf8 payload with
    | none => rw [htext] at h; cases h
    | some text =>
      simp only [htext] at h
      obtain rfl := Except.ok.inj h
      exact iff_of_true ⟨text,rfl⟩ (Or.inl rfl)
  | escaped =>
    simp only [hkind] at h
    cases htext : fromUtf8 payload with
    | none => rw [htext] at h; cases h
    | some text =>
      simp only [htext] at h
      cases hread : serde.fromStr ('"' :: text.toList++['"']) with
      | none => rw [hread] at h; cases h
      | some found =>
        rw [hread] at h
        obtain rfl := Except.ok.inj h
        exact iff_of_true (hserde.string_only hread) (Or.inr rfl)
  | unsupported => rw [hkind] at h; cases h

/-- Texts are plain leaves. -/
theorem leafPlain_of_string
    (h : elementType=jsonbText ∨ elementType=jsonbTextRaw ∨ elementType=jsonbTextEscaped) :
    LeafPlain serde elementType payload := by
  rw [LeafPlain]
  cases (@leafKind_string N elementType).mpr h with
  | inl htext => rw [htext]; trivial
  | inr hescaped => rw [hescaped]; trivial

/-! ## Elements -/

mutual

/-- The text of an element spells its value, and a string is written as one. -/
theorem text_of_value (hserde : serde.Lawful) {element : Element} {value : JsonValue N}
    (h : element.value serde=some value) :
    ∃ text, element.text serde=some text ∧ Spells serde element.depth text value ∧
      ∀ found, value=.string found → text=serde.toString (.string found) := by
  match element with
  | .leaf elementType payload =>
    obtain ⟨text,htext,hspells,hstring⟩ :=
      renderLeaf_of_decodeLeaf serde hserde (toOption_eq_some.mp h)
    exact ⟨text,toOption_eq_some.mpr htext,hspells,hstring⟩
  | .array items =>
    obtain ⟨values,hvalues,rfl⟩ := Option.map_eq_some_iff.mp h
    obtain ⟨parts,htexts,hreads,rfl,hdepth⟩ := texts_of_values hserde hvalues
    exact ⟨_,congrArg (Option.map _) htexts,
      ⟨.array parts,hreads,rfl,rfl,congrArg (·+1) hdepth⟩,fun found hfound => by cases hfound⟩
  | .object fields =>
    obtain ⟨values,hvalues,rfl⟩ := Option.map_eq_some_iff.mp h
    obtain ⟨parts,htexts,hreads,rfl,hdepth⟩ := fieldTexts_of_values hserde hvalues
    exact ⟨_,congrArg (Option.map _) htexts,
      ⟨.object parts,hreads,rfl,rfl,congrArg (·+1) hdepth⟩,fun found hfound => by cases hfound⟩

/-- Items with values have texts that mean them. -/
theorem texts_of_values (hserde : serde.Lawful) {elements : List Element}
    {values : List (JsonValue N)} (h : Element.values serde elements=some values) :
    ∃ parts, Element.texts serde elements=some (JsonParts.texts serde parts) ∧
      JsonParts.AllRead serde parts ∧ JsonParts.values parts=values ∧
      JsonParts.depths parts=Element.depths elements := by
  match elements with
  | [] =>
    obtain rfl := Option.some.inj h
    exact ⟨[],rfl,trivial,rfl,rfl⟩
  | element :: elements =>
    obtain ⟨value,hvalue,h⟩ := Option.bind_eq_some_iff.mp h
    obtain ⟨rest,hrest,h⟩ := Option.bind_eq_some_iff.mp h
    obtain rfl := Option.some.inj h
    obtain ⟨text,htext,⟨first,hfirst,rfl,rfl,hdepth⟩,-⟩ := text_of_value hserde hvalue
    obtain ⟨parts,htexts,hparts,rfl,hdepths⟩ := texts_of_values hserde hrest
    refine ⟨first :: parts,?_,⟨hfirst,hparts⟩,rfl,?_⟩
    · rw [Element.texts,htext,htexts]
      rfl
    · rw [JsonParts.depths,Element.depths,hdepth,hdepths]

/-- So have fields. -/
theorem fieldTexts_of_values (hserde : serde.Lawful) {fields : List (Element × Element)}
    {values : List (String × JsonValue N)} (h : Element.fieldValues serde fields=some values) :
    ∃ parts, Element.fieldTexts serde fields=some (JsonParts.fieldTexts serde parts) ∧
      JsonParts.FieldsRead serde parts ∧ JsonParts.fieldValues parts=values ∧
      JsonParts.fieldDepths parts=Element.fieldDepths fields := by
  match fields with
  | [] =>
    obtain rfl := Option.some.inj h
    exact ⟨[],rfl,trivial,rfl,rfl⟩
  | (key,element) :: fields =>
    rw [Element.fieldValues] at h
    split at h
    · next name hname =>
      obtain ⟨value,hvalue,h⟩ := Option.bind_eq_some_iff.mp h
      obtain ⟨rest,hrest,h⟩ := Option.bind_eq_some_iff.mp h
      obtain rfl := Option.some.inj h
      obtain ⟨keyText,hkeyText,-,hquoted⟩ := text_of_value hserde hname
      obtain ⟨text,htext,⟨first,hfirst,rfl,rfl,hdepth⟩,-⟩ := text_of_value hserde hvalue
      obtain ⟨parts,htexts,hparts,rfl,hdepths⟩ := fieldTexts_of_values hserde hrest
      refine ⟨(name,first) :: parts,?_,⟨hfirst,hparts⟩,rfl,?_⟩
      · rw [Element.fieldTexts,hkeyText,htext,htexts,hquoted name rfl]
        rfl
      · rw [JsonParts.fieldDepths,Element.fieldDepths,hdepth,hdepths]
    · cases h

end

mutual

/-- Sound elements are those that have a text. -/
theorem text_isSome (hserde : serde.Lawful) (element : Element) :
    (element.text serde).isSome ↔ element.Sound serde := by
  match element with
  | .leaf elementType payload =>
    rw [Element.Sound,←renderLeaf_ok_iff serde hserde,Option.isSome_iff_exists]
    exact exists_congr fun text => toOption_eq_some
  | .array items => rw [Element.text,Option.isSome_map,Element.Sound,texts_isSome hserde items]
  | .object fields => rw [Element.text,Option.isSome_map,Element.Sound,fieldTexts_isSome hserde fields]

/-- Items have texts when they are sound. -/
theorem texts_isSome (hserde : serde.Lawful) (elements : List Element) :
    (Element.texts serde elements).isSome ↔ Element.AllSound serde elements := by
  match elements with
  | [] => exact iff_of_true rfl trivial
  | element :: elements =>
    rw [Element.AllSound,←text_isSome hserde element,←texts_isSome hserde elements,Element.texts]
    cases element.text serde with
    | none => simp
    | some text => cases Element.texts serde elements <;> simp

/-- So have fields. -/
theorem fieldTexts_isSome (hserde : serde.Lawful) (fields : List (Element × Element)) :
    (Element.fieldTexts serde fields).isSome ↔ Element.FieldsSound serde fields := by
  match fields with
  | [] => exact iff_of_true rfl trivial
  | (key,element) :: fields =>
    rw [Element.FieldsSound,←text_isSome hserde key,←text_isSome hserde element,←fieldTexts_isSome hserde fields,
      Element.fieldTexts]
    cases key.text serde with
    | none => simp
    | some name =>
      cases element.text serde with
      | none => simp
      | some text => cases Element.fieldTexts serde fields <;> simp

end

/-- The elements that are read as strings. -/
theorem value_string_iff (hserde : serde.Lawful) (element : Element) :
    (∃ found, element.value serde=some (.string found)) ↔
      element.Sound serde ∧ element.IsString := by
  cases element with
  | leaf elementType payload =>
    rw [Element.Sound,Element.IsString]
    constructor
    · rintro ⟨found,h⟩
      have hvalue := toOption_eq_some.mp h
      exact ⟨((decodeLeaf_ok_iff serde hserde).mp ⟨_,hvalue⟩).1,
        (decodeLeaf_string_iff serde hserde hvalue).mp ⟨found,rfl⟩⟩
    · rintro ⟨hsound,htype⟩
      obtain ⟨value,hvalue⟩ := (decodeLeaf_ok_iff serde hserde).mpr
        ⟨hsound,leafPlain_of_string serde htype⟩
      obtain ⟨found,rfl⟩ := (decodeLeaf_string_iff serde hserde hvalue).mpr htype
      exact ⟨found,toOption_eq_some.mpr hvalue⟩
  | array items =>
    refine iff_of_false ?_ fun h => h.2
    rintro ⟨found,h⟩
    obtain ⟨_,-,hfound⟩ := Option.map_eq_some_iff.mp h
    cases hfound
  | object fields =>
    refine iff_of_false ?_ fun h => h.2
    rintro ⟨found,h⟩
    obtain ⟨_,-,hfound⟩ := Option.map_eq_some_iff.mp h
    cases hfound

mutual

/-- Sound elements have a value where they are plain. -/
theorem value_isSome (hserde : serde.Lawful) (element : Element) :
    (element.value serde).isSome ↔ element.Sound serde ∧ element.Plain serde := by
  match element with
  | .leaf elementType payload =>
    rw [Element.Sound,Element.Plain,←decodeLeaf_ok_iff serde hserde,Option.isSome_iff_exists]
    exact exists_congr fun text => toOption_eq_some
  | .array items =>
    rw [Element.value,Option.isSome_map,Element.Sound,Element.Plain,values_isSome hserde items]
  | .object fields =>
    rw [Element.value,Option.isSome_map,Element.Sound,Element.Plain,fieldValues_isSome hserde fields]

/-- Items have values when they are sound and plain. -/
theorem values_isSome (hserde : serde.Lawful) (elements : List Element) :
    (Element.values serde elements).isSome ↔
      Element.AllSound serde elements ∧ Element.AllPlain serde elements := by
  match elements with
  | [] => exact iff_of_true rfl ⟨trivial,trivial⟩
  | element :: elements =>
    have hvalue := value_isSome hserde element
    have hvalues := values_isSome hserde elements
    rw [Element.AllSound,Element.AllPlain,and_and_and_comm,←hvalue,←hvalues,Element.values]
    cases element.value serde with
    | none => simp
    | some value => cases Element.values serde elements <;> simp

/-- So have fields. -/
theorem fieldValues_isSome (hserde : serde.Lawful) (fields : List (Element × Element)) :
    (Element.fieldValues serde fields).isSome ↔
      Element.FieldsSound serde fields ∧ Element.FieldsPlain serde fields := by
  match fields with
  | [] => exact iff_of_true rfl ⟨trivial,trivial⟩
  | (key,element) :: fields =>
    have hkey := value_string_iff serde hserde key
    have hvalue := value_isSome hserde element
    have hvalues := fieldValues_isSome hserde fields
    have hparts : (Element.fieldValues serde ((key,element) :: fields)).isSome ↔
        (∃ name, key.value serde=some (.string name)) ∧ (element.value serde).isSome ∧
          (Element.fieldValues serde fields).isSome := by
      by_cases hname : ∃ name, key.value serde=some (.string name)
      · obtain ⟨name,hname⟩ := hname
        rw [fieldValues_named serde hname]
        cases element.value serde with
        | none => simp
        | some value => simp [hname]
      · rw [fieldValues_unnamed serde fun name h => hname ⟨name,h⟩]
        exact iff_of_false Bool.false_ne_true fun h => hname h.1
    rw [hparts,hkey,hvalue,hvalues,Element.FieldsSound,Element.FieldsPlain]
    tauto

end

/-! ## Agreement -/

/-- Both readers take the bytes or none does, and the text of the one reads as the value of the
other. -/
structure ReadersAgree (bytes : Bytes) : Prop where
  accept : (∃ value : JsonValue N, decode serde bytes=.ok value) ↔
    ∃ text, toJsonText serde bytes=.ok text
  read (value : JsonValue N) (text : List Char) : decode serde bytes=.ok value →
    toJsonText serde bytes=.ok text → serde.fromStr text=some value

/-- A value is read from sound and plain elements. -/
theorem decode_ok_iff (hserde : serde.Lawful) {bytes : Bytes} :
    (∃ value, decode serde bytes=.ok value) ↔
      ∃ element, elementOf bytes=some element ∧ element.Sound serde ∧ element.Plain serde := by
  constructor
  · rintro ⟨value,h⟩
    obtain ⟨element,helement,hvalue⟩ := (decode_iff serde).mp h
    exact ⟨element,helement,(value_isSome serde hserde element).mp (by rw [hvalue]; rfl)⟩
  · rintro ⟨element,helement,hsound⟩
    obtain ⟨value,hvalue⟩ :=
      Option.isSome_iff_exists.mp ((value_isSome serde hserde element).mpr hsound)
    exact ⟨value,(decode_iff serde).mpr ⟨element,helement,hvalue⟩⟩

/-- A text is written of sound elements. -/
theorem toJsonText_ok_iff (hserde : serde.Lawful) {bytes : Bytes} :
    (∃ text, toJsonText serde bytes=.ok text) ↔
      ∃ element, elementOf bytes=some element ∧ element.Sound serde := by
  constructor
  · rintro ⟨text,h⟩
    obtain ⟨element,helement,htext⟩ := (toJsonText_iff serde).mp h
    exact ⟨element,helement,(text_isSome serde hserde element).mp (by rw [htext]; rfl)⟩
  · rintro ⟨element,helement,hsound⟩
    obtain ⟨text,htext⟩ :=
      Option.isSome_iff_exists.mp ((text_isSome serde hserde element).mpr hsound)
    exact ⟨text,(toJsonText_iff serde).mpr ⟨element,helement,htext⟩⟩

/-- The text of one reader spells the value of the other. -/
theorem toJsonText_spells (hserde : serde.Lawful) {bytes : Bytes} {element : Element}
    (helement : elementOf bytes=some element) {value : JsonValue N}
    (hvalue : element.value serde=some value) :
    ∃ text, toJsonText serde bytes=.ok text ∧ Spells serde element.depth text value := by
  obtain ⟨text,htext,hspells,-⟩ := text_of_value serde hserde hvalue
  exact ⟨text,(toJsonText_iff serde).mpr ⟨element,helement,htext⟩,hspells⟩

/-- The bytes of a value are decoded to it, and their text reads as the value. -/
structure RoundTrip (value : JsonValue N) (bytes : Bytes) : Prop where
  decoded : decode serde bytes=.ok value
  parsed : ∃ text, toJsonText serde bytes=.ok text ∧ serde.fromStr text=some value

/-- Bytes that spell the element of a value round trip unless the value is too deep. -/
theorem roundTrip_iff (hserde : serde.Lawful) {bytes : Bytes} {element : Element}
    (helement : elementOf bytes=some element) {value : JsonValue N}
    (hvalue : element.value serde=some value) :
    RoundTrip serde value bytes ↔ element.depth < 128 := by
  obtain ⟨text,htext,hspells⟩ := toJsonText_spells serde hserde helement hvalue
  rw [←hspells.fromStr_iff hserde]
  constructor
  · rintro ⟨-,found,hfound,hread⟩
    rw [Except.ok.inj (htext.symm.trans hfound)]
    exact hread
  · exact fun hread => ⟨(decode_iff serde).mpr ⟨element,helement,hvalue⟩,text,htext,hread⟩

/-- A sound leaf has a known type. -/
theorem LeafSound.small (h : LeafSound serde elementType payload) : elementType ≤ 0x0f := by
  have hkind : (leafKind elementType : LeafKind N)≠.unsupported := by
    intro hkind
    rw [LeafSound,hkind] at h
    exact h
  unfold leafKind at hkind
  split_ifs at hkind with hnull htrue hfalse hnumber htext hescaped
  · rw [hnull]; decide
  · rw [htrue]; decide
  · rw [hfalse]; decide
  · rcases hnumber with rfl | rfl <;> decide
  · rcases htext with rfl | rfl <;> decide
  · rw [hescaped]; decide
  · exact absurd rfl hkind

/-- Two steps fail with what the first one or the second one fails with. -/
theorem bind_error {α β : Type} {x : Except DbError α} {f : α → Except DbError β}
    {error : DbError} (h : (x >>= f)=.error error) :
    x=.error error ∨ ∃ a, x=.ok a ∧ f a=.error error := by
  cases x with
  | error found => exact Or.inl (congrArg Except.error (Except.error.inj h))
  | ok a => exact Or.inr ⟨a,rfl,h⟩

mutual

/-- Sound elements are too large, if they cannot be written. -/
theorem write_error {element : Element} {error : DbError} (h : element.write=.error error)
    (hsound : element.Sound serde) : error=tooLarge := by
  match element with
  | .leaf elementType payload => exact writeElement_error (LeafSound.small serde hsound) h
  | .array items =>
    rcases bind_error h with hpayload | ⟨payload,-,h⟩
    · exact writeAll_error hpayload hsound
    · exact writeElement_error (by decide) h
  | .object fields =>
    rcases bind_error h with hpayload | ⟨payload,-,h⟩
    · exact writeFields_error hpayload hsound
    · exact writeElement_error (by decide) h

/-- Sound items fail to be written only where they are too large. -/
theorem writeAll_error {elements : List Element} {error : DbError}
    (h : Element.writeAll elements=.error error) (hsound : Element.AllSound serde elements) :
    error=tooLarge := by
  match elements with
  | [] => cases h
  | element :: elements =>
    rcases bind_error h with hfirst | ⟨first,-,h⟩
    · exact write_error hfirst hsound.1
    · rcases bind_error h with hrest | ⟨rest,-,h⟩
      · exact writeAll_error hrest hsound.2
      · cases h

/-- So do sound fields. -/
theorem writeFields_error {fields : List (Element × Element)} {error : DbError}
    (h : Element.writeFields fields=.error error) (hsound : Element.FieldsSound serde fields) :
    error=tooLarge := by
  match fields with
  | [] => cases h
  | (key,value) :: fields =>
    rcases bind_error h with hfirst | ⟨first,-,h⟩
    · exact write_error hfirst hsound.1
    · rcases bind_error h with hsecond | ⟨second,-,h⟩
      · exact write_error hsecond hsound.2.1
      · rcases bind_error h with hrest | ⟨rest,-,h⟩
        · exact writeFields_error hrest hsound.2.2
        · cases h

end

/-- JSONB keeps values: whatever is encoded, with any object keys raw, is decoded, its text reads
as the value exactly when fewer than 128 arrays and objects stand in one another, and only
payloads of `2^64` bytes and more cannot be written. On any bytes the two readers agree unless
the bytes spell an element that is sound but for a number that is no JSON number, or for a key
that is no string, or that is too deep. -/
theorem readers_agree_iff (hserde : serde.Lawful) :
    (∀ (value : JsonValue N) (rawObjectKeys : String → Bool), Ordered value →
      (∀ bytes, encodeWithRawObjectKeys serde value rawObjectKeys=.ok bytes →
        decode serde bytes=.ok value ∧ (RoundTrip serde value bytes ↔ value.depth < 128)) ∧
      ∀ error, encodeWithRawObjectKeys serde value rawObjectKeys=.error error →
        error=tooLarge) ∧
    ∀ bytes, ReadersAgree serde bytes ↔ ∀ element, elementOf bytes=some element →
      element.Sound serde → element.Plain serde ∧ element.depth < 128 := by
  constructor
  · intro value rawObjectKeys hordered
    obtain ⟨hvalue,htyped⟩ := elementFor_value rawObjectKeys hserde hordered ""
    refine ⟨fun bytes h => ?_,fun error h => ?_⟩
    · rw [encodeWithRawObjectKeys,encodeValue_eq serde rawObjectKeys hserde] at h
      have helement := elementOf_write h htyped
      refine ⟨(decode_iff serde).mpr ⟨_,helement,hvalue⟩,?_⟩
      rw [roundTrip_iff serde hserde helement hvalue,elementFor_depth]
    · rw [encodeWithRawObjectKeys,encodeValue_eq serde rawObjectKeys hserde] at h
      exact write_error serde h
        ((value_isSome serde hserde _).mp (by rw [hvalue]; rfl)).1
  · intro bytes
    constructor
    · intro h element helement hsound
      obtain ⟨text,htext⟩ := (toJsonText_ok_iff serde hserde).mpr ⟨element,helement,hsound⟩
      obtain ⟨value,hvalue⟩ := h.accept.mpr ⟨text,htext⟩
      obtain ⟨found,hfound,hmeaning⟩ := (decode_iff serde).mp hvalue
      obtain rfl := Option.some.inj (helement.symm.trans hfound)
      exact ⟨((value_isSome serde hserde element).mp (by rw [hmeaning]; rfl)).2,
        (roundTrip_iff serde hserde helement hmeaning).mp
          ⟨hvalue,text,htext,h.read value text hvalue htext⟩⟩
    · intro h
      refine ⟨?_,fun value text hvalue htext => ?_⟩
      · rw [decode_ok_iff serde hserde,toJsonText_ok_iff serde hserde]
        exact exists_congr fun element => and_congr_right fun helement =>
          ⟨fun hboth => hboth.1,fun hsound => ⟨hsound,(h element helement hsound).1⟩⟩
      · obtain ⟨element,helement,hmeaning⟩ := (decode_iff serde).mp hvalue
        have hsound := ((value_isSome serde hserde element).mp (by rw [hmeaning]; rfl)).1
        obtain ⟨-,found,hfound,hread⟩ :=
          (roundTrip_iff serde hserde helement hmeaning).mpr (h element helement hsound).2
        rw [Except.ok.inj (htext.symm.trans hfound)]
        exact hread

end Readers

/-! ## Witnesses -/

/-- Single digits. -/
def digitNumbers : JsonNumbers (Fin 10) where
  isF64 _ := false
  toText n := [Nat.digitChar n]
  read text :=
    match text with
    | [char] => (List.finRange 10).find? fun n => Nat.digitChar n==char
    | _ => none

/-- JSON texts whose numbers are single digits. -/
def digits : SerdeJson (Fin 10) := digitNumbers.serde

/-- The digits are a lawful library. -/
theorem digits_lawful : digits.Lawful :=
  JsonNumbers.Lawful.serde ⟨by decide,fun n => ⟨Nat.digitChar n,[],rfl,by revert n; decide⟩,
    fun n char hchar => by
      obtain rfl := List.mem_singleton.mp hchar
      revert n
      decide⟩

/-- A number. -/
theorem elementOf_digit : elementOf [0x13,0x31]=some (.leaf jsonbInt (asBytes "1")) := by
  rfl

/-- `{"a":[1,"\u0001"]}` with its key written raw, and the bytes of the number 1. -/
theorem readers_agree_nested :
    (∃ bytes, encodeWithRawObjectKeys digits
        (.object [("a",.array [.number 1,.string (String.singleton (Char.ofNat 1))])])
        (fun path => path=="K1:a")=.ok bytes ∧
      RoundTrip digits
        (.object [("a",.array [.number 1,.string (String.singleton (Char.ofNat 1))])]) bytes) ∧
    ReadersAgree digits [0x13,0x31] := by
  have h := readers_agree_iff digits digits_lawful
  have hvalue := (h.1 (.object [("a",.array [.number 1,.string (String.singleton (Char.ofNat 1))])])
    (fun path => path=="K1:a") (by simp [Ordered,FieldsOrdered,AllOrdered])).1
  refine ⟨⟨[0xcc,0x0c,0x1a,0x61,0x9b,0x13,0x31,0x68,0x5c,0x75,0x30,0x30,0x30,0x31],by rfl,
    (hvalue _ (by rfl)).2.mpr (by decide)⟩,(h.2 [0x13,0x31]).mpr ?_⟩
  intro element helement _
  obtain rfl := Option.some.inj (elementOf_digit.symm.trans helement)
  exact ⟨⟨"1",1,fromUtf8_asBytes "1",rfl⟩,by decide⟩

/-- A number that is none. -/
theorem elementOf_letter : elementOf [0x13,0x78]=some (.leaf jsonbInt (asBytes "x")) := by
  rfl

/-- A number as a key. -/
theorem elementOf_numberKey : elementOf [0x4c,0x13,0x31,0x13,0x32]=
    some (.object [(.leaf jsonbInt (asBytes "1"),.leaf jsonbInt (asBytes "2"))]) := by
  rfl

/-- `to_json_text` gives `x` for a number element that holds the letter, and `{1:2}` for an
object whose key is a number; `decode` refuses both. -/
theorem unread_texts_rendered :
    (toJsonText digits [0x13,0x78]=.ok ['x'] ∧ ∀ value, decode digits [0x13,0x78]≠.ok value) ∧
    toJsonText digits [0x4c,0x13,0x31,0x13,0x32]=.ok ['{', '1', ':', '2', '}'] ∧
      ∀ value, decode digits [0x4c,0x13,0x31,0x13,0x32]≠.ok value := by
  have hrendered (text : String) (payload : Bytes) (h : payload=asBytes text) :
      (Element.leaf jsonbInt payload).text digits=some text.toList := by
    have htext : fromUtf8 payload=some text := by rw [h,fromUtf8_asBytes]
    simp [Element.text,renderLeaf,jsonbInt,jsonbNull,jsonbTrue,jsonbFalse,htext,Except.toOption]
  refine ⟨⟨(toJsonText_iff digits).mpr ⟨_,elementOf_letter,hrendered "x" _ rfl⟩,fun value h => ?_⟩,
    (toJsonText_iff digits).mpr ⟨_,elementOf_numberKey,?_⟩,fun value h => ?_⟩
  · obtain ⟨element,helement,hvalue⟩ := (decode_iff digits).mp h
    obtain rfl := Option.some.inj (elementOf_letter.symm.trans helement)
    have hplain := ((value_isSome digits digits_lawful _).mp (by rw [hvalue]; rfl)).2
    obtain ⟨text,n,htext,hread⟩ := hplain
    rw [fromUtf8_asBytes] at htext
    obtain rfl := Option.some.inj htext
    cases hread
  · rw [Element.text,Element.fieldTexts,hrendered "1" _ rfl,hrendered "2" _ rfl]
    rfl
  · obtain ⟨element,helement,hvalue⟩ := (decode_iff digits).mp h
    obtain rfl := Option.some.inj (elementOf_numberKey.symm.trans helement)
    have hplain := ((value_isSome digits digits_lawful _).mp (by rw [hvalue]; rfl)).2
    have hstring : (Element.leaf jsonbInt (asBytes "1")).IsString := hplain.1
    simp [Element.IsString,jsonbInt,jsonbText,jsonbTextRaw,jsonbTextEscaped] at hstring

end RustSql.Jsonb
