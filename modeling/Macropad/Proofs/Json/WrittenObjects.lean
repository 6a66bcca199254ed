import Macropad.Json.Value
import Mathlib.Data.List.Forall2

/-!
# How objects are written in JSON

An object of texts and truth values can be written in many ways. A character of a text stands for
itself, behind a backslash, or as one or two units of four hexadecimal digits (`Spells`), and there
may be white space on either side of every name, mark and value (`FieldsWritten`).

Whatever way is taken, `Value.parse_of_written` reads the object back: it has the same fields in the
same order, each with its name and its value. The text is taken apart one token at a time
(`all_eq_cons`), and the tokens of a field give the field (`FieldWritten.exists_member`). There is a
way to write every object that has a field (`exists_written`).
-/

set_option autoImplicit false

namespace Macropad.Json

/-! ### Texts -/

/-- The digits of hexadecimal numbers with their values. -/
def hexDigits : List (Nat × Char) :=
  [(0, '0'), (1, '1'), (2, '2'), (3, '3'), (4, '4'), (5, '5'), (6, '6'), (7, '7'), (8, '8'),
    (9, '9'), (10, 'a'), (11, 'b'), (12, 'c'), (13, 'd'), (14, 'e'), (15, 'f'), (10, 'A'),
    (11, 'B'), (12, 'C'), (13, 'D'), (14, 'E'), (15, 'F')]

/-- The characters that have a letter or a mark of their own behind a backslash. -/
def shortEscapes : List (Char × Char) :=
  [('"', '"'), ('\\', '\\'), ('/', '/'), ('b', '\x08'), ('f', '\x0c'), ('n', '\n'), ('r', '\r'),
    ('t', '\t')]

/-- The four digits of a number. -/
inductive IsUnit : Nat → List Char → Prop
  | digits {a b c d : Nat × Char} (ha : a ∈ hexDigits) (hb : b ∈ hexDigits) (hc : c ∈ hexDigits)
      (hd : d ∈ hexDigits) :
    IsUnit (((a.1 * 16 + b.1) * 16 + c.1) * 16 + d.1) [a.2, b.2, c.2, d.2]

/-- The first of the two units for a character beyond the first 65536. -/
def highSurrogate (c : Char) : Nat := 0xD800 + (c.toNat - 0x10000) / 0x400

/-- The second of the two units for a character beyond the first 65536. -/
def lowSurrogate (c : Char) : Nat := 0xDC00 + (c.toNat - 0x10000) % 0x400

/-- The second text is a way to write the first one between quotes. -/
inductive Spells : List Char → List Char → Prop
  | nil : Spells [] []
  | plain {c : Char} {text body : List Char} (hcontrol : 0x20 ≤ c.toNat) (hquote : c ≠ '"')
      (hbackslash : c ≠ '\\') (hrest : Spells text body) : Spells (c :: text) (c :: body)
  | short {c e : Char} {text body : List Char} (hshort : (e, c) ∈ shortEscapes)
      (hrest : Spells text body) : Spells (c :: text) ('\\' :: e :: body)
  | unit {c : Char} {digits text body : List Char} (hdigits : IsUnit c.toNat digits)
      (hrest : Spells text body) : Spells (c :: text) ('\\' :: 'u' :: (digits ++ body))
  | pair {c : Char} {first second text body : List Char} (hc : 0x10000 ≤ c.toNat)
      (hfirst : IsUnit (highSurrogate c) first) (hsecond : IsUnit (lowSurrogate c) second)
      (hrest : Spells text body) :
    Spells (c :: text) ('\\' :: 'u' :: (first ++ '\\' :: 'u' :: (second ++ body)))

section Reading

variable {code : Nat} {c : Char} {digits rest after : List Char} {parts : StringToken}

theorem hexDigit?_of_mem : ∀ digit ∈ hexDigits, Token.hexDigit? digit.2 = some digit.1 := by decide

theorem escaped?_of_mem {e : Char} (hshort : (e, c) ∈ shortEscapes) :
    Token.escaped? e = some c ∧ e ≠ 'u' := by
  have hall : shortEscapes.all fun (e, c) ↦ Token.escaped? e = some c ∧ e ≠ 'u' := by decide
  exact of_decide_eq_true (List.all_eq_true.1 hall (e, c) hshort)

namespace Token

theorem stringParts_plain (hcontrol : 0x20 ≤ c.toNat) (hquote : c ≠ '"') (hbackslash : c ≠ '\\')
    (hrest : stringParts rest = some (parts, after)) :
    stringParts (c :: rest) = some (.char c :: parts, after) := by
  have hallowed : ¬ (c.toNat < 0x20 ∨ c = '\\') := not_or.2 ⟨Nat.not_lt.2 hcontrol, hbackslash⟩
  rw [stringParts, if_neg hallowed, hrest]
  · rfl
  · exact hquote
  · exact fun _ _ _ _ _ hc _ ↦ hbackslash hc
  · exact fun _ _ hc _ ↦ hbackslash hc

theorem stringParts_short {e : Char} (hshort : (e, c) ∈ shortEscapes)
    (hrest : stringParts rest = some (parts, after)) :
    stringParts ('\\' :: e :: rest) = some (.char c :: parts, after) := by
  obtain ⟨hescaped, hne⟩ := escaped?_of_mem hshort
  rw [stringParts, hescaped, hrest]
  · rfl
  · exact fun _ _ _ _ _ he _ ↦ hne he

theorem stringParts_unit (hdigits : IsUnit code digits)
    (hrest : stringParts rest = some (parts, after)) :
    stringParts ('\\' :: 'u' :: (digits ++ rest)) = some (.unit code :: parts, after) := by
  obtain ⟨ha, hb, hc, hd⟩ := hdigits
  have hunit := hexDigit?_of_mem
  simp only [List.cons_append, List.nil_append, stringParts, unit?, List.mapM_cons, List.mapM_nil,
    hunit _ ha, hunit _ hb, hunit _ hc, hunit _ hd, hrest]
  simp

end Token

namespace StringToken

theorem text?_unit (hhigh : isHigh code = false) (hlow : isLow code = false) :
    text? (.unit code :: parts) = (text? parts).map (Char.ofNat code :: ·) := by
  cases parts with
  | nil => simp [text?, hhigh, hlow]
  | cons part parts => cases part <;> simp [text?, hhigh, hlow]

end StringToken

/-- A character is no half of a pair of surrogates. -/
theorem not_surrogate (c : Char) :
    StringToken.isHigh c.toNat = false ∧ StringToken.isLow c.toNat = false := by
  have hvalid : c.toNat < 0xD800 ∨ 0xDFFF < c.toNat ∧ c.toNat < 0x110000 := c.valid
  simp only [StringToken.isHigh, StringToken.isLow, Bool.and_eq_false_iff, decide_eq_false_iff_not]
  omega

/-- A pair of surrogates is read as the character that it is made from. -/
theorem text?_pair (hc : 0x10000 ≤ c.toNat) :
    StringToken.text? (.unit (highSurrogate c) :: .unit (lowSurrogate c) :: parts) =
      (StringToken.text? parts).map (c :: ·) := by
  have hvalid : c.toNat < 0xD800 ∨ 0xDFFF < c.toNat ∧ c.toNat < 0x110000 := c.valid
  have hhigh : 0xD800 ≤ highSurrogate c ∧ highSurrogate c < 0xDC00 := by
    rw [highSurrogate]
    omega
  have hlow : 0xDC00 ≤ lowSurrogate c ∧ lowSurrogate c < 0xE000 := by
    rw [lowSurrogate]
    omega
  have hsum : 0x10000 + (highSurrogate c - 0xD800) * 0x400 + (lowSurrogate c - 0xDC00) =
      c.toNat := by
    rw [highSurrogate, lowSurrogate]
    omega
  rw [StringToken.text?, if_pos (by simp [StringToken.isHigh, hhigh]),
    if_pos (by simp [StringToken.isLow, hlow]), StringToken.pairChar, hsum, Char.ofNat_toNat]

/-- What is written between quotes is read up to the closing one, as the text. -/
theorem Spells.exists_parts {text body : List Char} (hspells : Spells text body) :
    ∃ parts, StringToken.text? parts = some text ∧
      ∀ after, Token.stringParts (body ++ '"' :: after) = some (parts, after) := by
  induction hspells with
  | nil => exact ⟨[], rfl, fun after ↦ by rw [List.nil_append, Token.stringParts]⟩
  | @plain c text body hcontrol hquote hbackslash _ ih =>
    obtain ⟨parts, htext, hparts⟩ := ih
    refine ⟨.char c :: parts, ?_, fun after ↦ ?_⟩
    · rw [StringToken.text?, htext, Option.map_some]
    · exact Token.stringParts_plain hcontrol hquote hbackslash (hparts after)
  | @short c e text body hshort _ ih =>
    obtain ⟨parts, htext, hparts⟩ := ih
    refine ⟨.char c :: parts, ?_, fun after ↦ ?_⟩
    · rw [StringToken.text?, htext, Option.map_some]
    · exact Token.stringParts_short hshort (hparts after)
  | @unit c digits text body hdigits _ ih =>
    obtain ⟨parts, htext, hparts⟩ := ih
    obtain ⟨hhigh, hlow⟩ := not_surrogate c
    refine ⟨.unit c.toNat :: parts, ?_, fun after ↦ ?_⟩
    · rw [StringToken.text?_unit hhigh hlow, htext, Option.map_some, Char.ofNat_toNat]
    · rw [List.cons_append, List.cons_append, List.append_assoc]
      exact Token.stringParts_unit hdigits (hparts after)
  | @pair c first second text body hc hfirst hsecond _ ih =>
    obtain ⟨parts, htext, hparts⟩ := ih
    refine ⟨.unit (highSurrogate c) :: .unit (lowSurrogate c) :: parts, ?_, fun after ↦ ?_⟩
    · rw [text?_pair hc, htext, Option.map_some]
    · simp only [List.cons_append, List.append_assoc]
      exact Token.stringParts_unit hfirst (Token.stringParts_unit hsecond (hparts after))

end Reading

/-! ### Objects -/

/-- The content of a field: a text or a truth value. -/
inductive Content
  | text (s : String)
  | flag (b : Bool)
deriving Repr, DecidableEq

/-- A field with its name and its content. -/
abbrev Field : Type := String × Content

/-- The ways to write a content. -/
inductive Content.Written : Content → List Char → Prop
  | text {s : String} {body : List Char} (hbody : Spells s.toList body) :
    Written (.text s) ('"' :: (body ++ ['"']))
  | yes : Written (.flag true) ['t', 'r', 'u', 'e']
  | no : Written (.flag false) ['f', 'a', 'l', 's', 'e']

/-- White space between the parts of an object. -/
def IsGap (gap : List Char) : Prop := ∀ c ∈ gap, c ∈ [' ', '\t', '\n', '\r']

theorem isGap_nil : IsGap [] := nofun

/-- The ways to write a field: its name, a colon, its content. -/
inductive FieldWritten : Field → List Char → Prop
  | mk {name : String} {content : Content} {body written gap gap' gap'' : List Char}
      (hgap : IsGap gap) (hname : Spells name.toList body) (hgap' : IsGap gap')
      (hgap'' : IsGap gap'') (hcontent : content.Written written) :
    FieldWritten (name, content)
      (gap ++ '"' :: (body ++ '"' :: (gap' ++ ':' :: (gap'' ++ written))))

/-- The ways to write fields up to the closing brace, at least one. -/
inductive FieldsWritten : List Field → List Char → Prop
  | last {field : Field} {text gap : List Char} (hfield : FieldWritten field text)
      (hgap : IsGap gap) : FieldsWritten [field] (text ++ (gap ++ ['}']))
  | cons {field : Field} {fields : List Field} {text gap more : List Char}
      (hfield : FieldWritten field text) (hgap : IsGap gap) (hmore : FieldsWritten fields more) :
    FieldsWritten (field :: fields) (text ++ (gap ++ ',' :: more))

/-- The ways to write an object. -/
inductive ObjectWritten (fields : List Field) : List Char → Prop
  | mk {more : List Char} (hfields : FieldsWritten fields more) :
    ObjectWritten fields ('{' :: more)

/-- The value has this content. -/
inductive Content.Denotes : Content → Value → Prop
  | text {s : String} {parts : StringToken} (hparts : parts.string? = some s) :
    Denotes (.text s) (.string parts)
  | flag (b : Bool) : Denotes (.flag b) (.bool b)

/-- The member of an object has the name and the content of the field. -/
structure IsMember (field : Field) (member : StringToken × Value) : Prop where
  name : member.1.string? = some field.1
  content : field.2.Denotes member.2

namespace Token

theorem isSpace_of_isGap {gap : List Char} (hgap : IsGap gap) : ∀ c ∈ gap, isSpace c = true := by
  have hall : [' ', '\t', '\n', '\r'].all isSpace := by decide
  exact fun c hc ↦ List.all_eq_true.1 hall c (hgap c hc)

/-- Behind white space the next token is taken. -/
theorem all_eq_cons {gap rest after : List Char} {c : Char} {token : Token} {tokens : List Token}
    (hgap : IsGap gap) (hc : isSpace c = false) (hfirst : first (c :: rest) = some (token, after))
    (hshorter : after.length ≤ rest.length) (hafter : all after = some tokens) :
    all (gap ++ c :: rest) = some (token :: tokens) := by
  have hdrop : (gap ++ c :: rest).dropWhile isSpace = c :: rest := by
    rw [List.dropWhile_append_of_pos (isSpace_of_isGap hgap),
      List.dropWhile_cons_of_neg (by simp [hc])]
  have hlength : after.length < (gap ++ c :: rest).length := by
    rw [List.length_append, List.length_cons]
    omega
  rw [all, hdrop]
  simp only [hfirst, dif_pos hlength, hafter, Option.map_some]

theorem all_eq_cons_string {gap body after : List Char} {parts : StringToken}
    {tokens : List Token} (hgap : IsGap gap)
    (hparts : stringParts (body ++ '"' :: after) = some (parts, after))
    (hafter : all after = some tokens) :
    all (gap ++ '"' :: (body ++ '"' :: after)) = some (.string parts :: tokens) := by
  refine all_eq_cons hgap rfl (by rw [first, hparts]; rfl) ?_ hafter
  rw [List.length_append, List.length_cons]
  omega

end Token

open Token in
/-- A written content is one token, which is a value with this content. -/
theorem Content.Written.exists_value {content : Content} {written : List Char}
    (hwritten : content.Written written) :
    ∃ token value, content.Denotes value ∧
      (∀ gap after tokens, IsGap gap → all after = some tokens →
        all (gap ++ (written ++ after)) = some (token :: tokens)) ∧
      ∀ fuel tokens, Value.ofTokens fuel (token :: tokens) = some (value, tokens) := by
  cases hwritten with
  | @text s body hbody =>
    obtain ⟨parts, htext, hparts⟩ := hbody.exists_parts
    refine ⟨.string parts, .string parts, .text ?_, fun gap after tokens hgap hafter ↦ ?_, ?_⟩
    · rw [StringToken.string?, htext, Option.map_some, String.ofList_toList]
    · rw [List.cons_append, List.append_assoc]
      exact all_eq_cons_string hgap (hparts after) hafter
    · intro fuel tokens
      rw [Value.ofTokens]
  | yes =>
    refine ⟨.bool true, .bool true, .flag true, fun gap after tokens hgap hafter ↦ ?_, ?_⟩
    · exact all_eq_cons hgap rfl rfl (by simp; omega) hafter
    · intro fuel tokens
      rw [Value.ofTokens]
  | no =>
    refine ⟨.bool false, .bool false, .flag false, fun gap after tokens hgap hafter ↦ ?_, ?_⟩
    · exact all_eq_cons hgap rfl rfl (by simp; omega) hafter
    · intro fuel tokens
      rw [Value.ofTokens]

open Token in
/-- A written field is three tokens, which make up the member. -/
theorem FieldWritten.exists_member {field : Field} {text : List Char}
    (hwritten : FieldWritten field text) :
    ∃ key token value, IsMember field (key, value) ∧
      (∀ after tokens, all after = some tokens →
        all (text ++ after) = some (.string key :: .colon :: token :: tokens)) ∧
      ∀ fuel tokens, Value.ofTokens fuel (token :: tokens) = some (value, tokens) := by
  obtain ⟨hgap, hname, hgap', hgap'', hcontent⟩ := hwritten
  obtain ⟨key, hkey, hparts⟩ := hname.exists_parts
  obtain ⟨token, value, hvalue, hall, hofTokens⟩ := hcontent.exists_value
  refine ⟨key, token, value, ⟨?_, hvalue⟩, fun after tokens hafter ↦ ?_, hofTokens⟩
  · rw [StringToken.string?, hkey, Option.map_some, String.ofList_toList]
  · simp only [List.append_assoc, List.cons_append]
    refine all_eq_cons_string hgap (hparts _) ?_
    exact all_eq_cons hgap' rfl rfl (Nat.le_refl _) (hall _ after tokens hgap'' hafter)

open Token in
/-- Written fields are tokens that make up the members, one for each field. -/
theorem FieldsWritten.exists_members {fields : List Field} {text : List Char}
    (hwritten : FieldsWritten fields text) :
    ∃ members tokens, List.Forall₂ IsMember fields members ∧ all text = some tokens ∧
      members.length ≤ tokens.length ∧
      ∀ fuel, members.length ≤ fuel →
        Value.fieldsOfTokens fuel tokens = some (members, []) := by
  induction hwritten with
  | @last field text gap hfield hgap =>
    obtain ⟨key, token, value, hmember, hall, hofTokens⟩ := hfield.exists_member
    have hclose : all (gap ++ ['}']) = some [.closeObject] :=
      all_eq_cons hgap rfl rfl (Nat.le_refl _) (by rw [all]; rfl)
    refine ⟨[(key, value)], _, .cons hmember .nil, hall _ _ hclose, by simp, fun fuel hfuel ↦ ?_⟩
    obtain ⟨fuel, rfl⟩ := Nat.exists_eq_add_of_le' hfuel
    rw [List.length_singleton, Value.fieldsOfTokens, hofTokens]
  | @cons field fields text gap more hfield hgap _ ih =>
    obtain ⟨key, token, value, hmember, hall, hofTokens⟩ := hfield.exists_member
    obtain ⟨members, tokens, hmembers, htokens, hlength, hfields⟩ := ih
    have hcomma : all (gap ++ ',' :: more) = some (.comma :: tokens) :=
      all_eq_cons hgap rfl rfl (Nat.le_refl _) htokens
    refine ⟨(key, value) :: members, _, .cons hmember hmembers, hall _ _ hcomma, ?_,
      fun fuel hfuel ↦ ?_⟩
    · simp only [List.length_cons]
      omega
    · rw [List.length_cons] at hfuel
      obtain ⟨fuel, rfl⟩ := Nat.exists_eq_add_of_le' (Nat.le_of_add_left_le hfuel)
      rw [Value.fieldsOfTokens, hofTokens]
      simp only []
      rw [hfields fuel (Nat.le_of_add_le_add_right hfuel), Option.map_some]

/-- A written object is read, whatever way was taken to write it. -/
theorem Value.parse_of_written {fields : List Field} {json : List Char}
    (hwritten : ObjectWritten fields json) :
    ∃ members, List.Forall₂ IsMember fields members ∧ parse json = some (.object members) := by
  obtain @⟨more, hfields⟩ := hwritten
  obtain ⟨members, tokens, hmembers, htokens, hlength, hofTokens⟩ := hfields.exists_members
  have hall : Token.all ('{' :: more) = some (.openObject :: tokens) :=
    Token.all_eq_cons isGap_nil rfl rfl (Nat.le_refl _) htokens
  have hopen (rest : List Token) : tokens ≠ .closeObject :: rest := by
    rintro rfl
    cases (hofTokens _ (Nat.le_refl _)).symm.trans (by cases members.length <;> rfl)
  have hfuel : members.length ≤ 2 * (tokens.length + 1) := by omega
  refine ⟨members, hmembers, ?_⟩
  rw [parse, hall]
  simp only [Option.bind_eq_bind, Option.bind_some, List.length_cons]
  rw [ofTokens, hofTokens _ hfuel]
  · rfl
  · exact hopen

/-! ### Every object can be written -/

theorem exists_isUnit {n : Nat} (hn : n < 0x10000) : ∃ digits, IsUnit n digits := by
  have hdigit : ∀ k < 16, ∃ digit ∈ hexDigits, digit.1 = k := by decide
  obtain ⟨a, ha, ha'⟩ := hdigit (n / 4096) (by omega)
  obtain ⟨b, hb, hb'⟩ := hdigit (n / 256 % 16) (by omega)
  obtain ⟨c, hc, hc'⟩ := hdigit (n / 16 % 16) (by omega)
  obtain ⟨d, hd, hd'⟩ := hdigit (n % 16) (by omega)
  have hsum : ((a.1 * 16 + b.1) * 16 + c.1) * 16 + d.1 = n := by omega
  rw [← hsum]
  exact ⟨_, .digits ha hb hc hd⟩

theorem exists_spells (text : List Char) : ∃ body, Spells text body := by
  induction text with
  | nil => exact ⟨[], .nil⟩
  | cons c text ih =>
    obtain ⟨body, hbody⟩ := ih
    by_cases hc : c.toNat < 0x10000
    · obtain ⟨digits, hdigits⟩ := exists_isUnit hc
      exact ⟨_, .unit hdigits hbody⟩
    · have hvalid : c.toNat < 0xD800 ∨ 0xDFFF < c.toNat ∧ c.toNat < 0x110000 := c.valid
      obtain ⟨first, hfirst⟩ := exists_isUnit (n := highSurrogate c) (by rw [highSurrogate]; omega)
      obtain ⟨second, hsecond⟩ := exists_isUnit (n := lowSurrogate c) (by rw [lowSurrogate]; omega)
      exact ⟨_, .pair (Nat.not_lt.1 hc) hfirst hsecond hbody⟩

/-- A text without quotes, backslashes and control characters can stand as it is. -/
theorem spells_self {text : List Char}
    (htext : text.all fun c ↦ 0x20 ≤ c.toNat ∧ c ≠ '"' ∧ c ≠ '\\') : Spells text text := by
  induction text with
  | nil => exact .nil
  | cons c text ih =>
    simp only [List.all_cons, Bool.and_eq_true, decide_eq_true_eq] at htext
    obtain ⟨⟨hcontrol, hquote, hbackslash⟩, hrest⟩ := htext
    exact .plain hcontrol hquote hbackslash (ih hrest)

theorem FieldWritten.exists_written (field : Field) : ∃ text, FieldWritten field text := by
  obtain ⟨name, content⟩ := field
  obtain ⟨body, hname⟩ := exists_spells name.toList
  obtain ⟨written, hcontent⟩ : ∃ written, content.Written written := by
    cases content with
    | text s =>
      obtain ⟨body, hbody⟩ := exists_spells s.toList
      exact ⟨_, .text hbody⟩
    | flag b =>
      cases b with
      | true => exact ⟨_, .yes⟩
      | false => exact ⟨_, .no⟩
  exact ⟨_, .mk isGap_nil hname isGap_nil isGap_nil hcontent⟩

theorem ObjectWritten.exists_written {fields : List Field} (hne : fields ≠ []) :
    ∃ json, ObjectWritten fields json := by
  suffices hfields : ∃ text, FieldsWritten fields text by
    obtain ⟨text, htext⟩ := hfields
    exact ⟨_, .mk htext⟩
  induction fields with
  | nil => exact absurd rfl hne
  | cons field fields ih =>
    obtain ⟨text, htext⟩ := FieldWritten.exists_written field
    cases fields with
    | nil => exact ⟨_, .last htext isGap_nil⟩
    | cons next fields =>
      obtain ⟨more, hmore⟩ := ih (List.cons_ne_nil _ _)
      exact ⟨_, .cons htext isGap_nil hmore⟩

end Macropad.Json
