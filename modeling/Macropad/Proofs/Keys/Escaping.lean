import Mathlib
import Macropad.Proofs.Keys.Scanning

/-!
# Escaping twice

A text is a row of units (`TextUnit.ScansTo`): control tokens, newlines, characters to which key
text gives a meaning, and all others. The injection form is scanned unit by unit
(`TextUnit.ScansTo.again`). A token is the same token again and a newline has become one, but a
character in braces comes apart into three characters to be escaped, since no control token has
less than two characters in its braces (`TextUnit.not_token_of_short`).

So each character that was escaped grows by six characters when the injection form is escaped once
more, and nothing else changes (`TextUnit.length_injected_again`). Escaping a second time changes
nothing exactly if the text has no such character (`toInjectionForm_twice`).
-/

set_option autoImplicit false

namespace Macropad.Keys

namespace TextUnit

/-! ### Units of a text -/

/-- The units of a text, from left to right. A control token counts before its characters, and a
carriage return takes the line feed behind it along. -/
inductive ScansTo : List Char → List TextUnit → Prop
  | nil : ScansTo [] []
  | token {name : String} {rest : List Char} {units : List TextUnit} (hname : name ∈ controlNames)
      (hrest : ScansTo rest units) : ScansTo (inBraces name.toList ++ rest) (.token name :: units)
  | crlf {rest : List Char} {units : List TextUnit} (hrest : ScansTo rest units) :
    ScansTo ('\r' :: '\n' :: rest) (.newline :: units)
  | cr {rest : List Char} {units : List TextUnit} (hnext : rest.head? ≠ some '\n')
      (hrest : ScansTo rest units) : ScansTo ('\r' :: rest) (.newline :: units)
  | lf {rest : List Char} {units : List TextUnit} (hrest : ScansTo rest units) :
    ScansTo ('\n' :: rest) (.newline :: units)
  | special {c : Char} {rest : List Char} {units : List TextUnit} (hc : isSpecial c = true)
      (htoken : ∀ name ∈ controlNames, ¬inBraces name.toList <+: c :: rest)
      (hrest : ScansTo rest units) : ScansTo (c :: rest) (.special c :: units)
  | plain {c : Char} {rest : List Char} {units : List TextUnit} (hc : isSpecial c = false)
      (hcr : c ≠ '\r') (hlf : c ≠ '\n') (hrest : ScansTo rest units) :
    ScansTo (c :: rest) (.plain c :: units)

theorem ofChar_of_special {c : Char} (hc : isSpecial c = true) : ofChar c = .special c := by
  have hcr : c ≠ '\r' := (ne_of_isSpecial (by decide) hc).symm
  have hlf : c ≠ '\n' := (ne_of_isSpecial (by decide) hc).symm
  rw [ofChar, if_neg (not_or.2 ⟨hcr, hlf⟩), if_pos hc]

theorem ofChar_of_plain {c : Char} (hc : isSpecial c = false) (hcr : c ≠ '\r') (hlf : c ≠ '\n') :
    ofChar c = .plain c := by
  rw [ofChar, if_neg (not_or.2 ⟨hcr, hlf⟩), if_neg (Bool.eq_false_iff.1 hc)]

theorem ScansTo.eq_scan {s : List Char} {units : List TextUnit} (hunits : ScansTo s units) :
    units = scan s := by
  induction hunits with
  | nil => rw [scan_nil]
  | token hname _ ih => rw [scan_token hname, ih]
  | crlf _ ih => rw [scan_crlf, ih]
  | cr hnext _ ih =>
    rw [scan_char (fun _ ↦ hnext) (cutToken?_of_ne (by decide) _), ih]
    rfl
  | lf _ ih =>
    rw [scan_char (fun hc ↦ absurd hc (by decide)) (cutToken?_of_ne (by decide) _), ih]
    rfl
  | @special c _ _ hc htoken _ ih =>
    have hcr : c ≠ '\r' := (ne_of_isSpecial (by decide) hc).symm
    rw [scan_char (absurd · hcr) (cutToken?_eq_none_iff.2 htoken), ofChar_of_special hc, ih]
  | @plain c _ _ hc hcr hlf _ ih =>
    have hbrace : c ≠ '{' := ne_of_isSpecial hc (by decide)
    rw [scan_char (absurd · hcr) (cutToken?_of_ne hbrace _), ofChar_of_plain hc hcr hlf, ih]

theorem scansTo_scan (s : List Char) : ScansTo s (scan s) := by
  induction s using scan_rec with
  | nil =>
    rw [scan_nil]
    exact .nil
  | crlf rest ih =>
    rw [scan_crlf]
    exact .crlf ih
  | token name rest hname ih =>
    rw [scan_token hname]
    exact .token hname ih
  | char c rest hcrlf htoken ih =>
    rw [scan_char hcrlf htoken]
    by_cases hcr : c = '\r'
    · subst hcr
      exact .cr (hcrlf rfl) ih
    by_cases hlf : c = '\n'
    · subst hlf
      exact .lf ih
    by_cases hc : isSpecial c = true
    · rw [ofChar_of_special hc]
      exact .special hc (cutToken?_eq_none_iff.1 htoken) ih
    · rw [ofChar_of_plain (Bool.eq_false_iff.2 hc) hcr hlf]
      exact .plain (Bool.eq_false_iff.2 hc) hcr hlf ih

/-- A text has the units of its scan and no others. -/
theorem scansTo_iff {s : List Char} {units : List TextUnit} :
    ScansTo s units ↔ units = scan s :=
  ⟨ScansTo.eq_scan, fun hunits ↦ hunits ▸ scansTo_scan s⟩

/-! ### Units of an injection form -/

/-- The units that the injection form of a unit has. -/
def again : TextUnit → List TextUnit
  | .token name => [.token name]
  | .newline => [.token "ENTER"]
  | .special c => [.special '{', .special c, .special '}']
  | .plain c => [.plain c]

/-- No token has less than two characters in its braces. -/
theorem not_token_of_short {body : List Char} (hbody : '}' ∉ body) (hshort : body.length < 2)
    (rest : List Char) :
    ∀ name ∈ controlNames, ¬inBraces name.toList <+: inBraces body ++ rest := by
  rintro name hname ⟨after, htext⟩
  obtain ⟨hlength, -, hbrace, -⟩ := controlName_plain name hname
  obtain ⟨heq, -⟩ := inBraces_append_inj hbrace hbody htext
  rw [heq] at hlength
  omega

/-- A character in braces is no token, also if it is the closing brace. -/
theorem not_token_of_char (c : Char) (rest : List Char) :
    ∀ name ∈ controlNames, ¬inBraces name.toList <+: '{' :: c :: '}' :: rest := by
  by_cases hc : c = '}'
  · subst hc
    exact not_token_of_short List.not_mem_nil Nat.zero_lt_two ('}' :: rest)
  · exact not_token_of_short (mt List.mem_singleton.1 (Ne.symm hc)) Nat.one_lt_two rest

theorem not_token_of_ne {c : Char} (hc : c ≠ '{') (rest : List Char) :
    ∀ name ∈ controlNames, ¬inBraces name.toList <+: c :: rest :=
  cutToken?_eq_none_iff.1 (cutToken?_of_ne hc rest)

/-- An escaped character comes apart into the two braces and itself. -/
theorem ScansTo.braced {c : Char} (hc : isSpecial c = true) {rest : List Char}
    {units : List TextUnit} (hrest : ScansTo rest units) :
    ScansTo (inBraces [c] ++ rest) (.special '{' :: .special c :: .special '}' :: units) := by
  have hclosing : ScansTo ('}' :: rest) (.special '}' :: units) :=
    .special (by decide) (not_token_of_ne (by decide) rest) hrest
  have htoken : ∀ name ∈ controlNames, ¬inBraces name.toList <+: c :: '}' :: rest := by
    by_cases hopening : c = '{'
    · subst hopening
      exact not_token_of_short List.not_mem_nil Nat.zero_lt_two rest
    · exact not_token_of_ne hopening ('}' :: rest)
  exact .special (by decide) (not_token_of_char c rest) (.special hc htoken hclosing)

/-- The injection form of a text is scanned unit by unit. -/
theorem ScansTo.again {s : List Char} {units : List TextUnit} (hunits : ScansTo s units) :
    ScansTo (units.flatMap injected) (units.flatMap TextUnit.again) := by
  induction hunits with
  | nil => exact .nil
  | token hname _ ih => exact .token hname ih
  | crlf _ ih | cr _ _ ih | lf _ ih => exact .token (by decide) ih
  | special hc _ _ ih => exact .braced hc ih
  | plain hc hcr hlf _ ih => exact .plain hc hcr hlf ih

/-! ### Growth -/

def isEscaped : TextUnit → Bool
  | .special _ => true
  | .token _ | .newline | .plain _ => false

/-- The number of characters to be escaped. -/
def specials (units : List TextUnit) : Nat := units.countP isEscaped

theorem isEscaped_eq_true_iff {unit : TextUnit} :
    unit.isEscaped = true ↔ ∃ c, unit = .special c := by
  cases unit <;> simp [isEscaped]

theorem specials_eq_zero_iff {units : List TextUnit} :
    specials units = 0 ↔ ∀ c, .special c ∉ units := by
  simp only [specials, List.countP_eq_zero, isEscaped_eq_true_iff, not_exists]
  exact ⟨fun hnone c hmem ↦ hnone _ hmem c rfl, fun hnone unit hunit c hc ↦ hnone c (hc ▸ hunit)⟩

/-- Only an escaped character changes when it is escaped again. -/
theorem injected_again {unit : TextUnit} (hunit : ∀ c, unit ≠ .special c) :
    unit.again.flatMap injected = unit.injected := by
  cases unit with
  | special c => exact absurd rfl (hunit c)
  | token | newline | plain => exact List.append_nil _

/-- Six more characters for each of those that were escaped. -/
theorem length_injected_again (units : List TextUnit) :
    ((units.flatMap TextUnit.again).flatMap injected).length =
      (units.flatMap injected).length + 6 * specials units := by
  induction units with
  | nil => rfl
  | cons unit units ih =>
    have hunit : (unit.again.flatMap injected).length =
        unit.injected.length + 6 * if unit.isEscaped then 1 else 0 := by
      by_cases hescaped : unit.isEscaped = true
      · obtain ⟨c, rfl⟩ := isEscaped_eq_true_iff.1 hescaped
        rfl
      · have hother : ∀ c, unit ≠ .special c := not_exists.1 (mt isEscaped_eq_true_iff.2 hescaped)
        rw [if_neg hescaped, injected_again hother]
        rfl
    have hcount : specials (unit :: units) =
        specials units + if unit.isEscaped then 1 else 0 := List.countP_cons
    simp only [List.flatMap_cons, List.flatMap_append, List.length_append, ih, hunit, hcount]
    omega

end TextUnit

open TextUnit

/-- Escaping the injection form of a text once more changes nothing exactly if no unit of the text
is a character to be escaped, and makes it longer exactly if one is. -/
theorem toInjectionForm_twice (s : List Char) :
    ∃ units, (∀ others, ScansTo s others ↔ others = units) ∧
      (toInjectionForm (toInjectionForm s) = toInjectionForm s ↔ ∀ c, .special c ∉ units) ∧
      ((toInjectionForm s).length < (toInjectionForm (toInjectionForm s)).length ↔
        ∃ c, .special c ∈ units) := by
  have htwice : toInjectionForm (toInjectionForm s) =
      ((scan s).flatMap again).flatMap injected := by
    have hscan := (scansTo_scan s).again.eq_scan
    rw [toInjectionForm, hscan]
    rfl
  have hlength : (toInjectionForm (toInjectionForm s)).length =
      (toInjectionForm s).length + 6 * specials (scan s) := by
    rw [htwice, length_injected_again]
    rfl
  have hsame : toInjectionForm (toInjectionForm s) = toInjectionForm s ↔
      ∀ c, .special c ∉ scan s := by
    constructor
    · intro heq
      rw [heq] at hlength
      exact specials_eq_zero_iff.1 (by omega)
    · intro hnone
      rw [htwice, List.flatMap_assoc]
      refine List.flatMap_congr fun unit hunit ↦ injected_again ?_
      rintro c rfl
      exact hnone c hunit
  refine ⟨scan s, fun others ↦ scansTo_iff, hsame, ?_⟩
  rw [hlength, ← not_iff_not, not_exists, ← specials_eq_zero_iff]
  omega

end Macropad.Keys
