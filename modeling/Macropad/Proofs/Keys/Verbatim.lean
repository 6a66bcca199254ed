import Macropad.Proofs.Keys.Reading
import Macropad.Proofs.Keys.Scanning

/-!
# Typing a text verbatim

`Verbatim` says which strokes type a text as it stands: a control token is its key, a newline of
any kind is Enter, every other character is itself, and literal characters that meet are one text.
The injection form of a text is key text for just these strokes (`parseKeys_toInjectionForm`), so
key text can carry every text, and none of its characters becomes a modifier or opens a group
(`Verbatim.isPlain`).
-/

set_option autoImplicit false

namespace Macropad.Keys

/-- The strokes that type a text as it stands, read from left to right. -/
inductive Verbatim : List Char → List KeyStroke → Prop
  | nil : Verbatim [] []
  | token {name : String} {key : NamedKey} {rest : List Char} {strokes : List KeyStroke}
      (hname : name ∈ controlNames) (hkey : NamedKey.ofName? name.toList = some key)
      (hrest : Verbatim rest strokes) :
    Verbatim (inBraces name.toList ++ rest) (KeyStroke.prepend (.key key 1) strokes)
  | crlf {rest : List Char} {strokes : List KeyStroke} (hrest : Verbatim rest strokes) :
    Verbatim ('\r' :: '\n' :: rest) (KeyStroke.prepend (.key .enter 1) strokes)
  | cr {rest : List Char} {strokes : List KeyStroke} (hnext : rest.head? ≠ some '\n')
      (hrest : Verbatim rest strokes) :
    Verbatim ('\r' :: rest) (KeyStroke.prepend (.key .enter 1) strokes)
  | lf {rest : List Char} {strokes : List KeyStroke} (hrest : Verbatim rest strokes) :
    Verbatim ('\n' :: rest) (KeyStroke.prepend (.key .enter 1) strokes)
  | literal {c : Char} {rest : List Char} {strokes : List KeyStroke} (hcr : c ≠ '\r')
      (hlf : c ≠ '\n') (htoken : ∀ name ∈ controlNames, ¬inBraces name.toList <+: c :: rest)
      (hrest : Verbatim rest strokes) :
    Verbatim (c :: rest) (KeyStroke.prepend (.text [c]) strokes)

/-! ### Strokes of units -/

theorem isSome_ofName?_controlName :
    ∀ name ∈ controlNames, (NamedKey.ofName? name.toList).isSome := by
  decide

/-- The stroke that types a unit. -/
def TextUnit.stroke : TextUnit → KeyStroke
  | .token name => .key ((NamedKey.ofName? name.toList).getD .enter) 1
  | .newline => .key .enter 1
  | .special c | .plain c => .text [c]

/-- The strokes of units, with neighbouring texts joined. -/
def strokesOf (units : List TextUnit) : List KeyStroke :=
  units.foldr (fun unit strokes ↦ KeyStroke.prepend unit.stroke strokes) []

theorem strokesOf_cons (unit : TextUnit) (units : List TextUnit) :
    strokesOf (unit :: units) = KeyStroke.prepend unit.stroke (strokesOf units) := rfl

theorem stroke_ofChar {c : Char} (hcr : c ≠ '\r') (hlf : c ≠ '\n') :
    (TextUnit.ofChar c).stroke = .text [c] := by
  rw [TextUnit.ofChar, if_neg (not_or.2 ⟨hcr, hlf⟩)]
  split <;> rfl

theorem ofName?_controlName {name : String} {key : NamedKey}
    (hkey : NamedKey.ofName? name.toList = some key) :
    (TextUnit.token name).stroke = .key key 1 := by
  rw [TextUnit.stroke, hkey, Option.getD_some]

/-- A text is typed by the strokes of its units only. -/
theorem verbatim_iff {s : List Char} {strokes : List KeyStroke} :
    Verbatim s strokes ↔ strokes = strokesOf (TextUnit.scan s) := by
  constructor
  · intro hverbatim
    induction hverbatim with
    | nil => rw [TextUnit.scan_nil]; rfl
    | token hname hkey hrest ih =>
      rw [TextUnit.scan_token hname, strokesOf_cons, ofName?_controlName hkey, ih]
    | crlf hrest ih => rw [TextUnit.scan_crlf, strokesOf_cons, ih]; rfl
    | cr hnext hrest ih =>
      rw [TextUnit.scan_char (fun _ ↦ hnext) (TextUnit.cutToken?_of_ne (by decide) _),
        strokesOf_cons, ih]
      rfl
    | lf hrest ih =>
      rw [TextUnit.scan_char (fun hc ↦ absurd hc (by decide))
        (TextUnit.cutToken?_of_ne (by decide) _), strokesOf_cons, ih]
      rfl
    | literal hcr hlf htoken hrest ih =>
      rw [TextUnit.scan_char (fun hc ↦ absurd hc hcr) (TextUnit.cutToken?_eq_none_iff.2 htoken),
        strokesOf_cons, stroke_ofChar hcr hlf, ih]
  · rintro rfl
    induction s using TextUnit.scan_rec with
    | nil =>
      rw [TextUnit.scan_nil]
      exact .nil
    | crlf rest ih =>
      rw [TextUnit.scan_crlf, strokesOf_cons]
      exact .crlf ih
    | token name rest hname ih =>
      obtain ⟨key, hkey⟩ := Option.isSome_iff_exists.1 (isSome_ofName?_controlName name hname)
      rw [TextUnit.scan_token hname, strokesOf_cons, ofName?_controlName hkey]
      exact .token hname hkey ih
    | char c rest hcrlf htoken ih =>
      rw [TextUnit.scan_char hcrlf htoken, strokesOf_cons]
      by_cases hcr : c = '\r'
      · subst hcr
        exact .cr (hcrlf rfl) ih
      by_cases hlf : c = '\n'
      · subst hlf
        exact .lf ih
      rw [stroke_ofChar hcr hlf]
      exact .literal hcr hlf (TextUnit.cutToken?_eq_none_iff.1 htoken) ih

/-- A text or a single press of a key, without any modifier. -/
def KeyStroke.IsPlain (stroke : KeyStroke) : Prop :=
  (∃ chars, stroke = .text chars) ∨ ∃ key, stroke = .key key 1

theorem isPlain_of_mem_prepend {stroke first : KeyStroke} {strokes : List KeyStroke}
    (hfirst : first.IsPlain) (hstrokes : ∀ stroke ∈ strokes, stroke.IsPlain)
    (hstroke : stroke ∈ KeyStroke.prepend first strokes) : stroke.IsPlain := by
  rcases mem_prepend hstroke with rfl | hrest | htext
  · exact hfirst
  · exact hstrokes stroke hrest
  · exact .inl htext

/-- No modifier, chord or group takes part in typing a text. -/
theorem Verbatim.isPlain {s : List Char} {strokes : List KeyStroke}
    (hverbatim : Verbatim s strokes) : ∀ stroke ∈ strokes, stroke.IsPlain := by
  induction hverbatim with
  | nil => exact nofun
  | token _ _ _ ih => exact fun _ ↦ isPlain_of_mem_prepend (.inr ⟨_, rfl⟩) ih
  | crlf _ ih => exact fun _ ↦ isPlain_of_mem_prepend (.inr ⟨_, rfl⟩) ih
  | cr _ _ ih => exact fun _ ↦ isPlain_of_mem_prepend (.inr ⟨_, rfl⟩) ih
  | lf _ ih => exact fun _ ↦ isPlain_of_mem_prepend (.inr ⟨_, rfl⟩) ih
  | literal _ _ _ _ ih => exact fun _ ↦ isPlain_of_mem_prepend (.inl ⟨_, rfl⟩) ih

/-! ### Reading the injection form -/

/-- A single character in braces, without a count. -/
theorem ofBody_char (c : Char) : Reader.ofBody [c] = .ok (.text [c]) :=
  ofBody_eq_ok_iff.2 (Grammar.Body.once (.char c))

theorem ofChar?_of_not_special {c : Char} (hc : isSpecial c = false) :
    Modifier.ofChar? c = none := by
  unfold Modifier.ofChar?
  split
  · exact absurd rfl (ne_of_isSpecial hc (by decide))
  · exact absurd rfl (ne_of_isSpecial hc (by decide))
  · exact absurd rfl (ne_of_isSpecial hc (by decide))
  · rfl

section Units

variable {group : Option (List Char)} {rest last : List Char} {strokes : List KeyStroke}
  (hrest : Reader.Reads group rest strokes last)

include hrest

/-- A body in braces. -/
theorem reads_inBraces {body : List Char} {stroke : KeyStroke} (hne : body ≠ [])
    (hbody : '}' ∉ body) (hstroke : Reader.ofBody body = .ok stroke) :
    Reader.Reads group (inBraces body ++ rest) (KeyStroke.prepend stroke strokes) last := by
  have hatom := Reader.reads_atom (by decide) (by decide) (by decide)
    (Reader.atomReads_body hne hbody hstroke rest) hrest
  simpa [inBraces] using hatom

theorem reads_controlName {name : String} (hname : name ∈ controlNames) :
    Reader.Reads group (inBraces name.toList ++ rest)
      (KeyStroke.prepend (TextUnit.token name).stroke strokes) last := by
  obtain ⟨hlength, -, hbrace, -⟩ := controlName_plain name hname
  obtain ⟨key, hkey⟩ := Option.isSome_iff_exists.1 (isSome_ofName?_controlName name hname)
  have hne : name.toList ≠ [] := List.ne_nil_of_length_pos (by omega)
  rw [ofName?_controlName hkey]
  exact reads_inBraces hrest hne hbrace (ofBody_eq_ok_iff.2 (.once (.name hkey)))

theorem reads_special {c : Char} (hc : isSpecial c = true) :
    Reader.Reads group (inBraces [c] ++ rest) (KeyStroke.prepend (.text [c]) strokes) last := by
  by_cases hclosing : c = '}'
  · subst hclosing
    exact Reader.reads_atom (by decide) (by decide) (by decide)
      (Reader.atomReads_closingBrace rest) hrest
  · exact reads_inBraces hrest (by simp) (by simpa using Ne.symm hclosing) (ofBody_char c)

theorem reads_plain {c : Char} (hc : isSpecial c = false) :
    Reader.Reads group (c :: rest) (KeyStroke.prepend (.text [c]) strokes) last :=
  Reader.reads_atom (ne_of_isSpecial hc (by decide)) (ne_of_isSpecial hc (by decide))
    (ofChar?_of_not_special hc)
    (Reader.atomReads_plain (ne_of_isSpecial hc (by decide)) (ne_of_isSpecial hc (by decide)) rest)
    hrest

/-- A unit is read back as its stroke. -/
theorem reads_unit {unit : TextUnit} (hunit : unit.Scanned) :
    Reader.Reads group (unit.injected ++ rest) (KeyStroke.prepend unit.stroke strokes) last := by
  cases unit with
  | token name => exact reads_controlName hrest hunit
  | newline => exact reads_controlName hrest (by decide)
  | special c => exact reads_special hrest hunit
  | plain c => exact reads_plain hrest hunit

end Units

/-- The injection form of units is read back as their strokes. -/
theorem reads_units {units : List TextUnit} (hunits : ∀ unit ∈ units, unit.Scanned) :
    Reader.Reads none (units.flatMap TextUnit.injected) (strokesOf units) [] := by
  induction units with
  | nil => exact Reader.reads_nil
  | cons unit units ih =>
    obtain ⟨hunit, hunits⟩ := List.forall_mem_cons.1 hunits
    rw [List.flatMap_cons, strokesOf_cons]
    exact reads_unit (ih hunits) hunit

/-- Key text in injection form is read as the strokes that type the text. -/
theorem parseKeys_toInjectionForm (s : List Char) :
    parseKeys (toInjectionForm s) = .ok (strokesOf (TextUnit.scan s)) := by
  obtain ⟨hlength, hreads⟩ := reads_units (@TextUnit.scanned_of_mem_scan s)
  rw [parseKeys, toInjectionForm, hreads]

end Macropad.Keys
