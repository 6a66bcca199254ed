import Macropad.Keys.Injection

/-!
# Scanning plain text

The scan of a text, one equation for each kind of unit at its front: a control token on the list
(`scan_token`), the three newlines, and any other character (`scan_char`). No two tokens are
prefixes of one text, so it does not matter in which order the list is searched
(`cutToken?_eq_some_iff`). `scan_rec` is the induction along a scan. Every unit of a scan is one
that scanning can give (`TextUnit.Scanned`).
-/

set_option autoImplicit false

namespace Macropad.Keys

/-- The names on the list are long, and have neither blanks nor the characters in them that end
something. -/
theorem controlName_plain : ∀ name ∈ controlNames,
    2 ≤ name.toList.length ∧ ' ' ∉ name.toList ∧ '}' ∉ name.toList ∧ ';' ∉ name.toList := by
  decide

/-- A character that key text gives no meaning differs from those that it does. -/
theorem ne_of_isSpecial {c special : Char} (hc : isSpecial c = false)
    (hspecial : isSpecial special = true) : c ≠ special := by
  rintro rfl
  cases hc.symm.trans hspecial

theorem dropHead?_eq_some_iff {head s rest : List Char} :
    Text.dropHead? head s = some rest ↔ s = head ++ rest := by
  rw [Text.dropHead?]
  constructor
  · intro hrest
    split at hrest
    · rename_i hhead
      obtain ⟨after, rfl⟩ := List.isPrefixOf_iff_prefix.1 hhead
      rw [List.drop_left] at hrest
      rw [Option.some.inj hrest]
    · cases hrest
  · rintro rfl
    rw [if_pos (List.isPrefixOf_iff_prefix.2 (List.prefix_append _ _)), List.drop_left]

/-- A text begins with one token in braces at most. -/
theorem inBraces_append_inj {name name' rest rest' : List Char} (hname : '}' ∉ name)
    (hname' : '}' ∉ name') (hlists : inBraces name ++ rest = inBraces name' ++ rest') :
    name = name' ∧ rest = rest' := by
  have hbodies : name ++ '}' :: rest = name' ++ '}' :: rest' := by
    simpa [inBraces] using hlists
  have hcut : Text.cutFirst '}' (name ++ '}' :: rest) = some (name, rest) :=
    Text.cutFirst_eq_some_iff.2 ⟨rfl, hname⟩
  rw [hbodies, Text.cutFirst_eq_some_iff.2 ⟨rfl, hname'⟩] at hcut
  obtain ⟨rfl, rfl⟩ := Prod.mk.inj (Option.some.inj hcut)
  exact ⟨rfl, rfl⟩

namespace TextUnit

theorem cutToken?_eq_none_iff {s : List Char} :
    cutToken? s = none ↔ ∀ name ∈ controlNames, ¬inBraces name.toList <+: s := by
  simp only [cutToken?, List.findSome?_eq_none_iff, Option.map_eq_none_iff, Text.dropHead?,
    List.isPrefixOf_iff_prefix, ite_eq_right_iff, reduceCtorEq]

theorem cutToken?_eq_some_iff {s rest : List Char} {name : String} :
    cutToken? s = some (name, rest) ↔ name ∈ controlNames ∧ s = inBraces name.toList ++ rest := by
  have hsound : ∀ {name rest}, cutToken? s = some (name, rest) →
      name ∈ controlNames ∧ s = inBraces name.toList ++ rest := by
    intro name rest hcut
    obtain ⟨name', hname', hmap⟩ := List.exists_of_findSome?_eq_some hcut
    obtain ⟨rest', hdrop, hpair⟩ := Option.map_eq_some_iff.1 hmap
    obtain ⟨rfl, rfl⟩ := Prod.mk.inj hpair
    exact ⟨hname', dropHead?_eq_some_iff.1 hdrop⟩
  refine ⟨hsound, fun ⟨hname, htext⟩ ↦ ?_⟩
  cases hcut : cutToken? s with
  | none => exact absurd ⟨rest, htext.symm⟩ (cutToken?_eq_none_iff.1 hcut name hname)
  | some found =>
    obtain ⟨hname', htext'⟩ := hsound hcut
    have hplain := controlName_plain name hname
    have hplain' := controlName_plain found.1 hname'
    obtain ⟨hnames, hrests⟩ :=
      inBraces_append_inj hplain.2.2.1 hplain'.2.2.1 (htext.symm.trans htext')
    rw [String.toList_inj.1 hnames, hrests]

theorem cutToken?_of_ne {c : Char} (hc : c ≠ '{') (s : List Char) : cutToken? (c :: s) = none := by
  refine cutToken?_eq_none_iff.2 fun name _ ⟨rest, hlists⟩ ↦ ?_
  exact hc (List.cons.inj hlists).1.symm

/-! ### Equations of the scan -/

@[simp] theorem scan_nil : scan [] = [] := by
  rw [scan]

theorem scan_crlf (rest : List Char) : scan ('\r' :: '\n' :: rest) = .newline :: scan rest := by
  rw [scan]

/-- A character that no token begins with and that is not the first of two of one newline. -/
theorem scan_char {c : Char} {rest : List Char} (hcrlf : c = '\r' → rest.head? ≠ some '\n')
    (htoken : cutToken? (c :: rest) = none) : scan (c :: rest) = ofChar c :: scan rest := by
  have hfirst : ∀ rest', c = '\r' → rest = '\n' :: rest' → False := by
    rintro rest' hc rfl
    exact hcrlf hc rfl
  rw [scan.eq_3 c rest hfirst]
  split
  · rename_i name after hsome
    rw [htoken] at hsome
    cases hsome
  · rfl

theorem scan_token {name : String} (hname : name ∈ controlNames) (rest : List Char) :
    scan (inBraces name.toList ++ rest) = .token name :: scan rest := by
  have hcut : cutToken? (inBraces name.toList ++ rest) = some (name, rest) :=
    cutToken?_eq_some_iff.2 ⟨hname, rfl⟩
  have hfirst : ∀ rest', '{' = '\r' → name.toList ++ ['}'] ++ rest = '\n' :: rest' → False :=
    fun _ hc ↦ absurd hc (by decide)
  change scan ('{' :: (name.toList ++ ['}'] ++ rest)) = _
  rw [scan.eq_3 _ _ hfirst]
  split
  · rename_i name' after hsome
    obtain ⟨rfl, rfl⟩ := Prod.mk.inj (Option.some.inj (hcut.symm.trans hsome))
    rfl
  · rename_i hnone
    cases hcut.symm.trans hnone

/-- The induction along the scan of a text. -/
theorem scan_rec {motive : List Char → Prop} (nil : motive [])
    (crlf : ∀ rest, motive rest → motive ('\r' :: '\n' :: rest))
    (token : ∀ name rest, name ∈ controlNames → motive rest →
      motive (inBraces name.toList ++ rest))
    (char : ∀ c rest, (c = '\r' → rest.head? ≠ some '\n') → cutToken? (c :: rest) = none →
      motive rest → motive (c :: rest)) (s : List Char) : motive s := by
  induction s using scan.induct with
  | case1 => exact nil
  | case2 rest ih => exact crlf rest ih
  | case3 c rest hfirst name after hcut ih =>
    obtain ⟨hname, htext⟩ := cutToken?_eq_some_iff.1 hcut
    rw [htext]
    exact token name after hname ih
  | case4 c rest hfirst hcut ih =>
    refine char c rest (fun hc hhead ↦ ?_) hcut ih
    obtain ⟨rest', rfl⟩ := List.head?_eq_some_iff.1 hhead
    exact hfirst rest' hc rfl

/-! ### Units of a scan -/

/-- What scanning can give: tokens on the list, and characters of the kind that their unit says. -/
def Scanned : TextUnit → Prop
  | .token name => name ∈ controlNames
  | .newline => True
  | .special c => isSpecial c = true
  | .plain c => isSpecial c = false

theorem scanned_ofChar (c : Char) : (ofChar c).Scanned := by
  rw [ofChar]
  split
  · trivial
  · split
    · assumption
    · exact Bool.eq_false_iff.2 ‹_›

theorem scanned_of_mem_scan {s : List Char} : ∀ unit ∈ scan s, unit.Scanned := by
  induction s using scan_rec with
  | nil =>
    rw [scan_nil]
    exact nofun
  | crlf rest ih =>
    rw [scan_crlf]
    exact List.forall_mem_cons.2 ⟨trivial, ih⟩
  | token name rest hname ih =>
    rw [scan_token hname]
    exact List.forall_mem_cons.2 ⟨hname, ih⟩
  | char c rest hcrlf htoken ih =>
    rw [scan_char hcrlf htoken]
    exact List.forall_mem_cons.2 ⟨scanned_ofChar c, ih⟩

end TextUnit

end Macropad.Keys
