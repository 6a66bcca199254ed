import Macropad.Screen.Image

/-!
# How references to images are written

A reference is the name of an image file, alone or with an anchor in angle brackets behind it. An
anchor is written as one of eight short names or as two runs of digits with a colon in between;
`Anchor.read_eq_some_iff` says that these are the texts that are read as anchors, each as the anchor
that it denotes.

Reading is more lenient than this form in one place: `ImageRef.parse_eq_ok_iff_written` says that a
text is read as an image exactly when it is written so, or when only the closing bracket is missing
to make it so.
-/

set_option autoImplicit false

namespace Macropad

/-- A run of digits with its value. -/
structure Number.IsNumeral (digits : List Char) (n : Nat) : Prop where
  ne_nil : digits ≠ []
  isDigit : ∀ c ∈ digits, c.isDigit
  value : Nat.ofDigitChars 10 digits 0 = n

theorem Number.readDigits_eq_some_iff {s : List Char} {n : Nat} :
    readDigits s = some n ↔ IsNumeral s n := by
  rw [readDigits]
  constructor
  · intro hread
    split at hread
    · rename_i hdigits
      exact ⟨hdigits.1, List.all_eq_true.1 hdigits.2, Option.some.inj hread⟩
    · cases hread
  · rintro ⟨hne, hdigits, rfl⟩
    exact if_pos ⟨hne, List.all_eq_true.2 hdigits⟩

namespace Screen

open Number

/-! ### Anchors -/

namespace Anchor

/-- The short name of a place on the edge of the box: its row, then its column. -/
def name? : Anchor → Option (List Char)
  | .topLeft => some ['t', 'l']
  | .topMiddle => some ['t', 'm']
  | .topRight => some ['t', 'r']
  | .middleLeft => some ['m', 'l']
  | .middleRight => some ['m', 'r']
  | .bottomLeft => some ['b', 'l']
  | .bottomMiddle => some ['b', 'm']
  | .bottomRight => some ['b', 'r']
  | .offset .. => none

/-- The texts that denote an anchor. -/
inductive Written : Anchor → List Char → Prop
  | named {anchor : Anchor} {name : List Char} (hname : anchor.name? = some name) :
    Written anchor name
  | offset {left right : List Char} {dx dy : Nat} (hleft : IsNumeral left dx)
      (hdx : dx < signedLimit) (hright : IsNumeral right dy) (hdy : dy < signedLimit) :
    Written (.offset dx dy) (left ++ ':' :: right)

theorem name?_of_mem_named : ∀ entry ∈ named, entry.2.name? = some entry.1.toList := by decide

theorem lookup_named_iff {name : List Char} {anchor : Anchor} :
    named.lookup (String.ofList name) = some anchor ↔ anchor.name? = some name := by
  constructor
  · intro hlookup
    obtain ⟨before, after, hentries, -⟩ := List.lookup_eq_some_iff.1 hlookup
    have hmem : (String.ofList name, anchor) ∈ named :=
      hentries ▸ List.mem_append_right before List.mem_cons_self
    have hname := name?_of_mem_named _ hmem
    rwa [String.toList_ofList] at hname
  · intro hname
    cases anchor with
    | offset => cases hname
    | _ =>
      obtain rfl := Option.some.inj hname
      decide

theorem readOffset_eq_some_iff {s : List Char} {anchor : Anchor} :
    readOffset s = some anchor ↔
      ∃ left right dx dy, s = left ++ ':' :: right ∧ IsNumeral left dx ∧ dx < signedLimit ∧
        IsNumeral right dy ∧ dy < signedLimit ∧ anchor = .offset dx dy := by
  simp only [readOffset, Option.bind_eq_bind, Option.pure_def, Option.bind_eq_some_iff,
    Option.filter_eq_some_iff, decide_eq_true_eq, readDigits_eq_some_iff, Prod.exists,
    Text.cutFirst_eq_some_iff, Option.some.injEq]
  constructor
  · rintro ⟨left, right, ⟨rfl, -⟩, dx, ⟨hleft, hdx⟩, dy, ⟨hright, hdy⟩, rfl⟩
    exact ⟨left, right, dx, dy, rfl, hleft, hdx, hright, hdy, rfl⟩
  · rintro ⟨left, right, dx, dy, rfl, hleft, hdx, hright, hdy, rfl⟩
    have hcolon : ':' ∉ left := fun hmem ↦ absurd (hleft.isDigit _ hmem) (by decide)
    exact ⟨left, right, ⟨rfl, hcolon⟩, dx, ⟨hleft, hdx⟩, dy, ⟨hright, hdy⟩, rfl⟩

/-- Names have no colon, so that no text is both a name and an offset. -/
theorem colon_not_mem_name {anchor : Anchor} {name : List Char}
    (hname : anchor.name? = some name) : ':' ∉ name := by
  cases anchor with
  | offset => cases hname
  | _ =>
    obtain rfl := Option.some.inj hname
    decide

/-- The texts that are read as an anchor are the ones that denote it. -/
theorem read_eq_some_iff {s : List Char} {anchor : Anchor} :
    read s = some anchor ↔ anchor.Written s := by
  rw [read]
  cases hlookup : named.lookup (String.ofList s) with
  | some other =>
    have hother := lookup_named_iff.1 hlookup
    constructor
    · rintro ⟨⟩
      exact .named hother
    · intro hwritten
      cases hwritten with
      | named hname => exact hlookup.symm.trans (lookup_named_iff.2 hname)
      | offset hleft hdx hright hdy =>
        exact absurd (List.mem_append_right _ List.mem_cons_self) (colon_not_mem_name hother)
  | none =>
    constructor
    · intro hoffset
      obtain ⟨left, right, dx, dy, rfl, hleft, hdx, hright, hdy, rfl⟩ :=
        readOffset_eq_some_iff.1 hoffset
      exact .offset hleft hdx hright hdy
    · intro hwritten
      cases hwritten with
      | named hname => cases hlookup.symm.trans (lookup_named_iff.2 hname)
      | offset hleft hdx hright hdy =>
        exact readOffset_eq_some_iff.2 ⟨_, _, _, _, rfl, hleft, hdx, hright, hdy, rfl⟩

theorem parse_eq_ok_iff {s : String} {anchor : Anchor} :
    parse s = .ok anchor ↔ anchor.Written s.toList := by
  rw [parse, ← read_eq_some_iff]
  cases read s.toList <;> simp

/-- A bracket that closes an anchor is none of its characters. -/
theorem Written.bracket_not_mem {anchor : Anchor} {text : List Char}
    (hwritten : anchor.Written text) : '>' ∉ text := by
  cases hwritten with
  | named hname =>
    cases anchor with
    | offset => cases hname
    | _ =>
      obtain rfl := Option.some.inj hname
      decide
  | offset hleft hdx hright hdy =>
    rw [List.mem_append, List.mem_cons, not_or, not_or]
    have hdigit : '>'.isDigit ≠ true := by decide
    exact ⟨fun hmem ↦ hdigit (hleft.isDigit _ hmem), by decide,
      fun hmem ↦ hdigit (hright.isDigit _ hmem)⟩

end Anchor

/-! ### References -/

namespace ImageRef

/-- The name of an image file: the extension with something in front of it, and no opening
bracket. -/
structure IsFile (file : List Char) : Prop where
  noBracket : '<' ∉ file
  extension : ∃ name, name ≠ [] ∧ file = name ++ ['.', 'p', 'n', 'g']

/-- The texts that refer to an image. -/
inductive Written : ImageRef → List Char → Prop
  | plain {file : List Char} (hfile : IsFile file) : Written ⟨String.ofList file, none⟩ file
  | anchored {file text : List Char} {anchor : Anchor} (hfile : IsFile file)
      (hanchor : anchor.Written text) :
    Written ⟨String.ofList file, some anchor⟩ (file ++ '<' :: text ++ ['>'])

theorem isFile_iff {file : List Char} :
    IsFile file ↔ '<' ∉ file ∧ isImageFile file = true := by
  have hextension : imageExtension.toList = ['.', 'p', 'n', 'g'] := by decide
  rw [isImageFile, Bool.and_eq_true, List.isSuffixOf_iff_suffix, bne_iff_ne, hextension]
  constructor
  · rintro ⟨hbracket, name, hname, rfl⟩
    refine ⟨hbracket, List.suffix_append name _, ?_⟩
    rw [List.length_append, ne_eq, Nat.add_eq_right]
    exact mt List.length_eq_zero_iff.1 hname
  · rintro ⟨hbracket, ⟨name, rfl⟩, hlength⟩
    refine ⟨hbracket, name, ?_, rfl⟩
    rintro rfl
    exact hlength rfl

section Parse

variable {argument : String} {image : ImageRef} {file rest : List Char}

/-- Without an opening bracket the text is the name of the file. -/
theorem parse_of_no_bracket (hcut : Text.cutFirst '<' argument.toList = none) :
    parse argument = .ok image ↔ IsFile argument.toList ∧ image = ⟨argument, none⟩ := by
  have hfile : IsFile argument.toList ↔ isImageFile argument.toList = true :=
    isFile_iff.trans (and_iff_right (Text.cutFirst_eq_none_iff.1 hcut))
  simp only [parse, hcut, hfile]
  by_cases himage : isImageFile argument.toList = true <;> simp [himage, eq_comm]

/-- The first opening bracket is the one in front of the anchor. -/
theorem parse_of_bracket (hcut : Text.cutFirst '<' argument.toList = some (file, rest)) :
    parse argument = .ok image ↔
      ∃ anchor : Anchor, anchor.Written (Text.dropLastIf '>' rest) ∧ IsFile file ∧
        image = ⟨String.ofList file, some anchor⟩ := by
  have hfile : IsFile file ↔ isImageFile file = true :=
    isFile_iff.trans (and_iff_right (Text.cutFirst_eq_some_iff.1 hcut).2)
  have hanchor (anchor : Anchor) : Anchor.parse (String.ofList (Text.dropLastIf '>' rest)) =
      .ok anchor ↔ anchor.Written (Text.dropLastIf '>' rest) := by
    rw [Anchor.parse_eq_ok_iff, String.toList_ofList]
  simp only [parse, hcut, hfile, ← hanchor]
  cases Anchor.parse (String.ofList (Text.dropLastIf '>' rest)) with
  | error fault => simp [bind, Except.bind]
  | ok anchor =>
    by_cases himage : isImageFile file = true <;>
      simp [bind, Except.bind, pure, Except.pure, himage, eq_comm]

end Parse

/-- The name of a file does not end in a bracket. -/
theorem IsFile.ne_concat {file s : List Char} (hfile : IsFile file) : file ≠ s ++ ['>'] := by
  obtain ⟨-, name, -, rfl⟩ := hfile
  intro hends
  have hlast := congrArg List.getLast? hends
  rw [List.getLast?_append, List.getLast?_concat] at hlast
  cases hlast

/-- The text between the brackets, whether the second one is there or not. -/
theorem dropLastIf_bracket_iff {anchor : Anchor} {text rest : List Char}
    (hanchor : anchor.Written text) :
    Text.dropLastIf '>' rest = text ↔ rest = text ++ ['>'] ∨ rest = text := by
  have hbracket := hanchor.bracket_not_mem
  rw [Text.dropLastIf]
  constructor
  · intro hdrop
    split at hdrop
    · rename_i hlast
      obtain ⟨inner, rfl⟩ := List.getLast?_eq_some_iff.1 hlast
      rw [List.dropLast_concat] at hdrop
      exact .inl (hdrop ▸ rfl)
    · exact .inr hdrop
  · rintro (rfl | rfl)
    · rw [if_pos List.getLast?_concat, List.dropLast_concat]
    · exact if_neg fun hlast ↦ hbracket (List.mem_of_getLast? hlast)

/-- What is written, or would be with one more bracket, is read. -/
theorem Written.parse_eq_ok {image : ImageRef} {s : List Char} (hwritten : image.Written s)
    {argument : String} (hs : s = argument.toList ∨ s = argument.toList ++ ['>']) :
    parse argument = .ok image := by
  cases hwritten with
  | plain hfile =>
    obtain rfl | hends := hs
    · have hcut := Text.cutFirst_eq_none_iff.2 hfile.noBracket
      exact (parse_of_no_bracket hcut).2 ⟨hfile, by rw [String.ofList_toList]⟩
    · exact absurd hends hfile.ne_concat
  | @anchored file text anchor hfile hanchor =>
    obtain ⟨rest, hargument, hrest⟩ : ∃ rest, argument.toList = file ++ '<' :: rest ∧
        (rest = text ++ ['>'] ∨ rest = text) := by
      obtain hfull | hopen := hs
      · rw [List.append_assoc, List.cons_append] at hfull
        exact ⟨text ++ ['>'], hfull.symm, .inl rfl⟩
      · exact ⟨text, (List.append_cancel_right hopen).symm, .inr rfl⟩
    have hcut := Text.cutFirst_eq_some_iff.2 ⟨hargument, hfile.noBracket⟩
    have htext := (dropLastIf_bracket_iff hanchor).2 hrest
    exact (parse_of_bracket hcut).2 ⟨anchor, htext.symm ▸ hanchor, hfile, rfl⟩

/-- What is read is written, or would be with one more bracket. -/
theorem written_of_parse {argument : String} {image : ImageRef}
    (hparse : parse argument = .ok image) :
    image.Written argument.toList ∨ image.Written (argument.toList ++ ['>']) := by
  cases hcut : Text.cutFirst '<' argument.toList with
  | none =>
    obtain ⟨hfile, rfl⟩ := (parse_of_no_bracket hcut).1 hparse
    have hplain := Written.plain hfile
    rw [String.ofList_toList] at hplain
    exact .inl hplain
  | some parts =>
    obtain ⟨file, rest⟩ := parts
    obtain ⟨anchor, hanchor, hfile, rfl⟩ := (parse_of_bracket hcut).1 hparse
    have hwritten := Written.anchored hfile hanchor
    have hargument := (Text.cutFirst_eq_some_iff.1 hcut).1
    obtain hrest | hrest := (dropLastIf_bracket_iff hanchor).1 rfl
    · rw [List.append_assoc, List.cons_append, ← hrest, ← hargument] at hwritten
      exact .inl hwritten
    · rw [← hrest, ← hargument] at hwritten
      exact .inr hwritten

/-- A text is read as an image exactly when it is written so, or when nothing but the closing
bracket is missing. -/
theorem parse_eq_ok_iff_written {argument : String} {image : ImageRef} :
    parse argument = .ok image ↔
      image.Written argument.toList ∨ image.Written (argument.toList ++ ['>']) := by
  constructor
  · exact written_of_parse
  · rintro (hwritten | hwritten)
    · exact hwritten.parse_eq_ok (.inl rfl)
    · exact hwritten.parse_eq_ok (.inr rfl)

/-- A reference whose bracket is never closed is read, though no image is written so. -/
theorem unclosed_read :
    parse "icon.png<tl" = .ok ⟨"icon.png", some .topLeft⟩ ∧
      ∀ image : ImageRef, ¬ image.Written "icon.png<tl".toList := by
  refine ⟨by rfl, fun image hwritten ↦ ?_⟩
  generalize hs : "icon.png<tl".toList = s at hwritten
  cases hwritten with
  | plain hfile =>
    subst hs
    exact hfile.noBracket (by decide)
  | anchored hfile hanchor =>
    have hlast := congrArg List.getLast? hs
    rw [List.getLast?_concat] at hlast
    cases hlast

end ImageRef

end Screen

end Macropad
