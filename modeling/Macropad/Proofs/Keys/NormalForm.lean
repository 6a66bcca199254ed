import Mathlib
import Macropad.Proofs.Keys.Concatenation

/-!
# Strokes in normal form

Strokes are in normal form if no text among them is empty and no two texts are neighbours. Merging
brings all strokes into this form (`isNormal_merge`), so the strokes of a key text and of every
group in it have it. The stroke of a single key or character behind modifiers is not merged with
anything; as one stroke it has no neighbours, but a character may be repeated zero times, and then
its text is empty (`Grammar.Atom.eq_of_empty`).

`parseKeys_isNormal` says that nothing else is out of the form: of every chord, at any depth, the
strokes are in normal form, unless the text has the chord as modifiers directly in front of a
character with a count of zero.
-/

set_option autoImplicit false

namespace Macropad.Keys

open Grammar

/-! ### Normal form -/

def KeyStroke.IsText (stroke : KeyStroke) : Prop := ∃ chars, stroke = .text chars

/-- No text is empty, and no text stands next to another one. -/
structure IsNormal (strokes : List KeyStroke) : Prop where
  not_empty : .text [] ∉ strokes
  parted : strokes.IsChain fun first next ↦ ¬(first.IsText ∧ next.IsText)

theorem isNormal_nil : IsNormal [] := ⟨List.not_mem_nil, .nil⟩

theorem isNormal_singleton {stroke : KeyStroke} (hstroke : stroke ≠ .text []) :
    IsNormal [stroke] :=
  ⟨mt List.mem_singleton.1 hstroke.symm, .singleton _⟩

theorem not_isNormal_empty : ¬IsNormal [.text []] :=
  fun hnormal ↦ hnormal.not_empty List.mem_cons_self

theorem isNormal_cons_iff {stroke : KeyStroke} {strokes : List KeyStroke} :
    IsNormal (stroke :: strokes) ↔ stroke ≠ .text [] ∧
      (∀ next ∈ strokes.head?, ¬(stroke.IsText ∧ next.IsText)) ∧ IsNormal strokes := by
  constructor
  · rintro ⟨hempty, hparted⟩
    rw [List.mem_cons, not_or] at hempty
    rw [List.isChain_cons] at hparted
    exact ⟨Ne.symm hempty.1, hparted.1, hempty.2, hparted.2⟩
  · rintro ⟨hstroke, hnext, hempty, hparted⟩
    exact ⟨List.not_mem_cons_of_ne_of_not_mem hstroke.symm hempty,
      List.isChain_cons.2 ⟨hnext, hparted⟩⟩

/-- A stroke in front of strokes in normal form joins them. -/
theorem IsNormal.prepend {strokes : List KeyStroke} (hstrokes : IsNormal strokes)
    (stroke : KeyStroke) : IsNormal (KeyStroke.prepend stroke strokes) := by
  by_cases hstroke : stroke.IsText
  · obtain ⟨s, rfl⟩ := hstroke
    rcases s with _ | ⟨c, s⟩
    · exact hstrokes
    cases strokes with
    | nil => exact isNormal_singleton nofun
    | cons next rest =>
      by_cases hnext : next.IsText
      · obtain ⟨t, rfl⟩ := hnext
        obtain ⟨-, hfollowing, hrest⟩ := isNormal_cons_iff.1 hstrokes
        refine isNormal_cons_iff.2 ⟨nofun, fun following hhead htexts ↦ ?_, hrest⟩
        exact hfollowing following hhead ⟨⟨t, rfl⟩, htexts.2⟩
      · rw [prepend_text_of_not_text (List.cons_ne_nil c s) hnext]
        refine isNormal_cons_iff.2 ⟨nofun, fun following hhead htexts ↦ ?_, hstrokes⟩
        exact hnext (Option.some.inj hhead ▸ htexts.2)
  · rw [prepend_of_not_text hstroke]
    have hne : stroke ≠ .text [] := fun hempty ↦ hstroke ⟨[], hempty⟩
    exact isNormal_cons_iff.2 ⟨hne, fun _ _ htexts ↦ hstroke htexts.1, hstrokes⟩

theorem isNormal_merge (strokes : List KeyStroke) : IsNormal (merge strokes) := by
  induction strokes with
  | nil =>
    rw [merge]
    exact isNormal_nil
  | cons stroke strokes ih =>
    rw [merge_cons]
    exact ih.prepend stroke

/-! ### Strokes at every depth -/

/-- The stroke is one of the strokes, or stands in a chord among them at some depth. -/
inductive Within (stroke : KeyStroke) : List KeyStroke → Prop
  | here {strokes : List KeyStroke} (hmem : stroke ∈ strokes) : Within stroke strokes
  | inside {modifiers : List Modifier} {inner strokes : List KeyStroke}
      (hchord : .chord modifiers inner ∈ strokes) (hinner : Within stroke inner) :
    Within stroke strokes

theorem not_within_nil (stroke : KeyStroke) : ¬Within stroke [] := by
  rintro (hmem | ⟨hchord, -⟩)
  · exact List.not_mem_nil hmem
  · exact List.not_mem_nil hchord

theorem within_cons {stroke first : KeyStroke} {strokes : List KeyStroke}
    (hwithin : Within stroke (first :: strokes)) :
    Within stroke [first] ∨ Within stroke strokes := by
  cases hwithin with
  | here hmem =>
    rcases List.mem_cons.1 hmem with rfl | hmem
    · exact .inl (.here List.mem_cons_self)
    · exact .inr (.here hmem)
  | inside hchord hinner =>
    rcases List.mem_cons.1 hchord with rfl | hchord
    · exact .inl (.inside List.mem_cons_self hinner)
    · exact .inr (.inside hchord hinner)

/-- Within one stroke there is nothing but itself, unless it is a chord. -/
theorem within_singleton {stroke first : KeyStroke} (hwithin : Within stroke [first]) :
    stroke = first ∨ ∃ modifiers inner, first = .chord modifiers inner ∧ Within stroke inner := by
  cases hwithin with
  | here hmem => exact .inl (List.mem_singleton.1 hmem)
  | inside hchord hinner => exact .inr ⟨_, _, (List.mem_singleton.1 hchord).symm, hinner⟩

theorem mem_of_mem_merge {modifiers : List Modifier} {inner strokes : List KeyStroke}
    (hchord : .chord modifiers inner ∈ merge strokes) : .chord modifiers inner ∈ strokes := by
  induction strokes with
  | nil =>
    rw [merge] at hchord
    exact absurd hchord List.not_mem_nil
  | cons stroke strokes ih =>
    rw [merge_cons] at hchord
    rcases mem_prepend hchord with rfl | hmem | ⟨chars, htext⟩
    · exact List.mem_cons_self
    · exact List.mem_cons_of_mem _ (ih hmem)
    · cases htext

/-- Merging changes no chord. -/
theorem within_of_merge {modifiers : List Modifier} {inner strokes : List KeyStroke}
    (hwithin : Within (.chord modifiers inner) (merge strokes)) :
    Within (.chord modifiers inner) strokes := by
  cases hwithin with
  | here hmem => exact .here (mem_of_mem_merge hmem)
  | inside hchord hinner => exact .inside (mem_of_mem_merge hchord) hinner

/-! ### Empty texts -/

theorem Grammar.Base.ne_chord {base : List Char} {stroke : UInt32 → KeyStroke}
    (hbase : Base base stroke) (n : UInt32) (modifiers : List Modifier) (inner : List KeyStroke) :
    stroke n ≠ .chord modifiers inner := by
  cases hbase <;> exact nofun

theorem Grammar.Atom.ne_chord {s : List Char} {stroke : KeyStroke} (hatom : Atom s stroke)
    (modifiers : List Modifier) (inner : List KeyStroke) : stroke ≠ .chord modifiers inner := by
  cases hatom with
  | enter | closingBrace | plain => exact nofun
  | braced _ hbody =>
    cases hbody with
    | once hbase | counted hbase => exact hbase.ne_chord _ modifiers inner

theorem Grammar.Atom.not_within {s : List Char} {stroke : KeyStroke} (hatom : Atom s stroke)
    (modifiers : List Modifier) (inner : List KeyStroke) :
    ¬Within (.chord modifiers inner) [stroke] := by
  intro hwithin
  rcases within_singleton hwithin with hchord | ⟨_, _, hchord, -⟩
  · exact hatom.ne_chord _ _ hchord.symm
  · exact hatom.ne_chord _ _ hchord

theorem Grammar.Base.eq_of_empty {base : List Char} {stroke : UInt32 → KeyStroke} {n : UInt32}
    (hbase : Base base stroke) (hempty : stroke n = .text []) : n = 0 ∧ ∃ c, base = [c] := by
  cases hbase with
  | char c =>
    have hzero : n.toNat = 0 := (List.replicate_eq_nil_iff c).1 (KeyStroke.text.inj hempty)
    exact ⟨UInt32.toNat_inj.1 hzero, c, rfl⟩
  | name => cases hempty

/-- An atom that types nothing is a character with a count of zero. -/
theorem Grammar.Atom.eq_of_empty {s : List Char} (hatom : Atom s (.text [])) :
    ∃ c count, Number.readWord32 count = some 0 ∧ s = '{' :: c :: ' ' :: count ++ ['}'] := by
  generalize hstroke : KeyStroke.text [] = stroke at hatom
  cases hatom with
  | enter | closingBrace | plain => cases hstroke
  | braced _ hbody =>
    cases hbody with
    | once hbase => exact absurd (hbase.eq_of_empty hstroke.symm).1 (by decide)
    | counted hbase hcount =>
      obtain ⟨rfl, c, rfl⟩ := hbase.eq_of_empty hstroke.symm
      exact ⟨c, _, hcount, rfl⟩

/-- The chord is written as modifiers in front of a character with a count of zero. -/
structure TypesNothing (s : List Char) (modifiers : List Modifier) (inner : List KeyStroke) :
    Prop where
  ne_nil : modifiers ≠ []
  inner_eq : inner = [.text []]
  written : ∃ c count, Number.readWord32 count = some 0 ∧
    marks modifiers ++ '{' :: c :: ' ' :: count ++ ['}'] <:+: s

theorem TypesNothing.mono {s t : List Char} {modifiers : List Modifier} {inner : List KeyStroke}
    (hnothing : TypesNothing s modifiers inner) (hst : s <:+: t) :
    TypesNothing t modifiers inner := by
  obtain ⟨hne, hinner, c, count, hcount, hwritten⟩ := hnothing
  exact ⟨hne, hinner, c, count, hcount, hwritten.trans hst⟩

/-! ### Chords -/

/-- Every chord of a derivation has strokes in normal form, or types nothing. -/
theorem Grammar.Sequence.isNormal {s : List Char} {units : List KeyStroke}
    (hsequence : Sequence s units) {modifiers : List Modifier} {inner : List KeyStroke}
    (hwithin : Within (.chord modifiers inner) units) :
    IsNormal inner ∨ TypesNothing s modifiers inner := by
  induction hsequence with
  | nil => exact absurd hwithin (not_within_nil _)
  | atom hatom _ ih =>
    rcases within_cons hwithin with hunit | hbehind
    · exact absurd hunit (hatom.not_within modifiers inner)
    · exact (ih hbehind).imp id (TypesNothing.mono · (List.suffix_append _ _).isInfix)
  | @modified _ _ _ stroke _ hne hatom _ ih =>
    rcases within_cons hwithin with hunit | hbehind
    · rcases within_singleton hunit with hchord | ⟨_, _, hchord, hinside⟩
      · obtain ⟨rfl, rfl⟩ := KeyStroke.chord.inj hchord
        by_cases hstroke : stroke = .text []
        · subst hstroke
          obtain ⟨c, count, hcount, rfl⟩ := hatom.eq_of_empty
          refine .inr ⟨hne, rfl, c, count, hcount, ?_⟩
          rw [← List.append_assoc]
          exact (List.prefix_append _ _).isInfix
        · exact .inl (isNormal_singleton hstroke)
      · obtain ⟨rfl, rfl⟩ := KeyStroke.chord.inj hchord
        exact absurd hinside (hatom.not_within modifiers inner)
    · exact (ih hbehind).imp id (TypesNothing.mono · (List.suffix_append _ _).isInfix)
  | @group marked content rest units _ _ _ ihcontent ih =>
    rcases within_cons hwithin with hunit | hbehind
    · rcases within_singleton hunit with hchord | ⟨_, _, hchord, hinside⟩
      · obtain ⟨rfl, rfl⟩ := KeyStroke.chord.inj hchord
        exact .inl (isNormal_merge units)
      · obtain ⟨rfl, rfl⟩ := KeyStroke.chord.inj hchord
        have hinfix : content <:+: marks marked ++ '(' :: content ++ ')' :: rest :=
          ⟨marks marked ++ ['('], ')' :: rest, by simp⟩
        exact (ihcontent (within_of_merge hinside)).imp id (TypesNothing.mono · hinfix)
    · have hsuffix : rest <:+ marks marked ++ '(' :: content ++ ')' :: rest :=
        (List.suffix_cons _ _).trans (List.suffix_append _ _)
      exact (ih hbehind).imp id (TypesNothing.mono · hsuffix.isInfix)

/-- The strokes of a key text are in normal form, and so are the strokes of every chord among them,
at any depth. Only a chord that the text writes as modifiers in front of a character with a count of
zero has one empty text instead. -/
theorem parseKeys_isNormal {s : List Char} {strokes : List KeyStroke}
    (hparse : parseKeys s = .ok strokes) :
    IsNormal strokes ∧ ∀ modifiers inner, Within (.chord modifiers inner) strokes →
      IsNormal inner ∨ TypesNothing s modifiers inner := by
  obtain ⟨units, hsequence, rfl⟩ := parseKeys_eq_ok_iff.1 hparse
  exact ⟨isNormal_merge units, fun _ _ hwithin ↦ hsequence.isNormal (within_of_merge hwithin)⟩

/-- A character that is repeated zero times leaves no trace in a group, but it does alone behind a
modifier. -/
theorem parseKeys_isNormal_of_nested :
    parseKeys "%(^(b\x7bc 0\x7dd)+\x7be 0\x7d)f".toList =
        .ok [.chord [.alt] [.chord [.control] [.text ['b', 'd']], .chord [.shift] [.text []]],
          .text ['f']] ∧
      IsNormal [.text ['b', 'd']] ∧
      TypesNothing "%(^(b\x7bc 0\x7dd)+\x7be 0\x7d)f".toList [.shift] [.text []] := by
  have hparse : parseKeys "%(^(b\x7bc 0\x7dd)+\x7be 0\x7d)f".toList =
      .ok [.chord [.alt] [.chord [.control] [.text ['b', 'd']], .chord [.shift] [.text []]],
        .text ['f']] := by
    cbv
  have hchords := (parseKeys_isNormal hparse).2
  have hgroup := hchords [.control] [.text ['b', 'd']]
    (.inside List.mem_cons_self (.here List.mem_cons_self))
  have hsingle := hchords [.shift] [.text []]
    (.inside List.mem_cons_self (.here (List.mem_cons_of_mem _ List.mem_cons_self)))
  refine ⟨hparse, hgroup.resolve_right fun hnothing ↦ ?_, hsingle.resolve_left not_isNormal_empty⟩
  cases hnothing.inner_eq

/-- A modified character that is repeated zero times leaves an empty text in its chord. -/
theorem emptied_not_isNormal :
    parseKeys "^\x7ba 0\x7d".toList = .ok [.chord [.control] [.text []]] ∧
      ¬IsNormal [.text []] := by
  refine ⟨?_, not_isNormal_empty⟩
  cbv

end Macropad.Keys
