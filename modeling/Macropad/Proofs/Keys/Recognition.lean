import Mathlib
import Macropad.Proofs.Keys.Reading

/-!
# Key text is read by its grammar

The reader accepts what the grammar derives and gets the strokes of the only derivation.

An atom of the grammar is read as its stroke, whatever stands behind it (`Atom.reads`), and the
reader takes nothing else for an atom (`atom_of_reads`). From there on a sequence is read by
induction on its derivation, in front of any text that is read itself, which for the content of a
group is its closing parenthesis (`Sequence.reads`). Conversely everything that is read up to the
end of the text or of a group has a derivation (`exists_sequence_of_reads`); this induction is on
the length of the text, because what follows a unit is no part of it. Since the reader finds the
end of each unit in one way only, a text has one derivation (`Sequence.unique`).
-/

set_option autoImplicit false

namespace Macropad.Keys

open Grammar Reader

/-! ### Atoms -/

theorem ofChar?_of_plain {c : Char} (hc : c ∉ ['^', '%', '+', '~', '{', '(', ')']) :
    Modifier.ofChar? c = none := by
  cases hmodifier : Modifier.ofChar? c with
  | none => rfl
  | some modifier =>
    obtain rfl : c = modifier.mark := ofChar?_eq_some_iff.1 hmodifier
    exact absurd (by cases modifier <;> decide) hc

/-- An atom is read as its stroke, whatever stands behind it. -/
theorem Grammar.Atom.reads {s : List Char} {stroke : KeyStroke} (hatom : Atom s stroke) :
    ∃ c tail, s = c :: tail ∧ c ≠ ')' ∧ c ≠ '(' ∧ Modifier.ofChar? c = none ∧
      ∀ rest, AtomReads c (tail ++ rest) stroke rest := by
  cases hatom with
  | enter =>
    exact ⟨'~', [], rfl, by decide, by decide, by decide, fun rest ↦ ⟨by simp, rfl⟩⟩
  | closingBrace =>
    exact ⟨'{', ['}', '}'], rfl, by decide, by decide, by decide,
      fun rest ↦ atomReads_closingBrace rest⟩
  | @braced body _ hbrace hbody =>
    refine ⟨'{', body ++ ['}'], rfl, by decide, by decide, by decide, fun rest ↦ ?_⟩
    have hreads := atomReads_body hbody.ne_nil hbrace (ofBody_eq_ok_iff.2 hbody) rest
    rwa [List.append_assoc]
  | @plain c hc =>
    have hne {special : Char} (hspecial : special ∈ ['^', '%', '+', '~', '{', '(', ')']) :
        c ≠ special :=
      fun heq ↦ hc (heq ▸ hspecial)
    exact ⟨c, [], rfl, hne (by decide), hne (by decide), ofChar?_of_plain hc,
      fun rest ↦ atomReads_plain (hne (by decide)) (hne (by decide)) rest⟩

/-- What is read behind an opening brace is a closing one or a body. -/
theorem atom_of_braced {s rest : List Char} {stroke : KeyStroke}
    {hlength : rest.length < ('{' :: s).length} (hread : braced s = .ok (stroke, ⟨rest, hlength⟩)) :
    ∃ atom, '{' :: s = atom ++ rest ∧ Atom atom stroke := by
  unfold braced at hread
  split at hread
  · cases hread
    exact ⟨_, rfl, .closingBrace⟩
  · split at hread
    · cases hread
    · rename_i body after hcut
      split at hread
      · cases hread
      · rename_i hbody
        cases hread
        obtain ⟨rfl, hbrace⟩ := Text.cutFirst_eq_some_iff.1 hcut
        exact ⟨'{' :: body ++ ['}'], by simp, .braced hbrace (ofBody_eq_ok_iff.1 hbody)⟩

/-- What is read as an atom is one. -/
theorem atom_of_reads {c : Char} {s rest : List Char} {stroke : KeyStroke} (hclose : c ≠ ')')
    (hopen : c ≠ '(') (hmodifier : Modifier.ofChar? c = none)
    (hreads : AtomReads c s stroke rest) :
    ∃ atom, c :: s = atom ++ rest ∧ Atom atom stroke := by
  obtain ⟨hlength, hread⟩ := hreads
  by_cases hbrace : c = '{'
  · subst hbrace
    rw [atom_brace] at hread
    exact atom_of_braced hread
  rw [atom, dif_neg hbrace] at hread
  split at hread
  · rename_i htilde
    cases hread
    exact ⟨['~'], by rw [htilde]; rfl, .enter⟩
  · rename_i htilde
    cases hread
    refine ⟨[c], rfl, .plain ?_⟩
    have hmark (modifier : Modifier) : c ≠ modifier.mark := fun hc ↦ by
      cases hmodifier.symm.trans (ofChar?_eq_some_iff.2 hc)
    simp only [List.mem_cons, List.not_mem_nil, or_false, not_or]
    exact ⟨hmark .control, hmark .alt, hmark .shift, htilde, hbrace, hopen, hclose⟩

/-! ### Sequences -/

/-- An atom with its modifiers is the unit at the front, whatever stands behind it. -/
theorem Grammar.Atom.front {atom : List Char} {stroke : KeyStroke} (hatom : Atom atom stroke)
    (modifiers : List Modifier) (rest : List Char) :
    Front (marks modifiers ++ atom ++ rest) (modified modifiers stroke) rest := by
  obtain ⟨c, tail, rfl, hclose, hopen, hmodifier, hreads⟩ := hatom.reads
  rw [List.append_assoc]
  exact .atom modifiers hclose hopen hmodifier (hreads rest)

theorem Grammar.Atom.front_chord {atom : List Char} {stroke : KeyStroke} (hatom : Atom atom stroke)
    {modifiers : List Modifier} (hne : modifiers ≠ []) (rest : List Char) :
    Front (marks modifiers ++ atom ++ rest) (.chord modifiers [stroke]) rest := by
  have hfront := hatom.front modifiers rest
  rwa [Reader.modified, if_neg hne] at hfront

/-- The strokes of a derivation are read in front of those of the text behind it. -/
theorem Grammar.Sequence.reads {s : List Char} {units : List KeyStroke}
    (hsequence : Sequence s units) {group : Option (List Char)} {rest last : List Char}
    {strokes : List KeyStroke} (hrest : Reads group rest strokes last) :
    Reads group (s ++ rest) (units.foldr KeyStroke.prepend strokes) last := by
  induction hsequence generalizing group rest strokes last with
  | nil => exact hrest
  | atom hatom _ ih =>
    rw [List.append_assoc]
    exact (hatom.front [] _).reads (ih hrest)
  | modified hne hatom _ ih =>
    rw [List.append_assoc]
    exact (hatom.front_chord hne _).reads (ih hrest)
  | @group modifiers inner behind content _ _ _ ihinner ih =>
    have hfront : Front (marks modifiers ++ '(' :: (inner ++ ')' :: (behind ++ rest)))
        (.chord modifiers (merge content)) (behind ++ rest) :=
      merge_eq_foldr content ▸ .group modifiers (ihinner (reads_closed _ _))
    simp only [List.append_assoc, List.cons_append]
    exact hfront.reads (ih hrest)

/-- What stands behind a sequence that is read: nothing, or the end of its group. -/
def Ends (group : Option (List Char)) (last behind : List Char) : Prop :=
  match group with
  | none => last = [] ∧ behind = []
  | some _ => behind = ')' :: last

/-- A text that can be put in front of every sequence, as one more unit. -/
def IsUnitText (text : List Char) (stroke : KeyStroke) : Prop :=
  ∀ rest strokes, Sequence rest strokes → Sequence (text ++ rest) (stroke :: strokes)

/-- The unit at the front of a text is one of the grammar, if the content of a group is a
sequence. -/
theorem exists_unit_of_front {s rest : List Char} {stroke : KeyStroke}
    (hfront : Front s stroke rest)
    (hcontent : ∀ start inner strokes, inner.length < s.length →
      Reads (some start) inner strokes rest →
      ∃ content units, inner = content ++ ')' :: rest ∧ Sequence content units ∧
        strokes = merge units) :
    ∃ text, s = text ++ rest ∧ IsUnitText text stroke := by
  cases hfront with
  | @group modifiers inner _ strokes hinner =>
    have hlength : inner.length < (marks modifiers ++ '(' :: inner).length := by
      rw [List.length_append, List.length_cons]
      omega
    obtain ⟨content, units, rfl, hsequence, rfl⟩ := hcontent _ _ _ hlength hinner
    refine ⟨marks modifiers ++ '(' :: content ++ [')'], by simp, fun behind others hothers ↦ ?_⟩
    have hgroup := Sequence.group modifiers hsequence hothers
    rwa [List.append_assoc]
  | @atom modifiers _ _ _ stroke hclose hopen hmodifier hatom =>
    obtain ⟨atom, htext, hatom⟩ := atom_of_reads hclose hopen hmodifier hatom
    refine ⟨marks modifiers ++ atom, by rw [htext, List.append_assoc], ?_⟩
    intro behind others hothers
    by_cases hne : modifiers = []
    · rw [hne]
      exact .atom hatom hothers
    · rw [Reader.modified, if_neg hne]
      exact .modified hne hatom hothers

/-- What is read up to the end of the text or of a group has a derivation. -/
theorem exists_sequence_of_reads {group : Option (List Char)} {s last : List Char}
    {strokes : List KeyStroke} (hreads : Reads group s strokes last) :
    ∃ inner units behind, s = inner ++ behind ∧ Sequence inner units ∧ strokes = merge units ∧
      Ends group last behind := by
  induction hlength : s.length using Nat.strongRecOn generalizing group s strokes last with
  | _ length ih =>
    subst hlength
    cases hreads.step with
    | finished => exact ⟨[], [], [], rfl, .nil, by rw [merge], rfl, rfl⟩
    | closed start rest => exact ⟨[], [], ')' :: last, rfl, .nil, by rw [merge], rfl⟩
    | @unit _ _ rest _ stroke others hfront hrest =>
      obtain ⟨text, rfl, hunit⟩ := exists_unit_of_front hfront
        fun start inner strokes hless hinner ↦ by
          obtain ⟨content, units, _, rfl, hsequence, hmerge, rfl⟩ := ih _ hless hinner rfl
          exact ⟨content, units, rfl, hsequence, hmerge⟩
      have hless : rest.length < (text ++ rest).length := hfront.length_lt
      obtain ⟨inner, units, behind, rfl, hsequence, rfl, hends⟩ := ih _ hless hrest rfl
      refine ⟨text ++ inner, stroke :: units, behind, (List.append_assoc _ _ _).symm,
        hunit _ _ hsequence, (merge_cons stroke units).symm, hends⟩

/-- The first unit of a derivation is the one that is read. -/
theorem Grammar.Sequence.front {s : List Char} {units : List KeyStroke}
    (hsequence : Sequence s units) :
    (s = [] ∧ units = []) ∨ ∃ stroke rest others, Front s stroke rest ∧ Sequence rest others ∧
      units = stroke :: others := by
  cases hsequence with
  | nil => exact .inl ⟨rfl, rfl⟩
  | atom hatom hrest => exact .inr ⟨_, _, _, hatom.front [] _, hrest, rfl⟩
  | modified hne hatom hrest => exact .inr ⟨_, _, _, hatom.front_chord hne _, hrest, rfl⟩
  | @group modifiers inner behind content _ hinner hrest =>
    have hreads := hinner.reads (reads_closed ('(' :: (inner ++ ')' :: behind)) behind)
    rw [← merge_eq_foldr] at hreads
    refine .inr ⟨_, _, _, ?_, hrest, rfl⟩
    rw [List.append_assoc]
    exact .group modifiers hreads

/-- A text has one derivation at most. -/
theorem Grammar.Sequence.unique {s : List Char} {units units' : List KeyStroke}
    (hsequence : Sequence s units) (hsequence' : Sequence s units') : units = units' := by
  induction hlength : s.length using Nat.strongRecOn generalizing s units units' with
  | _ length ih =>
    subst hlength
    rcases hsequence.front with ⟨hs, rfl⟩ | ⟨stroke, rest, others, hfront, hrest, rfl⟩ <;>
      rcases hsequence'.front with ⟨hs', rfl⟩ | ⟨stroke', rest', others', hfront', hrest', rfl⟩
    · rfl
    · exact absurd hfront'.length_lt (by simp [hs])
    · exact absurd hfront.length_lt (by simp [hs'])
    · obtain ⟨rfl, rfl⟩ := hfront.unique hfront'
      rw [ih rest.length hfront.length_lt hrest hrest' rfl]

/-! ### Key text -/

theorem parseKeys_eq_ok_iff {s : List Char} {strokes : List KeyStroke} :
    parseKeys s = .ok strokes ↔ ∃ units, Sequence s units ∧ strokes = merge units := by
  constructor
  · intro hparse
    rw [parseKeys] at hparse
    split at hparse
    · rename_i strokes' parsed hread
      cases hparse
      obtain ⟨inner, units, behind, hs, hsequence, hmerge, -, rfl⟩ :=
        exists_sequence_of_reads ⟨parsed.property, hread⟩
      rw [List.append_nil] at hs
      exact ⟨units, hs ▸ hsequence, hmerge⟩
    · cases hparse
  · rintro ⟨units, hsequence, rfl⟩
    have hreads := hsequence.reads reads_nil
    rw [List.append_nil] at hreads
    obtain ⟨_, hread⟩ := hreads
    rw [parseKeys, hread, merge_eq_foldr]

/-- Key text is read as the grammar derives it. The strokes of a text are those of a derivation,
merged, of which there is one at most; and reading a text comes to an error exactly when there is
none. -/
theorem parseKeys_grammar (s : List Char) :
    (∀ strokes, parseKeys s = .ok strokes ↔ ∃ units, Sequence s units ∧ strokes = merge units) ∧
      (∀ units units', Sequence s units → Sequence s units' → units = units') ∧
      ((∃ error, parseKeys s = .error error) ↔ ∀ units, ¬Sequence s units) := by
  refine ⟨fun _ ↦ parseKeys_eq_ok_iff, fun _ _ ↦ Sequence.unique, ?_⟩
  constructor
  · rintro ⟨error, hparse⟩ units hsequence
    cases hparse.symm.trans (parseKeys_eq_ok_iff.2 ⟨units, hsequence, rfl⟩)
  · intro hnone
    cases hparse : parseKeys s with
    | error error => exact ⟨error, rfl⟩
    | ok strokes =>
      obtain ⟨units, hsequence, -⟩ := parseKeys_eq_ok_iff.1 hparse
      exact absurd hsequence (hnone units)

/-- An empty text between two others in a group, and a blank three times. -/
theorem parseKeys_grammar_of_group :
    ∃ units, Sequence "^(a{b 0}c){  3}~".toList units ∧
      [.chord [.control] [.text ['a', 'c']], .text [' ', ' ', ' '], .key .enter 1] =
        merge units := by
  have hparse : parseKeys "^(a{b 0}c){  3}~".toList =
      .ok [.chord [.control] [.text ['a', 'c']], .text [' ', ' ', ' '], .key .enter 1] := by
    cbv
  exact ((parseKeys_grammar _).1 _).1 hparse

end Macropad.Keys
