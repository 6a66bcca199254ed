import Mathlib
import Macropad.Proofs.Keys.Recognition

/-!
# How reading fails

`Trouble` lists what can go wrong with a text: it ends inside of a group, a parenthesis closes
nothing, modifiers have no key behind them, an atom or the content of a group cannot be read, or
something is wrong behind the unit at the front. Every error of the reader is one of these
(`trouble_of_error`), and what is wrong behind a unit is wrong with the text that begins with it
(`Front.fails`).

`Placed` says what an error means for the text as a whole: where its place is and what stands
around it. Units in front of a text and a group around it keep this (`Placed.behind`,
`Placed.inGroup`), so it holds of every error (`placed_of_error`); the place of an error is an end
of the text, or the opening of the group around it (`place_of_error`).
-/

set_option autoImplicit false

namespace Macropad.Keys

/-- The place of an error, if it has one. -/
def KeyError.place? {At : Type} : KeyError At → Option At
  | .unclosedBrace place | .unclosedGroup place | .unexpectedClose place => some place
  | .unknownKey _ | .danglingModifier _ => none

theorem KeyError.mapPlace_congr {At To : Type} {f g : At → To} {e : KeyError At}
    (h : ∀ place, e.place? = some place → f place = g place) : e.mapPlace f = e.mapPlace g := by
  cases e with
  | unknownKey | danglingModifier => rfl
  | unclosedBrace place => exact congrArg KeyError.unclosedBrace (h place rfl)
  | unclosedGroup place => exact congrArg KeyError.unclosedGroup (h place rfl)
  | unexpectedClose place => exact congrArg KeyError.unexpectedClose (h place rfl)

theorem KeyError.mapPlace_mapPlace {At To Beyond : Type} (f : At → To) (g : To → Beyond)
    (e : KeyError At) : (e.mapPlace f).mapPlace g = e.mapPlace fun place ↦ g (f place) := by
  cases e <;> rfl

namespace Reader

open Grammar

/-- What is wrong with a text, inside of a group or not. -/
inductive Trouble : Option (List Char) → List Char → Failure → Prop
  | unclosed (start : List Char) : Trouble (some start) [] (.unclosedGroup start)
  | unexpected (rest : List Char) : Trouble none (')' :: rest) (.unexpectedClose (')' :: rest))
  | dangling {group : Option (List Char)} (modifier : Modifier) (modifiers : List Modifier)
      {rest : List Char} (hrest : rest.head? = none ∨ rest.head? = some ')') :
    Trouble group (marks (modifier :: modifiers) ++ rest) (.danglingModifier modifier.mark)
  | group {group : Option (List Char)} (modifiers : List Modifier) {s : List Char} {e : Failure}
      (hinner : sequence (some ('(' :: s)) s = .error e) :
    Trouble group (marks modifiers ++ '(' :: s) e
  | atom {group : Option (List Char)} (modifiers : List Modifier) {c : Char} {s : List Char}
      {e : Failure} (hclose : c ≠ ')') (hopen : c ≠ '(') (hmodifier : Modifier.ofChar? c = none)
      (hatom : atom c s = .error e) : Trouble group (marks modifiers ++ c :: s) e
  | behind {group : Option (List Char)} {s rest : List Char} {stroke : KeyStroke} {e : Failure}
      (hfront : Front s stroke rest) (hrest : sequence group rest = .error e) : Trouble group s e

/-- A text that is nothing but modifiers. -/
theorem eq_marks_of_cutModifiers {s : List Char} {modifiers : List Modifier}
    (hcut : cutModifiers s = (modifiers, [])) : s = marks modifiers := by
  induction s generalizing modifiers with
  | nil =>
    cases hcut
    rfl
  | cons first rest ih =>
    rw [cutModifiers] at hcut
    split at hcut
    · cases hcut
    · rename_i modifier hfirst
      obtain ⟨rfl, hafter⟩ := Prod.mk.inj hcut
      rw [marks, List.map_cons, ← marks, ← ih (Prod.ext rfl hafter), ofChar?_eq_some_iff.1 hfirst]

/-- The first character is the first modifier, if there is one. -/
theorem eq_mark_of_marks {first : Char} {tail rest : List Char} {modifiers : List Modifier}
    (hs : first :: tail = marks modifiers ++ rest) (hrest : rest.head? ≠ some first) :
    ∃ modifier others, modifiers = modifier :: others ∧ first = modifier.mark := by
  cases modifiers with
  | nil =>
    rw [marks, List.map_nil, List.nil_append] at hs
    exact absurd (congrArg List.head? hs).symm hrest
  | cons modifier others => exact ⟨modifier, others, rfl, (List.cons.inj hs).1⟩

theorem trouble_of_error {group : Option (List Char)} {s : List Char} {e : Failure}
    (hread : sequence group s = .error e) : Trouble group s e := by
  rw [sequence.eq_def] at hread
  split at hread
  · split at hread <;> cases hread
    exact .unclosed _
  rename_i first tail
  split at hread
  · rename_i hfirst
    subst hfirst
    split at hread <;> cases hread
    exact .unexpected _
  rename_i hfirst
  obtain ⟨modifiers, hmodifiers⟩ : ∃ modifiers, (cutModifiers (first :: tail)).1 = modifiers :=
    ⟨_, rfl⟩
  split at hread
  · rename_i hcut
    cases hread
    have hs := eq_marks_of_cutModifiers (Prod.ext hmodifiers hcut)
    rw [← List.append_nil (marks modifiers)] at hs
    obtain ⟨modifier, others, rfl, rfl⟩ := eq_mark_of_marks hs (by simp)
    rw [hs]
    exact .dangling modifier others (.inl rfl)
  rename_i c after hcut
  obtain ⟨hs, hmodifier⟩ := eq_of_cutModifiers (Prod.ext hmodifiers hcut)
  simp only [hmodifiers] at hread
  split at hread
  · rename_i hclose
    cases hread
    have hother : (c :: after).head? ≠ some first :=
      fun hsame ↦ hfirst ((Option.some.inj hsame).symm.trans hclose)
    obtain ⟨modifier, others, rfl, rfl⟩ := eq_mark_of_marks hs hother
    rw [hs]
    exact .dangling modifier others (.inr (congrArg some hclose))
  rename_i hclose
  rw [hs]
  split at hread
  · rename_i hopen
    subst hopen
    split at hread
    · rename_i hinner
      cases hread
      exact .group modifiers hinner
    rename_i inner rest hrest hinner
    split at hread
    · rename_i hothers
      cases hread
      exact .behind (.group modifiers ⟨hrest, hinner⟩) hothers
    · cases hread
  · rename_i hopen
    split at hread
    · rename_i hatom
      cases hread
      exact .atom modifiers hclose hopen hmodifier hatom
    rename_i stroke rest hrest hatom
    split at hread
    · rename_i hothers
      cases hread
      exact .behind (.atom modifiers hclose hopen hmodifier ⟨hrest, hatom⟩) hothers
    · cases hread

/-! ### Errors of a unit -/

/-- With a group at the front, its content or the text behind it is wrong. -/
theorem sequence_group_eq_error_iff {group : Option (List Char)} (modifiers : List Modifier)
    {s : List Char} {e : Failure} :
    sequence group (marks modifiers ++ '(' :: s) = .error e ↔
      sequence (some ('(' :: s)) s = .error e ∨
        ∃ inner rest, Reads (some ('(' :: s)) s inner rest ∧ sequence group rest = .error e := by
  obtain ⟨first, tail, hs, hfirst, -, hcut⟩ :=
    exists_front modifiers s (by decide : '(' ≠ ')') (by decide)
  rw [hs, sequence.eq_def]
  simp only [if_neg hfirst]
  split
  · rename_i hnone
    cases hnone.symm.trans (congrArg Prod.snd hcut)
  · rename_i c' s' hsome
    obtain ⟨rfl, rfl⟩ := List.cons.inj (hsome.symm.trans (congrArg Prod.snd hcut))
    simp only [Char.reduceEq, if_true, if_false]
    cases hinner : sequence (some ('(' :: s')) s' with
    | error e' => simp [Reads, hinner]
    | ok parsed =>
      obtain ⟨inner, rest, hrest⟩ := parsed
      cases hothers : sequence group rest <;> simp [Reads, hinner, hrest, hothers]

/-- With an atom at the front, it or the text behind it is wrong. -/
theorem sequence_atom_eq_error_iff {group : Option (List Char)} (modifiers : List Modifier)
    {c : Char} {s : List Char} {e : Failure} (hclose : c ≠ ')') (hopen : c ≠ '(')
    (hmodifier : Modifier.ofChar? c = none) :
    sequence group (marks modifiers ++ c :: s) = .error e ↔
      atom c s = .error e ∨
        ∃ stroke rest, AtomReads c s stroke rest ∧ sequence group rest = .error e := by
  obtain ⟨first, tail, hs, hfirst, -, hcut⟩ := exists_front modifiers s hclose hmodifier
  rw [hs, sequence.eq_def]
  simp only [if_neg hfirst]
  split
  · rename_i hnone
    cases hnone.symm.trans (congrArg Prod.snd hcut)
  · rename_i c' s' hsome
    obtain ⟨rfl, rfl⟩ := List.cons.inj (hsome.symm.trans (congrArg Prod.snd hcut))
    simp only [if_neg hclose, if_neg hopen]
    cases hatom : atom c' s' with
    | error e' => simp [AtomReads, hatom]
    | ok parsed =>
      obtain ⟨stroke, rest, hrest⟩ := parsed
      have hle : rest.length ≤ s'.length := Nat.le_of_lt_succ hrest
      cases hothers : sequence group rest <;> simp [AtomReads, hatom, hle, hothers]

/-- What is wrong behind a unit is wrong with the whole text. -/
theorem Front.fails {group : Option (List Char)} {s rest : List Char} {stroke : KeyStroke}
    {e : Failure} (hfront : Front s stroke rest) (hrest : sequence group rest = .error e) :
    sequence group s = .error e := by
  cases hfront with
  | group modifiers hinner =>
    exact (sequence_group_eq_error_iff modifiers).2 (.inr ⟨_, _, hinner, hrest⟩)
  | atom modifiers hclose hopen hmodifier hatom =>
    exact (sequence_atom_eq_error_iff modifiers hclose hopen hmodifier).2
      (.inr ⟨_, _, hatom, hrest⟩)

theorem ofBody_eq_error {body : List Char} {e : Failure} (hbody : ofBody body = .error e) :
    ∃ name, e = .unknownKey name := by
  unfold ofBody at hbody
  split at hbody
  · cases hbody
  · split at hbody <;> cases hbody
    exact ⟨_, rfl⟩

/-- An atom cannot be read if its brace stays open or if there is no key of its name. -/
theorem atom_eq_error {c : Char} {s : List Char} {e : Failure} (hatom : atom c s = .error e) :
    (c = '{' ∧ '}' ∉ s ∧ e = .unclosedBrace ('{' :: s)) ∨ ∃ name, e = .unknownKey name := by
  rw [atom] at hatom
  split at hatom
  · rename_i hbrace
    subst hbrace
    unfold braced at hatom
    split at hatom
    · cases hatom
    · split at hatom
      · rename_i hcut
        cases hatom
        exact .inl ⟨rfl, Text.cutFirst_eq_none_iff.1 hcut, rfl⟩
      · split at hatom
        · rename_i hbody
          cases hatom
          exact .inr (ofBody_eq_error hbody)
        · cases hatom
  · split at hatom <;> cases hatom

/-! ### Places -/

/-- A text up to a unit: sequences in groups that are still open, and the marks of the unit. -/
inductive UpTo : List Char → Prop
  | unit {before : List Char} {units : List KeyStroke} (hbefore : Sequence before units)
      (modifiers : List Modifier) : UpTo (before ++ marks modifiers)
  | group {before inner : List Char} {units : List KeyStroke} (hbefore : Sequence before units)
      (modifiers : List Modifier) (hinner : UpTo inner) :
    UpTo (before ++ (marks modifiers ++ '(' :: inner))

/-- What an error says of the text, inside of a group or not. -/
inductive Placed : Option (List Char) → List Char → Failure → Prop
  | brace {group : Option (List Char)} {before after : List Char} (hbefore : UpTo before)
      (hafter : '}' ∉ after) : Placed group (before ++ '{' :: after) (.unclosedBrace ('{' :: after))
  | parenthesis {before : List Char} {units : List KeyStroke} (hbefore : Sequence before units)
      (after : List Char) :
    Placed none (before ++ ')' :: after) (.unexpectedClose (')' :: after))
  | content (start : List Char) {s : List Char} {units : List KeyStroke} (hs : Sequence s units) :
    Placed (some start) s (.unclosedGroup start)
  | group {group : Option (List Char)} {before after : List Char} {units : List KeyStroke}
      (hbefore : UpTo before) (hafter : Sequence after units) :
    Placed group (before ++ '(' :: after) (.unclosedGroup ('(' :: after))
  | unknown {group : Option (List Char)} {s : List Char} (name : List Char) :
    Placed group s (.unknownKey name)
  | dangling {group : Option (List Char)} {s : List Char} (modifier : Char) :
    Placed group s (.danglingModifier modifier)

/-- The text of the unit at the front. -/
theorem Front.exists_unit {s rest : List Char} {stroke : KeyStroke} (hfront : Front s stroke rest) :
    ∃ text, s = text ++ rest ∧ IsUnitText text stroke :=
  exists_unit_of_front hfront fun _ _ _ _ hinner ↦ by
    obtain ⟨content, units, _, rfl, hsequence, hmerge, rfl⟩ := exists_sequence_of_reads hinner
    exact ⟨content, units, rfl, hsequence, hmerge⟩

theorem upTo_marks (modifiers : List Modifier) : UpTo (marks modifiers) := .unit .nil modifiers

theorem UpTo.behind {text before : List Char} {stroke : KeyStroke} (hunit : IsUnitText text stroke)
    (hbefore : UpTo before) : UpTo (text ++ before) := by
  cases hbefore with
  | unit hbefore modifiers =>
    rw [← List.append_assoc]
    exact .unit (hunit _ _ hbefore) modifiers
  | group hbefore modifiers hinner =>
    rw [← List.append_assoc]
    exact .group (hunit _ _ hbefore) modifiers hinner

theorem Placed.behind {group : Option (List Char)} {text s : List Char} {stroke : KeyStroke}
    {e : Failure} (hunit : IsUnitText text stroke) (hplaced : Placed group s e) :
    Placed group (text ++ s) e := by
  cases hplaced with
  | brace hbefore hafter =>
    rw [← List.append_assoc]
    exact .brace (hbefore.behind hunit) hafter
  | parenthesis hbefore after =>
    rw [← List.append_assoc]
    exact .parenthesis (hunit _ _ hbefore) after
  | content start hs => exact .content start (hunit _ _ hs)
  | group hbefore hafter =>
    rw [← List.append_assoc]
    exact .group (hbefore.behind hunit) hafter
  | unknown name => exact .unknown name
  | dangling modifier => exact .dangling modifier

/-- An error in the content of a group is one of the text with the group; if the end is missing, it
is that of the group itself. -/
theorem Placed.inGroup {group : Option (List Char)} {s : List Char} {e : Failure}
    (modifiers : List Modifier) (hplaced : Placed (some ('(' :: s)) s e) :
    Placed group (marks modifiers ++ '(' :: s) e := by
  generalize hstart : some ('(' :: s) = start at hplaced
  cases hplaced with
  | @brace _ before after hbefore hafter =>
    have hplaced : Placed group _ _ := .brace (.group .nil modifiers hbefore) hafter
    simpa only [List.nil_append, List.append_assoc, List.cons_append] using hplaced
  | parenthesis => cases hstart
  | content _ hs =>
    cases hstart
    exact .group (upTo_marks modifiers) hs
  | group hbefore hafter =>
    have hplaced : Placed group _ _ := .group (.group .nil modifiers hbefore) hafter
    simpa only [List.nil_append, List.append_assoc, List.cons_append] using hplaced
  | unknown name => exact .unknown name
  | dangling modifier => exact .dangling modifier

theorem placed_of_error {group : Option (List Char)} {s : List Char} {e : Failure}
    (hread : sequence group s = .error e) : Placed group s e := by
  induction hlength : s.length using Nat.strongRecOn generalizing group s with
  | _ length ih =>
    subst hlength
    cases trouble_of_error hread with
    | unclosed start => exact .content start .nil
    | unexpected rest => exact .parenthesis .nil rest
    | dangling => exact .dangling _
    | @group _ modifiers inner _ hinner =>
      have hless : inner.length < (marks modifiers ++ '(' :: inner).length := by
        rw [List.length_append, List.length_cons]
        omega
      exact (ih _ hless hinner rfl).inGroup modifiers
    | atom modifiers _ _ _ hatom =>
      rcases atom_eq_error hatom with ⟨rfl, hopen, rfl⟩ | ⟨name, rfl⟩
      · exact .brace (upTo_marks modifiers) hopen
      · exact .unknown name
    | behind hfront hrest =>
      obtain ⟨text, rfl, hunit⟩ := hfront.exists_unit
      exact (ih _ hfront.length_lt hrest rfl).behind hunit

/-- The place of an error is an end of the text, or the opening of the group around it. -/
theorem place_of_error {group : Option (List Char)} {s place : List Char} {e : Failure}
    (hread : sequence group s = .error e) (hplace : e.place? = some place) :
    place <:+ s ∨ group = some place := by
  cases placed_of_error hread with
  | brace | parenthesis | group =>
    rw [← Option.some.inj hplace]
    exact .inl (List.suffix_append _ _)
  | content start => exact .inr (congrArg some (Option.some.inj hplace))
  | unknown | dangling => cases hplace

end Reader

end Macropad.Keys
