import Mathlib
import Macropad.Proofs.Keys.Concatenation

/-!
# Where errors point

An error of reading that has a place stands where its sign says. A brace that is never closed, a
group that is never closed and a parenthesis that closes nothing are the characters at the offsets
of their errors, and what stands around them is what the errors say (`parseKeys_offset`).

That they stand there is `Placed`, which the reader's errors are; conversely a text with such a
character is read up to it, through the groups that are open in front of it (`UpTo.fails`), and then
fails (`Placed.fails`).
-/

set_option autoImplicit false

namespace Macropad.Keys

open Grammar Reader

/-! ### Errors behind a text -/

namespace Reader

/-- What is wrong with a unit, whatever its marks and wherever it stands, is wrong with a text that
leads up to it. -/
theorem UpTo.fails {before rest : List Char} {e : Failure} (hbefore : UpTo before)
    (hunit : ∀ group modifiers, sequence group (marks modifiers ++ rest) = .error e)
    (group : Option (List Char)) : sequence group (before ++ rest) = .error e := by
  induction hbefore generalizing group with
  | unit hbefore modifiers =>
    rw [List.append_assoc]
    exact hbefore.fails (hunit group modifiers)
  | @group before inner _ hbefore modifiers _ ih =>
    rw [List.append_assoc, List.append_assoc, List.cons_append]
    refine hbefore.fails ((sequence_group_eq_error_iff modifiers).2 (.inl ?_))
    exact ih (some ('(' :: (inner ++ rest)))

/-- A brace without an end behind it. -/
theorem atom_of_open {s : List Char} (hopen : '}' ∉ s) :
    atom '{' s = .error (.unclosedBrace ('{' :: s)) := by
  have hclosing : ∀ rest, s = '}' :: '}' :: rest → False := by
    rintro rest rfl
    exact hopen List.mem_cons_self
  rw [atom_brace, braced.eq_2 _ hclosing]
  split
  · rfl
  · rename_i hcut
    cases (Text.cutFirst_eq_none_iff.2 hopen).symm.trans hcut

/-- An error with a place arises wherever it would say something true. -/
theorem Placed.fails {s place : List Char} {e : Failure} (hplaced : Placed none s e)
    (hplace : e.place? = some place) : sequence none s = .error e := by
  cases hplaced with
  | brace hbefore hafter =>
    exact hbefore.fails (fun _ modifiers ↦ (sequence_atom_eq_error_iff modifiers (by decide)
      (by decide) (by decide)).2 (.inl (atom_of_open hafter))) none
  | parenthesis hbefore after =>
    refine hbefore.fails ?_
    rw [sequence.eq_def]
    rfl
  | @group _ _ after _ hbefore hafter =>
    have hend : sequence (some ('(' :: after)) [] = .error (.unclosedGroup ('(' :: after)) := by
      rw [sequence]
    have hinner := hafter.fails hend
    rw [List.append_nil] at hinner
    exact hbefore.fails (fun _ modifiers ↦
      (sequence_group_eq_error_iff modifiers).2 (.inl hinner)) none
  | unknown | dangling => cases hplace

end Reader

/-! ### Offsets -/

/-- A text at one of its characters. -/
theorem exists_append_cons_iff {s : List Char} {c : Char} {offset : Nat}
    {P : List Char → List Char → Prop} :
    (∃ before after, s = before ++ c :: after ∧ before.length = offset ∧ P before after) ↔
      s[offset]? = some c ∧ P (s.take offset) (s.drop (offset + 1)) := by
  constructor
  · rintro ⟨before, after, rfl, rfl, hP⟩
    simpa using hP
  · rintro ⟨hc, hP⟩
    obtain ⟨hlt, rfl⟩ := List.getElem?_eq_some_iff.1 hc
    refine ⟨_, _, ?_, List.length_take_of_le hlt.le, hP⟩
    rw [← List.drop_eq_getElem_cons hlt, List.take_append_drop]

/-- The errors with an offset are those that say something true, as far behind the start as their
place is. -/
theorem parseKeys_eq_error_iff_placed {s : List Char} {error : KeyError Nat} {offset : Nat}
    (hoffset : error.place? = some offset) :
    parseKeys s = .error error ↔ ∃ e : Failure, Placed none s e ∧
      error = e.mapPlace fun place ↦ s.length - place.length := by
  rw [parseKeys_eq_error_iff]
  constructor
  · rintro ⟨e, hread, herror⟩
    exact ⟨e, placed_of_error hread, herror⟩
  · rintro ⟨e, hplaced, rfl⟩
    cases hplace : e.place? with
    | some place => exact ⟨e, hplaced.fails hplace, rfl⟩
    | none => cases e <;> cases hplace <;> cases hoffset

theorem length_sub_length (before place : List Char) :
    (before ++ place).length - place.length = before.length := by
  rw [List.length_append, Nat.add_sub_cancel]

theorem parseKeys_eq_unclosedBrace_iff {s : List Char} {offset : Nat} :
    parseKeys s = .error (.unclosedBrace offset) ↔
      s[offset]? = some '{' ∧ '}' ∉ s.drop (offset + 1) ∧ UpTo (s.take offset) := by
  rw [parseKeys_eq_error_iff_placed rfl, ← exists_append_cons_iff
    (P := fun before after ↦ '}' ∉ after ∧ UpTo before)]
  constructor
  · rintro ⟨e, hplaced, herror⟩
    cases hplaced with
    | brace hbefore hafter =>
      cases herror
      exact ⟨_, _, rfl, (length_sub_length _ _).symm, hafter, hbefore⟩
    | _ => cases herror
  · rintro ⟨before, after, rfl, rfl, hafter, hbefore⟩
    exact ⟨_, .brace hbefore hafter, congrArg KeyError.unclosedBrace (length_sub_length _ _).symm⟩

theorem parseKeys_eq_unexpectedClose_iff {s : List Char} {offset : Nat} :
    parseKeys s = .error (.unexpectedClose offset) ↔
      s[offset]? = some ')' ∧ ∃ strokes, parseKeys (s.take offset) = .ok strokes := by
  rw [parseKeys_eq_error_iff_placed rfl, ← exists_append_cons_iff
    (P := fun before _ ↦ ∃ strokes, parseKeys before = .ok strokes)]
  constructor
  · rintro ⟨e, hplaced, herror⟩
    cases hplaced with
    | parenthesis hbefore after =>
      cases herror
      exact ⟨_, after, rfl, (length_sub_length _ _).symm, _,
        parseKeys_eq_ok_iff.2 ⟨_, hbefore, rfl⟩⟩
    | _ => cases herror
  · rintro ⟨before, after, rfl, rfl, strokes, hparse⟩
    obtain ⟨units, hbefore, -⟩ := parseKeys_eq_ok_iff.1 hparse
    exact ⟨_, .parenthesis hbefore after,
      congrArg KeyError.unexpectedClose (length_sub_length _ _).symm⟩

theorem parseKeys_eq_unclosedGroup_iff {s : List Char} {offset : Nat} :
    parseKeys s = .error (.unclosedGroup offset) ↔
      s[offset]? = some '(' ∧ (∃ strokes, parseKeys (s.drop (offset + 1)) = .ok strokes) ∧
        UpTo (s.take offset) := by
  rw [parseKeys_eq_error_iff_placed rfl, ← exists_append_cons_iff
    (P := fun before after ↦ (∃ strokes, parseKeys after = .ok strokes) ∧ UpTo before)]
  constructor
  · rintro ⟨e, hplaced, herror⟩
    cases hplaced with
    | group hbefore hafter =>
      cases herror
      exact ⟨_, _, rfl, (length_sub_length _ _).symm, ⟨_, parseKeys_eq_ok_iff.2 ⟨_, hafter, rfl⟩⟩,
        hbefore⟩
    | _ => cases herror
  · rintro ⟨before, after, rfl, rfl, ⟨strokes, hparse⟩, hbefore⟩
    obtain ⟨units, hafter, -⟩ := parseKeys_eq_ok_iff.1 hparse
    exact ⟨_, .group hbefore hafter, congrArg KeyError.unclosedGroup (length_sub_length _ _).symm⟩

/-- The offset of an error is that of its sign. A brace is reported as open exactly if it stands
where a unit is read and no brace closes behind it; a parenthesis is unexpected exactly if the text
in front of it can be read; and a group is reported as open exactly if it stands where a unit is
read and the text behind its parenthesis can be read, so that no group in it is open. -/
theorem parseKeys_offset (s : List Char) (offset : Nat) :
    (parseKeys s = .error (.unclosedBrace offset) ↔
      s[offset]? = some '{' ∧ '}' ∉ s.drop (offset + 1) ∧ UpTo (s.take offset)) ∧
    (parseKeys s = .error (.unexpectedClose offset) ↔
      s[offset]? = some ')' ∧ ∃ strokes, parseKeys (s.take offset) = .ok strokes) ∧
    (parseKeys s = .error (.unclosedGroup offset) ↔
      s[offset]? = some '(' ∧ (∃ strokes, parseKeys (s.drop (offset + 1)) = .ok strokes) ∧
        UpTo (s.take offset)) :=
  ⟨parseKeys_eq_unclosedBrace_iff, parseKeys_eq_unexpectedClose_iff, parseKeys_eq_unclosedGroup_iff⟩

/-- Parentheses in braces open and close nothing. -/
example : parseKeys "\x7b(\x7d%(a(b)\x7b)\x7d".toList = .error (.unclosedGroup 4) := by
  cbv

end Macropad.Keys
