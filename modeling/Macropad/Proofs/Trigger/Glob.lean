import Macropad.Trigger.Glob
import Mathlib.Data.List.Infix

/-!
# Globbing without going back to an earlier star

`Matches` says which names a pattern stands for: a star may stand for any run of characters,
whatever the stars in front of it stand for. To accept a name takes less. Behind a star the first
place decides at which the characters up to the next star are found, and no earlier star is tried
again. Nothing is lost by this (`matches_of_leftover`): a pattern that matches an end of the name
leaves only stars over at every earlier place at which it is not refused.

The loop of `Ends` keeps two positions and one star to go back to, with the place of the name from
which that star goes on. A step back moves the position in the pattern backwards. The loop comes to
an end all the same, and leaves of the pattern what `leftover` says (`follows`). The induction is on
the pattern from the cursor on, and for a star also on the name from there.
-/

set_option autoImplicit false

namespace Macropad.Trigger.Glob

/-- The names that a pattern stands for. -/
inductive Matches : List Char → List Char → Prop
  | nil : Matches [] []
  | star {pattern rest name : List Char} (hrest : rest <:+ name) (h : Matches pattern rest) :
    Matches ('*' :: pattern) name
  | any {pattern name : List Char} (c : Char) (h : Matches pattern name) :
    Matches ('?' :: pattern) (c :: name)
  | char {c : Char} {pattern name : List Char} (hstar : c ≠ '*') (hany : c ≠ '?')
      (h : Matches pattern name) : Matches (c :: pattern) (c :: name)

theorem matches_star_iff {pattern name : List Char} :
    Matches ('*' :: pattern) name ↔ ∃ rest, rest <:+ name ∧ Matches pattern rest := by
  constructor
  · intro h
    cases h with
    | star hrest h => exact ⟨_, hrest, h⟩
    | char hstar => exact absurd rfl hstar
  · rintro ⟨rest, hrest, h⟩
    exact .star hrest h

theorem matches_cons_iff {p : Char} (hstar : p ≠ '*') {pattern name : List Char} :
    Matches (p :: pattern) name ↔
      ∃ c rest, name = c :: rest ∧ (p = '?' ∨ p = c) ∧ Matches pattern rest := by
  constructor
  · intro h
    cases h with
    | star => exact absurd rfl hstar
    | any c h => exact ⟨c, _, rfl, .inl rfl, h⟩
    | char _ _ h => exact ⟨p, _, rfl, .inr rfl, h⟩
  · rintro ⟨c, rest, rfl, hp, h⟩
    by_cases hany : p = '?'
    · subst hany
      exact .any c h
    · obtain rfl := hp.resolve_left hany
      exact .char hstar hany h

/-- Only stars stand for nothing. -/
theorem matches_nil_iff {pattern : List Char} :
    Matches pattern [] ↔ pattern.all (· = '*') = true := by
  induction pattern with
  | nil => exact ⟨fun _ ↦ rfl, fun _ ↦ .nil⟩
  | cons p pattern ih =>
    by_cases hstar : p = '*'
    · subst hstar
      simp [matches_star_iff, ih]
    · simp [matches_cons_iff hstar, hstar]

/-! ### The first place behind a star -/

/-- The first answer is that of an end of the name, and every end of it with an answer comes no
earlier. -/
theorem exists_of_firstAlong_eq_some {answer? : List Char → Option (List Char)}
    {name answer : List Char} (h : firstAlong answer? name = some answer) :
    ∃ rest, rest <:+ name ∧ answer? rest = some answer ∧
      ∀ other, other <:+ name → answer? other ≠ none → other <:+ rest := by
  induction name with
  | nil => exact ⟨[], List.suffix_rfl, h, fun other hother _ ↦ hother⟩
  | cons c name ih =>
    rw [firstAlong] at h
    cases hanswer : answer? (c :: name) with
    | some found =>
      rw [hanswer] at h
      exact ⟨c :: name, List.suffix_rfl, hanswer.trans h, fun other hother _ ↦ hother⟩
    | none =>
      rw [hanswer] at h
      obtain ⟨rest, hrest, hfound, hfirst⟩ := ih h
      refine ⟨rest, hrest.trans (List.suffix_cons c name), hfound, fun other hother hsome ↦ ?_⟩
      rcases List.suffix_cons_iff.1 hother with rfl | hother
      · exact absurd hanswer hsome
      · exact hfirst other hother hsome

theorem firstAlong_ne_none {answer? : List Char → Option (List Char)} (h : answer? [] ≠ none)
    (name : List Char) : firstAlong answer? name ≠ none := by
  induction name with
  | nil => exact h
  | cons c name ih =>
    rw [firstAlong]
    split
    · exact Option.some_ne_none _
    · exact ih

@[simp] theorem leftover_nil (pattern : List Char) : leftover pattern [] = some pattern := by
  cases pattern <;> rfl

/-- A star finds a place, at the end of the name if at no other. -/
theorem leftover_star_ne_none (pattern name : List Char) :
    leftover ('*' :: pattern) name ≠ none := by
  cases name with
  | nil => simp
  | cons c name =>
    rw [leftover, if_pos rfl]
    exact firstAlong_ne_none (by simp) _

/-! ### What is left over -/

theorem leftover_ne_none_of_matches {pattern name : List Char} (h : Matches pattern name) :
    leftover pattern name ≠ none := by
  induction h with
  | nil => simp
  | star => exact leftover_star_ne_none _ _
  | any c h ih => simpa [leftover] using ih
  | char hstar hany h ih => simpa [leftover, hstar] using ih

/-- A pattern that matches an end of a name leaves only stars over at every place in front of it
where it is not refused. -/
theorem matches_of_leftover {pattern rest later name : List Char} (h : Matches pattern later)
    (hlater : later <:+ name) (hleft : leftover pattern name = some rest) : Matches rest [] := by
  induction pattern generalizing later name with
  | nil =>
    cases name with
    | nil =>
      rw [leftover_nil] at hleft
      rw [← Option.some.inj hleft]
      exact .nil
    | cons c name => simp [leftover] at hleft
  | cons p pattern ih =>
    cases name with
    | nil =>
      rw [leftover_nil] at hleft
      rw [← Option.some.inj hleft, ← List.suffix_nil.1 hlater]
      exact h
    | cons c name =>
      rw [leftover] at hleft
      by_cases hstar : p = '*'
      · subst hstar
        rw [if_pos rfl] at hleft
        obtain ⟨place, hplace, hfound, hfirst⟩ := exists_of_firstAlong_eq_some hleft
        obtain ⟨behind, hbehind, hmatches⟩ := matches_star_iff.1 h
        -- The place that is taken is no later than the one at which the pattern matches.
        have hearlier : behind <:+ place :=
          hfirst behind (hbehind.trans hlater) (leftover_ne_none_of_matches hmatches)
        exact ih hmatches hearlier hfound
      · rw [if_neg hstar] at hleft
        obtain ⟨d, behind, rfl, -, hmatches⟩ := (matches_cons_iff hstar).1 h
        have hbehind : behind <:+ name := by
          rcases List.suffix_cons_iff.1 hlater with hsame | hlater
          · rw [(List.cons.inj hsame).2]
          · exact (List.suffix_cons d behind).trans hlater
        split at hleft
        · exact ih hmatches hbehind hleft
        · cases hleft

theorem matches_of_matches_leftover {pattern name rest : List Char}
    (hleft : leftover pattern name = some rest) (h : Matches rest []) : Matches pattern name := by
  induction pattern generalizing name with
  | nil =>
    cases name with
    | nil => exact .nil
    | cons c name => simp [leftover] at hleft
  | cons p pattern ih =>
    cases name with
    | nil =>
      rw [leftover_nil] at hleft
      rw [Option.some.inj hleft]
      exact h
    | cons c name =>
      rw [leftover] at hleft
      by_cases hstar : p = '*'
      · subst hstar
        rw [if_pos rfl] at hleft
        obtain ⟨place, hplace, hfound, -⟩ := exists_of_firstAlong_eq_some hleft
        exact .star hplace (ih hfound)
      · rw [if_neg hstar] at hleft
        split at hleft
        · rename_i hp
          exact (matches_cons_iff hstar).2 ⟨c, name, rfl, hp, ih hleft⟩
        · cases hleft

/-- A name is accepted if the pattern stands for it. -/
theorem accepts_iff {pattern name : List Char} :
    accepts pattern name = true ↔ Matches pattern name := by
  rw [accepts]
  cases hleft : leftover pattern name with
  | none =>
    refine ⟨nofun, fun h ↦ absurd hleft (leftover_ne_none_of_matches h)⟩
  | some rest =>
    show rest.all (· = '*') = true ↔ _
    rw [← matches_nil_iff]
    exact ⟨matches_of_matches_leftover hleft,
      fun h ↦ matches_of_leftover h List.suffix_rfl hleft⟩

/-! ### The loop -/

/-- Where the loop stands. -/
structure Cursor where
  pattern : Nat := 0
  name : Nat := 0
  /-- The last star, with the place of the name from which it goes on. -/
  star? : Option (Nat × Nat) := none
deriving Repr, DecidableEq

/-- Goes back to the star, which takes one more character. -/
def stepBack (star? : Option (Nat × Nat)) : Option Cursor :=
  star?.map fun (star, place) ↦ ⟨star + 1, place + 1, some (star, place + 1)⟩

/-- One turn of the loop, at a character of the name; `none` if the name is refused. -/
def Cursor.turn (cursor : Cursor) (pattern : List Char) (c : Char) : Option Cursor :=
  match pattern[cursor.pattern]? with
  | some p =>
    if p = '*' then
      some ⟨cursor.pattern + 1, cursor.name, some (cursor.pattern, cursor.name)⟩
    else if p = '?' ∨ p = c then some ⟨cursor.pattern + 1, cursor.name + 1, cursor.star?⟩
    else stepBack cursor.star?
  | none => stepBack cursor.star?

/-- How the loop ends: where it stands in the pattern once the name is used up, or `none` if the
name is refused. -/
inductive Ends (pattern name : List Char) : Cursor → Option Nat → Prop
  | usedUp {cursor : Cursor} (hname : name[cursor.name]? = none) :
    Ends pattern name cursor (some cursor.pattern)
  | refused {cursor : Cursor} {c : Char} (hname : name[cursor.name]? = some c)
      (hturn : cursor.turn pattern c = none) : Ends pattern name cursor none
  | again {cursor next : Cursor} {c : Char} {index? : Option Nat}
      (hname : name[cursor.name]? = some c) (hturn : cursor.turn pattern c = some next)
      (h : Ends pattern name next index?) : Ends pattern name cursor index?

section Loop

variable {pattern name : List Char}

theorem Ends.unique {cursor : Cursor} {index? index?' : Option Nat}
    (h : Ends pattern name cursor index?) (h' : Ends pattern name cursor index?') :
    index? = index?' := by
  induction h with
  | usedUp hname => cases h' <;> simp_all
  | refused hname hturn => cases h' <;> simp_all
  | again hname hturn h ih =>
    apply ih
    cases h' <;> simp_all

/-- What stands at a position of a text and behind it. -/
def Ahead (s : List Char) (i : Nat) (rest : List Char) : Prop :=
  ∃ passed, s = passed ++ rest ∧ passed.length = i

namespace Ahead

variable {s rest : List Char} {i : Nat} {c : Char}

theorem start (s : List Char) : Ahead s 0 s := ⟨[], rfl, rfl⟩

theorem next (h : Ahead s i (c :: rest)) : Ahead s (i + 1) rest := by
  obtain ⟨passed, rfl, rfl⟩ := h
  exact ⟨passed ++ [c], by simp, by simp⟩

theorem getElem? (h : Ahead s i rest) : s[i]? = rest.head? := by
  obtain ⟨passed, rfl, rfl⟩ := h
  rw [List.getElem?_append_right (Nat.le_refl _), Nat.sub_self, List.head?_eq_getElem?]

theorem le_length (h : Ahead s i rest) : i ≤ s.length := by
  obtain ⟨passed, rfl, rfl⟩ := h
  rw [List.length_append]
  exact Nat.le_add_right _ _

theorem drop_eq (h : Ahead s i rest) : s.drop i = rest := by
  obtain ⟨passed, rfl, rfl⟩ := h
  exact List.drop_left

end Ahead

/-- How the loop ends if it goes back to the star. -/
def EndsBehind (pattern name : List Char) (star? : Option (Nat × Nat)) (index? : Option Nat) :
    Prop :=
  match stepBack star? with
  | some next => Ends pattern name next index?
  | none => index? = none

theorem Ends.of_stepBack {cursor : Cursor} {c : Char} {index? : Option Nat}
    (hname : name[cursor.name]? = some c) (hturn : cursor.turn pattern c = stepBack cursor.star?)
    (h : EndsBehind pattern name cursor.star? index?) : Ends pattern name cursor index? := by
  rw [EndsBehind] at h
  cases hback : stepBack cursor.star? with
  | some next =>
    rw [hback] at h hturn
    exact .again hname hturn h
  | none =>
    rw [hback] at h hturn
    rw [h]
    exact .refused hname hturn

/-- What the loop does from a cursor on, given what is to be left over: it ends there, or goes back
to its star. -/
def Follows (pattern name : List Char) (cursor : Cursor) : Option (List Char) → Prop
  | some rest => ∃ index, Ends pattern name cursor (some index) ∧ Ahead pattern index rest
  | none => ∀ index?, EndsBehind pattern name cursor.star? index? → Ends pattern name cursor index?

/-- Behind a star the loop ends at the first place at which it does not come back. -/
theorem follows_firstAlong {pending : List Char} {star : Nat}
    (hpending : Ahead pattern (star + 1) pending)
    (ih : ∀ left place, Ahead name place left →
      Follows pattern name ⟨star + 1, place, some (star, place)⟩ (leftover pending left))
    {left : List Char} {place : Nat} (hleft : Ahead name place left) :
    Follows pattern name ⟨star + 1, place, some (star, place)⟩
      (firstAlong (leftover pending) left) := by
  induction left generalizing place with
  | nil =>
    rw [firstAlong, leftover_nil]
    exact ⟨star + 1, .usedUp hleft.getElem?, hpending⟩
  | cons c left ihleft =>
    have hhere := ih (c :: left) place hleft
    rw [firstAlong]
    cases hanswer : leftover pending (c :: left) with
    | some rest =>
      rw [hanswer] at hhere
      exact hhere
    | none =>
      rw [hanswer] at hhere
      have hlater := ihleft hleft.next
      cases hfirst : firstAlong (leftover pending) left with
      | some rest =>
        rw [hfirst] at hlater
        obtain ⟨index, hends, hrest⟩ := hlater
        exact ⟨index, hhere _ hends, hrest⟩
      | none => exact absurd hfirst (firstAlong_ne_none (by simp) left)

/-- The loop leaves over what `leftover` says, or goes back to its star. -/
theorem follows {pending left : List Char} {cursor : Cursor}
    (hpending : Ahead pattern cursor.pattern pending) (hleft : Ahead name cursor.name left) :
    Follows pattern name cursor (leftover pending left) := by
  induction pending generalizing left cursor with
  | nil =>
    cases left with
    | nil => exact ⟨_, .usedUp hleft.getElem?, hpending⟩
    | cons c left =>
      intro index? hback
      refine Ends.of_stepBack hleft.getElem? ?_ hback
      rw [Cursor.turn, hpending.getElem?]
      rfl
  | cons p pending ih =>
    cases left with
    | nil => exact ⟨_, .usedUp hleft.getElem?, hpending⟩
    | cons c left =>
      have hget : pattern[cursor.pattern]? = some p := hpending.getElem?
      rw [leftover]
      by_cases hstar : p = '*'
      · rw [if_pos hstar]
        have hturn : cursor.turn pattern c =
            some ⟨cursor.pattern + 1, cursor.name, some (cursor.pattern, cursor.name)⟩ := by
          rw [Cursor.turn, hget]
          exact if_pos hstar
        have hfirst := follows_firstAlong hpending.next (fun _ _ hplace ↦ ih hpending.next hplace)
          hleft
        cases hanswer : firstAlong (leftover pending) (c :: left) with
        | some rest =>
          rw [hanswer] at hfirst
          obtain ⟨index, hends, hrest⟩ := hfirst
          exact ⟨index, .again hleft.getElem? hturn hends, hrest⟩
        | none => exact absurd hanswer (firstAlong_ne_none (by simp) _)
      · rw [if_neg hstar]
        by_cases hp : p = '?' ∨ p = c
        · rw [if_pos hp]
          have hturn : cursor.turn pattern c =
              some ⟨cursor.pattern + 1, cursor.name + 1, cursor.star?⟩ := by
            rw [Cursor.turn, hget]
            exact (if_neg hstar).trans (if_pos hp)
          have hnext : Follows pattern name ⟨cursor.pattern + 1, cursor.name + 1, cursor.star?⟩
              (leftover pending left) := ih hpending.next hleft.next
          cases hanswer : leftover pending left with
          | some rest =>
            rw [hanswer] at hnext
            obtain ⟨index, hends, hrest⟩ := hnext
            exact ⟨index, .again hleft.getElem? hturn hends, hrest⟩
          | none =>
            rw [hanswer] at hnext
            intro index? hback
            exact .again hleft.getElem? hturn (hnext index? hback)
        · rw [if_neg hp]
          intro index? hback
          refine Ends.of_stepBack hleft.getElem? ?_ hback
          rw [Cursor.turn, hget]
          exact (if_neg hstar).trans (if_neg hp)

/-- The loop comes to an end with what is left over. -/
theorem exists_ends (pattern name : List Char) :
    ∃ index?, Ends pattern name {} index? ∧ (∀ index ∈ index?, index ≤ pattern.length) ∧
      index?.map (pattern.drop ·) = leftover pattern name := by
  have hfollows : Follows pattern name {} (leftover pattern name) :=
    follows (Ahead.start pattern) (Ahead.start name)
  cases hleft : leftover pattern name with
  | some rest =>
    rw [hleft] at hfollows
    obtain ⟨index, hends, hrest⟩ := hfollows
    refine ⟨some index, hends, fun i hi ↦ ?_, congrArg some hrest.drop_eq⟩
    rw [← Option.some.inj hi]
    exact hrest.le_length
  | none =>
    rw [hleft] at hfollows
    exact ⟨none, hfollows none rfl, nofun, rfl⟩

end Loop

/-- A name is accepted exactly if the pattern stands for it. The loop with one star to go back to
comes to one end from its start. Its last position in the pattern is none past the end of it, and
the name is accepted exactly if it is used up there with only stars left over. -/
theorem accepts_by_loop (pattern name : List Char) :
    (accepts pattern name = true ↔ Matches pattern name) ∧
      ∃ index?, (∀ outcome, Ends pattern name {} outcome ↔ outcome = index?) ∧
        (∀ index, index? = some index → index ≤ pattern.length) ∧
        (accepts pattern name = true ↔
          ∃ index, index? = some index ∧ (pattern.drop index).all (· = '*') = true) := by
  refine ⟨accepts_iff, ?_⟩
  obtain ⟨index?, hends, hindex, hleft⟩ := exists_ends pattern name
  refine ⟨index?, fun outcome ↦ ⟨fun h ↦ h.unique hends, ?_⟩, hindex, ?_⟩
  · rintro rfl
    exact hends
  · rw [accepts, ← hleft]
    cases index? <;> simp

end Macropad.Trigger.Glob
