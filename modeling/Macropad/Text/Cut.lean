/-!
Cutting a list at a separator. `cutFirst` and `cutLast` part a list at the first
or the last occurrence of an element; `cutFirst_eq_some_iff` and
`cutLast_eq_some_iff` say that the parts and the separator make up the list again
and on which side the separator may occur once more.
-/

set_option autoImplicit false

namespace Macropad.Text

variable {α : Type} [DecidableEq α]

def cutFirst (sep : α) : List α → Option (List α × List α)
  | [] => none
  | x :: xs =>
    if x = sep then some ([], xs)
    else (cutFirst sep xs).map fun parts ↦ (x :: parts.1, parts.2)

def cutLast (sep : α) : List α → Option (List α × List α)
  | [] => none
  | x :: xs =>
    match cutLast sep xs with
    | some (before, after) => some (x :: before, after)
    | none => if x = sep then some ([], xs) else none

/-- The list without its last element, if that element is `x`. -/
def dropLastIf (x : α) (xs : List α) : List α :=
  if xs.getLast? = some x then xs.dropLast else xs

/-- What follows `head`, for a list that starts with it. -/
def dropHead? (head : List α) (xs : List α) : Option (List α) :=
  if head.isPrefixOf xs then some (xs.drop head.length) else none

theorem cutFirst_eq_some_iff {sep : α} {s before after : List α} :
    cutFirst sep s = some (before, after) ↔ s = before ++ sep :: after ∧ sep ∉ before := by
  induction s generalizing before with
  | nil => simp [cutFirst]
  | cons x xs ih =>
    by_cases h : x = sep
    · subst h
      cases before with
      | nil => simp [cutFirst]
      | cons b bs => simp only [cutFirst, if_true]; grind
    · cases before with
      | nil => simp [cutFirst, h]
      | cons b bs =>
        simp only [cutFirst, h, if_false, Option.map_eq_some_iff, Prod.mk.injEq,
          List.cons_append, List.cons.injEq, List.mem_cons, not_or]
        constructor
        · rintro ⟨⟨p, q⟩, hp, ⟨rfl, rfl⟩, rfl⟩
          obtain ⟨rfl, hm⟩ := ih.1 hp
          exact ⟨⟨rfl, rfl⟩, fun e ↦ h e.symm, hm⟩
        · rintro ⟨⟨rfl, rfl⟩, _, hm⟩
          exact ⟨(bs, after), ih.2 ⟨rfl, hm⟩, ⟨rfl, rfl⟩, rfl⟩

theorem cutFirst_eq_none_iff {sep : α} {s : List α} : cutFirst sep s = none ↔ sep ∉ s := by
  induction s with
  | nil => simp [cutFirst]
  | cons x xs ih =>
    by_cases h : x = sep
    · simp [cutFirst, h]
    · simp [cutFirst, h, ih, Ne.symm h]

theorem cutLast_eq_none_iff {sep : α} {s : List α} : cutLast sep s = none ↔ sep ∉ s := by
  induction s with
  | nil => simp [cutLast]
  | cons x xs ih =>
    rw [cutLast]
    split
    · rename_i h
      have : sep ∈ xs := Decidable.byContradiction fun hm ↦ by simp [ih.2 hm] at h
      simp [this]
    · rename_i h
      have := ih.1 h
      by_cases hx : x = sep <;> grind

theorem cutLast_eq_some_iff {sep : α} {s before after : List α} :
    cutLast sep s = some (before, after) ↔ s = before ++ sep :: after ∧ sep ∉ after := by
  induction s generalizing before with
  | nil => simp [cutLast]
  | cons x xs ih =>
    rw [cutLast]
    cases h : cutLast sep xs with
    | some parts =>
      obtain ⟨p, q⟩ := parts
      have hxs := (@ih p).1
      have hmem : sep ∈ xs := Decidable.byContradiction fun hm ↦ by
        simp [cutLast_eq_none_iff.2 hm] at h
      cases before with
      | nil => simp only []; grind
      | cons b bs =>
        have hb := @ih bs
        rw [h] at hb
        simp only [Option.some.injEq, Prod.mk.injEq, List.cons.injEq, List.cons_append] at hb ⊢
        constructor
        · rintro ⟨⟨rfl, rfl⟩, rfl⟩
          exact ⟨⟨rfl, (hb.1 ⟨rfl, rfl⟩).1⟩, (hb.1 ⟨rfl, rfl⟩).2⟩
        · rintro ⟨⟨rfl, hx⟩, hm⟩
          obtain ⟨rfl, rfl⟩ := hb.2 ⟨hx, hm⟩
          exact ⟨⟨rfl, rfl⟩, rfl⟩
    | none =>
      have hm := cutLast_eq_none_iff.1 h
      by_cases hx : x = sep
      · subst hx
        cases before with
        | nil => simp; grind
        | cons b bs => simp; grind
      · cases before with
        | nil => simp [hx]
        | cons b bs => simp [hx]; grind

end Macropad.Text
