import Mathlib
import Macropad.Proofs.Keys.Failing

/-!
# Key text behind key text

Every unit of a key text that can be read ends within it, so nothing of it is read otherwise when
more text follows. `Grammar.Sequence.behind` carries whatever is handed on from the rest of a text
to the text itself over a sequence in front of it; an error is (`Grammar.Sequence.fails`), and stays
at its place while the offset of that place grows by the length of the sequence.

The strokes of both texts are joined (`join`): a text at the end of the first and one at the start
of the second are one text. Merging is a homomorphism into this (`merge_append`).
-/

set_option autoImplicit false

namespace Macropad.Keys

open Grammar Reader

/-! ### Joined strokes -/

/-- Strokes behind strokes, with the texts that meet as one. -/
def join (x y : List KeyStroke) : List KeyStroke :=
  match x.getLast?, y with
  | some (.text s), .text t :: rest => x.dropLast ++ .text (s ++ t) :: rest
  | _, _ => x ++ y

theorem join_nil (y : List KeyStroke) : join [] y = y := rfl

/-- Joining leaves the first stroke where it is, unless it is a text alone. -/
theorem join_cons {stroke : KeyStroke} {x : List KeyStroke}
    (h : (∃ s, stroke = .text s) → x ≠ []) (y : List KeyStroke) :
    join (stroke :: x) y = stroke :: join x y := by
  by_cases hx : x = []
  · subst hx
    cases stroke with
    | text s => exact absurd rfl (h ⟨s, rfl⟩)
    | key | chord => rfl
  · obtain ⟨first, others, rfl⟩ := List.exists_cons_of_ne_nil hx
    unfold join
    rw [List.getLast?_cons_cons, List.dropLast_cons_cons]
    split <;> rfl

theorem prepend_of_not_text {stroke : KeyStroke} (hstroke : ¬∃ s, stroke = .text s)
    (x : List KeyStroke) : KeyStroke.prepend stroke x = stroke :: x := by
  cases stroke with
  | text s => exact absurd ⟨s, rfl⟩ hstroke
  | key | chord => rfl

/-- A text stays in front of a stroke that is none. -/
theorem prepend_text_of_not_text {s : List Char} (hs : s ≠ []) {stroke : KeyStroke}
    (hstroke : ¬∃ t, stroke = .text t) (x : List KeyStroke) :
    KeyStroke.prepend (.text s) (stroke :: x) = .text s :: stroke :: x := by
  obtain ⟨c, s, rfl⟩ := List.exists_cons_of_ne_nil hs
  cases stroke with
  | text t => exact absurd ⟨t, rfl⟩ hstroke
  | key | chord => rfl

/-- A text in front of joined strokes is in front of the first ones. -/
theorem prepend_text_join {s : List Char} (hs : s ≠ []) (x y : List KeyStroke) :
    KeyStroke.prepend (.text s) (join x y) = join (KeyStroke.prepend (.text s) x) y := by
  cases x with
  | nil =>
    obtain ⟨c, s, rfl⟩ := List.exists_cons_of_ne_nil hs
    match y with
    | [] | .text _ :: _ | .key .. :: _ | .chord .. :: _ => rfl
  | cons stroke x =>
    by_cases hstroke : ∃ t, stroke = .text t
    · obtain ⟨t, rfl⟩ := hstroke
      obtain ⟨c, s, rfl⟩ := List.exists_cons_of_ne_nil hs
      by_cases hx : x = []
      · subst hx
        match y with
        | .text u :: rest => simp [join, KeyStroke.prepend]
        | [] | .key .. :: _ | .chord .. :: _ => rfl
      · rw [join_cons fun _ ↦ hx]
        exact (join_cons (fun _ ↦ hx) y).symm
    · rw [join_cons (absurd · hstroke), prepend_text_of_not_text hs hstroke,
        prepend_text_of_not_text hs hstroke, join_cons fun _ ↦ List.cons_ne_nil _ _,
        join_cons (absurd · hstroke)]

theorem prepend_join (stroke : KeyStroke) (x y : List KeyStroke) :
    KeyStroke.prepend stroke (join x y) = join (KeyStroke.prepend stroke x) y := by
  by_cases hstroke : ∃ s, stroke = .text s
  · obtain ⟨s, rfl⟩ := hstroke
    by_cases hs : s = []
    · subst hs
      rfl
    · exact prepend_text_join hs x y
  · rw [prepend_of_not_text hstroke, prepend_of_not_text hstroke, join_cons (absurd · hstroke)]

theorem merge_append (x y : List KeyStroke) : merge (x ++ y) = join (merge x) (merge y) := by
  induction x with
  | nil => rw [List.nil_append, merge, join_nil]
  | cons stroke x ih => rw [List.cons_append, merge_cons, merge_cons, ih, prepend_join]

/-! ### Sequences in front -/

/-- What every unit hands on from the text behind it, a sequence hands on. -/
theorem Grammar.Sequence.behind {P : List Char → Prop}
    (hunit : ∀ s rest stroke, Front s stroke rest → P rest → P s) {s : List Char}
    {units : List KeyStroke} (hsequence : Sequence s units) {rest : List Char} (hrest : P rest) :
    P (s ++ rest) := by
  induction hsequence generalizing rest with
  | nil => exact hrest
  | atom hatom _ ih =>
    rw [List.append_assoc]
    exact hunit _ _ _ (hatom.front [] _) (ih hrest)
  | modified hne hatom _ ih =>
    rw [List.append_assoc]
    exact hunit _ _ _ (hatom.front_chord hne _) (ih hrest)
  | @group modifiers inner behind content _ hinner _ _ ih =>
    have hfront : Front (marks modifiers ++ '(' :: (inner ++ ')' :: (behind ++ rest))) _ _ :=
      .group modifiers (hinner.reads (reads_closed _ (behind ++ rest)))
    simp only [List.append_assoc, List.cons_append]
    exact hunit _ _ _ hfront (ih hrest)

theorem Grammar.Sequence.append {s t : List Char} {units others : List KeyStroke}
    (hsequence : Sequence s units) (hothers : Sequence t others) :
    Sequence (s ++ t) (units ++ others) := by
  induction hsequence with
  | nil => exact hothers
  | atom hatom _ ih =>
    rw [List.append_assoc]
    exact .atom hatom ih
  | modified hne hatom _ ih =>
    rw [List.append_assoc]
    exact .modified hne hatom ih
  | group modifiers hinner _ _ ih =>
    have hgroup := Sequence.group modifiers hinner ih
    simpa only [List.append_assoc, List.cons_append] using hgroup

/-- What is wrong behind a sequence is wrong with the whole text. -/
theorem Grammar.Sequence.fails {s : List Char} {units : List KeyStroke}
    (hsequence : Sequence s units) {group : Option (List Char)} {rest : List Char} {e : Failure}
    (hrest : sequence group rest = .error e) : sequence group (s ++ rest) = .error e :=
  hsequence.behind (P := fun text ↦ sequence group text = .error e)
    (fun _ _ _ hfront hrest ↦ hfront.fails hrest) hrest

theorem parseKeys_eq_error_iff {s : List Char} {error : KeyError Nat} :
    parseKeys s = .error error ↔ ∃ e : Failure, sequence none s = .error e ∧
      error = e.mapPlace fun place ↦ s.length - place.length := by
  rw [parseKeys]
  cases hread : sequence none s with
  | ok parsed => simp
  | error e => simp [eq_comm]

/-- A text that can be read is read in the same way in front of any other text. The strokes of the
other text are joined to its own; and an error of the other text is an error of both, with its
offset, if it has one, increased by the length of the first. -/
theorem parseKeys_append {a : List Char} {x : List KeyStroke} (ha : parseKeys a = .ok x)
    (b : List Char) :
    (∀ y, parseKeys b = .ok y → parseKeys (a ++ b) = .ok (join x y)) ∧
      ∀ error, parseKeys b = .error error →
        parseKeys (a ++ b) = .error (error.mapPlace (a.length + ·)) := by
  obtain ⟨units, hunits, rfl⟩ := parseKeys_eq_ok_iff.1 ha
  refine ⟨fun y hb ↦ ?_, fun error hb ↦ ?_⟩
  · obtain ⟨others, hothers, rfl⟩ := parseKeys_eq_ok_iff.1 hb
    exact parseKeys_eq_ok_iff.2 ⟨units ++ others, hunits.append hothers, (merge_append _ _).symm⟩
  · obtain ⟨e, hread, rfl⟩ := parseKeys_eq_error_iff.1 hb
    refine parseKeys_eq_error_iff.2 ⟨e, hunits.fails hread, ?_⟩
    rw [KeyError.mapPlace_mapPlace]
    refine KeyError.mapPlace_congr fun place hplace ↦ ?_
    have hle : place.length ≤ b.length :=
      ((place_of_error hread hplace).resolve_right nofun).length_le
    rw [List.length_append]
    omega

/-- A closing brace behind one in braces, and a brace that stays open. -/
theorem parseKeys_append_of_braces :
    parseKeys "+(ab)\x7b\x7d\x7d".toList = .ok [.chord [.shift] [.text ['a', 'b']], .text ['}']] ∧
      parseKeys ("+(ab)\x7b\x7d\x7d".toList ++ "\x7dc".toList) =
        .ok [.chord [.shift] [.text ['a', 'b']], .text ['}', '}', 'c']] ∧
      parseKeys ("+(ab)\x7b\x7d\x7d".toList ++ "c\x7bd".toList) = .error (.unclosedBrace 9) := by
  have ha : parseKeys "+(ab)\x7b\x7d\x7d".toList =
      .ok [.chord [.shift] [.text ['a', 'b']], .text ['}']] := by
    cbv
  have hread : parseKeys "\x7dc".toList = .ok [.text ['}', 'c']] := by
    cbv
  have hopen : parseKeys "c\x7bd".toList = .error (.unclosedBrace 1) := by
    cbv
  exact ⟨ha, (parseKeys_append ha _).1 _ hread, (parseKeys_append ha _).2 _ hopen⟩

end Macropad.Keys
