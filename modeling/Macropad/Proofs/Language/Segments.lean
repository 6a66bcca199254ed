import Macropad.Language.Segment

/-!
# Texts and their segments

A text is closed when each of its semicolons stands between braces (`closed_iff`). Such a text is
one segment as it stands (`split_of_closed`): nothing parts it, and no semicolon is taken off its
end. Closed texts are put together from parts that stay closed behind any character.

Segments are parted when they are closed and no semicolon between two of them stands between
braces. The segments of every text are (`parted_split`), and splitting undoes the joining of
parted segments (`splitFrom_join`). One semicolon at the end of a text is dropped first. Behind
joined segments that changes nothing (`split_join_semicolon`), but where the last segment is empty,
it is the one in front of that segment (`split_join_concat_nil`).

Segments are whole when they can stand beside each other in any order: they are closed and not
empty, and none begins with a brace that could close an escape across the semicolon in front of it.
With or without a semicolon at the end, their text has these segments (`split_join`).
-/

set_option autoImplicit false

namespace Macropad.Language.Segment

/-- Every semicolon of a text that follows the character `before` stands between braces. -/
def Closed (before : Option Char) : List Char → Prop
  | [] => True
  | c :: rest => (c = ';' → isEscaped before rest = true) ∧ Closed (some c) rest

/-- The character in front of what follows a text. -/
theorem getLast?_cons_or (c : Char) (s : List Char) (before : Option Char) :
    (c :: s).getLast?.or before = s.getLast?.or (some c) := by
  rw [List.getLast?_cons]
  cases s.getLast? <;> rfl

/-- A text is closed when each of its semicolons follows an opening brace, which may be the
character in front of the text, and precedes a closing one. -/
theorem closed_iff {before : Option Char} {s : List Char} :
    Closed before s ↔ ∀ left right, s = left ++ ';' :: right →
      isEscaped (left.getLast?.or before) right = true := by
  induction s generalizing before with
  | nil => exact ⟨fun _ left right hs ↦ absurd hs (by simp), fun _ ↦ trivial⟩
  | cons c rest ih =>
    constructor
    · rintro ⟨hc, hrest⟩ left right hs
      cases left with
      | nil =>
        obtain ⟨rfl, rfl⟩ := List.cons.inj hs
        exact hc rfl
      | cons d left =>
        obtain ⟨rfl, htail⟩ := List.cons.inj hs
        rw [getLast?_cons_or]
        exact ih.1 hrest left right htail
    · intro hall
      refine ⟨?_, ih.2 fun left right hrest ↦ ?_⟩
      · rintro rfl
        exact hall [] rest rfl
      · rw [← getLast?_cons_or]
        exact hall (c :: left) right (by rw [hrest, List.cons_append])

/-- A text that is closed on its own is closed behind any character. -/
theorem Closed.behind {s : List Char} (hs : Closed none s) (before : Option Char) :
    Closed before s := by
  cases s with
  | nil => trivial
  | cons c rest =>
    obtain ⟨hc, hrest⟩ := hs
    exact ⟨fun hsemicolon ↦ absurd (hc hsemicolon) Bool.false_ne_true, hrest⟩

theorem closed_cons {c : Char} {rest : List Char} (hc : c ≠ ';') (hrest : Closed (some c) rest)
    (before : Option Char) : Closed before (c :: rest) :=
  ⟨fun h ↦ absurd h hc, hrest⟩

/-- A part without semicolons in front of a text that is closed anywhere. -/
theorem closed_append {s rest : List Char} (hs : ';' ∉ s) (hrest : ∀ before, Closed before rest)
    (before : Option Char) : Closed before (s ++ rest) := by
  induction s generalizing before with
  | nil => exact hrest before
  | cons c s ih =>
    have hc : c ≠ ';' := fun h ↦ hs (h ▸ List.mem_cons_self)
    exact closed_cons hc (ih (fun h ↦ hs (List.mem_cons_of_mem c h)) (some c)) before

theorem closed_of_not_mem {s : List Char} (hs : ';' ∉ s) (before : Option Char) :
    Closed before s := by
  have hnil (before : Option Char) : Closed before [] := trivial
  have hclosed := closed_append hs hnil before
  rwa [List.append_nil] at hclosed

/-- What a closed text ends with is closed behind what stands in front of it. -/
theorem Closed.of_append {before : Option Char} {s rest : List Char}
    (hclosed : Closed before (s ++ rest)) : Closed (s.getLast?.or before) rest := by
  induction s generalizing before with
  | nil => exact hclosed
  | cons c s ih =>
    rw [getLast?_cons_or]
    exact ih hclosed.2

/-- An escaped semicolon in front of a text that is closed anywhere. -/
theorem closed_semicolon {rest : List Char} (hrest : ∀ before, Closed before rest)
    (before : Option Char) : Closed before ('{' :: ';' :: '}' :: rest) := by
  have hclosing : Closed (some ';') ('}' :: rest) :=
    closed_cons (by decide) (hrest (some '}')) (some ';')
  have hsemicolon : Closed (some '{') (';' :: '}' :: rest) := ⟨fun _ ↦ rfl, hclosing⟩
  exact closed_cons (by decide) hsemicolon before

/-- A closed text is not parted. -/
theorem splitFrom_of_closed {before : Option Char} {s : List Char} (hs : Closed before s) :
    splitFrom before s = [s] := by
  induction s generalizing before with
  | nil => rfl
  | cons c rest ih =>
    obtain ⟨hc, hrest⟩ := hs
    have hkept : ¬(c = ';' ∧ isEscaped before rest = false) := by
      rintro ⟨hsemicolon, hescaped⟩
      cases hescaped.symm.trans (hc hsemicolon)
    rw [splitFrom, if_neg hkept, ih hrest]

/-- A closed text does not end with a semicolon. -/
theorem getLast?_of_closed {before : Option Char} {s : List Char} (hs : Closed before s) :
    s.getLast? ≠ some ';' := by
  induction s generalizing before with
  | nil => exact nofun
  | cons c rest ih =>
    obtain ⟨hc, hrest⟩ := hs
    cases rest with
    | nil =>
      intro hlast
      have hescaped := hc (Option.some.inj hlast)
      simp [isEscaped] at hescaped
    | cons d rest => exact ih hrest

/-- A closed text that is not empty is one segment. -/
theorem split_of_closed {s : List Char} (hs : Closed none s) (hne : s ≠ []) : split s = [s] := by
  rw [split, if_neg hne, Text.dropLastIf, if_neg (getLast?_of_closed hs), splitFrom_of_closed hs]

/-! ### Several segments -/

/-- The segments are closed, and no semicolon between two of them stands between braces. The first
one follows the character `before`. -/
def Parted (before : Option Char) : List (List Char) → Prop
  | [] => True
  | [s] => Closed before s
  | s :: t :: rest =>
    Closed before s ∧ isEscaped (s.getLast?.or before) t = false ∧ Parted (some ';') (t :: rest)

/-- Whether a semicolon is escaped does not depend on what stands behind the next segment. -/
theorem isEscaped_join (before : Option Char) (s : List Char) (segments : List (List Char)) :
    isEscaped before (join (s :: segments)) = isEscaped before s := by
  cases segments with
  | nil => rfl
  | cons t segments =>
    cases s with
    | nil => simp [join, isEscaped]
    | cons c s => rfl

/-- The segments of a text are parted. -/
theorem parted_splitFrom (before : Option Char) (s : List Char) :
    Parted before (splitFrom before s) := by
  induction s generalizing before with
  | nil => exact trivial
  | cons c rest ih =>
    obtain ⟨first, others, hsplit⟩ :=
      List.exists_cons_of_ne_nil (splitFrom_ne_nil (some c) rest)
    have hparted := ih (some c)
    have hescaped : isEscaped before rest = isEscaped before first := by
      rw [← isEscaped_join before first others, ← hsplit, join_splitFrom]
    rw [hsplit] at hparted
    rw [splitFrom, hsplit]
    split
    · rename_i hparts
      obtain ⟨rfl, hbetween⟩ := hparts
      exact ⟨trivial, hescaped.symm.trans hbetween, hparted⟩
    · rename_i hkept
      have hc : c = ';' → isEscaped before first = true := by
        intro hsemicolon
        rw [← hescaped, ← Bool.not_eq_false]
        exact fun hfalse ↦ hkept ⟨hsemicolon, hfalse⟩
      cases others with
      | nil => exact ⟨hc, hparted⟩
      | cons t others =>
        obtain ⟨hfirst, hseam, hothers⟩ := hparted
        exact ⟨⟨hc, hfirst⟩, by rwa [getLast?_cons_or], hothers⟩

theorem parted_split (s : List Char) : Parted none (split s) := by
  unfold split
  split
  · trivial
  · exact parted_splitFrom none _

/-- A closed text ends at the semicolon behind it, unless that one is escaped. -/
theorem splitFrom_append {before : Option Char} {s rest : List Char} (hs : Closed before s)
    (hseam : isEscaped (s.getLast?.or before) rest = false) :
    splitFrom before (s ++ ';' :: rest) = s :: splitFrom (some ';') rest := by
  induction s generalizing before with
  | nil => rw [List.nil_append, splitFrom, if_pos ⟨rfl, hseam⟩]
  | cons c s ih =>
    obtain ⟨hc, hclosed⟩ := hs
    have hkept : ¬(c = ';' ∧ isEscaped before (s ++ ';' :: rest) = false) := by
      rintro ⟨hsemicolon, hescaped⟩
      have hs := hc hsemicolon
      cases s with
      | nil => simp [isEscaped] at hs
      | cons d s => cases hescaped.symm.trans hs
    rw [getLast?_cons_or] at hseam
    rw [List.cons_append, splitFrom, if_neg hkept, ih hclosed hseam]

/-- Splitting undoes the joining of parted segments. -/
theorem splitFrom_join {before : Option Char} {segments : List (List Char)}
    (hparted : Parted before segments) (hne : segments ≠ []) :
    splitFrom before (join segments) = segments := by
  induction segments generalizing before with
  | nil => exact absurd rfl hne
  | cons s segments ih =>
    cases segments with
    | nil => exact splitFrom_of_closed hparted
    | cons t segments =>
      obtain ⟨hs, hseam, hrest⟩ := hparted
      rw [← isEscaped_join _ t segments] at hseam
      rw [join, splitFrom_append hs hseam, ih hrest (List.cons_ne_nil t segments)]

/-- Behind any character but an opening brace, a closed text is closed on its own. -/
theorem Closed.alone {before : Option Char} {s : List Char} (hs : Closed before s)
    (hbefore : before ≠ some '{') : Closed none s := by
  cases s with
  | nil => trivial
  | cons c rest =>
    obtain ⟨hc, hrest⟩ := hs
    refine ⟨fun hsemicolon ↦ ?_, hrest⟩
    have hescaped := hc hsemicolon
    simp [isEscaped, hbefore] at hescaped

theorem Parted.closed {before : Option Char} {segments : List (List Char)}
    (hparted : Parted before segments) (hbefore : before ≠ some '{') :
    ∀ s ∈ segments, Closed none s := by
  induction segments generalizing before with
  | nil => exact List.forall_mem_nil _
  | cons s segments ih =>
    cases segments with
    | nil => exact List.forall_mem_singleton.2 (hparted.alone hbefore)
    | cons t segments =>
      obtain ⟨hs, -, hrest⟩ := hparted
      exact List.forall_mem_cons.2 ⟨hs.alone hbefore, ih hrest (by decide)⟩

/-- The semicolon between two parts of a text is not escaped. -/
theorem Parted.seam {before : Option Char} {first second : List (List Char)}
    (hparted : Parted before (first ++ second)) (hfirst : first ≠ []) (hsecond : second ≠ []) :
    isEscaped ((join first).getLast?.or before) (join second) = false := by
  obtain ⟨t, second, rfl⟩ := List.exists_cons_of_ne_nil hsecond
  rw [isEscaped_join]
  induction first generalizing before with
  | nil => exact absurd rfl hfirst
  | cons s first ih =>
    cases first with
    | nil => exact hparted.2.1
    | cons s' first =>
      have hrest := ih (List.cons_ne_nil s' first) hparted.2.2
      have hlast : (join (s :: s' :: first)).getLast?.or before =
          (join (s' :: first)).getLast?.or (some ';') := by
        rw [join, List.getLast?_append, Option.or_assoc, getLast?_cons_or]
      rw [hlast]
      exact hrest

theorem Parted.left {before : Option Char} {first second : List (List Char)}
    (hparted : Parted before (first ++ second)) : Parted before first := by
  induction first generalizing before with
  | nil => trivial
  | cons s first ih =>
    cases first with
    | nil =>
      cases second with
      | nil => exact hparted
      | cons t second => exact hparted.1
    | cons s' first => exact ⟨hparted.1, hparted.2.1, ih hparted.2.2⟩

/-! ### The end of a text -/

theorem join_eq_nil {s : List Char} {segments : List (List Char)}
    (hnil : join (s :: segments) = []) : s = [] ∧ segments = [] := by
  cases segments with
  | nil => exact ⟨hnil, rfl⟩
  | cons t segments => simp [join] at hnil

theorem join_concat {segments : List (List Char)} (hne : segments ≠ []) (s : List Char) :
    join (segments ++ [s]) = join segments ++ ';' :: s := by
  induction segments with
  | nil => exact absurd rfl hne
  | cons t segments ih =>
    cases segments with
    | nil => rfl
    | cons u segments =>
      have htail := ih (List.cons_ne_nil u segments)
      rw [List.cons_append] at htail
      rw [List.cons_append, List.cons_append, join, htail, join, List.append_assoc]
      rfl

/-- Only in front of an empty segment a text of parted segments ends with a semicolon. -/
theorem getLast?_of_getLast?_join {before : Option Char} {segments : List (List Char)}
    (hparted : Parted before segments) (hlast : (join segments).getLast? = some ';') :
    segments.getLast? = some [] := by
  induction segments generalizing before with
  | nil => cases hlast
  | cons s segments ih =>
    cases segments with
    | nil => exact absurd hlast (getLast?_of_closed hparted)
    | cons t segments =>
      rw [join, List.getLast?_append, List.getLast?_cons] at hlast
      rw [List.getLast?_cons_cons]
      cases htail : (join (t :: segments)).getLast? with
      | none =>
        obtain ⟨rfl, rfl⟩ := join_eq_nil (List.getLast?_eq_none_iff.1 htail)
        rfl
      | some last =>
        rw [htail] at hlast
        exact ih hparted.2.2 (htail.trans hlast)

/-- A semicolon behind joined segments changes nothing. -/
theorem split_join_semicolon {segments : List (List Char)} (hparted : Parted none segments)
    (hne : segments ≠ []) : split (join segments ++ [';']) = segments := by
  have hlast : (join segments ++ [';']).getLast? = some ';' := List.getLast?_concat
  rw [split, if_neg (List.append_ne_nil_of_right_ne_nil _ (List.cons_ne_nil _ _)),
    Text.dropLastIf, if_pos hlast, List.dropLast_concat, splitFrom_join hparted hne]

/-- A text has the segments of which it is joined, when the last one is not empty. -/
theorem split_join_of_getLast? {segments : List (List Char)} (hparted : Parted none segments)
    (hlast : segments.getLast? ≠ some []) : split (join segments) = segments := by
  cases segments with
  | nil => rfl
  | cons s segments =>
    have hjoin : join (s :: segments) ≠ [] := by
      intro hnil
      obtain ⟨rfl, rfl⟩ := join_eq_nil hnil
      exact hlast rfl
    have hend : (join (s :: segments)).getLast? ≠ some ';' := fun hsemicolon ↦
      hlast (getLast?_of_getLast?_join hparted hsemicolon)
    rw [split, if_neg hjoin, Text.dropLastIf, if_neg hend,
      splitFrom_join hparted (List.cons_ne_nil s segments)]

/-- An empty segment at the end of a joined text is lost. -/
theorem split_join_concat_nil {segments : List (List Char)}
    (hparted : Parted none (segments ++ [[]])) : split (join (segments ++ [[]])) = segments := by
  by_cases hne : segments = []
  · subst hne
    rfl
  · rw [join_concat hne, split_join_semicolon hparted.left hne]

/-! ### Segments in any order -/

/-- A segment that can stand beside others. -/
structure Whole (s : List Char) : Prop where
  closed : Closed none s
  ne_nil : s ≠ []
  head?_ne : s.head? ≠ some '}'

theorem parted_of_whole {segments : List (List Char)} (hwhole : ∀ s ∈ segments, Whole s)
    (before : Option Char) : Parted before segments := by
  induction segments generalizing before with
  | nil => trivial
  | cons s segments ih =>
    obtain ⟨hs, hsegments⟩ := List.forall_mem_cons.1 hwhole
    cases segments with
    | nil => exact hs.closed.behind before
    | cons t segments =>
      have hhead := (hsegments t List.mem_cons_self).head?_ne
      exact ⟨hs.closed.behind before, by simp [isEscaped, hhead], ih hsegments (some ';')⟩

/-- A text of whole segments, with or without a semicolon at its end, has these segments. -/
theorem split_join {segments : List (List Char)} (hwhole : ∀ s ∈ segments, Whole s)
    (hne : segments ≠ []) (trailing : Bool) :
    split (join segments ++ if trailing then [';'] else []) = segments := by
  have hparted := parted_of_whole hwhole none
  cases trailing with
  | true => exact split_join_semicolon hparted hne
  | false =>
    rw [if_neg Bool.false_ne_true, List.append_nil]
    refine split_join_of_getLast? hparted fun hlast ↦ ?_
    exact (hwhole [] (List.mem_of_getLast? hlast)).ne_nil rfl

end Macropad.Language.Segment
