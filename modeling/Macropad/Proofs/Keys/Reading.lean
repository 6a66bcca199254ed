import Macropad.Proofs.Keys.Grammar

/-!
# Reading key text, stroke by stroke

The reader hands on what is left of the text together with a bound on its length, which its
recursion needs and nothing else does. `Reader.Reads` leaves the bound out: the reader gets a list
of strokes and leaves a text. It reads the unit at the front and goes on behind it, or has come to
the end of the text or of the group (`Reader.Reads.step`, `Reader.Front.reads`), and it does so in
one way only. The lemmas on atoms say what each form of an atom is read as.
-/

set_option autoImplicit false

namespace Macropad.Keys.Reader

/-- The reader gets these strokes from the text and leaves the rest. -/
def Reads (group : Option (List Char)) (s : List Char) (strokes : List KeyStroke)
    (rest : List Char) : Prop :=
  ∃ h, sequence group s = .ok (strokes, ⟨rest, h⟩)

/-- The atom that begins with `c` is this stroke, and the rest is left. -/
def AtomReads (c : Char) (s : List Char) (stroke : KeyStroke) (rest : List Char) : Prop :=
  ∃ h, atom c s = .ok (stroke, ⟨rest, h⟩)

/-! ### Steps of the reader -/

/-- The unit at the front of a text, as its stroke, and the text behind it. -/
inductive Front : List Char → KeyStroke → List Char → Prop
  | group (modifiers : List Modifier) {s rest : List Char} {inner : List KeyStroke}
      (hinner : Reads (some ('(' :: s)) s inner rest) :
    Front (marks modifiers ++ '(' :: s) (.chord modifiers inner) rest
  | atom (modifiers : List Modifier) {c : Char} {s rest : List Char} {stroke : KeyStroke}
      (hclose : c ≠ ')') (hopen : c ≠ '(') (hmodifier : Modifier.ofChar? c = none)
      (hatom : AtomReads c s stroke rest) :
    Front (marks modifiers ++ c :: s) (modified modifiers stroke) rest

/-- What the reader does at the front of a text: it is at the end, or it reads a unit and goes on
behind it. -/
inductive Step : Option (List Char) → List Char → List KeyStroke → List Char → Prop
  | finished : Step none [] [] []
  | closed (start rest : List Char) : Step (some start) (')' :: rest) [] rest
  | unit {group : Option (List Char)} {s rest last : List Char} {stroke : KeyStroke}
      {strokes : List KeyStroke} (hfront : Front s stroke rest)
      (hrest : Reads group rest strokes last) :
    Step group s (KeyStroke.prepend stroke strokes) last

theorem ofChar?_eq_some_iff {c : Char} {modifier : Modifier} :
    Modifier.ofChar? c = some modifier ↔ c = modifier.mark := by
  constructor
  · intro hc
    unfold Modifier.ofChar? at hc
    split at hc <;> cases hc <;> rfl
  · rintro rfl
    cases modifier <;> rfl

/-- The modifiers are all the marks at the front. -/
theorem cutModifiers_marks (modifiers : List Modifier) {c : Char} (s : List Char)
    (hmodifier : Modifier.ofChar? c = none) :
    cutModifiers (marks modifiers ++ c :: s) = (modifiers, c :: s) := by
  induction modifiers with
  | nil => rw [marks, List.map_nil, List.nil_append, cutModifiers, hmodifier]
  | cons modifier modifiers ih =>
    have hmark : Modifier.ofChar? modifier.mark = some modifier := ofChar?_eq_some_iff.2 rfl
    rw [marks, List.map_cons, ← marks, List.cons_append, cutModifiers, hmark, ih]

theorem eq_of_cutModifiers {s after : List Char} {modifiers : List Modifier} {c : Char}
    (hcut : cutModifiers s = (modifiers, c :: after)) :
    s = marks modifiers ++ c :: after ∧ Modifier.ofChar? c = none := by
  induction s generalizing modifiers with
  | nil => cases hcut
  | cons first rest ih =>
    rw [cutModifiers] at hcut
    split at hcut
    · rename_i hfirst
      cases hcut
      exact ⟨rfl, hfirst⟩
    · rename_i modifier hfirst
      obtain ⟨rfl, hafter⟩ := Prod.mk.inj hcut
      obtain ⟨hrest, hmodifier⟩ := ih (Prod.ext rfl hafter)
      refine ⟨?_, hmodifier⟩
      rw [marks, List.map_cons, ← marks, List.cons_append, ← hrest, ofChar?_eq_some_iff.1 hfirst]

theorem marks_append_inj {modifiers modifiers' : List Modifier} {c c' : Char} {s s' : List Char}
    (hmodifier : Modifier.ofChar? c = none) (hmodifier' : Modifier.ofChar? c' = none)
    (hs : marks modifiers ++ c :: s = marks modifiers' ++ c' :: s') :
    modifiers = modifiers' ∧ c = c' ∧ s = s' := by
  have hcut := cutModifiers_marks modifiers s hmodifier
  rw [hs, cutModifiers_marks modifiers' s' hmodifier'] at hcut
  cases hcut
  exact ⟨rfl, rfl, rfl⟩

/-- What is read is read in one step and what follows it. -/
theorem Reads.step {group : Option (List Char)} {s last : List Char} {strokes : List KeyStroke}
    (hreads : Reads group s strokes last) : Step group s strokes last := by
  obtain ⟨hlength, hread⟩ := hreads
  rw [sequence.eq_def] at hread
  split at hread
  · split at hread <;> cases hread
    exact .finished
  rename_i first tail
  split at hread
  · rename_i hfirst
    subst hfirst
    split at hread <;> cases hread
    exact .closed _ _
  split at hread
  · cases hread
  rename_i c after hcut
  obtain ⟨modifiers, hmodifiers⟩ : ∃ modifiers, (cutModifiers (first :: tail)).1 = modifiers :=
    ⟨_, rfl⟩
  obtain ⟨hs, hmodifier⟩ := eq_of_cutModifiers (Prod.ext hmodifiers hcut)
  simp only [hmodifiers] at hread
  rw [hs]
  split at hread
  · cases hread
  rename_i hclose
  split at hread
  · rename_i hopen
    subst hopen
    split at hread
    · cases hread
    rename_i inner rest hrest hinner
    split at hread
    · cases hread
    rename_i strokes last hlast hothers
    cases hread
    exact .unit (.group _ ⟨hrest, hinner⟩) ⟨hlast, hothers⟩
  · rename_i hopen
    split at hread
    · cases hread
    rename_i stroke rest hrest hatom
    split at hread
    · cases hread
    rename_i strokes last hlast hothers
    cases hread
    exact .unit (.atom _ hclose hopen hmodifier ⟨hrest, hatom⟩) ⟨hlast, hothers⟩

/-- The text of a unit, marks included, whose atom or group begins with `c`. -/
theorem exists_front (modifiers : List Modifier) {c : Char} (s : List Char) (hclose : c ≠ ')')
    (hmodifier : Modifier.ofChar? c = none) :
    ∃ first tail, marks modifiers ++ c :: s = first :: tail ∧ first ≠ ')' ∧
      s.length ≤ tail.length ∧ cutModifiers (first :: tail) = (modifiers, c :: s) := by
  have hcut := cutModifiers_marks modifiers s hmodifier
  cases modifiers with
  | nil => exact ⟨c, s, rfl, hclose, Nat.le_refl _, hcut⟩
  | cons modifier modifiers =>
    refine ⟨modifier.mark, marks modifiers ++ c :: s, rfl, by cases modifier <;> decide, ?_, hcut⟩
    rw [List.length_append, List.length_cons]
    omega

/-- A unit is read in front of what is read behind it. -/
theorem Front.reads {group : Option (List Char)} {s rest last : List Char} {stroke : KeyStroke}
    {strokes : List KeyStroke} (hfront : Front s stroke rest)
    (hrest : Reads group rest strokes last) :
    Reads group s (KeyStroke.prepend stroke strokes) last := by
  obtain ⟨hlength', hrest⟩ := hrest
  cases hfront with
  | @group modifiers s rest inner hinner =>
    obtain ⟨first, tail, hs, hfirst, htail, hcut⟩ :=
      exists_front modifiers s (by decide : '(' ≠ ')') (by decide)
    obtain ⟨hlength, hinner⟩ := hinner
    rw [hs]
    refine ⟨by simp only [List.length_cons]; omega, ?_⟩
    rw [sequence.eq_def]
    simp only [if_neg hfirst]
    split
    · rename_i hnone
      cases hnone.symm.trans (congrArg Prod.snd hcut)
    · rename_i c' s' hsome
      obtain ⟨rfl, rfl⟩ := List.cons.inj (hsome.symm.trans (congrArg Prod.snd hcut))
      simp only [hcut, hinner, hrest, Char.reduceEq, if_true, if_false]
  | @atom modifiers c s rest stroke hclose hopen hmodifier hatom =>
    obtain ⟨first, tail, hs, hfirst, htail, hcut⟩ := exists_front modifiers s hclose hmodifier
    obtain ⟨hlength, hatom⟩ := hatom
    rw [hs]
    refine ⟨by simp only [List.length_cons] at hlength ⊢; omega, ?_⟩
    rw [sequence.eq_def]
    simp only [if_neg hfirst]
    split
    · rename_i hnone
      cases hnone.symm.trans (congrArg Prod.snd hcut)
    · rename_i c' s' hsome
      obtain ⟨rfl, rfl⟩ := List.cons.inj (hsome.symm.trans (congrArg Prod.snd hcut))
      simp only [hcut, if_neg hclose, if_neg hopen, hatom, hrest]

theorem reads_nil : Reads none [] [] [] := by
  refine ⟨Nat.le_refl 0, ?_⟩
  rw [sequence]

/-- The closing parenthesis of a group ends what is read in it. -/
theorem reads_closed (start rest : List Char) : Reads (some start) (')' :: rest) [] rest := by
  refine ⟨Nat.le_succ _, ?_⟩
  rw [sequence.eq_def]
  rfl

/-! ### One reading -/

theorem Reads.unique {group : Option (List Char)} {s rest rest' : List Char}
    {strokes strokes' : List KeyStroke} (hreads : Reads group s strokes rest)
    (hreads' : Reads group s strokes' rest') : strokes = strokes' ∧ rest = rest' := by
  obtain ⟨_, hread⟩ := hreads
  obtain ⟨_, hread'⟩ := hreads'
  cases hread.symm.trans hread'
  exact ⟨rfl, rfl⟩

theorem AtomReads.unique {c : Char} {s rest rest' : List Char} {stroke stroke' : KeyStroke}
    (hreads : AtomReads c s stroke rest) (hreads' : AtomReads c s stroke' rest') :
    stroke = stroke' ∧ rest = rest' := by
  obtain ⟨_, hread⟩ := hreads
  obtain ⟨_, hread'⟩ := hreads'
  cases hread.symm.trans hread'
  exact ⟨rfl, rfl⟩

theorem Front.length_lt {s rest : List Char} {stroke : KeyStroke} (hfront : Front s stroke rest) :
    rest.length < s.length := by
  cases hfront with
  | group modifiers hinner =>
    obtain ⟨hlength, -⟩ := hinner
    rw [List.length_append, List.length_cons]
    omega
  | atom modifiers _ _ _ hatom =>
    obtain ⟨hlength, -⟩ := hatom
    rw [List.length_append]
    omega

/-- A text has one unit at its front. -/
theorem Front.unique {s rest rest' : List Char} {stroke stroke' : KeyStroke}
    (hfront : Front s stroke rest) (hfront' : Front s stroke' rest') :
    stroke = stroke' ∧ rest = rest' := by
  generalize hs : s = text at hfront'
  cases hfront with
  | group modifiers hinner =>
    cases hfront' with
    | group modifiers' hinner' =>
      obtain ⟨rfl, -, rfl⟩ := marks_append_inj (by decide) (by decide) hs
      obtain ⟨rfl, rfl⟩ := hinner.unique hinner'
      exact ⟨rfl, rfl⟩
    | atom modifiers' hclose hopen hmodifier hatom =>
      exact absurd (marks_append_inj (by decide) hmodifier hs).2.1.symm hopen
  | atom modifiers hclose hopen hmodifier hatom =>
    cases hfront' with
    | group modifiers' hinner' => exact absurd (marks_append_inj hmodifier (by decide) hs).2.1 hopen
    | atom modifiers' hclose' hopen' hmodifier' hatom' =>
      obtain ⟨rfl, rfl, rfl⟩ := marks_append_inj hmodifier hmodifier' hs
      obtain ⟨rfl, rfl⟩ := hatom.unique hatom'
      exact ⟨rfl, rfl⟩

/-- An atom in front of a text, without modifiers. -/
theorem reads_atom {group : Option (List Char)} {c : Char} {s rest last : List Char}
    {stroke : KeyStroke} {strokes : List KeyStroke} (hclose : c ≠ ')') (hopen : c ≠ '(')
    (hmodifier : Modifier.ofChar? c = none) (hatom : AtomReads c s stroke rest)
    (hrest : Reads group rest strokes last) :
    Reads group (c :: s) (KeyStroke.prepend stroke strokes) last :=
  (Front.atom [] hclose hopen hmodifier hatom).reads hrest

/-! ### Atoms -/

theorem atomReads_plain {c : Char} (hbrace : c ≠ '{') (htilde : c ≠ '~') (s : List Char) :
    AtomReads c s (.text [c]) s := by
  refine ⟨by simp, ?_⟩
  rw [atom, dif_neg hbrace, if_neg htilde]

theorem atom_brace (s : List Char) : atom '{' s = braced s := by
  rw [atom, dif_pos rfl]

/-- Two closing braces behind an opening one stand for the character. -/
theorem atomReads_closingBrace (rest : List Char) :
    AtomReads '{' ('}' :: '}' :: rest) (.text ['}']) rest := by
  refine ⟨by simp; omega, ?_⟩
  rw [atom_brace, braced]

/-- Any other body that is not empty ends at the first closing brace. -/
theorem atomReads_body {body : List Char} {stroke : KeyStroke} (hne : body ≠ [])
    (hbody : '}' ∉ body) (hstroke : ofBody body = .ok stroke) (rest : List Char) :
    AtomReads '{' (body ++ '}' :: rest) stroke rest := by
  have hcut : Text.cutFirst '}' (body ++ '}' :: rest) = some (body, rest) :=
    Text.cutFirst_eq_some_iff.2 ⟨rfl, hbody⟩
  have hclosing : ∀ rest', body ++ '}' :: rest = '}' :: '}' :: rest' → False := by
    intro rest' hlists
    obtain ⟨c, body, rfl⟩ := List.exists_cons_of_ne_nil hne
    exact hbody ((List.cons.inj hlists).1 ▸ List.mem_cons_self)
  refine ⟨by simp; omega, ?_⟩
  rw [atom_brace, braced.eq_2 _ hclosing]
  split
  · rename_i hnone
    rw [hcut] at hnone
    cases hnone
  · rename_i body' rest' hsome
    obtain ⟨rfl, rfl⟩ : body = body' ∧ rest = rest' := by
      rw [hcut] at hsome
      exact Prod.mk.inj (Option.some.inj hsome)
    simp only [hstroke]

end Macropad.Keys.Reader
