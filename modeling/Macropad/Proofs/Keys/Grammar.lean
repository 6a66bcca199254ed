import Macropad.Keys.Reader

/-!
# The grammar of key text

Key text is a sequence of units, each a group or an atom with or without modifiers. `Sequence`
derives a text together with one stroke for each of its units; the strokes inside of a group are
merged (`merge`), which drops empty texts and joins neighbouring ones.

The body of a brace is a character or the name of a key, and either may have a count behind one
blank. Names and counts have no blanks, so a body that has one comes apart in one way only, and a
body is read for what the grammar says and for nothing else (`ofBody_eq_ok_iff`).
-/

set_option autoImplicit false

namespace Macropad.Keys

/-- The character that stands for a modifier. -/
def Modifier.mark : Modifier → Char
  | .control => '^'
  | .alt => '%'
  | .shift => '+'

def marks (modifiers : List Modifier) : List Char := modifiers.map Modifier.mark

/-- Neighbouring texts joined, empty ones left out. -/
def merge : List KeyStroke → List KeyStroke
  | [] => []
  | .text [] :: rest => merge rest
  | .text s :: .text t :: rest => merge (.text (s ++ t) :: rest)
  | stroke :: rest => stroke :: merge rest
termination_by strokes => strokes.length

namespace Grammar

/-- What a body in braces repeats, as the stroke for a count. -/
inductive Base : List Char → (UInt32 → KeyStroke) → Prop
  | char (c : Char) : Base [c] fun n ↦ .text (List.replicate n.toNat c)
  | name {name : List Char} {key : NamedKey} (hname : NamedKey.ofName? name = some key) :
    Base name (.key key)

inductive Body : List Char → KeyStroke → Prop
  | once {base : List Char} {stroke : UInt32 → KeyStroke} (hbase : Base base stroke) :
    Body base (stroke 1)
  | counted {base count : List Char} {stroke : UInt32 → KeyStroke} {n : UInt32}
      (hbase : Base base stroke) (hcount : Number.readWord32 count = some n) :
    Body (base ++ ' ' :: count) (stroke n)

inductive Atom : List Char → KeyStroke → Prop
  | enter : Atom ['~'] (.key .enter 1)
  | closingBrace : Atom ['{', '}', '}'] (.text ['}'])
  | braced {body : List Char} {stroke : KeyStroke} (hbrace : '}' ∉ body)
      (hbody : Body body stroke) : Atom ('{' :: body ++ ['}']) stroke
  | plain {c : Char} (hc : c ∉ ['^', '%', '+', '~', '{', '(', ')']) : Atom [c] (.text [c])

/-- A text with the strokes of its units. -/
inductive Sequence : List Char → List KeyStroke → Prop
  | nil : Sequence [] []
  | atom {atom rest : List Char} {stroke : KeyStroke} {strokes : List KeyStroke}
      (hatom : Atom atom stroke) (hrest : Sequence rest strokes) :
    Sequence (atom ++ rest) (stroke :: strokes)
  | modified {modifiers : List Modifier} {atom rest : List Char} {stroke : KeyStroke}
      {strokes : List KeyStroke} (hne : modifiers ≠ []) (hatom : Atom atom stroke)
      (hrest : Sequence rest strokes) :
    Sequence (marks modifiers ++ atom ++ rest) (.chord modifiers [stroke] :: strokes)
  | group (modifiers : List Modifier) {inner rest : List Char} {content strokes : List KeyStroke}
      (hinner : Sequence inner content) (hrest : Sequence rest strokes) :
    Sequence (marks modifiers ++ '(' :: inner ++ ')' :: rest)
      (.chord modifiers (merge content) :: strokes)

end Grammar

open Grammar

/-! ### Merged strokes -/

/-- A text in front of a text is in front of what both come to. -/
theorem prepend_prepend {s : List Char} (hs : s ≠ []) (t : List Char) (rest : List KeyStroke) :
    KeyStroke.prepend (.text s) (KeyStroke.prepend (.text t) rest) =
      KeyStroke.prepend (.text (s ++ t)) rest := by
  obtain ⟨c, s, rfl⟩ := List.exists_cons_of_ne_nil hs
  rcases t with _ | ⟨d, t⟩
  · rw [List.append_nil]
    rfl
  · match rest with
    | .text u :: rest =>
      simp only [KeyStroke.prepend, List.append_assoc, List.cons_append]
    | [] | .key .. :: _ | .chord .. :: _ => rfl

/-- Strokes are merged from the last one on. -/
theorem merge_eq_foldr (strokes : List KeyStroke) :
    merge strokes = strokes.foldr KeyStroke.prepend [] := by
  induction strokes using merge.induct with
  | case1 => rw [merge]; rfl
  | case2 rest ih => rw [merge, ih]; rfl
  | case3 s t rest hs ih =>
    rw [merge, ih]
    · exact (prepend_prepend hs t _).symm
    · exact hs
  | case4 stroke rest hempty htexts ih =>
    rw [merge, ih]
    · match stroke, rest with
      | .key .., _ | .chord .., _ => rfl
      | .text [], _ => exact absurd rfl hempty
      | .text _, .text _ :: _ => exact (htexts _ _ _ rfl rfl).elim
      | .text (_ :: _), [] | .text (_ :: _), .key .. :: _ | .text (_ :: _), .chord .. :: _ => rfl
    · exact hempty
    · exact htexts

theorem merge_cons (stroke : KeyStroke) (strokes : List KeyStroke) :
    merge (stroke :: strokes) = KeyStroke.prepend stroke (merge strokes) := by
  rw [merge_eq_foldr, merge_eq_foldr]
  rfl

/-- A stroke in front of others is kept, or joins the text behind it. -/
theorem mem_prepend {stroke first : KeyStroke} {strokes : List KeyStroke}
    (hstroke : stroke ∈ KeyStroke.prepend first strokes) :
    stroke = first ∨ stroke ∈ strokes ∨ ∃ chars, stroke = .text chars := by
  unfold KeyStroke.prepend at hstroke
  split at hstroke
  · exact .inr (.inl hstroke)
  · rcases List.mem_cons.1 hstroke with rfl | hrest
    · exact .inr (.inr ⟨_, rfl⟩)
    · exact .inr (.inl (List.mem_cons_of_mem _ hrest))
  · rcases List.mem_cons.1 hstroke with rfl | hrest
    · exact .inl rfl
    · exact .inr (.inl hrest)

/-! ### Bodies -/

theorem not_mem_of_readBounded {limit n : Nat} {s : List Char}
    (hs : Number.readBounded limit s = some n) : ' ' ∉ s := by
  intro hblank
  obtain ⟨hdigits, -⟩ := Option.filter_eq_some_iff.1 hs
  have hmem : ' ' ∈ Number.dropPlus s := by
    unfold Number.dropPlus
    split
    · exact (List.mem_cons.1 hblank).resolve_left (by decide)
    · exact hblank
  rw [Number.readDigits] at hdigits
  split at hdigits
  · rename_i hall
    exact absurd (List.all_eq_true.1 hall.2 _ hmem) (by decide)
  · cases hdigits

theorem exists_mem_of_lookup {upper : String} {key : NamedKey}
    (hlookup : NamedKey.names.lookup upper = some key) : ∃ key, (upper, key) ∈ NamedKey.names := by
  obtain ⟨before, after, hnames, -⟩ := List.lookup_eq_some_iff.1 hlookup
  exact ⟨key, hnames ▸ List.mem_append_right before List.mem_cons_self⟩

/-- Names are long and have no blanks. -/
theorem names_plain :
    ∀ entry ∈ NamedKey.names, ' ' ∉ entry.1.toList ∧ entry.1.toList.length ≠ 1 := by
  decide

/-- Known names have no blanks and more than one character. -/
theorem plain_of_ofName? {name : List Char} {key : NamedKey}
    (hname : NamedKey.ofName? name = some key) : ' ' ∉ name ∧ name.length ≠ 1 := by
  have hupper : ' ' ∉ name.map Char.toUpper ∧ (name.map Char.toUpper).length ≠ 1 := by
    unfold NamedKey.ofName? at hname
    generalize name.map Char.toUpper = upper at hname
    simp only at hname
    split at hname
    · rename_i key' hlookup
      obtain ⟨key, hmem⟩ := exists_mem_of_lookup hlookup
      simpa only [String.toList_ofList] using names_plain _ hmem
    · unfold NamedKey.functionKey? at hname
      split at hname
      · rename_i digits _
        obtain ⟨n, hn, -⟩ := Option.map_eq_some_iff.1 hname
        have hread : Number.readWord8 digits = some n := (Option.filter_eq_some_iff.1 hn).1
        refine ⟨List.not_mem_cons_of_ne_of_not_mem (by decide) (not_mem_of_readBounded hread), ?_⟩
        rintro hlength
        obtain rfl : digits = [] := by simpa using hlength
        cases hread
      · cases hname
  rw [List.length_map] at hupper
  exact ⟨fun hblank ↦ hupper.1 (List.mem_map.2 ⟨' ', hblank, rfl⟩), hupper.2⟩

theorem not_mem_of_readWord32 {count : List Char} {n : UInt32}
    (hcount : Number.readWord32 count = some n) : ' ' ∉ count := by
  obtain ⟨value, hvalue, -⟩ := Option.map_eq_some_iff.1 hcount
  exact not_mem_of_readBounded hvalue

theorem Grammar.Base.ne_nil {base : List Char} {stroke : UInt32 → KeyStroke}
    (hbase : Base base stroke) : base ≠ [] := by
  cases hbase with
  | char c => exact List.cons_ne_nil c []
  | name hname =>
    rintro rfl
    cases hname

theorem Grammar.Body.ne_nil {body : List Char} {stroke : KeyStroke} (hbody : Body body stroke) :
    body ≠ [] := by
  cases hbody with
  | once hbase => exact hbase.ne_nil
  | counted => exact List.append_ne_nil_of_right_ne_nil _ (List.cons_ne_nil _ _)

/-- A name or a character without a count. -/
theorem Grammar.Base.cutCount {base : List Char} {stroke : UInt32 → KeyStroke}
    (hbase : Base base stroke) : Reader.cutCount base = (base, 1) := by
  cases hbase with
  | char c =>
    by_cases hc : c = ' '
    · subst hc
      rfl
    · rw [Reader.cutCount, Text.cutLast_eq_none_iff.2 (by simpa using Ne.symm hc)]
  | name hname => rw [Reader.cutCount, Text.cutLast_eq_none_iff.2 (plain_of_ofName? hname).1]

/-- A name or a character with its count. -/
theorem Grammar.Base.cutCount_append {base count : List Char} {stroke : UInt32 → KeyStroke}
    {n : UInt32} (hbase : Base base stroke) (hcount : Number.readWord32 count = some n) :
    Reader.cutCount (base ++ ' ' :: count) = (base, n) := by
  have hcut : Text.cutLast ' ' (base ++ ' ' :: count) = some (base, count) :=
    Text.cutLast_eq_some_iff.2 ⟨rfl, not_mem_of_readWord32 hcount⟩
  rw [Reader.cutCount, hcut]
  simp only [if_neg hbase.ne_nil, hcount]

/-- A body has a count, or is taken as a whole. -/
theorem body_of_cutCount {body name : List Char} {n : UInt32}
    (hcut : Reader.cutCount body = (name, n)) :
    (body = name ∧ n = 1) ∨
      ∃ count, body = name ++ ' ' :: count ∧ Number.readWord32 count = some n := by
  unfold Reader.cutCount at hcut
  have hwhole (hpair : (body, (1 : UInt32)) = (name, n)) : body = name ∧ n = 1 :=
    ⟨(Prod.mk.inj hpair).1, (Prod.mk.inj hpair).2.symm⟩
  split at hcut
  · rename_i front count hlast
    split at hcut
    · exact .inl (hwhole hcut)
    · split at hcut
      · rename_i m hread
        obtain ⟨rfl, rfl⟩ := Prod.mk.inj hcut
        exact .inr ⟨count, (Text.cutLast_eq_some_iff.1 hlast).1, hread⟩
      · exact .inl (hwhole hcut)
  · exact .inl (hwhole hcut)

/-- What is repeated is a character or the name of a key. -/
theorem ofBody_eq_ok_iff_base {body name : List Char} {n : UInt32} {stroke : KeyStroke}
    (hcut : Reader.cutCount body = (name, n)) :
    Reader.ofBody body = .ok stroke ↔ ∃ repeated, Base name repeated ∧ stroke = repeated n := by
  rw [Reader.ofBody, hcut]
  constructor
  · intro hstroke
    split at hstroke
    · rename_i c m hpair
      obtain ⟨rfl, rfl⟩ := Prod.mk.inj hpair
      cases hstroke
      exact ⟨_, .char c, rfl⟩
    · rename_i name' m _ hpair
      obtain ⟨rfl, rfl⟩ := Prod.mk.inj hpair
      split at hstroke
      · rename_i key hname
        cases hstroke
        exact ⟨_, .name hname, rfl⟩
      · cases hstroke
  · rintro ⟨repeated, hbase, rfl⟩
    cases hbase with
    | char c => rfl
    | name hname =>
      split
      · rename_i c m hpair
        obtain ⟨rfl, -⟩ := Prod.mk.inj hpair
        exact absurd rfl (plain_of_ofName? hname).2
      · rename_i name' m _ hpair
        obtain ⟨rfl, rfl⟩ := Prod.mk.inj hpair
        rw [hname]

/-- A body is read for what the grammar says. -/
theorem ofBody_eq_ok_iff {body : List Char} {stroke : KeyStroke} :
    Reader.ofBody body = .ok stroke ↔ Body body stroke := by
  constructor
  · intro hstroke
    obtain ⟨repeated, hbase, rfl⟩ := (ofBody_eq_ok_iff_base rfl).1 hstroke
    rcases @body_of_cutCount body _ _ rfl with ⟨hwhole, hn⟩ | ⟨count, hbody, hcount⟩
    · rw [hn]
      rw [← hwhole] at hbase
      exact .once hbase
    · have hbody' := Body.counted hbase hcount
      rwa [← hbody] at hbody'
  · intro hbody
    cases hbody with
    | once hbase => exact (ofBody_eq_ok_iff_base hbase.cutCount).2 ⟨_, hbase, rfl⟩
    | counted hbase hcount =>
      exact (ofBody_eq_ok_iff_base (hbase.cutCount_append hcount)).2 ⟨_, hbase, rfl⟩

end Macropad.Keys
