import Macropad.Keys.Name
import Macropad.Text.Cut

/-!
Reading key text. Modifiers stand in front of a group in parentheses or of one atom;
an atom is `~` for Enter, a body in braces, or any other character for itself. A body
is a character or the name of a key, with a count behind a blank if it is repeated.
An error points at the text from the offending character on, which `parse` turns into
an offset.
-/

set_option autoImplicit false

namespace Macropad.Keys

/-- Why key text cannot be read; `At` is the way in which a place is given. -/
inductive KeyError (At : Type)
  | unknownKey (name : List Char)
  | unclosedBrace (place : At)
  | unclosedGroup (place : At)
  | unexpectedClose (place : At)
  | danglingModifier (modifier : Char)
deriving Repr, DecidableEq

namespace KeyError

def mapPlace {At To : Type} (f : At → To) : KeyError At → KeyError To
  | .unknownKey name => .unknownKey name
  | .unclosedBrace place => .unclosedBrace (f place)
  | .unclosedGroup place => .unclosedGroup (f place)
  | .unexpectedClose place => .unexpectedClose (f place)
  | .danglingModifier modifier => .danglingModifier modifier

def message : KeyError Nat → String
  | .unknownKey name => "unknown key name '\x7b" ++ String.ofList name ++ "\x7d'"
  | .unclosedBrace offset => "missing '\x7d' after '\x7b' at offset " ++ toString offset
  | .unclosedGroup offset => "missing ')' for group opened at offset " ++ toString offset
  | .unexpectedClose offset => "unexpected ')' at offset " ++ toString offset
  | .danglingModifier modifier =>
    "modifier '" ++ modifier.toString ++ "' is not followed by a key"

end KeyError

namespace Reader

/-- An error with the text that begins at its place. -/
abbrev Failure : Type := KeyError (List Char)

/-- A result together with the text behind it, which is shorter than `s`. -/
abbrev Parsed (α : Type) (s : List Char) : Type :=
  Except Failure (α × { rest : List Char // rest.length < s.length })

/-- Name and count of a body in braces; what stands behind the last blank is a count
only if it reads as one and a name stands in front. -/
def cutCount (body : List Char) : List Char × UInt32 :=
  match Text.cutLast ' ' body with
  | some (name, count) =>
    if name = [] then (body, 1)
    else
      match Number.readWord32 count with
      | some n => (name, n)
      | none => (body, 1)
  | none => (body, 1)

def ofBody (body : List Char) : Except Failure KeyStroke :=
  match cutCount body with
  | ([c], n) => .ok (.text (List.replicate n.toNat c))
  | (name, n) =>
    match NamedKey.ofName? name with
    | some key => .ok (.key key n)
    | none => .error (.unknownKey name)

theorem length_lt_of_cutFirst {c : Char} {s before after : List Char}
    (h : Text.cutFirst c s = some (before, after)) : after.length < s.length := by
  obtain ⟨rfl, _⟩ := Text.cutFirst_eq_some_iff.1 h
  simp; omega

/-- The body of the brace in front of `s`; two closing braces at once stand for the
character. -/
def braced (s : List Char) : Parsed KeyStroke ('{' :: s) :=
  match s with
  | '}' :: '}' :: rest => .ok (.text ['}'], ⟨rest, by simp; omega⟩)
  | s =>
    match h : Text.cutFirst '}' s with
    | none => .error (.unclosedBrace ('{' :: s))
    | some (body, rest) =>
      match ofBody body with
      | .error e => .error e
      | .ok stroke =>
        .ok (stroke, ⟨rest, by have := length_lt_of_cutFirst h; simp; omega⟩)

/-- The atom that begins with `c`. -/
def atom (c : Char) (s : List Char) : Parsed KeyStroke (c :: s) :=
  if h : c = '{' then h ▸ braced s
  else if c = '~' then .ok (.key .enter 1, ⟨s, by simp⟩)
  else .ok (.text [c], ⟨s, by simp⟩)

/-- The modifiers at the front of a text. -/
def cutModifiers : List Char → List Modifier × List Char
  | [] => ([], [])
  | c :: rest =>
    match Modifier.ofChar? c with
    | none => ([], c :: rest)
    | some m => (m :: (cutModifiers rest).1, (cutModifiers rest).2)

theorem length_cutModifiers_le (s : List Char) : (cutModifiers s).2.length ≤ s.length := by
  induction s with
  | nil => simp [cutModifiers]
  | cons c rest ih =>
    rw [cutModifiers]
    split
    · simp
    · simp; omega

/-- An atom with the modifiers in front of it. -/
def modified (modifiers : List Modifier) (stroke : KeyStroke) : KeyStroke :=
  if modifiers = [] then stroke else .chord modifiers [stroke]

/-- Strokes up to the end of the text or, inside a group, up to its parenthesis.
`group` is the text from the opening parenthesis on. -/
def sequence (group : Option (List Char)) (s : List Char) :
    Except Failure (List KeyStroke × { rest : List Char // rest.length ≤ s.length }) :=
  match s with
  | [] =>
    match group with
    | some start => .error (.unclosedGroup start)
    | none => .ok ([], ⟨[], by simp⟩)
  | first :: tail =>
    if first = ')' then
      match group with
      | some _ => .ok ([], ⟨tail, by simp⟩)
      | none => .error (.unexpectedClose (first :: tail))
    else
      have hle := length_cutModifiers_le (first :: tail)
      match hcut : (cutModifiers (first :: tail)).2 with
      | [] => .error (.danglingModifier first)
      | c :: after =>
        have hlt : after.length < (first :: tail).length := by
          rw [hcut] at hle; simp only [List.length_cons] at hle ⊢; omega
        let modifiers := (cutModifiers (first :: tail)).1
        if c = ')' then .error (.danglingModifier first)
        else if c = '(' then
          match sequence (some (c :: after)) after with
          | .error e => .error e
          | .ok (strokes, ⟨rest, hrest⟩) =>
            match sequence group rest with
            | .error e => .error e
            | .ok (others, ⟨last, hlast⟩) =>
              .ok (KeyStroke.prepend (.chord modifiers strokes) others, ⟨last, by omega⟩)
        else
          match atom c after with
          | .error e => .error e
          | .ok (stroke, ⟨rest, hrest⟩) =>
            match sequence group rest with
            | .error e => .error e
            | .ok (others, ⟨last, hlast⟩) =>
              .ok (KeyStroke.prepend (modified modifiers stroke) others,
                ⟨last, by simp only [List.length_cons] at hrest; omega⟩)
termination_by s.length
decreasing_by
  · exact hlt
  · exact Nat.lt_of_le_of_lt hrest hlt
  · simp only [List.length_cons] at hrest
    omega

end Reader

/-- The strokes of a key text, or an error with the offset of its place in characters. -/
def parseKeys (s : List Char) : Except (KeyError Nat) (List KeyStroke) :=
  match Reader.sequence none s with
  | .ok (strokes, _) => .ok strokes
  | .error e => .error (e.mapPlace fun place ↦ s.length - place.length)

end Macropad.Keys
