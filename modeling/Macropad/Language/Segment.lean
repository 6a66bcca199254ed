import Macropad.Text.Cut

/-!
Segments of a program text. A semicolon ends a segment unless it stands between
braces, as in the key text for a typed semicolon, and one semicolon at the very end
of the text ends nothing. A segment may begin with a loop header in brackets, which
both written forms of a program share.
-/

set_option autoImplicit false

namespace Macropad.Language.Segment

/-- A semicolon between `{` and `}` belongs to its segment. -/
def isEscaped (before : Option Char) (after : List Char) : Bool :=
  before = some '{' && after.head? = some '}'

/-- Parts a text that follows the character `before`. -/
def splitFrom (before : Option Char) : List Char → List (List Char)
  | [] => [[]]
  | c :: rest =>
    if c = ';' ∧ isEscaped before rest = false then [] :: splitFrom (some c) rest
    else
      match splitFrom (some c) rest with
      | [] => [[c]]
      | first :: others => (c :: first) :: others

def split (source : List Char) : List (List Char) :=
  if source = [] then [] else splitFrom none (Text.dropLastIf ';' source)

def join : List (List Char) → List Char
  | [] => []
  | [s] => s
  | s :: t :: rest => s ++ ';' :: join (t :: rest)

/-- A loop header with its brackets, and what follows; an unclosed header is all of
its segment. -/
def cutLoopHeader (segment : List Char) : Option (List Char × List Char) :=
  match segment with
  | '[' :: _ =>
    match Text.cutFirst ']' segment with
    | some (header, body) => some (header ++ [']'], body)
    | none => some (segment, [])
  | _ => none

theorem splitFrom_ne_nil (before : Option Char) (s : List Char) : splitFrom before s ≠ [] := by
  cases s with
  | nil => simp [splitFrom]
  | cons c rest =>
    rw [splitFrom]
    split
    · simp
    · split <;> simp

theorem join_cons_of_ne_nil {s : List Char} {rest : List (List Char)} (h : rest ≠ []) :
    join (s :: rest) = s ++ ';' :: join rest := by
  cases rest with
  | nil => exact absurd rfl h
  | cons t ts => rfl

theorem join_splitFrom (before : Option Char) (s : List Char) : join (splitFrom before s) = s := by
  induction s generalizing before with
  | nil => rfl
  | cons c rest ih =>
    rw [splitFrom]
    split
    · rename_i h
      rw [join_cons_of_ne_nil (splitFrom_ne_nil _ _), ih, h.1]
      rfl
    · have hrest := ih (some c)
      split
      · rename_i h
        exact absurd h (splitFrom_ne_nil _ _)
      · rename_i first others h
        rw [h] at hrest
        cases others with
        | nil => simpa [join] using hrest
        | cons t ts => simpa [join] using hrest

theorem join_split (s : List Char) : join (split s) = Text.dropLastIf ';' s := by
  unfold split
  split
  · rename_i h; subst h; rfl
  · exact join_splitFrom _ _

end Macropad.Language.Segment
