import Macropad.Text.Cut

/-!
Injection form. Plain text is scanned into units from left to right: a control token
on the list, a newline of one of three kinds, a character that key text gives a
meaning, or any other character. Each unit has one form in key text, and typing the
result types the text.
-/

set_option autoImplicit false

namespace Macropad.Keys

/-- The names whose tokens in braces pass through unchanged. -/
def controlNames : List String :=
  ["ENTER", "UP", "DOWN", "LEFT", "RIGHT", "HOME", "END", "PGUP", "PGDN", "INSERT", "DELETE",
    "TAB", "ESC", "BACKSPACE", "BREAK", "CAPSLOCK", "CLEAR", "NUMLOCK", "SCROLLLOCK", "F1", "F2",
    "F3", "F4", "F5", "F6", "F7", "F8", "F9", "F10", "F11", "F12"]

def inBraces (s : List Char) : List Char := '{' :: s ++ ['}']

def isSpecial (c : Char) : Bool :=
  c ∈ ['{', '}', '(', ')', '+', '^', '%', '~', '[', ']', ';']

inductive TextUnit
  | token (name : String)
  | newline
  | special (c : Char)
  | plain (c : Char)
deriving Repr, DecidableEq

namespace TextUnit

def injected : TextUnit → List Char
  | .token name => inBraces name.toList
  | .newline => inBraces "ENTER".toList
  | .special c => inBraces [c]
  | .plain c => [c]

def ofChar (c : Char) : TextUnit :=
  if c = '\r' ∨ c = '\n' then .newline else if isSpecial c then .special c else .plain c

/-- The control token at the front of a text, and what follows it. -/
def cutToken? (s : List Char) : Option (String × List Char) :=
  controlNames.findSome? fun name ↦
    (Text.dropHead? (inBraces name.toList) s).map fun rest ↦ (name, rest)

theorem length_lt_of_cutToken? {s rest : List Char} {name : String}
    (h : cutToken? s = some (name, rest)) : rest.length < s.length := by
  obtain ⟨n, -, hn⟩ := List.exists_of_findSome?_eq_some h
  simp only [Text.dropHead?, Option.map_eq_some_iff, Prod.mk.injEq] at hn
  obtain ⟨r, hr, -, rfl⟩ := hn
  split at hr
  · rename_i hp
    obtain rfl := Option.some.inj hr
    have := (List.isPrefixOf_iff_prefix.1 hp).length_le
    simp [inBraces] at this ⊢
    omega
  · exact absurd hr (by simp)

/-- The units of a text. -/
def scan (s : List Char) : List TextUnit :=
  match s with
  | [] => []
  | '\r' :: '\n' :: rest => .newline :: scan rest
  | c :: rest =>
    match _h : cutToken? (c :: rest) with
    | some (name, after) => .token name :: scan after
    | none => ofChar c :: scan rest
termination_by s.length
decreasing_by
  · simp only [List.length_cons]; omega
  · exact length_lt_of_cutToken? ‹_›
  · simp only [List.length_cons]; omega

end TextUnit

def toInjectionForm (s : List Char) : List Char := (TextUnit.scan s).flatMap TextUnit.injected

end Macropad.Keys
