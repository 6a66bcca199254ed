/-!
Glob patterns on file names: `*` stands for any run of characters and `?` for any one
character. The characters behind a star are tried at one place of the name after the
other, and the first place where they last until the name is used up decides: no
earlier star needs to be tried again.
-/

set_option autoImplicit false

namespace Macropad.Trigger.Glob

/-- The first answer along a text, its empty end included. -/
def firstAlong (answer? : List Char → Option (List Char)) : List Char → Option (List Char)
  | [] => answer? []
  | c :: rest =>
    match answer? (c :: rest) with
    | some answer => some answer
    | none => firstAlong answer? rest

/-- What is left of the pattern once the name is used up; `none` if they differ before
that. -/
def leftover : List Char → List Char → Option (List Char)
  | pattern, [] => some pattern
  | [], _ :: _ => none
  | p :: rest, c :: name =>
    if p = '*' then firstAlong (leftover rest) (c :: name)
    else if p = '?' ∨ p = c then leftover rest name
    else none

/-- Stars may be left over, since each may stand for nothing. -/
def accepts (pattern name : List Char) : Bool :=
  match leftover pattern name with
  | some rest => rest.all (· = '*')
  | none => false

end Macropad.Trigger.Glob
