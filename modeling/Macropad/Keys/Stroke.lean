/-!
Key strokes: literal text, a named key pressed some number of times, and a chord,
which plays strokes while its modifiers are held. A group without modifiers is a
chord too.
-/

set_option autoImplicit false

namespace Macropad.Keys

inductive Modifier
  | control
  | alt
  | shift
deriving Repr, DecidableEq

inductive NamedKey
  | enter
  | up
  | down
  | left
  | right
  | home
  | finish
  | pageUp
  | pageDown
  | insert
  | delete
  | tab
  | escape
  | backspace
  | pause
  | capsLock
  | clear
  | numLock
  | scrollLock
  | printScreen
  | function (number : Nat)
deriving Repr, DecidableEq

inductive KeyStroke
  | text (chars : List Char)
  | key (key : NamedKey) (repeats : UInt32)
  | chord (modifiers : List Modifier) (strokes : List KeyStroke)
deriving Repr

namespace KeyStroke

/-- Puts a stroke in front of others; text joins the text behind it and empty text
leaves no stroke. -/
def prepend : KeyStroke → List KeyStroke → List KeyStroke
  | .text [], rest => rest
  | .text s, .text t :: rest => .text (s ++ t) :: rest
  | k, rest => k :: rest

end KeyStroke

end Macropad.Keys
