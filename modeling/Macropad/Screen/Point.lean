import Macropad.Language.Fault
import Macropad.Text.Cut

/-!
Points of the screen, in pixels, and their written form `x:y`. Blanks around either
number do not count.
-/

set_option autoImplicit false

namespace Macropad.Screen

open Macropad.Language

structure Point where
  x : Int
  y : Int
deriving Repr, DecidableEq

namespace Point

def text (p : Point) : String := toString p.x ++ ":" ++ toString p.y

def read (s : List Char) : Option Point := do
  let (left, right) ← Text.cutFirst ':' s
  let x ← Number.readSigned32 (Text.trim left)
  let y ← Number.readSigned32 (Text.trim right)
  return ⟨x, y⟩

def parse (s : String) : Except Fault Point :=
  match read s.toList with
  | some p => .ok p
  | none => .error (.expectedPoint s)

end Point

end Macropad.Screen
