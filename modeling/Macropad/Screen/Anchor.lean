import Macropad.Screen.Point

/-!
Where inside a matched box to click. An anchor is one of eight places on the edge of
the box or an offset from its top left corner; without one the click goes to the
centre. Coordinates are 32-bit: each sum and product is checked in the order in
which the formulas are written, and the first that leaves the range is the cause.
-/

set_option autoImplicit false

namespace Macropad.Screen

open Macropad.Language

inductive Anchor
  | topLeft
  | topMiddle
  | topRight
  | middleLeft
  | middleRight
  | bottomLeft
  | bottomMiddle
  | bottomRight
  | offset (dx dy : Nat)
deriving Repr, DecidableEq

namespace Anchor

def named : List (String × Anchor) :=
  [("tl", .topLeft), ("tm", .topMiddle), ("tr", .topRight), ("ml", .middleLeft),
    ("mr", .middleRight), ("bl", .bottomLeft), ("bm", .bottomMiddle), ("br", .bottomRight)]

/-- The two halves are runs of ASCII digits, without sign or blank. -/
def readOffset (s : List Char) : Option Anchor := do
  let (left, right) ← Text.cutFirst ':' s
  let dx ← (Number.readDigits left).filter (· < Number.signedLimit)
  let dy ← (Number.readDigits right).filter (· < Number.signedLimit)
  return .offset dx dy

def read (s : List Char) : Option Anchor :=
  match named.lookup (String.ofList s) with
  | some anchor => some anchor
  | none => readOffset s

def parse (s : String) : Except Fault Anchor :=
  match read s.toList with
  | some anchor => .ok anchor
  | none => .error (.invalidAnchor s)

end Anchor

/-- What has left its range: a sum or a product of coordinates, which have 32 bits, or the size of
a text, which is bounded as well. -/
inductive Overflow
  | addition
  | multiplication
  | capacity
deriving Repr, DecidableEq

def Overflow.message : Overflow → String
  | .addition => "attempt to add with overflow"
  | .multiplication => "attempt to multiply with overflow"
  | .capacity => "capacity overflow"

namespace Coordinate

def checked (cause : Overflow) (n : Int) : Except Overflow Int :=
  if -(Number.signedLimit : Int) ≤ n ∧ n < Number.signedLimit then .ok n else .error cause

def add (a b : Int) : Except Overflow Int := checked .addition (a + b)

def twice (a : Int) : Except Overflow Int := checked .multiplication (2 * a)

end Coordinate

open Coordinate

structure Box where
  topLeft : Point
  width : Int
  height : Int
deriving Repr, DecidableEq

/-- Both far edges and both middle lines are computed for every anchor, before the
point is chosen. -/
def Anchor.resolve (anchor : Anchor) (box : Box) : Except Overflow Point := do
  let left := box.topLeft.x
  let top := box.topLeft.y
  let right ← add left box.width
  let bottom ← add top box.height
  let middleX := (← add left right).tdiv 2
  let middleY := (← add top bottom).tdiv 2
  match anchor with
  | .topLeft => return ⟨left, top⟩
  | .topMiddle => return ⟨middleX, top⟩
  | .topRight => return ⟨right, top⟩
  | .middleLeft => return ⟨left, middleY⟩
  | .middleRight => return ⟨right, middleY⟩
  | .bottomLeft => return ⟨left, bottom⟩
  | .bottomMiddle => return ⟨middleX, bottom⟩
  | .bottomRight => return ⟨right, bottom⟩
  | .offset dx dy => return ⟨← add left dx, ← add top dy⟩

def Box.center (box : Box) : Except Overflow Point := do
  let x := (← add (← twice box.topLeft.x) box.width).tdiv 2
  let y := (← add (← twice box.topLeft.y) box.height).tdiv 2
  return ⟨x, y⟩

end Macropad.Screen
