import Macropad.Screen.Anchor
import Macropad.Number.Double

/-!
What the screen shows at one attempt, and scripts of such frames. Each path has its
own script; an attempt takes one frame of it and the last frame stays for good.
-/

set_option autoImplicit false

namespace Macropad.Screen

/-- A region that resembles the image, and how well. -/
structure Match where
  box : Box
  score : Number.Double
deriving Repr, DecidableEq

/-- The answer of one attempt: an error, or what was seen in scan order. -/
inductive Glimpse
  | failed
  | seen (matched : List Match)
deriving Repr, DecidableEq

structure Frame where
  glimpse : Glimpse
  /-- Milliseconds from the start of the call to the end of this attempt. -/
  elapsed : Nat := 0
deriving Repr, DecidableEq

structure Script where
  current : Frame
  later : List Frame
deriving Repr, DecidableEq

namespace Script

def always (glimpse : Glimpse) : Script := ⟨{ glimpse := glimpse }, []⟩

/-- The frames that are still to come, the last of which stays. -/
def frames (s : Script) : List Frame := s.current :: s.later

/-- The script after some attempts. -/
def advance : Nat → Script → Script
  | 0, s => s
  | _ + 1, ⟨last, []⟩ => ⟨last, []⟩
  | n + 1, ⟨_, next :: later⟩ => advance n ⟨next, later⟩

theorem frames_ne_nil (s : Script) : s.frames ≠ [] := List.cons_ne_nil _ _

end Script

structure Display where
  scripts : List (String × Script)
  /-- What every other path shows. -/
  otherwise : Script
deriving Repr, DecidableEq

namespace Display

def scripted (scripts : List (String × Script)) : Display := ⟨scripts, .always (.seen [])⟩

/-- Shows every image in the same small box in the corner. -/
def fixed : Display := ⟨[], .always (.seen [⟨⟨⟨0, 0⟩, 2, 2⟩, .one⟩])⟩

/-- Shows nothing: every attempt fails. -/
def unavailable : Display := ⟨[], .always .failed⟩

def script (display : Display) (path : String) : Script :=
  (display.scripts.lookup path).getD display.otherwise

/-- The display after some attempts for one path. -/
def advance (display : Display) (path : String) (attempts : Nat) : Display :=
  { display with
    scripts := display.scripts.map fun (p, s) ↦
      if p = path then (p, s.advance attempts) else (p, s) }

end Display

end Macropad.Screen
