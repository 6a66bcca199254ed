import Macropad.Screen.Image
import Macropad.Setting.Update

/-!
Finding images on the screen. A locator is asked for one place or for all places of
an image and may be retuned. A call can also end in no answer at all: the computation
of a click point overflows, or the image never appears and nothing limits the wait.
-/

set_option autoImplicit false

namespace Macropad.Screen

open Macropad.Setting

inductive Wait
  | forever
  | limit (ms : UInt64)
deriving Repr, DecidableEq

inductive Located
  | found (place : Point)
  | timedOut
deriving Repr, DecidableEq

/-- How a call or a run ends that gives no answer. -/
inductive Halt
  | overflow (cause : Overflow)
  | waitsForever (path : String)
deriving Repr, DecidableEq

structure Locator (σ : Type) where
  locate : ImageRef → Wait → σ → Except Halt Located × σ
  /-- Every place where the image is seen, in scan order. -/
  locateAll : ImageRef → σ → Except Halt (List Point) × σ
  /-- Whether the change was taken. -/
  tune : Tuning → σ → Bool × σ

/-- Takes no change of tuning. -/
def Locator.untunable {σ : Type} (locator : Locator σ) : Locator σ :=
  { locator with tune := fun _ s ↦ (false, s) }

end Macropad.Screen
