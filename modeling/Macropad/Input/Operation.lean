import Macropad.Screen.Point

/-!
Input operations. An injector is asked for operations one at a time; it reports
whether each succeeded and what reached the desktop, and may keep a state of its own.
-/

set_option autoImplicit false

namespace Macropad.Input

open Macropad.Screen

inductive MouseButton
  | left
  | right
deriving Repr, DecidableEq

inductive Operation
  /-- Key text to be typed. -/
  | text (keys : String)
  | click (place : Point) (button : MouseButton)
  | doubleClick (place : Point) (button : MouseButton) (gap : UInt64)
  /-- Press the left button at a place and keep it down. -/
  | hold (place : Point)
  | release (place : Point)
  | capture
deriving Repr, DecidableEq

structure Report where
  succeeded : Bool
  /-- What reached the desktop, in order. -/
  delivered : List Operation
deriving Repr, DecidableEq

structure Injector (ι : Type) where
  perform : Operation → ι → Report × ι

namespace Injector

/-- Delivers every operation that does not fail. -/
def failing (fails : Operation → Bool) : Injector Unit where
  perform op _ := (if fails op then ⟨false, []⟩ else ⟨true, [op]⟩, ())

/-- Makes do with single clicks: a double click is two of them, the second only when
the first succeeded, and the screen cannot be captured. -/
def withoutComposites {ι : Type} (injector : Injector ι) : Injector ι where
  perform op s :=
    match op with
    | .doubleClick place button _ =>
      let (first, s) := injector.perform (.click place button) s
      if first.succeeded then
        let (second, s) := injector.perform (.click place button) s
        (⟨second.succeeded, first.delivered ++ second.delivered⟩, s)
      else (first, s)
    | .capture => (⟨false, []⟩, s)
    | op => injector.perform op s

end Injector

end Macropad.Input
