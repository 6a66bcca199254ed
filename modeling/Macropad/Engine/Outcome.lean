import Macropad.Screen.Locator

/-!
How a run ends. It completes and says how many instructions were run, or it stops at
an instruction: a limited wait expired, or a call would nest deeper than allowed. A
position counts from one within the frame in which the run stopped.
-/

set_option autoImplicit false

namespace Macropad.Engine

open Macropad.Screen

inductive Outcome
  | completed (executed : Nat)
  | timedOut (position : Nat) (image : String)
  | depthExceeded (position : Nat) (maxCallDepth : UInt64) (command : String)
deriving Repr, DecidableEq

namespace Outcome

def isCompleted : Outcome → Bool
  | .completed _ => true
  | _ => false

def depthReason (maxCallDepth : UInt64) (command : String) : String :=
  "maximum call depth (" ++ toString maxCallDepth.toNat ++ ") exceeded running '" ++ command ++
    "' (possible cycle)"

def text : Outcome → String
  | .completed executed => "completed (" ++ toString executed ++ " instructions)"
  | .timedOut position image =>
    "Not Found: timed out waiting for " ++ image ++ " at command " ++ toString position
  | .depthExceeded position maxCallDepth command =>
    "aborted at command " ++ toString position ++ ": " ++ depthReason maxCallDepth command

end Outcome

/-- Why a run stops before its end. -/
inductive Stop
  | timedOut (position : Nat) (image : String)
  | depthExceeded (position : Nat) (maxCallDepth : UInt64) (command : String)
  | halted (halt : Halt)
deriving Repr, DecidableEq

end Macropad.Engine
