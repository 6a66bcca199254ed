import Macropad.Input.Operation
import Macropad.Keys.Reader

/-!
The injector of the desktop. Key text is read before anything is typed, also in a dry
run, where nothing else can fail; the desktop has no way to capture the screen.
-/

set_option autoImplicit false

namespace Macropad.Input

open Macropad.Keys

inductive InjectionError
  | invalidKeys (keys : String) (error : KeyError Nat)
  | noCapture
deriving Repr, DecidableEq

def InjectionError.message : InjectionError → String
  | .invalidKeys keys error => "Invalid key sequence '" ++ keys ++ "': " ++ error.message
  | .noCapture => "screen capture needs a capture backend; Enigo only injects input"

structure Keyboard where
  dryRun : Bool
deriving Repr, DecidableEq

namespace Keyboard

def inject (keyboard : Keyboard) : Operation → Except InjectionError Unit
  | .text keys =>
    match parseKeys keys.toList with
    | .ok _ => .ok ()
    | .error e => .error (.invalidKeys keys e)
  | .capture => if keyboard.dryRun then .ok () else .error .noCapture
  | _ => .ok ()

def injector (keyboard : Keyboard) : Injector Unit :=
  .failing fun op ↦ !(keyboard.inject op).toBool

end Keyboard

end Macropad.Input
