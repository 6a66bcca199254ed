import Macropad.Input.Operation
import Macropad.Keys.Injection
import Macropad.Language.Description
import Macropad.Screen.Image

/-!
What one instruction asks the engine to do. Reading an instruction never fails: one
without a known opcode, or with an argument that its opcode cannot use, asks for
nothing.
-/

set_option autoImplicit false

namespace Macropad.Engine

open Macropad.Input Macropad.Language Macropad.Screen Macropad.Setting

/-- One side of a drag. -/
inductive Endpoint
  | point (place : Point)
  | image (image : ImageRef)
deriving Repr, DecidableEq

/-- What happens at the place of an image once it is found. -/
inductive Response
  | click (button : MouseButton)
  | doubleClick (button : MouseButton)
  | nothing
deriving Repr, DecidableEq

inductive Action
  | skip
  | capture
  | type (keys : String)
  | typeFile (path : String)
  | click (place : Point) (button : MouseButton)
  | sleep (ms : UInt64)
  | update (change : SettingUpdate)
  | call (command : String)
  /-- Tab presses while Alt is held. -/
  | switchWindows (times : Nat)
  /-- Single Tab presses, with a pause after each. -/
  | tabs (times : Nat)
  /-- A side that cannot be read is `none`; the other side is looked for all the
  same. -/
  | drag (start finish : Option Endpoint)
  | respond (image : ImageRef) (response : Response)
  | await (timed : TimedImage)
  | lastInstance (image : ImageRef)
deriving Repr, DecidableEq

namespace Action

def tabToken : List Char := Keys.inBraces "TAB".toList

/-- Key text for one press of Tab. -/
def tabKeys : String := String.ofList tabToken

/-- An empty argument means once. -/
def count? (argument : String) : Option Nat :=
  if argument = "" then some 1 else (Number.readWord64 argument.toList).map (·.toNat)

def endpoint? (side : List Char) : Option Endpoint :=
  match Point.read side with
  | some place => some (.point place)
  | none =>
    match ImageRef.parse (String.ofList side) with
    | .ok image => some (.image image)
    | .error _ => none

def drag? (argument : String) : Option Action :=
  (Text.cutFirst ',' argument.toList).map fun (start, finish) ↦
    .drag (endpoint? start) (endpoint? finish)

def update? (argument : String) : Option Action :=
  match Text.cutFirst ':' argument.toList with
  | none => none
  | some (key, value) =>
    match SettingUpdate.parse (String.ofList key) (String.ofList value) with
    | .ok change => some (.update change)
    | .error _ => none

def respond? (argument : String) (response : Response) : Option Action :=
  match ImageRef.parse argument with
  | .ok image => some (.respond image response)
  | .error _ => none

/-- What an opcode asks for with its argument, if it can use it. -/
def ofOpcode? (op : Opcode) (argument : String) : Option Action :=
  match op with
  | .startMenu => some (.type "^\x7bESC\x7d")
  | .maximize => some (.type "%( x)")
  | .minimize => some (.type "%( n)")
  | .screenshot => some .capture
  | .copy => some (.type "^c")
  | .paste => some (.type "^v")
  | .selectAll => some (.type "^a")
  | .type =>
    match Opcode.filePath? argument with
    | some path => some (.typeFile path)
    | none => some (.type argument)
  | .leftClick => (Point.read argument.toList).map (.click · .left)
  | .rightClick => (Point.read argument.toList).map (.click · .right)
  | .sleep => (Number.readWord64 argument.toList).map .sleep
  | .updateSetting => update? argument
  | .runCommand => some (.call argument)
  | .altTab => (count? argument).map .switchWindows
  | .tab => if argument = "" then some (.type tabKeys) else (count? argument).map .tabs
  | .drag => drag? argument
  | .findAndClick => respond? argument (.click .left)
  | .doubleClickImage => respond? argument (.doubleClick .left)
  | .findAndRightClick => respond? argument (.click .right)
  | .doubleRightClickImage => respond? argument (.doubleClick .right)
  | .waitForImage => respond? argument .nothing
  | .waitForImageWithTimeout =>
    match TimedImage.parse argument with
    | .ok timed => some (.await timed)
    | .error _ => none
  | .clickLastInstance =>
    match ImageRef.parse argument with
    | .ok image => some (.lastInstance image)
    | .error _ => none
  | .loop => none

def ofInstruction (i : Instruction) : Action :=
  match i.opcode? with
  | none => .skip
  | some op => (ofOpcode? op i.argument).getD .skip

end Action

end Macropad.Engine
