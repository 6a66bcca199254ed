import Macropad.Language.Instruction
import Macropad.Screen.Image
import Macropad.Text.DecimalDigit

/-!
Checking a program before it runs. Instructions are judged in order and the first
fault is reported with its position, counted from one. A loop header is judged
before the instruction behind it. Stored commands and settings are only looked up.
-/

set_option autoImplicit false

namespace Macropad.Language

open Macropad.Screen Macropad.Setting

/-- What a check looks up: the text of a stored command and whether a setting
exists. -/
structure Surroundings where
  command? : String → Option String
  hasSetting : String → Bool

/-- A stored command counts only with a text that is not blank. -/
def Surroundings.runnable? (s : Surroundings) (name : String) : Option String :=
  (s.command? name).filter fun text ↦ !Text.allBlank text.toList

inductive Verdict
  | valid
  /-- The first fault and its position, counted from one. -/
  | invalid (position : Nat) (fault : Fault)
deriving Repr, DecidableEq

namespace Verdict

def isValid : Verdict → Bool
  | .valid => true
  | .invalid _ _ => false

def text : Verdict → String
  | .valid => "Valid"
  | .invalid position fault => "Error at command " ++ toString position ++ ": " ++ fault.message

end Verdict

namespace Validation

/-- Fails with the fault unless the condition holds. -/
def require (condition : Bool) (fault : Fault) : Except Fault Unit :=
  if condition then .ok () else .error fault

def isRun (s : List Char) : Bool := s != [] && s.all Text.isDecimalDigit

/-- Two runs of decimal digits of any script around a colon. -/
def isCoordinatePair (side : List Char) : Bool :=
  match Text.cutFirst ':' side with
  | some (x, y) => isRun x && isRun y
  | none => false

def isImage (side : String) : Bool := (ImageRef.parse side).toBool

def checkEndpoints (argument : String) : Except Fault Unit :=
  match Text.cutFirst ',' argument.toList with
  | none => .error (.expectedEndpoints argument)
  | some (start, finish) =>
    require ([start, finish].all fun side ↦ isCoordinatePair side || isImage (String.ofList side))
      (.expectedEndpoints argument)

def checkSetting (surroundings : Surroundings) (code : Char) (argument : String) :
    Except Fault Unit :=
  match Text.cutFirst ':' argument.toList with
  | none | some ([], _) => .error (.expectedSetting code)
  | some (key, value) => do
    let name := String.ofList key
    require (surroundings.hasSetting name) (.unknownSetting name)
    match SettingUpdate.parse name (String.ofList value) with
    | .ok _ => return
    | .error e => throw (.setting e)

def checkArgument (surroundings : Surroundings) (op : Opcode) (argument : String) :
    Except Fault Unit :=
  match op.shape with
  | .empty => require (argument = "") (.unexpectedArgument op.code argument)
  | .text => .ok ()
  | .point => (Point.parse argument).map fun _ ↦ ()
  | .millis =>
    require (Number.readWord64 argument.toList).isSome (.expectedInteger op.code argument)
  | .count =>
    require (argument = "" || (Number.readWord32 argument.toList).isSome)
      (.expectedInteger op.code argument)
  | .setting => checkSetting surroundings op.code argument
  | .commandName => require (surroundings.runnable? argument).isSome (.unknownCommand argument)
  | .endpoints => checkEndpoints argument
  | .image => (ImageRef.parse argument).map fun _ ↦ ()
  | .imageWithTimeout => (TimedImage.parse argument).map fun _ ↦ ()
  | .loopHeader => .error .unclosedLoop

/-- `remaining` counts the instructions from this one to the end of the program. -/
def checkHeader (i : Instruction) (remaining : Nat) : Except Fault Unit :=
  match i.header with
  | none => .ok ()
  | some .unclosed => .error .unclosedLoop
  | some (.invalid body) => .error (.invalidLoop body)
  | some (.valid spec) => do
    require i.code.isSome .emptyLoopBody
    require (spec.span ≤ remaining) (.loopPastEnd spec.span)

def checkInstruction (surroundings : Surroundings) (i : Instruction) (remaining : Nat) :
    Except Fault Unit := do
  checkHeader i remaining
  match i.code with
  | none => throw .emptyInstruction
  | some code =>
    match Opcode.ofCode? code with
    | none => throw (.unknownOpcode code)
    | some op => checkArgument surroundings op i.argument

def checkFrom (surroundings : Surroundings) (position : Nat) : Program → Verdict
  | [] => .valid
  | i :: rest =>
    match checkInstruction surroundings i (rest.length + 1) with
    | .error fault => .invalid position fault
    | .ok () => checkFrom surroundings (position + 1) rest

end Validation

def Program.validate (surroundings : Surroundings) (program : Program) : Verdict :=
  Validation.checkFrom surroundings 1 program

end Macropad.Language
