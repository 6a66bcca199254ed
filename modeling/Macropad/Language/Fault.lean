import Macropad.Setting.Update

/-!
What can be wrong with an instruction. Each cause carries the text that its
message quotes.
-/

set_option autoImplicit false

namespace Macropad.Language

open Macropad.Setting

inductive Fault
  | emptyInstruction
  | unknownOpcode (code : Char)
  | unexpectedArgument (code : Char) (argument : String)
  | expectedPoint (text : String)
  | expectedInteger (code : Char) (argument : String)
  | expectedSetting (code : Char)
  | unknownSetting (key : String)
  | setting (error : SettingError)
  | unknownCommand (name : String)
  | expectedEndpoints (argument : String)
  | expectedImage (argument : String)
  | invalidAnchor (text : String)
  | expectedTimeout (argument : String)
  | unclosedLoop
  | invalidLoop (body : String)
  | emptyLoopBody
  | loopPastEnd (span : Nat)
deriving Repr, DecidableEq

def quoted (text : String) : String := "'" ++ text ++ "'"

def Fault.message : Fault → String
  | .emptyInstruction => "empty instruction"
  | .unknownOpcode code => "unknown opcode " ++ quoted code.toString
  | .unexpectedArgument code argument =>
    "no-argument opcode " ++ quoted code.toString ++ " should not have parameters (got " ++
      quoted argument ++ ")"
  | .expectedPoint text => "coordinates must be in the form x:y (got " ++ quoted text ++ ")"
  | .expectedInteger code argument =>
    quoted code.toString ++ " requires a non-negative integer (got " ++ quoted argument ++ ")"
  | .expectedSetting code =>
    quoted code.toString ++ " needs a setting to update and a value, e.g. CommandDelay:1000"
  | .unknownSetting key => "setting " ++ quoted key ++ " does not exist"
  | .setting error => error.message
  | .unknownCommand name => "command " ++ quoted name ++ " does not exist in command storage"
  | .expectedEndpoints argument =>
    "drag needs two endpoints 'a,b', each x:y or an image (got " ++ quoted argument ++ ")"
  | .expectedImage argument =>
    "image detection requires a .png file as a parameter (got " ++ quoted argument ++ ")"
  | .invalidAnchor text => "invalid click parameter " ++ quoted text
  | .expectedTimeout argument =>
    "'v' requires 'image.png,<timeout ms>' (got " ++ quoted argument ++ ")"
  | .unclosedLoop => "loop command missing closing bracket ']'"
  | .invalidLoop body => "invalid loop syntax '[" ++ body ++ "]'"
  | .emptyLoopBody => "loop header must be followed by an instruction"
  | .loopPastEnd span =>
    "loop block of " ++ toString span ++ " instructions runs past the end of the macro"

end Macropad.Language
