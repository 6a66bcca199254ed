import Macropad.Language.Instruction

/-!
One sentence that says what a program does, clause by clause. Instructions without
an opcode are left out and unknown ones share one phrase.
-/

set_option autoImplicit false

namespace Macropad.Language

namespace Opcode

def cutText (sep : Char) (s : String) : Option (String × String) :=
  (Text.cutFirst sep s.toList).map fun parts ↦ (String.ofList parts.1, String.ofList parts.2)

def removeExtension : List Char → List Char
  | '.' :: 'p' :: 'n' :: 'g' :: rest => removeExtension rest
  | c :: rest => c :: removeExtension rest
  | [] => []

/-- The image without anchor, limit and extension. -/
def imageName (argument : String) : String :=
  String.ofList (removeExtension (argument.toList.takeWhile fun c ↦ c ≠ '<' && c ≠ ','))

/-- A missing second coordinate shows as a question mark. -/
def coordinates (argument : String) : String :=
  match cutText ':' argument with
  | some (x, y) => "(" ++ x ++ ", " ++ y ++ ")"
  | none => "(" ++ argument ++ ", ?)"

def times (argument : String) : String :=
  if argument = "" ∨ argument = "1" then "once" else argument ++ " times"

/-- The path of the form `(path)`, which types the contents of a file. -/
def filePath? (argument : String) : Option String :=
  match argument.toList with
  | '(' :: rest =>
    if rest.getLast? = some ')' then some (String.ofList rest.dropLast) else none
  | _ => none

def describe (op : Opcode) (argument : String) : String :=
  match op with
  | .startMenu => "(hit the windows button)"
  | .maximize => "maximize the window"
  | .minimize => "minimize the window"
  | .screenshot => "take a screenshot"
  | .copy => "copy the selection to the clipboard"
  | .paste => "paste from the clipboard"
  | .selectAll => "select all"
  | .type =>
    match filePath? argument with
    | some path => "type the contents of \"" ++ path ++ "\""
    | none => "type \"" ++ argument ++ "\""
  | .leftClick => "click at coordinates " ++ coordinates argument
  | .rightClick => "right-click at coordinates " ++ coordinates argument
  | .sleep => "wait for " ++ argument ++ " milliseconds"
  | .updateSetting => "update settings with value " ++ argument
  | .runCommand => "run the stored command \"" ++ argument ++ "\""
  | .altTab => "switch windows with alt+tab " ++ times argument
  | .tab => "press tab " ++ times argument
  | .drag =>
    match cutText ',' argument with
    | some (start, finish) => "drag from (" ++ start ++ ") to (" ++ finish ++ ")"
    | none => "drag from (" ++ argument ++ ")"
  | .findAndClick => "find and click on the " ++ imageName argument
  | .doubleClickImage => "double-click on the " ++ imageName argument
  | .findAndRightClick => "find and right click on the " ++ imageName argument
  | .doubleRightClickImage => "find and double right click on the " ++ imageName argument
  | .waitForImage => "wait for image " ++ imageName argument ++ " to appear"
  | .waitForImageWithTimeout =>
    "wait for image " ++ imageName argument ++ " to appear, timeout if it doesn't show up"
  | .clickLastInstance => "find and click the last instance of " ++ imageName argument
  | .loop => "repeat " ++ argument

end Opcode

namespace Instruction

/-- What the instruction does once. -/
def action (i : Instruction) (code : Char) : String :=
  match Opcode.ofCode? code with
  | none | some .loop => "execute a custom command"
  | some op => op.describe i.argument

/-- A block of more than one instruction is announced in front of its first. -/
def clause? (i : Instruction) : Option String :=
  i.code.map fun code ↦
    match i.loop? with
    | none => i.action code
    | some spec =>
      if 1 < spec.span then
        "repeat the next " ++ toString spec.span ++ " steps " ++ toString spec.count.val ++
          " times starting with: " ++ i.action code
      else i.action code ++ " (" ++ toString spec.count.val ++ " times)"

end Instruction

def describe (source : String) : String :=
  ", ".intercalate ((Program.parse source).filterMap Instruction.clause?)

end Macropad.Language
