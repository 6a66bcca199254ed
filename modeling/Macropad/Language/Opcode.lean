/-!
The opcodes of the macro language. Each has one character, the phrase of the verbose
form, the shape of its argument and an example of one. `ofCode?_code` says that no
two opcodes share a character.
-/

set_option autoImplicit false

namespace Macropad.Language

inductive OpcodeClass
  | noArg
  | singleArg
  | doubleArg
  | imageLocate
  | imageLocateAll
  | loop
deriving Repr, DecidableEq

inductive ArgShape
  | empty
  /-- Key text, or `(path)` for the contents of a file. -/
  | text
  /-- A screen coordinate `x:y`. -/
  | point
  /-- A number of milliseconds. -/
  | millis
  /-- A repeat count; the empty argument means once. -/
  | count
  /-- A settings update `key:value`. -/
  | setting
  /-- The name of a stored command. -/
  | commandName
  /-- Two places with a comma between, each a coordinate or an image. -/
  | endpoints
  | image
  | imageWithTimeout
  | loopHeader
deriving Repr, DecidableEq

inductive Opcode
  | startMenu
  | maximize
  | minimize
  | screenshot
  | copy
  | paste
  | selectAll
  | type
  | leftClick
  | rightClick
  | sleep
  | updateSetting
  | runCommand
  | altTab
  | tab
  | drag
  | findAndClick
  | doubleClickImage
  | findAndRightClick
  | doubleRightClickImage
  | waitForImage
  | waitForImageWithTimeout
  | clickLastInstance
  | loop
deriving Repr, DecidableEq

namespace Opcode

def all : List Opcode :=
  [.startMenu, .maximize, .minimize, .screenshot, .copy, .paste, .selectAll, .type, .leftClick,
    .rightClick, .sleep, .updateSetting, .runCommand, .altTab, .tab, .drag, .findAndClick,
    .doubleClickImage, .findAndRightClick, .doubleRightClickImage, .waitForImage,
    .waitForImageWithTimeout, .clickLastInstance, .loop]

theorem mem_all (op : Opcode) : op ∈ all := by cases op <;> decide

def code : Opcode → Char
  | .startMenu => 'e'
  | .maximize => 'x'
  | .minimize => 'y'
  | .screenshot => 'c'
  | .copy => 'p'
  | .paste => 'o'
  | .selectAll => 'i'
  | .type => 's'
  | .leftClick => 'l'
  | .rightClick => 'r'
  | .sleep => 't'
  | .updateSetting => 'u'
  | .runCommand => 'z'
  | .altTab => 'a'
  | .tab => 'n'
  | .drag => 'd'
  | .findAndClick => 'f'
  | .doubleClickImage => 'g'
  | .findAndRightClick => 'j'
  | .doubleRightClickImage => 'k'
  | .waitForImage => 'h'
  | .waitForImageWithTimeout => 'v'
  | .clickLastInstance => 'q'
  | .loop => '['

def ofCode? (c : Char) : Option Opcode := all.find? (·.code = c)

@[simp] theorem ofCode?_code (op : Opcode) : ofCode? op.code = some op := by
  cases op <;> decide

theorem code_of_ofCode? {c : Char} {op : Opcode} (h : ofCode? c = some op) : op.code = c := by
  simpa using List.find?_some h

def shape : Opcode → ArgShape
  | .startMenu | .maximize | .minimize | .screenshot | .copy | .paste | .selectAll => .empty
  | .type => .text
  | .leftClick | .rightClick => .point
  | .sleep => .millis
  | .updateSetting => .setting
  | .runCommand => .commandName
  | .altTab | .tab => .count
  | .drag => .endpoints
  | .findAndClick | .doubleClickImage | .findAndRightClick | .doubleRightClickImage
  | .waitForImage | .clickLastInstance => .image
  | .waitForImageWithTimeout => .imageWithTimeout
  | .loop => .loopHeader

/-- The last instance of an image is the only one that takes all matches. -/
def argClass : Opcode → OpcodeClass
  | .clickLastInstance => .imageLocateAll
  | op =>
    match op.shape with
    | .empty => .noArg
    | .text | .point | .millis | .count | .setting | .commandName => .singleArg
    | .endpoints => .doubleArg
    | .image | .imageWithTimeout => .imageLocate
    | .loopHeader => .loop

/-- The phrase that stands for the opcode in the verbose form; the argument follows
at once. -/
def phrase : Opcode → String
  | .startMenu => "Start Menu"
  | .maximize => "Maximize"
  | .minimize => "Minimize"
  | .screenshot => "Screenshot"
  | .copy => "Copy To Clipboard"
  | .paste => "Paste From Clipboard"
  | .selectAll => "Select All"
  | .type => "Type: "
  | .leftClick => "Left Click: "
  | .rightClick => "Right Click: "
  | .sleep => "Sleep: "
  | .updateSetting => "Update Command Timer: "
  | .runCommand => "Run Command: "
  | .altTab => "Alt+Tab: "
  | .tab => "Tab: "
  | .drag => "Click And Drag: "
  | .findAndClick => "Find And Click: "
  | .doubleClickImage => "Double Click On Image: "
  | .findAndRightClick => "Find And Right Click: "
  | .doubleRightClickImage => "Double Right Click On Image: "
  | .waitForImage => "Wait For Image: "
  | .waitForImageWithTimeout => "Wait For Image With Timeout: "
  | .clickLastInstance => "Find And Click Last Instance: "
  | .loop => ""

def sampleArgument : Opcode → String
  | .startMenu | .maximize | .minimize | .screenshot | .copy | .paste | .selectAll => ""
  | .type => "Text to Type\x7bENTER\x7d"
  | .leftClick | .rightClick => "100:100"
  | .sleep => "1000"
  | .updateSetting => "CommandDelay:1000"
  | .runCommand => "NameOfCommand"
  | .altTab => "2"
  | .tab => "5"
  | .drag => "100:100,200:200"
  | .findAndClick | .doubleClickImage | .findAndRightClick | .doubleRightClickImage
  | .waitForImage | .clickLastInstance => "image.png"
  | .waitForImageWithTimeout => "image.png,1000"
  | .loop => "[3] or [2:3]"

/-- Every opcode that can begin an instruction; a loop header only stands in front
of one. -/
def instructionOpcodes : List Opcode := all.filter (· ≠ .loop)

/-- The rows of the command table: character, phrase and example. -/
def table : List (Char × String × String) :=
  instructionOpcodes.map fun op ↦
    (op.code, String.ofList (op.phrase.toList.reverse.dropWhile (· = ' ')).reverse,
      op.sampleArgument)

end Opcode

end Macropad.Language
