import Macropad.CommandLine.Arguments
import Macropad.Config.Loading
import Macropad.Language.Description
import Macropad.Player.Desktop

/-!
The command line. One thing is done, the first of these that is asked for: the table of
commands, a description, a validation, the run of a program, the run of a stored
command, or the watch over the sources of triggers. All but the first two load the
configuration before that; without a file at its path the defaults hold.
-/

set_option autoImplicit false

namespace Macropad.CommandLine

open Macropad.Engine Macropad.File Macropad.Language

def versionLine : String := "caserpa 0.1.0\n"

/-- What is printed, and the exit code. -/
structure Reply where
  exitCode : Nat := 0
  output : String := ""
deriving Repr, DecidableEq

namespace Reply

def line (text : String) : Reply := { output := text ++ "\n" }

/-- The line is printed, and then the program fails. -/
def failure (text : String) : Reply := { exitCode := 1, output := text ++ "\n" }

/-- An error that shows only in the exit code. -/
def error : Reply := { exitCode := 1 }

def misuse : Reply := { exitCode := 2 }

end Reply

def defaultPath : String := "config/default.json"

/-- Verbose phrases of the table are padded to this width. -/
def phraseWidth : Nat := 32

def tableRow (code : Char) (phrase sample : String) : String :=
  let padded := phrase.toList.rightpad phraseWidth ' '
  String.ofList (code :: ' ' :: ' ' :: padded) ++ " " ++ sample ++ "\n"

def tableText : String :=
  String.join (Opcode.table.map fun (code, phrase, sample) ↦ tableRow code phrase sample)

namespace Arguments

/-- A program in its short form. -/
def short (given : Arguments) (program : String) : String :=
  if given.has .verbose then Phrasing.toShort program else program

def path (given : Arguments) : String := (given.value? .config).getD defaultPath

def loadConfig? (given : Arguments) (look : Look) : Option Config :=
  match look given.path with
  | none => some {}
  | some _ => (Config.loadWhole look given.path).toOption

end Arguments

/-- Whether a source of triggers ends by itself. -/
def ends (look : Look) : Config.TriggerSource → Bool
  | .stdin => true
  | .directory path _ _ => (look path).isNone
  | .file _ _ _ | .clipboard _ => false

/-- A watch says nothing and lasts as long as one of its sources. -/
def watch? (look : Look) (config : Config) : Option Reply :=
  if config.triggers.all (ends look) then some {} else none

def report? : Except Player.Refusal (Player.Performance Screen.Poller Unit) → Option Reply
  | .error _ => some .error
  | .ok performance =>
    match performance.ending with
    | .ok outcome =>
      some (if outcome.isCompleted then .line outcome.text else .failure outcome.text)
    | .error (.overflow _) => some .error
    | .error (.waitsForever _) => none

def play? (given : Arguments) (look : Look) (config : Config) (request : Player.Request) :
    Option Reply :=
  let dryRun := given.has .dryRun
  report? ((Player.desktop config dryRun).answer (.desktop dryRun (textAt? look)) request)

/-- What is done with a configuration. -/
def serve? (given : Arguments) (look : Look) (config : Config) : Option Reply :=
  match given.value? .validate, given.value? .execute, given.value? .run with
  | some program, _, _ =>
    let verdict := config.verdict (given.short program)
    some (if verdict.isValid then .line verdict.text else .failure verdict.text)
  | none, some program, _ => play? given look config (.program (given.short program))
  | none, none, some name => play? given look config (.command name)
  | none, none, none => if given.has .watch then watch? look config else some {}

def act? (given : Arguments) (look : Look) : Option Reply :=
  if given.has .printSchema then some {}
  else if given.has .commands then some { output := tableText }
  else
    match given.value? .describe with
    | some program => some (.line (describe (given.short program)))
    | none =>
      match given.loadConfig? look with
      | some config => serve? given look config
      | none => some .error

/-- The reply to some arguments; `none` when the program never ends. Neither the text of
the help nor that of the schema is part of this library. -/
def run? (arguments : List String) (look : Look) : Option Reply :=
  match Arguments.parse arguments with
  | .ok given => act? given look
  | .error .misuse => some .misuse
  | .error .version => some { output := versionLine }
  | .error .help => some {}

/-- The files that a program types. -/
def typedFiles (text : String) : List String :=
  (Program.parse text).filterMap fun i ↦
    match Action.ofInstruction i with
    | .typeFile path => some path
    | _ => none

/-- The paths at which a run over a configuration may look. -/
def Arguments.paths (given : Arguments) (config : Config) : List String :=
  let own := (given.value? .execute).toList.map given.short
  let programs := own ++ config.commands.entries.map (·.2)
  programs.flatMap typedFiles ++ config.triggers.filterMap (·.path?)

end Macropad.CommandLine
