/-!
Arguments of the command line. A flag stands alone; an option has a value, in the same
argument or in the next one, which must not begin with a dash then. Neither may be
given twice, and nothing else may be given; two dashes end the arguments. Reading goes
from left to right and stops at the first error or request for help or version.
-/

set_option autoImplicit false

namespace Macropad.CommandLine

inductive Flag
  | verbose
  | commands
  | watch
  | dryRun
  | printSchema
  | help
  | version
deriving Repr, DecidableEq

inductive ValueOption
  | config
  | execute
  | run
  | validate
  | describe
  | logLevel
deriving Repr, DecidableEq

inductive Switch
  | flag (flag : Flag)
  | option (option : ValueOption)
deriving Repr, DecidableEq

namespace Switch

def ofLong? : String → Option Switch
  | "verbose" => some (.flag .verbose)
  | "commands" => some (.flag .commands)
  | "watch" => some (.flag .watch)
  | "dry-run" => some (.flag .dryRun)
  | "print-schema" => some (.flag .printSchema)
  | "help" => some (.flag .help)
  | "version" => some (.flag .version)
  | "config" => some (.option .config)
  | "execute" => some (.option .execute)
  | "run" => some (.option .run)
  | "validate" => some (.option .validate)
  | "describe" => some (.option .describe)
  | "log-level" => some (.option .logLevel)
  | _ => none

def ofShort? : Char → Option Switch
  | 'w' => some (.flag .watch)
  | 'h' => some (.flag .help)
  | 'V' => some (.flag .version)
  | 'c' => some (.option .config)
  | 'e' => some (.option .execute)
  | 'r' => some (.option .run)
  | _ => none

end Switch

/-- What is given so far. -/
structure Arguments where
  flags : List Flag := []
  values : List (ValueOption × String) := []
  /-- An option whose value comes next. -/
  waiting? : Option ValueOption := none
  /-- Nothing may follow. -/
  closed : Bool := false
deriving Repr, DecidableEq

/-- Why reading stops early. -/
inductive Stop
  | misuse
  | help
  | version
deriving Repr, DecidableEq

namespace Arguments

def has (given : Arguments) (flag : Flag) : Bool := given.flags.contains flag

def value? (given : Arguments) (option : ValueOption) : Option String := given.values.lookup option

def addFlag (given : Arguments) : Flag → Except Stop Arguments
  | .help => .error .help
  | .version => .error .version
  | flag =>
    if given.has flag then .error .misuse
    else .ok { given with flags := flag :: given.flags }

/-- The path of the configuration must not be empty. -/
def addValue (given : Arguments) (option : ValueOption) (value : String) : Except Stop Arguments :=
  if (given.value? option).isSome ∨ (option = .config ∧ value = "") then .error .misuse
  else .ok { given with values := (option, value) :: given.values }

/-- Short flags in one argument; the rest of it is the value of the first option among
them and may stand behind an equals sign. -/
def addShorts (given : Arguments) : List Char → Except Stop Arguments
  | [] => .ok given
  | c :: rest =>
    match Switch.ofShort? c, rest with
    | none, _ => .error .misuse
    | some (.flag flag), rest => do (← given.addFlag flag).addShorts rest
    | some (.option option), [] => .ok { given with waiting? := some option }
    | some (.option option), '=' :: value => given.addValue option (String.ofList value)
    | some (.option option), value => given.addValue option (String.ofList value)

/-- A long name, with what stands behind an equals sign. -/
def addLong (given : Arguments) (name : String) (attached? : Option String) :
    Except Stop Arguments :=
  match Switch.ofLong? name, attached? with
  | some (.flag flag), none => given.addFlag flag
  | some (.option option), none => .ok { given with waiting? := some option }
  | some (.option option), some value => given.addValue option value
  | _, _ => .error .misuse

/-- Whether an argument begins with a dash; a dash alone does not count. -/
def isDashed (argument : String) : Bool :=
  argument.toList.head? == some '-' && argument != "-"

def addSwitch (given : Arguments) (argument : String) : Except Stop Arguments :=
  match argument.toList with
  | ['-', '-'] => .ok { given with closed := true }
  | '-' :: '-' :: long =>
    given.addLong (String.ofList (long.takeWhile (· ≠ '=')))
      ((long.dropWhile (· ≠ '=')).tail?.map String.ofList)
  | '-' :: shorts => given.addShorts shorts
  | _ => .error .misuse

def add (given : Arguments) (argument : String) : Except Stop Arguments :=
  match given.waiting? with
  | some option =>
    if isDashed argument then .error .misuse
    else { given with waiting? := none }.addValue option argument
  | none =>
    if given.closed || !isDashed argument then .error .misuse
    else given.addSwitch argument

def parse (arguments : List String) : Except Stop Arguments := do
  let given ← arguments.foldlM add {}
  if given.waiting?.isSome then throw .misuse
  return given

end Arguments

end Macropad.CommandLine
