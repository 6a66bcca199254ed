import Macropad.Config.Basic
import Macropad.Language.Validation

/-!
What a configuration has to satisfy: engine values within their bounds, a path for
every source that needs one, and stored commands that validate against the same
configuration. The first kind of fault found is reported, bounds before paths before
commands, and commands in the order of their names.
-/

set_option autoImplicit false

namespace Macropad.Config

open Macropad.Language Macropad.Number Macropad.Setting

/-- A bound that an engine value does not keep. -/
inductive Bound
  | atLeastOne
  | atLeastZero
  | atMostOne
  | notEmpty
deriving Repr, DecidableEq

def Bound.message : Bound → String
  | .atLeastOne => "The number must be `>= 1`."
  | .atLeastZero => "The number must be `>= 0.0`."
  | .atMostOne => "The number must be `<= 1.0`."
  | .notEmpty => "The length of the value must be `>= 1`."

/-- The bounds that do not hold, under the name of their field. -/
def brokenBounds (engine : EngineConfig) : List (String × Bound) :=
  (if engine.pollInterval = 0 then [("poll_interval_ms", .atLeastOne)] else []) ++
  (if Double.zero.le engine.matchThreshold then [] else [("match_threshold", .atLeastZero)]) ++
  (if engine.matchThreshold.le Double.one then [] else [("match_threshold", .atMostOne)]) ++
  (if engine.imageDirectory = "" then [("image_directory", .notEmpty)] else []) ++
  (if engine.maxCallDepth = 0 then [("max_call_depth", .atLeastOne)] else [])

inductive Invalid
  | bounds (broken : List (String × Bound))
  | emptyPath (index : Nat)
  | command (name : String) (verdict : Verdict)
deriving Repr, DecidableEq

/-- A field of the report on bounds, with the list of its messages. -/
def fieldReport (field : String) (messages : List String) : String :=
  "\"" ++ field ++ "\":\x7b\"errors\":[" ++
    ",".intercalate (messages.map fun m ↦ "\"" ++ m ++ "\"") ++ "]\x7d"

def boundsReport (broken : List (String × Bound)) : String :=
  let fields := (broken.map (·.1)).eraseDups
  let reports := fields.map fun field ↦
    fieldReport field ((broken.filter (·.1 = field)).map fun b ↦ b.2.message)
  "\x7b\"errors\":[],\"properties\":\x7b\"engine\":\x7b\"errors\":[],\"properties\":\x7b" ++
    ",".intercalate reports ++ "\x7d\x7d\x7d\x7d"

def Invalid.message : Invalid → String
  | .bounds broken => "Invalid engine configuration: " ++ boundsReport broken
  | .emptyPath index => "Trigger " ++ toString index ++ " has an empty path"
  | .command name verdict => "Stored command '" ++ name ++ "' is invalid: " ++ verdict.text

def TriggerSource.path? : TriggerSource → Option String
  | .file path _ _ | .directory path _ _ => some path
  | .clipboard _ | .stdin => none

def hasBlankPath (source : TriggerSource) : Bool :=
  match source.path? with
  | some path => Text.allBlank path.toList
  | none => false

def surroundings (config : Config) : Surroundings where
  command? := config.command?
  hasSetting key := (config.setting? key).isSome

def verdict (config : Config) (program : String) : Verdict :=
  (Program.parse program).validate config.surroundings

def badCommand? (config : Config) : Option (String × Verdict) :=
  config.commands.entries.findSome? fun (name, text) ↦
    let verdict := config.verdict text
    if verdict.isValid then none else some (name, verdict)

def check (config : Config) : Except Invalid Unit :=
  match brokenBounds config.engine with
  | broken@(_ :: _) => .error (.bounds broken)
  | [] =>
    match config.triggers.findIdx? hasBlankPath with
    | some index => .error (.emptyPath index)
    | none =>
      match config.badCommand? with
      | some (name, verdict) => .error (.command name verdict)
      | none => .ok ()

end Macropad.Config
