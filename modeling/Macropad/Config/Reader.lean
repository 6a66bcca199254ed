import Macropad.Config.Basic
import Macropad.Json.Record

/-!
Configurations in JSON. Every field has a default; `null` is refused except for the
options of a trigger source. Names in the tables of settings and commands may repeat,
and the last one counts.
-/

set_option autoImplicit false

namespace Macropad.Config

open Macropad.Json Macropad.Setting Macropad.Text

def engineFields : List String :=
  ["command_delay_ms", "poll_interval_ms", "match_threshold", "image_directory",
    "max_call_depth", "pre_double_click_ms", "double_click_gap_ms", "last_instance_delay_ms",
    "drag_hold_ms"]

def readEngine (value : Value) : Option EngineConfig := do
  let record ← Record.ofValue? engineFields value
  let base : EngineConfig := {}
  return {
    commandDelay := ← record.field? "command_delay_ms" Value.word64? base.commandDelay
    pollInterval := ← record.field? "poll_interval_ms" Value.word64? base.pollInterval
    matchThreshold := ← record.field? "match_threshold" Value.double? base.matchThreshold
    imageDirectory := ← record.field? "image_directory" Value.string? base.imageDirectory
    maxCallDepth := ← record.field? "max_call_depth" Value.word64? base.maxCallDepth
    preDoubleClick := ← record.field? "pre_double_click_ms" Value.word64? base.preDoubleClick
    doubleClickGap := ← record.field? "double_click_gap_ms" Value.word64? base.doubleClickGap
    lastInstanceDelay :=
      ← record.field? "last_instance_delay_ms" Value.word64? base.lastInstanceDelay
    dragHold := ← record.field? "drag_hold_ms" Value.word64? base.dragHold }

def readTable : Value → Option Table
  | .object fields => do
    let record ← Record.ofObject? fields
    let entries ← record.mapM fun (name, value) ↦ value.string?.map fun text ↦ (name, text)
    return Table.ofList entries
  | _ => none

/-- Trigger sources lie within the configuration and the array of sources. -/
def readSource (value : Value) : Option TriggerSource := do
  let (kind, rest) ← tagged? "type" 2 value
  match kind with
  | "file" =>
    let record ← Record.ofValue? ["path", "poll_ms", "delete_on_success"] rest
    return .file (← record.required? "path" Value.string?)
      (← record.field? "poll_ms" (Value.nullable? Value.word64?) none)
      (← record.field? "delete_on_success" (Value.nullable? Value.bool?) none)
  | "directory" =>
    let record ← Record.ofValue? ["path", "pattern", "recursive"] rest
    return .directory (← record.required? "path" Value.string?)
      (← record.field? "pattern" (Value.nullable? Value.string?) none)
      (← record.field? "recursive" (Value.nullable? Value.bool?) none)
  | "clipboard" =>
    let record ← Record.ofValue? ["poll_ms"] rest
    return .clipboard (← record.field? "poll_ms" (Value.nullable? Value.word64?) none)
  | "stdin" =>
    let _ ← Record.ofValue? [] rest
    return .stdin
  | _ => none

def readSources : Value → Option (List TriggerSource)
  | .array items => items.mapM readSource
  | _ => none

def ofJson? (value : Value) : Option Config := do
  let record ← Record.ofValue? ["engine", "settings", "commands", "triggers"] value
  return {
    engine := ← record.field? "engine" readEngine {}
    settings := ← record.field? "settings" readTable {}
    commands := ← record.field? "commands" readTable {}
    triggers := ← record.field? "triggers" readSources [] }

/-- The configuration that a text holds, whatever its values are. -/
def parse? (text : String) : Option Config := (Value.parse text.toList).bind ofJson?

end Macropad.Config
