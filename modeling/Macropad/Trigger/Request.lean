import Macropad.Json.Record
import Macropad.Text.Blank

/-!
Requests. Raw text is trimmed; an object in JSON says in its tag what is asked for,
and any other text that is not blank is the name of a stored command.
-/

set_option autoImplicit false

namespace Macropad.Trigger

open Macropad.Json

inductive Request
  /-- Run a program, given in the verbose form or in the short one. -/
  | execute (program : String) (verbose : Bool)
  | command (name : String)
deriving Repr, DecidableEq

namespace Request

def ofJson? (value : Value) : Option Request := do
  let (kind, rest) ← tagged? "type" 0 value
  match kind with
  | "execute" =>
    let record ← Record.ofValue? ["macro", "verbose"] rest
    return .execute (← record.required? "macro" Value.string?)
      (← record.field? "verbose" Value.bool? false)
  | "command" =>
    let record ← Record.ofValue? ["name"] rest
    return .command (← record.required? "name" Value.string?)
  | _ => none

def parse? (raw : String) : Option Request :=
  match Text.trim raw.toList with
  | [] => none
  | '{' :: rest => (Value.parse ('{' :: rest)).bind ofJson?
  | name => some (.command (String.ofList name))

end Request

end Macropad.Trigger
