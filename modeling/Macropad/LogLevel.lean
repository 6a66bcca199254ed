/-!
Log levels and their names, in any mixture of small and capital letters.
-/

set_option autoImplicit false

namespace Macropad

inductive LogLevel
  | trace
  | debug
  | info
  | warn
  | error
deriving Repr, DecidableEq

namespace LogLevel

/-- No character but the capital letter becomes one of the small letters of these names,
so changing the capital letters of ASCII is enough. -/
def parse? (name : String) : Option LogLevel :=
  match String.ofList (name.toList.map Char.toLower) with
  | "trace" => some .trace
  | "debug" => some .debug
  | "info" => some .info
  | "warn" | "warning" => some .warn
  | "error" => some .error
  | _ => none

end LogLevel

end Macropad
