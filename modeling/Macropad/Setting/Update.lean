import Macropad.Number.Integer
import Macropad.Number.Double.Reading
import Macropad.Text.Blank

/-!
Changes of settings while a program runs. Five settings have an engine key; a key
and a value text read as an update of one of them, or are refused for one of two
causes. Blanks around the value do not count, and every accepted value lies in the
range of its setting.
-/

set_option autoImplicit false

namespace Macropad.Setting

inductive EngineKey
  | commandDelay
  | pollInterval
  | matchThreshold
  | imageStorageDirectory
  | maxCallDepth
deriving Repr, DecidableEq

namespace EngineKey

def all : List EngineKey :=
  [.commandDelay, .pollInterval, .matchThreshold, .imageStorageDirectory, .maxCallDepth]

def name : EngineKey → String
  | .commandDelay => "CommandDelay"
  | .pollInterval => "PollInterval"
  | .matchThreshold => "MatchThreshold"
  | .imageStorageDirectory => "ImageStorageDirectory"
  | .maxCallDepth => "MaxCallDepth"

def ofName? (name : String) : Option EngineKey := all.find? (·.name = name)

@[simp] theorem ofName?_name (key : EngineKey) : ofName? key.name = some key := by
  cases key <;> decide

/-- What a value of the setting has to be, as the refusal words it. -/
def expectation : EngineKey → String
  | .commandDelay => "expects milliseconds"
  | .pollInterval => "expects a positive number of milliseconds"
  | .matchThreshold => "expects a number between 0 and 1"
  | .imageStorageDirectory => "expects a directory"
  | .maxCallDepth => "expects a positive integer"

end EngineKey

inductive SettingError
  | notSettable (key : String)
  | invalidValue (key : EngineKey) (value : String)
deriving Repr, DecidableEq

def SettingError.message : SettingError → String
  | .notSettable key => "setting '" ++ key ++ "' cannot be changed by a macro"
  | .invalidValue key value =>
    "setting '" ++ key.name ++ "' " ++ key.expectation ++ " (got '" ++ value ++ "')"

/-- A change of the way images are looked for. -/
inductive Tuning
  | pollInterval (ms : UInt64)
  | threshold (value : Number.Double)
  | imageDirectory (directory : String)
deriving Repr, DecidableEq

inductive SettingUpdate
  | commandDelay (ms : UInt64)
  | maxCallDepth (depth : UInt64)
  | tuning (change : Tuning)
deriving Repr, DecidableEq

namespace SettingUpdate

/-- The update that a trimmed value text asks for. -/
def ofValue? (value : List Char) : EngineKey → Option SettingUpdate
  | .commandDelay => (Number.readWord64 value).map .commandDelay
  | .pollInterval =>
    ((Number.readWord64 value).filter (· ≠ 0)).map fun ms ↦ .tuning (.pollInterval ms)
  | .matchThreshold =>
    ((Number.Double.read value).filter Number.Double.isUnitInterval).map fun t ↦
      .tuning (.threshold t)
  | .imageStorageDirectory =>
    if value = [] then none else some (.tuning (.imageDirectory (String.ofList value)))
  | .maxCallDepth => ((Number.readWord64 value).filter (· ≠ 0)).map .maxCallDepth

def parse (key value : String) : Except SettingError SettingUpdate :=
  match EngineKey.ofName? key with
  | none => .error (.notSettable key)
  | some engineKey =>
    let trimmed := Text.trim value.toList
    match ofValue? trimmed engineKey with
    | some update => .ok update
    | none => .error (.invalidValue engineKey (String.ofList trimmed))

end SettingUpdate

end Macropad.Setting
