import Macropad.Number.Double.Shortest
import Macropad.Setting.Session
import Macropad.Text.Table

/-!
Configurations: the engine block, free settings, stored commands and the sources of
triggers. The five engine settings are seen under their keys and cannot be shadowed.
-/

set_option autoImplicit false

namespace Macropad.Config

open Macropad.Setting Macropad.Text

/-- Where requests come from. -/
inductive TriggerSource
  | file (path : String) (pollMs? : Option UInt64) (deleteOnSuccess? : Option Bool)
  | directory (path : String) (pattern? : Option String) (recursive? : Option Bool)
  | clipboard (pollMs? : Option UInt64)
  | stdin
deriving Repr, DecidableEq

def TriggerSource.name : TriggerSource → String
  | .file _ _ _ => "file"
  | .directory _ _ _ => "directory"
  | .clipboard _ => "clipboard"
  | .stdin => "stdin"

end Macropad.Config

namespace Macropad

open Macropad.Setting Macropad.Text

structure Config where
  engine : EngineConfig := {}
  settings : Table := {}
  commands : Table := {}
  triggers : List Config.TriggerSource := []
deriving Repr, DecidableEq

namespace Config

def engineSetting (engine : EngineConfig) : EngineKey → String
  | .commandDelay => toString engine.commandDelay.toNat
  | .pollInterval => toString engine.pollInterval.toNat
  | .matchThreshold => engine.matchThreshold.text
  | .imageStorageDirectory => engine.imageDirectory
  | .maxCallDepth => toString engine.maxCallDepth.toNat

def setting? (config : Config) (key : String) : Option String :=
  match EngineKey.ofName? key with
  | some engineKey => some (engineSetting config.engine engineKey)
  | none => config.settings.get? key

def command? (config : Config) (name : String) : Option String := config.commands.get? name

end Config

end Macropad
