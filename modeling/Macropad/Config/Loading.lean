import Macropad.Config.Check
import Macropad.Config.Reader
import Macropad.File.Folder

/-!
Loading a configuration from a text, from a stream, or from a file, which is read as a
stream or as a whole. A configuration is loaded only if it satisfies its checks; of
what goes wrong while reading, only the stage is told.
-/

set_option autoImplicit false

namespace Macropad.Config

inductive Origin
  | text
  | stream
  /-- A file that is opened and then read as a stream. -/
  | opened (path : String)
  /-- A file that is read as a whole. -/
  | whole (path : String)
deriving Repr, DecidableEq

inductive LoadError
  | unreadable (origin : Origin)
  | malformed (origin : Origin)
  | invalid (fault : Invalid)
deriving Repr, DecidableEq

def LoadError.message : LoadError → String
  | .malformed .text => "Failed to parse JSON config string into Config"
  | .malformed .stream | .malformed (.opened _) => "Failed to parse JSON config from reader"
  | .malformed (.whole path) => "Failed to parse JSON config from " ++ path
  | .unreadable (.opened path) => "Failed to open config file " ++ path
  | .unreadable (.whole path) => "Failed to read config file " ++ path
  | .unreadable .text | .unreadable .stream => "Failed to read config"
  | .invalid fault => fault.message

def ofText (origin : Origin) (text : String) : Except LoadError Config :=
  match parse? text with
  | none => .error (.malformed origin)
  | some config =>
    match config.check with
    | .ok () => .ok config
    | .error fault => .error (.invalid fault)

def load (text : String) : Except LoadError Config := ofText .text text

def loadStream (text : String) : Except LoadError Config := ofText .stream text

/-- A directory can be opened but not read. -/
def loadOpened (look : File.Look) (path : String) : Except LoadError Config :=
  match look path with
  | none => .error (.unreadable (.opened path))
  | some (.file (.text text)) => ofText (.opened path) text
  | some _ => .error (.malformed (.opened path))

def loadWhole (look : File.Look) (path : String) : Except LoadError Config :=
  match look path with
  | some (.file (.text text)) => ofText (.whole path) text
  | some (.file (.binary _)) => .error (.malformed (.whole path))
  | _ => .error (.unreadable (.whole path))

end Macropad.Config
