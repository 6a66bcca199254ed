import Macropad.CommandLine

/-!
The program. It looks up on disk what the command line may need, first the
configuration and then the paths that it names, and hands the findings to
`CommandLine.run?`.
-/

set_option autoImplicit false

namespace Macropad

open Macropad.CommandLine Macropad.File

/-- What is found at a path on disk. Whatever is there and cannot be read counts as a
directory. -/
def lookOnDisk (path : String) : IO (Option Entry) := do
  try
    let bytes ← IO.FS.readBinFile path
    match String.fromUTF8? bytes with
    | some text => return some (.file (.text text))
    | none => return some (.file (.binary bytes.size))
  catch
    | .noFileOrDirectory _ _ _ => return none
    | _ => return some .directory

abbrev Findings : Type := List (String × Option Entry)

def Findings.look (findings : Findings) : Look := fun path ↦ (findings.lookup path).join

def lookAll (paths : List String) : IO Findings :=
  paths.mapM fun path ↦ do return (path, ← lookOnDisk path)

def gather (given : Arguments) : IO Findings := do
  let found ← lookAll [given.path]
  match given.loadConfig? found.look with
  | some config => return found ++ (← lookAll (given.paths config))
  | none => return found

/-- Waits until the program is stopped from outside. -/
partial def idle : IO UInt32 := do
  IO.sleep 1000
  idle

def program (arguments : List String) : IO UInt32 := do
  let findings ←
    match Arguments.parse arguments with
    | .ok given => gather given
    | .error _ => pure []
  match run? arguments findings.look with
  | some reply =>
    let out ← IO.getStdout
    out.putStr reply.output
    out.flush
    return reply.exitCode.toUInt32
  | none => idle

end Macropad

def main (arguments : List String) : IO UInt32 := Macropad.program arguments
