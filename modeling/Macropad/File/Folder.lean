/-!
A folder of files. A path is walked from the folder on: a dot stays where it is, two
dots go back, and only the last step may name a file. Outside the folder nothing is
known but the directories above it.
-/

set_option autoImplicit false

namespace Macropad.File

/-- What a file holds: a text, or bytes that are not one. -/
inductive Contents
  | text (s : String)
  | binary (size : Nat)
deriving Repr, DecidableEq

namespace Contents

def size : Contents → Nat
  | .text s => s.utf8ByteSize
  | .binary size => size

def text? : Contents → Option String
  | .text s => some s
  | .binary _ => none

end Contents

inductive Entry
  | file (contents : Contents)
  | directory
deriving Repr, DecidableEq

/-- What is found at each path. -/
abbrev Look : Type := String → Option Entry

/-- The text of a file, if there is one that holds text. -/
def textAt? (look : Look) (path : String) : Option String :=
  match look path with
  | some (.file contents) => contents.text?
  | _ => none

/-- Files under their paths from the folder, whose steps are separated by slashes. -/
structure Folder where
  files : List (String × Contents) := []
deriving Repr, DecidableEq

namespace Folder

/-- The steps of a path. -/
def steps : List Char → List (List Char)
  | [] => [[]]
  | '/' :: rest => [] :: steps rest
  | c :: rest =>
    match steps rest with
    | [] => [[c]]
    | first :: others => (c :: first) :: others

def fileAt? (folder : Folder) (place : List (List Char)) : Option Contents :=
  (folder.files.find? fun (path, _) ↦ steps path.toList = place).map (·.2)

def hasDirectory (folder : Folder) (place : List (List Char)) : Bool :=
  place = [] || folder.files.any fun (path, _) ↦
    place.isPrefixOf (steps path.toList) && place.length < (steps path.toList).length

/-- A path outside the folder names a directory if it only goes up. -/
def outside (steps : List (List Char)) : Option Entry :=
  if steps.all fun step ↦ step.all (· = '.') && step.length ≤ 2 then some .directory else none

/-- Walks the steps that are left from a directory of the folder. -/
def walk (folder : Folder) (place : List (List Char)) : List (List Char) → Option Entry
  | [] => if folder.hasDirectory place then some .directory else none
  | step :: rest =>
    if folder.hasDirectory place = false then none
    else if step = [] ∨ step = ['.'] then folder.walk place rest
    else if step = ['.', '.'] then
      if place = [] then outside rest else folder.walk place.dropLast rest
    else
      match rest, folder.fileAt? (place ++ [step]) with
      | [], some contents => some (.file contents)
      | rest, _ => folder.walk (place ++ [step]) rest

def look (folder : Folder) : Look := fun path ↦
  match steps path.toList with
  | [[]] => none
  | [] :: rest => outside rest
  | steps => folder.walk [] steps

end Folder

end Macropad.File
