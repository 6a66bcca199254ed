import Macropad.File.Folder
import Macropad.Trigger.Receiver
import Macropad.Trigger.Timetable

/-!
A single file as a source of requests. Unless the file is deleted after a request, it
counts again only when its length or the second of its last change differs from what
was remembered; a text that cannot be decoded is remembered too. A blank or unreadable
file is left to the next poll.
-/

set_option autoImplicit false

namespace Macropad.Trigger.RequestFile

open Macropad.File

/-- Milliseconds between polls: at least ten, and a hundred if nothing is said. -/
def interval (ms? : Option Nat) : Nat := max 10 (ms?.getD 100)

/-- What is found at the path of the file. -/
inductive Place
  | vacant
  | directory
  /-- A file with the second of its last change. -/
  | file (contents : Contents) (changed : Nat)
deriving Repr, DecidableEq

/-- Length in bytes and second of the last change. -/
structure Signature where
  length : Nat
  changed : Nat
deriving Repr, DecidableEq

def Place.text? : Place → Option String
  | .file contents _ => contents.text?
  | .vacant | .directory => none

/-- What a poll sees. The signature is taken first and the contents are read after that. -/
inductive Sight
  | absent
  | present (signature : Signature) (contents : Contents)
deriving Repr, DecidableEq

def Place.sight : Place → Sight
  | .vacant | .directory => .absent
  | .file contents changed => .present ⟨contents.size, changed⟩ contents

/-- The file source with what lies around it. -/
structure Scene where
  /-- Whether the file is deleted after a request. -/
  deletes : Bool
  place : Place := .vacant
  remembered? : Option Signature := none
  receiver : Receiver := {}
  ended : Bool := false
deriving Repr, DecidableEq

inductive Change
  | write (contents : Contents) (changed : Nat)
  | remove
  | makeDirectory
  | removeDirectory
deriving Repr, DecidableEq

/-- The text before a change. -/
structure ChangeReport where
  before? : Option String
deriving Repr, DecidableEq

namespace Scene

def isUnchanged (scene : Scene) (signature : Signature) : Bool :=
  !scene.deletes && scene.remembered? == some signature

/-- The file has been dealt with. -/
def settle (scene : Scene) (signature : Signature) : Scene :=
  if scene.deletes then scene else { scene with remembered? := some signature }

def send (scene : Scene) (signature : Signature) (request : Request) :
    List (Event ChangeReport) × Scene :=
  match scene.receiver.take? with
  | none => ([], { scene with ended := true })
  | some receiver =>
    ([.request request],
      { scene.settle signature with
        receiver := receiver
        place := if scene.deletes then .vacant else scene.place })

def consider (scene : Scene) (signature : Signature) (text : String) :
    List (Event ChangeReport) × Scene :=
  if Text.allBlank text.toList then ([], scene)
  else
    match Request.parse? text with
    | some request => scene.send signature request
    | none => ([], scene.settle signature)

def observe (scene : Scene) (sight : Sight) : List (Event ChangeReport) × Scene :=
  if scene.ended then ([], scene)
  else
    match sight with
    | .absent => ([], scene)
    | .present signature contents =>
      if scene.isUnchanged signature then ([], scene)
      else
        match contents.text? with
        | some text => scene.consider signature text
        | none => ([], scene)

def poll (scene : Scene) : List (Event ChangeReport) × Scene := scene.observe scene.place.sight

/-- A change that the place does not allow leaves it as it is. -/
def change : Change → Place → Place
  | .write _ _, .directory => .directory
  | .write contents changed, _ => .file contents changed
  | .remove, .file _ _ => .vacant
  | .makeDirectory, .vacant => .directory
  | .removeDirectory, .directory => .vacant
  | .remove, place | .makeDirectory, place | .removeDirectory, place => place

def act (action : Change) (scene : Scene) : List (Event ChangeReport) × Scene :=
  ([.step ⟨scene.place.text?⟩], { scene with place := change action scene.place })

def run (scene : Scene) (timetable : Timetable Change) :
    List (Nat × Event ChangeReport) × Scene :=
  timetable.run poll act scene

end Scene

end Macropad.Trigger.RequestFile
