import Macropad.File.Folder
import Macropad.Trigger.Glob
import Macropad.Trigger.Receiver

/-!
A directory as a source of requests: what happens to the files that are there when the
watch begins. Those of the directory itself are looked at in the order of their names;
one whose name fits the pattern and whose text can be decoded is removed and then its
request is sent. Files further down count only once they change, and only in a
recursive watch.
-/

set_option autoImplicit false

namespace Macropad.Trigger

open Macropad.File

structure Inbox where
  pattern? : Option String := none
  /-- Whether changes further down are watched too. -/
  recursive : Bool := false
deriving Repr, DecidableEq

namespace Inbox

def accepts (inbox : Inbox) (name : String) : Bool :=
  match inbox.pattern? with
  | some pattern => Glob.accepts pattern.toList name.toList
  | none => true

/-- The request that a file holds, if its name fits the pattern. -/
def request? (inbox : Inbox) (name : String) (contents : Contents) : Option Request :=
  if inbox.accepts name then contents.text?.bind Request.parse? else none

/-- What became of the files. -/
structure Intake where
  sent : List Request := []
  left : List (String × Contents) := []
  /-- Whether the receiver was gone. -/
  ended : Bool := false
deriving Repr, DecidableEq

/-- Takes files in until the receiver is gone. -/
def intake (inbox : Inbox) (receiver : Receiver) : List (String × Contents) → Intake
  | [] => {}
  | (name, contents) :: rest =>
    match inbox.request? name contents with
    | none =>
      let later := inbox.intake receiver rest
      { later with left := (name, contents) :: later.left }
    | some request =>
      match receiver.take? with
      | none => { left := rest, ended := true }
      | some receiver =>
        let later := inbox.intake receiver rest
        { later with sent := request :: later.sent }

/-- Whether a path names a file of the directory itself. -/
def isTopLevel (path : String) : Bool := !path.toList.contains '/'

def inOrder (files : List (String × Contents)) : List (String × Contents) :=
  files.mergeSort fun a b ↦ a.1 ≤ b.1

/-- Begins to watch a directory, whose files are given by their paths. Without a
directory the source ends at once. -/
def watch (inbox : Inbox) (receiver : Receiver) (folder? : Option Folder) : Intake :=
  match folder? with
  | none => { ended := true }
  | some folder =>
    let top := folder.files.filter fun file ↦ isTopLevel file.1
    let deeper := folder.files.filter fun file ↦ !isTopLevel file.1
    let taken := inbox.intake receiver (inOrder top)
    { taken with left := inOrder (taken.left ++ deeper) }

end Inbox

end Macropad.Trigger
