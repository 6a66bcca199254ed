import Macropad.Trigger.Receiver
import Macropad.Trigger.Timetable

/-!
The clipboard as a source of requests. It is not read while the execution gate is held.
A text that is neither blank nor the one taken up last is taken up, and sent if it can
be decoded; so a text that stays on the clipboard is sent once.
-/

set_option autoImplicit false

namespace Macropad.Trigger.Clipboard

/-- Milliseconds between polls: at least ten, and five hundred if nothing is said. -/
def interval (ms? : Option Nat) : Nat := max 10 (ms?.getD 500)

/-- What a poll finds. -/
inductive Sight
  | gateHeld
  /-- The read fails or there is no text. -/
  | noText
  | text (s : String)
deriving Repr, DecidableEq

/-- Whether a text is taken up, given the one taken up last. -/
def isNews (last text : String) : Bool := !Text.allBlank text.toList && text != last

/-- The request to be sent, and the text taken up last. -/
def respond (last : String) : Sight → Option Request × String
  | .text text => if isNews last text then (Request.parse? text, text) else (none, last)
  | .gateHeld | .noText => (none, last)

/-- The clipboard source with what lies around it. -/
structure Scene where
  last : String := ""
  /-- The reads to come; a read without a text gives `none`. -/
  reads : List (Option String)
  done : Nat := 0
  held : Bool := false
  receiver : Receiver := {}
  ended : Bool := false
deriving Repr, DecidableEq

inductive GateAction
  | acquire
  | release
deriving Repr, DecidableEq

/-- Whether an attempt succeeded, and whether the gate is held now. -/
structure GateReport where
  acquired? : Option Bool
  busy : Bool
deriving Repr, DecidableEq

namespace Scene

def send (scene : Scene) (request : Request) : List (Event GateReport) × Scene :=
  match scene.receiver.take? with
  | some receiver => ([.request request], { scene with receiver := receiver })
  | none => ([], { scene with ended := true })

def see (scene : Scene) (sight : Sight) : List (Event GateReport) × Scene :=
  let (request?, last) := respond scene.last sight
  let scene := { scene with last := last }
  match request? with
  | some request => scene.send request
  | none => ([], scene)

def poll (scene : Scene) : List (Event GateReport) × Scene :=
  if scene.ended then ([], scene)
  else if scene.held then scene.see .gateHeld
  else
    match scene.reads with
    | [] => scene.see .noText
    | text? :: rest =>
      let sight :=
        match text? with
        | some text => .text text
        | none => .noText
      let (events, after) := { scene with reads := rest, done := scene.done + 1 }.see sight
      (.read scene.done :: events, after)

/-- An attempt on a gate that is held changes nothing. -/
def act (action : GateAction) (scene : Scene) : List (Event GateReport) × Scene :=
  match action with
  | .acquire => ([.step ⟨some (!scene.held), true⟩], { scene with held := true })
  | .release => ([.step ⟨none, false⟩], { scene with held := false })

def run (scene : Scene) (timetable : Timetable GateAction) :
    List (Nat × Event GateReport) × Scene :=
  timetable.run poll act scene

end Scene

end Macropad.Trigger.Clipboard
