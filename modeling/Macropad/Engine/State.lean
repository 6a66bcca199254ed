import Macropad.Engine.Outcome
import Macropad.Input.Operation
import Macropad.Language.Instruction
import Macropad.Setting.Session

/-!
The surroundings and the state of a run. Every call of a collaborator is recorded
with its answer, failed ones included, and so is every instruction when it is begun
and every stored command when it is entered.
-/

set_option autoImplicit false

namespace Macropad.Engine

open Macropad.Input Macropad.Language Macropad.Screen Macropad.Setting

/-- What a run uses and does not change. -/
structure Desk (σ ι : Type) where
  command? : String → Option String
  /-- The text of a file that can be read as text. -/
  fileText? : String → Option String
  locator : Locator σ
  injector : Injector ι

inductive Event
  /-- An instruction is begun, with the cap on calls of that moment. -/
  | began (depth position : Nat) (instruction : Instruction) (maxCallDepth : UInt64)
  | entered (depth : Nat) (command : String) (program : Program)
  | located (image : ImageRef) (wait : Wait) (answer : Except Halt Located)
  | locatedAll (image : ImageRef) (answer : Except Halt (List Point))
  | tuned (change : Tuning) (taken : Bool)
  | injected (operation : Operation) (report : Report)

structure State (σ ι : Type) where
  session : Session
  locator : σ
  injector : ι
  /-- How many instructions have been run. The count has no bound: 64 bits would hold the count of
  any run that can come to an end in practice. -/
  executed : Nat := 0
  /-- How long the run has paused so far, in milliseconds. -/
  slept : Nat := 0
  /-- What happened so far, the latest first. -/
  log : List Event := []

namespace State

variable {σ ι : Type}

def record (event : Event) (s : State σ ι) : State σ ι := { s with log := event :: s.log }

/-- What happened, in order. -/
def events (s : State σ ι) : List Event := s.log.reverse

@[simp] theorem events_record (event : Event) (s : State σ ι) :
    (s.record event).events = s.events ++ [event] := by
  simp [events, record]

end State

end Macropad.Engine
