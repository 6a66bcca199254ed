import Macropad.Config.Check
import Macropad.Engine.Run
import Macropad.Language.Phrasing
import Macropad.Trigger.Request

/-!
Players. A player answers requests over one configuration: it validates a program, runs
it, and keeps the session, the locator and the injector for the next request. A refused
request leaves the player as it is.
-/

set_option autoImplicit false

namespace Macropad

open Macropad.Engine Macropad.Input Macropad.Language Macropad.Screen Macropad.Setting

/-- What a player uses and does not change. -/
structure Devices (σ ι : Type) where
  fileText? : String → Option String
  locator : Locator σ
  injector : Injector ι

structure Player (σ ι : Type) where
  config : Config
  session : Session
  locator : σ
  injector : ι

namespace Player

/-- What a player is asked to run. -/
inductive Request
  | program (text : String)
  | command (name : String)
  | trigger (request : Trigger.Request)
deriving Repr, DecidableEq

/-- Why a request is refused. -/
inductive Refusal
  | invalid (verdict : Verdict)
  | unknownCommand (name : String)
deriving Repr, DecidableEq

def Refusal.message : Refusal → String
  | .invalid verdict => verdict.text
  | .unknownCommand name => "Command '" ++ name ++ "' does not exist"

/-- How a run ended, what happened in it, and the player that it left. -/
structure Performance (σ ι : Type) where
  ending : Except Halt Outcome
  events : List Event
  player : Player σ ι

variable {σ ι : Type}

def ofConfig (config : Config) (locator : σ) (injector : ι) : Player σ ι :=
  ⟨config, .ofEngine config.engine, locator, injector⟩

def desk (player : Player σ ι) (devices : Devices σ ι) : Desk σ ι where
  command? := player.config.command?
  fileText? := devices.fileText?
  locator := devices.locator
  injector := devices.injector

/-- Runs a program, valid or not. -/
def perform (player : Player σ ι) (devices : Devices σ ι) (program : Program) :
    Performance σ ι :=
  let finished :=
    execute (player.desk devices) program player.session player.locator player.injector
  { ending := finished.ending
    events := finished.state.events
    player :=
      { player with
        session := finished.state.session
        locator := finished.state.locator
        injector := finished.state.injector } }

def runProgram (player : Player σ ι) (devices : Devices σ ι) (text : String) :
    Except Refusal (Performance σ ι) :=
  let verdict := player.config.verdict text
  if verdict.isValid then .ok (player.perform devices (Program.parse text))
  else .error (.invalid verdict)

def runCommand (player : Player σ ι) (devices : Devices σ ι) (name : String) :
    Except Refusal (Performance σ ι) :=
  match player.config.command? name with
  | some text => player.runProgram devices text
  | none => .error (.unknownCommand name)

def runTrigger (player : Player σ ι) (devices : Devices σ ι) :
    Trigger.Request → Except Refusal (Performance σ ι)
  | .execute program verbose =>
    player.runProgram devices (if verbose then Phrasing.toShort program else program)
  | .command name => player.runCommand devices name

def answer (player : Player σ ι) (devices : Devices σ ι) :
    Request → Except Refusal (Performance σ ι)
  | .program text => player.runProgram devices text
  | .command name => player.runCommand devices name
  | .trigger request => player.runTrigger devices request

/-- The player after a request. -/
def after (player : Player σ ι) (devices : Devices σ ι) (request : Request) : Player σ ι :=
  match player.answer devices request with
  | .ok performance => performance.player
  | .error _ => player

end Player

end Macropad
