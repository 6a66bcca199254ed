import Mathlib
import Macropad.Proofs.Engine.FrameDepth
import Macropad.Proofs.Language.Rendering
import Macropad.Proofs.Player.Frames

/-!
# Stored commands, requested and called

A stored command is run by a request for it, or by a program that consists of the call of it. The
two are validated differently: the one as a text of its own, the other as an instruction that names
a stored command that is not blank (`verdict_call`). Over an accepted configuration both are valid,
since its stored commands are. They also run at different depths, the command as the program of the
run or one frame deeper.

`runCommand_of_call` says that they agree all the same. As long as the call does not exceed the cap
on the depth of calls, the two make the same calls of collaborators and leave the same player, and
they end alike, but that the call itself is counted.
-/

set_option autoImplicit false

namespace Macropad

open Macropad.Engine Macropad.Input Macropad.Language Macropad.Screen Macropad.Setting

variable {σ ι : Type}

/-- A text that names a command behind the character of calls is one instruction. -/
theorem Language.parse_call {name : String} (hname : ';' ∉ name.toList) :
    Program.parse ("z" ++ name) = [⟨some 'z', name, none⟩] := by
  have htext : ("z" ++ name).toList = 'z' :: name.toList := String.toList_append
  rw [parse_of_closed htext (by decide) (by decide) (Segment.closed_of_not_mem hname _),
    String.ofList_toList]

/-- The call of a stored command that is not blank is valid. -/
theorem Config.verdict_call {config : Config} {name text : String} (hname : ';' ∉ name.toList)
    (hrunnable : config.surroundings.runnable? name = some text) :
    config.verdict ("z" ++ name) = .valid := by
  have hopcode : (⟨some 'z', name, none⟩ : Instruction).opcode? = some .runCommand := rfl
  have hargument : Validation.checkArgument config.surroundings .runCommand name = .ok () :=
    Validation.require_eq_ok_iff.2 (by rw [hrunnable, Option.isSome_some])
  rw [Config.verdict, parse_call hname]
  refine Program.validate_eq_valid_iff.2 fun k i hi ↦ ?_
  obtain rfl := List.mem_singleton.1 (List.mem_of_getElem? hi)
  exact Validation.checkInstruction_eq_ok_iff.2 ⟨rfl, .runCommand, hopcode, hargument⟩

namespace Player

/-- Over an accepted configuration, a request for a stored command that is not blank does what the
program does that consists of the call of this command, if the call does not end at the cap on the
depth of calls: it makes the same calls of collaborators and leaves the same player, session and
collaborators included. It ends alike, but if it is completed, it has run one instruction less. -/
theorem runCommand_of_call {player : Player σ ι} (devices : Devices σ ι) {name text : String}
    (hconfig : player.config.check = .ok ()) (hname : ';' ∉ name.toList)
    (hcommand : player.config.command? name = some text)
    (hblank : Text.allBlank text.toList = false) :
    ∃ call command : Performance σ ι,
      player.runProgram devices ("z" ++ name) = .ok call ∧
      player.runCommand devices name = .ok command ∧
      ((∀ position cap called, call.ending ≠ .ok (.depthExceeded position cap called)) →
        command.events.filter Event.isCall = call.events.filter Event.isCall ∧
        command.player = call.player ∧
        call.ending = command.ending.map Outcome.oneMore) := by
  have hrunnable : player.config.surroundings.runnable? name = some text :=
    Option.filter_eq_some_iff.2 ⟨hcommand, by rw [hblank]; rfl⟩
  have hcall := runProgram_of_valid (Config.verdict_call hname hrunnable) devices
  have hanswer : player.runCommand devices name =
      .ok (player.perform devices (Program.parse text)) := by
    rw [runCommand, hcommand]
    exact runProgram_of_valid (Config.verdict_of_command? hconfig hcommand) devices
  have haction : Action.ofInstruction ⟨some 'z', name, none⟩ = .call name := rfl
  have hagree := execute_call (player.desk devices) haction rfl hrunnable player.session
    player.locator player.injector
  refine ⟨_, _, hcall, hanswer, fun hends ↦ ?_⟩
  rw [parse_call hname] at hends ⊢
  rcases hagree with
    ⟨position, cap, called, hexceeded⟩ | ⟨hending, hevents, hsession, hlocator, hinjector⟩
  · exact absurd hexceeded (hends position cap called)
  · refine ⟨hevents.symm, ?_, hending⟩
    rw [perform, perform, hsession, hlocator, hinjector]

/-- A stored command that sets the cap on depth and calls another one, which holds a loop. -/
def nested : Config where
  engine := { matchThreshold := .zero, commandDelay := 0 }
  commands := ⟨[("go", "uMaxCallDepth:2;zin"), ("in", "[2]e")]⟩

/-- Called, the outer command enters the inner one within the cap that it has just set. -/
theorem runCommand_of_call_of_nested :
    nested.check = .ok () ∧
      ∃ call command, (ofConfig nested () ()).runProgram blind "zgo" = .ok call ∧
        (ofConfig nested () ()).runCommand blind "go" = .ok command ∧
        call.ending = .ok (.completed 5) ∧ command.ending = .ok (.completed 4) ∧
        command.player = call.player := by
  have hcheck : nested.check = .ok () :=
    Config.check_eq_ok_iff.2 ⟨by decide +kernel, rfl, by decide +kernel⟩
  have hcalled : ((ofConfig nested () ()).perform blind (Program.parse "zgo")).ending =
      .ok (.completed 5) := by
    cbv
  have hvalid : nested.verdict "zgo" = .valid := by decide +kernel
  have hstored : (ofConfig nested () ()).config.command? "go" = some "uMaxCallDepth:2;zin" := rfl
  obtain ⟨call, command, hcall, hcommand, hagree⟩ :=
    runCommand_of_call blind hcheck (by decide) hstored (by decide)
  obtain rfl := Except.ok.inj (hcall.symm.trans (runProgram_of_valid hvalid blind))
  obtain ⟨-, hplayer, hending⟩ :=
    hagree fun _ _ _ hexceeded ↦ by cases hexceeded.symm.trans hcalled
  refine ⟨hcheck, _, command, hcall, hcommand, hcalled, ?_, hplayer⟩
  have hmore : command.ending.map Outcome.oneMore = .ok (.completed 5) :=
    hending.symm.trans hcalled
  cases hless : command.ending with
  | error halt =>
    rw [hless] at hmore
    cases hmore
  | ok outcome =>
    rw [hless] at hmore
    cases outcome with
    | completed executed =>
      cases hmore
      rfl
    | timedOut | depthExceeded => cases hmore

end Player

end Macropad
