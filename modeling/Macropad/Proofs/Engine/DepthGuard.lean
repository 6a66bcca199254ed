import Mathlib
import Macropad.Proofs.Engine.Malformed
import Macropad.Proofs.Engine.Stopping

/-!
# The guard on the depth of calls

A call is judged by the cap on depth before its name is looked up. `CallFollows` gives the three
ways in which a run can go on behind the beginning of a call: it ends there when the call would nest
too deep, whatever the name is; within the cap a name without a text that can run is passed over,
and every other name is entered. `execute_guarded` says that there are no others and that nothing
else ends a run in this way.

So a name that is unknown is passed over only as long as there is room for one more frame
(`guarded_before_looked_up`).
-/

set_option autoImplicit false

namespace Macropad.Engine

open Macropad.Input Macropad.Language Macropad.Screen Macropad.Setting

variable {σ ι : Type} {desk : Desk σ ι}

/-- How a run goes on behind the beginning of a call, with the events that are left and the ending
of the run. -/
inductive CallFollows (desk : Desk σ ι) (ending : Except Halt Outcome) (depth position : Nat)
    (cap : UInt64) (name : String) : List Event → Prop
  | refused (hcap : cap.toNat < depth + 1)
      (hending : ending = .ok (.depthExceeded position cap name)) :
    CallFollows desk ending depth position cap name []
  | completed {executed : Nat} (hcap : depth + 1 ≤ cap.toNat) (hname : desk.runnable? name = none)
      (hending : ending = .ok (.completed executed)) :
    CallFollows desk ending depth position cap name []
  | passedOver {depth' position' : Nat} {i' : Instruction} {cap' : UInt64} {rest : List Event}
      (hcap : depth + 1 ≤ cap.toNat) (hname : desk.runnable? name = none) :
    CallFollows desk ending depth position cap name (.began depth' position' i' cap' :: rest)
  | entered {text : String} {rest : List Event} (hcap : depth + 1 ≤ cap.toNat)
      (hname : desk.runnable? name = some text) :
    CallFollows desk ending depth position cap name
      (.entered (depth + 1) name (Program.parse text) :: rest)

section Runs

variable {program : Program} {session : Session} {locator : σ} {injector : ι}
  {before after : List Event} {depth position : Nat} {i : Instruction} {cap : UInt64}

/-- Wherever a run begins a call, it goes on in one of these ways. -/
theorem execute_callFollows
    (hevents : (execute desk program session locator injector).state.events =
      before ++ .began depth position i cap :: after)
    (hopcode : i.opcode? = some .runCommand) :
    cap = (sessionAfter session before).maxCallDepth ∧
      CallFollows desk (execute desk program session locator injector).ending depth position cap
        i.argument after := by
  obtain ⟨effect, htranscript, hlog, hending⟩ :=
    execute_transcribed desk program session locator injector
  obtain ⟨-, rfl, block, hblock, hrest⟩ := htranscript.block (hlog.symm.trans hevents)
  refine ⟨rfl, ?_⟩
  rw [ofInstruction_of_opcode hopcode rfl] at hblock
  cases hblock with
  | inject hoperation => cases hoperation
  | refused hcap =>
    rcases hrest with ⟨stop, hstop, heffect, rfl⟩ | ⟨hnone, -⟩
    · cases hstop
      rw [Effect.outcome, heffect] at hending
      exact .refused hcap hending
    · cases hnone
  | absent hcap hname =>
    rcases hrest with ⟨stop, hstop, -⟩ | ⟨-, rest, rfl, heffect, hrest⟩
    · cases hstop
    rcases hrest.completed_or_begins with rfl | ⟨depth', position', i', cap', events, hbegins⟩
    · rw [Effect.outcome, heffect] at hending
      exact .completed hcap hname hending
    · rw [List.nil_append, hbegins]
      exact .passedOver hcap hname
  | entered hcap hname =>
    rcases hrest with ⟨stop, hstop, -⟩ | ⟨-, rest, rfl, -⟩
    · cases hstop
    · exact .entered hcap hname

end Runs

/-- A run ends for the depth of its calls if and only if it reaches a call at a depth beyond which
the cap of that moment does not allow to go, whatever the name of the call is, and this call is then
the last that it begins. Within the cap the run goes on behind every call: a name without a text
that can run is passed over, so that everything but the counter and the pauses stays as it is, and
every other name is entered. -/
theorem execute_guarded (desk : Desk σ ι) (program : Program) (session : Session) (locator : σ)
    (injector : ι) :
    let run := execute desk program session locator injector
    (∀ position max name, run.ending = .ok (.depthExceeded position max name) ↔
      ∃ before depth i after, run.state.events = before ++ .began depth position i max :: after ∧
        i.opcode? = some .runCommand ∧ i.argument = name ∧ max.toNat < depth + 1) ∧
      (∀ before depth position i cap after,
        run.state.events = before ++ .began depth position i cap :: after →
        i.opcode? = some .runCommand →
        cap = (sessionAfter session before).maxCallDepth ∧
          CallFollows desk run.ending depth position cap i.argument after) ∧
      ∀ depth position i (s : State σ ι), i.opcode? = some .runCommand →
        depth + 1 ≤ s.session.maxCallDepth.toNat → desk.runnable? i.argument = none →
        (step desk depth position i).run s = .ok () (s.passed depth position i) := by
  refine ⟨fun position max name ↦ ⟨?_, ?_⟩, ?_, ?_⟩
  · intro hending
    obtain ⟨before, depth, i, hevents, -, hopcode, hname, -, hcap⟩ :=
      execute_of_depthExceeded desk program session locator injector hending
    exact ⟨before, depth, i, [], hevents, hopcode, hname, hcap⟩
  · rintro ⟨before, depth, i, after, hevents, hopcode, rfl, hcap⟩
    obtain ⟨-, hfollows⟩ := execute_callFollows hevents hopcode
    cases hfollows with
    | refused _ hending => exact hending
    | completed hroom | passedOver hroom | entered hroom => exact absurd hcap (Nat.not_lt.2 hroom)
  · intro before depth position i cap after hevents hopcode
    exact execute_callFollows hevents hopcode
  · intro depth position i s hopcode hcap hname
    rw [run_step_absent desk depth position (ofInstruction_of_opcode hopcode rfl) hcap hname]
    rfl

/-- At the cap an unknown name ends the run. The only other call has room for its frame. -/
theorem guarded_before_looked_up :
    let desk := blindDesk fun name ↦ if name = "a" then some "zmissing;p" else none
    let run := execute desk (Program.parse "uMaxCallDepth:1;za;e") .immediate () ()
    desk.runnable? "missing" = none ∧
      run.state.events = [.began 0 1 ⟨some 'u', "MaxCallDepth:1", none⟩ 16,
        .began 0 2 ⟨some 'z', "a", none⟩ 1, .entered 1 "a" (Program.parse "zmissing;p"),
        .began 1 1 ⟨some 'z', "missing", none⟩ 1] ∧
      run.ending = .ok (.depthExceeded 1 1 "missing") := by
  refine ⟨?_, ?_, ?_⟩ <;> cbv

end Macropad.Engine
