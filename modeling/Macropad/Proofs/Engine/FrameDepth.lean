import Macropad.Proofs.Engine.Alike

/-!
# Programs in deeper frames

How deep the frame of a program lies matters in one place only: a call is refused when it would nest
deeper than the cap allows. Let a program run in a frame and also in the next deeper one, from alike
states. The two runs go alike up to the first call that the deeper one refuses, or to the end if
there is none (`Deepened`). What the run itself makes of the cap on the way does not matter, since
both make the same of it, and a call that is allowed in the deeper frame is allowed in the other.

`deepens_step` says so of one instruction, over frames that do, and `deepens_runFrom` of every
program. A program that consists of one call differs from the called command in just this depth,
and in the call itself (`execute_call`).
-/

set_option autoImplicit false

namespace Macropad.Engine

open Macropad.Input Macropad.Language Macropad.Screen Macropad.Setting

variable {σ ι : Type}

/-- How a part of a run ends in a frame and in the next deeper one: alike, or the deeper one exceeds
the cap on the depth of calls. -/
inductive Deepened :
    EStateM.Result Stop (State σ ι) Unit → EStateM.Result Stop (State σ ι) Unit → Prop
  | ok {s s' : State σ ι} (halike : Alike s s') : Deepened (.ok () s) (.ok () s')
  | error (stop : Stop) {s s' : State σ ι} (halike : Alike s s') :
    Deepened (.error stop s) (.error stop s')
  | exceeded (result : EStateM.Result Stop (State σ ι) Unit) (position : Nat) (cap : UInt64)
      (name : String) (s' : State σ ι) :
    Deepened result (.error (.depthExceeded position cap name) s')

/-- The second part of a run is the first one in the next deeper frame. -/
def Deepens (part deeper : Running σ ι Unit) : Prop :=
  ∀ s s', Alike s s' → Deepened (part.run s) (deeper.run s')

theorem deepens_pure : Deepens (pure () : Running σ ι Unit) (pure ()) := fun _ _ halike ↦ .ok halike

theorem Deepens.seq {first second first' second' : Running σ ι Unit} (hfirst : Deepens first first')
    (hsecond : Deepens second second') : Deepens (do first; second) (do first'; second') := by
  intro s s' halike
  have hdeepened := hfirst s s' halike
  rw [EStateM.run_bind, EStateM.run_bind]
  generalize first.run s = result at hdeepened
  generalize first'.run s' = result' at hdeepened
  cases hdeepened with
  | ok halike₁ => exact hsecond _ _ halike₁
  | error stop halike₁ => exact .error stop halike₁
  | exceeded result position cap name s₁ => exact .exceeded _ position cap name s₁

theorem deepens_wrapUp : Deepens (wrapUp : Running σ ι Unit) wrapUp := by
  rintro s _ ⟨hcalls⟩
  exact .ok (.intro hcalls)

variable (desk : Desk σ ι)

/-- An action does not depend on the depth. -/
theorem deepens_perform (position : Nat) (a : Action) :
    Deepens (perform desk position a) (perform desk position a) := by
  intro s s' halike
  have hparted := (correspondence_parted desk position position).perform a s s' halike
  generalize (perform desk position a).run s = result at hparted
  generalize (perform desk position a).run s' = result' at hparted
  cases hparted with
  | ok halike₁ hframe => exact .ok halike₁
  | error stop halike₁ hframe => exact .error (stop.moveTo position) halike₁

/-- An instruction, when the frames that it enters end alike. -/
theorem deepens_step (depth position : Nat) (i : Instruction)
    (hframe : depth + 1 < UInt64.size → ∀ program : Program,
      Deepens (runFrom desk (depth + 1) 1 program) (runFrom desk (depth + 1 + 1) 1 program)) :
    Deepens (step desk depth position i) (step desk (depth + 1) position i) := by
  intro s s' halike
  have hbegin := alike_begin halike depth (depth + 1) position position i i
  have hcaps : s'.session.maxCallDepth = s.session.maxCallDepth := by
    obtain ⟨hcalls⟩ := halike
    rfl
  generalize haction : Action.ofInstruction i = a
  -- What the cap allows in the deeper frame, it allows in the other one.
  cases way desk (depth + 1) s'.session a with
  | acts hcall =>
    rw [run_step_of_not_call desk haction hcall, run_step_of_not_call desk haction hcall]
    exact (deepens_perform desk position a).seq deepens_wrapUp _ _ hbegin
  | refused hcap =>
    rw [run_step_refused desk (depth + 1) position haction hcap]
    exact .exceeded _ _ _ _ _
  | absent hcap hname =>
    have hcap' : depth + 1 ≤ s.session.maxCallDepth.toNat := hcaps ▸ Nat.le_of_succ_le hcap
    rw [run_step_absent desk (depth + 1) position haction hcap hname,
      run_step_absent desk depth position haction hcap' hname]
    exact deepens_wrapUp _ _ hbegin
  | entered hcap hdepth hname =>
    have hcap' : depth + 1 ≤ s.session.maxCallDepth.toNat := hcaps ▸ Nat.le_of_succ_le hcap
    rw [run_step_entered desk (depth + 1) position haction hcap hname,
      run_step_entered desk depth position haction hcap' hname]
    exact (hframe (Nat.lt_of_succ_lt hdepth) _).seq deepens_wrapUp _ _
      ((hbegin.record_left rfl).record_right rfl)

/-- Every program ends alike in a frame and in the next deeper one, unless it exceeds the cap in the
deeper one. -/
theorem deepens_runFrom (depth position : Nat) (program : Program) :
    Deepens (runFrom desk depth position program) (runFrom desk (depth + 1) position program) := by
  induction depth, position, program using runFrom_rec with
  | nil depth position =>
    rw [runFrom_nil, runFrom_nil]
    exact deepens_pure
  | cons depth position i rest hframe hblock hrest =>
    have hpass := (deepens_step desk depth position i hframe).seq hblock
    rw [runFrom_cons, runFrom_cons]
    exact (replay_related deepens_pure (fun _ _ _ _ hfirst hsecond ↦ hfirst.seq hsecond) hpass
      i.passes).seq hrest

/-! ### Programs of one call -/

/-- The outcome with one more instruction that has been run. -/
def Outcome.oneMore : Outcome → Outcome
  | .completed executed => .completed (executed + 1)
  | outcome => outcome

theorem Stop.ending_oneMore (stop : Stop) : stop.ending = stop.ending.map Outcome.oneMore := by
  cases stop <;> rfl

theorem filter_isCall_reverse {log log' : List Event}
    (hcalls : log.filter Event.isCall = log'.filter Event.isCall) :
    log.reverse.filter Event.isCall = log'.reverse.filter Event.isCall := by
  rw [List.filter_reverse, List.filter_reverse, hcalls]

/-- The run of a single call and the run of the stored command that it names. Unless the call is
refused, or a call within the command, they make the same calls of collaborators and leave the same
session and collaborators, and they end alike but for the call itself, which counts as one more
instruction. -/
theorem execute_call {i : Instruction} {name text : String}
    (haction : Action.ofInstruction i = .call name) (hheader : i.header = none)
    (hname : desk.runnable? name = some text) (session : Session) (locator : σ) (injector : ι) :
    let call := execute desk [i] session locator injector
    let command := execute desk (Program.parse text) session locator injector
    (∃ position cap called, call.ending = .ok (.depthExceeded position cap called)) ∨
      (call.ending = command.ending.map Outcome.oneMore ∧
        call.state.events.filter Event.isCall = command.state.events.filter Event.isCall ∧
        call.state.session = command.state.session ∧ call.state.locator = command.state.locator ∧
        call.state.injector = command.state.injector) := by
  have hloop : i.loop? = none := by rw [Instruction.loop?, hheader]
  have hsingle : runFrom desk 0 1 [i] = step desk 0 1 i := by
    rw [runFrom_cons_of_not_loop desk 0 1 [] hloop, runFrom_nil, bind_pure_unit]
  intro call command
  have hcall : call = .ofResult ((step desk 0 1 i).run (.start session locator injector)) := by
    rw [← hsingle]
    exact execute_eq desk [i] session locator injector
  have hcommand : command =
      .ofResult ((runFrom desk 0 1 (Program.parse text)).run (.start session locator injector)) :=
    execute_eq desk (Program.parse text) session locator injector
  rw [hcall, hcommand]
  rcases Nat.lt_or_ge session.maxCallDepth.toNat 1 with hcap | hcap
  · rw [run_step_refused desk 0 1 haction hcap]
    exact .inl ⟨_, _, _, rfl⟩
  · have hentered : Alike (State.start session locator injector)
        (((State.start session locator injector).begin 0 1 i).record
          (.entered 1 name (Program.parse text))) :=
      ((Alike.refl _).record_right rfl).record_right rfl
    have hdeepened := deepens_runFrom desk 0 1 (Program.parse text) _ _ hentered
    rw [run_step_entered desk 0 1 haction hcap hname, EStateM.run_bind]
    generalize (runFrom desk 0 1 (Program.parse text)).run _ = result at hdeepened
    generalize (runFrom desk (0 + 1) 1 (Program.parse text)).run _ = result' at hdeepened
    cases hdeepened with
    | ok halike =>
      obtain ⟨hcalls⟩ := halike
      exact .inr ⟨rfl, filter_isCall_reverse hcalls, rfl, rfl, rfl⟩
    | error stop halike =>
      obtain ⟨hcalls⟩ := halike
      exact .inr ⟨stop.ending_oneMore, filter_isCall_reverse hcalls, rfl, rfl, rfl⟩
    | exceeded result position cap called s' => exact .inl ⟨position, cap, called, rfl⟩

end Macropad.Engine
