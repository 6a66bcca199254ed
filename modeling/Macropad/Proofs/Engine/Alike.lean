import Macropad.Proofs.Engine.Correspondence

/-!
# Runs that differ in positions only

Two states are alike when they differ at most in the instructions that were begun: the calls of the
collaborators, the session and everything else are the same. Instructions with the same action
take alike states to alike states, wherever they stand. If they stop, then either in the frame
itself, each at its own position, or in a deeper frame, both at the same one
(`matched_step`). The depth of the instruction begun last, `State.frame?`, tells the two apart.
-/

set_option autoImplicit false

namespace Macropad.Engine

open Macropad.Input Macropad.Language Macropad.Screen Macropad.Setting

variable {σ ι α : Type}

/-- The stop at another position. -/
def Stop.moveTo (position : Nat) : Stop → Stop
  | .timedOut _ image => .timedOut position image
  | .depthExceeded _ max name => .depthExceeded position max name
  | .halted halt => .halted halt

/-- The depth of the instruction begun last. -/
def State.frame? (s : State σ ι) : Option Nat :=
  s.log.findSome? fun
    | .began depth .. => some depth
    | _ => none

/-- States that differ in the instructions that were begun only. -/
inductive Alike (s : State σ ι) : State σ ι → Prop
  | intro {log : List Event} (hcalls : log.filter Event.isCall = s.log.filter Event.isCall) :
    Alike s { s with log := log }

theorem Alike.refl (s : State σ ι) : Alike s s := .intro rfl

/-- Logs with the same calls still have the same ones after the same event. -/
theorem filter_isCall_cons {log log' : List Event}
    (hcalls : log.filter Event.isCall = log'.filter Event.isCall) (event : Event) :
    (event :: log).filter Event.isCall = (event :: log').filter Event.isCall := by
  rw [List.filter_cons, List.filter_cons, hcalls]

/-! ### Actions at two positions -/

/-- Two parts end alike at two positions, in the frame that they started in. -/
inductive Parted (position position' : Nat) (frame? : Option Nat) :
    EStateM.Result Stop (State σ ι) α → EStateM.Result Stop (State σ ι) α → Prop
  | ok {a : α} {s s' : State σ ι} (halike : Alike s s') (hframe : s.frame? = frame?) :
    Parted position position' frame? (.ok a s) (.ok a s')
  | error (stop : Stop) {s s' : State σ ι} (halike : Alike s s') (hframe : s.frame? = frame?) :
    Parted position position' frame? (.error (stop.moveTo position) s)
      (.error (stop.moveTo position') s')

/-- Actions end alike at two positions. -/
theorem correspondence_parted (desk : Desk σ ι) (position position' : Nat) :
    Correspondence desk desk position position' fun part part' ↦ ∀ s s', Alike s s' →
      Parted position position' s.frame? (part.run s) (part'.run s') where
  files := rfl
  pure a s s' halike := .ok halike rfl
  bind := by
    intro α β part part' next next' hpart hnext s s' halike
    have hparted := hpart s s' halike
    rw [EStateM.run_bind, EStateM.run_bind]
    generalize part.run s = result at hparted
    generalize part'.run s' = result' at hparted
    cases hparted with
    | ok halike₁ hframe =>
      rw [← hframe]
      exact hnext _ _ _ halike₁
    | error stop halike₁ hframe => exact .error stop halike₁ hframe
  session := by
    rintro α next next' hnext s _ ⟨hcalls⟩
    exact hnext s.session s _ (.intro hcalls)
  pause := by
    rintro ms s _ ⟨hcalls⟩
    exact .ok (.intro hcalls) rfl
  inject := by
    rintro operation s _ ⟨hcalls⟩
    exact .ok (.intro (filter_isCall_cons hcalls _)) rfl
  tooLong _ _ halike := .error (.halted (.overflow .capacity)) halike rfl
  locate := by
    rintro image wait s _ ⟨hcalls⟩
    generalize hcall : desk.locator.locate image wait s.locator = reply
    obtain ⟨answer, locator⟩ := reply
    simp only [EStateM.run, locate, hcall]
    have halike := Alike.intro (s := { s with locator := locator }.record
      (.located image wait answer)) (filter_isCall_cons hcalls (.located image wait answer))
    match answer with
    | .ok (.found place) => exact .ok halike rfl
    | .ok .timedOut => exact .error (.timedOut position image.file) halike rfl
    | .error halt => exact .error (.halted halt) halike rfl
  locateAll := by
    rintro image s _ ⟨hcalls⟩
    generalize hcall : desk.locator.locateAll image s.locator = reply
    obtain ⟨answer, locator⟩ := reply
    simp only [EStateM.run, locateAll, hcall]
    have halike := Alike.intro (s := { s with locator := locator }.record
      (.locatedAll image answer)) (filter_isCall_cons hcalls (.locatedAll image answer))
    match answer with
    | .ok places => exact .ok halike rfl
    | .error halt => exact .error (.halted halt) halike rfl
  update := by
    rintro change s _ ⟨hcalls⟩
    cases change with
    | commandDelay | maxCallDepth => exact .ok (.intro hcalls) rfl
    | tuning change => exact .ok (.intro (filter_isCall_cons hcalls _)) rfl

/-! ### Instructions at two positions -/

/-- How two instructions at one depth and two positions end alike: a stop in the frame itself is
reported at its own position, and one in a deeper frame is the same. -/
inductive Matched (depth position position' : Nat) :
    EStateM.Result Stop (State σ ι) Unit → EStateM.Result Stop (State σ ι) Unit → Prop
  | ok {s s' : State σ ι} (halike : Alike s s') :
    Matched depth position position' (.ok () s) (.ok () s')
  | here (stop : Stop) {s s' : State σ ι} (halike : Alike s s') (hframe : s.frame? = some depth) :
    Matched depth position position' (.error (stop.moveTo position) s)
      (.error (stop.moveTo position') s')
  | deeper {stop : Stop} {s s' : State σ ι} {frame : Nat} (halike : Alike s s')
      (hframe : s.frame? = some frame) (hdepth : depth < frame) :
    Matched depth position position' (.error stop s) (.error stop s')

/-- Two runs of one frame at a depth end alike, and stop in that frame or in a deeper one. -/
inductive Rerun (depth : Nat) :
    EStateM.Result Stop (State σ ι) Unit → EStateM.Result Stop (State σ ι) Unit → Prop
  | ok {s s' : State σ ι} (halike : Alike s s') : Rerun depth (.ok () s) (.ok () s')
  | error {stop : Stop} {s s' : State σ ι} {frame : Nat} (halike : Alike s s')
      (hframe : s.frame? = some frame) (hdepth : depth ≤ frame) :
    Rerun depth (.error stop s) (.error stop s')

theorem Matched.rerun {depth position : Nat} {result result' : EStateM.Result Stop (State σ ι) Unit}
    (hmatched : Matched depth position position result result') : Rerun depth result result' := by
  cases hmatched with
  | ok halike => exact .ok halike
  | here stop halike hframe => exact .error halike hframe (Nat.le_refl depth)
  | deeper halike hframe hdepth => exact .error halike hframe (Nat.le_of_lt hdepth)

/-- A part of a frame that does the same from alike states. -/
def Repeatable (depth : Nat) (part : Running σ ι Unit) : Prop :=
  ∀ s s', Alike s s' → Rerun depth (part.run s) (part.run s')

theorem repeatable_pure (depth : Nat) : Repeatable depth (pure () : Running σ ι Unit) :=
  fun _ _ halike ↦ .ok halike

theorem Repeatable.seq {depth : Nat} {first second : Running σ ι Unit}
    (hfirst : Repeatable depth first) (hsecond : Repeatable depth second) :
    Repeatable depth (do first; second) := by
  intro s s' halike
  have hrerun := hfirst s s' halike
  rw [EStateM.run_bind, EStateM.run_bind]
  generalize first.run s = result at hrerun
  generalize first.run s' = result' at hrerun
  cases hrerun with
  | ok halike₁ => exact hsecond _ _ halike₁
  | error halike₁ hframe hdepth => exact .error halike₁ hframe hdepth

variable (desk : Desk σ ι)

/-- An event that is no call, in the first of two alike states. -/
theorem Alike.record_left {s s' : State σ ι} (halike : Alike s s') {event : Event}
    (hevent : event.isCall = false) : Alike (s.record event) s' := by
  obtain ⟨hcalls⟩ := halike
  exact .intro (hcalls.trans (List.filter_cons_of_neg (Bool.eq_false_iff.1 hevent)).symm)

/-- An event that is no call, in the second of two alike states. -/
theorem Alike.record_right {s s' : State σ ι} (halike : Alike s s') {event : Event}
    (hevent : event.isCall = false) : Alike s (s'.record event) := by
  obtain ⟨hcalls⟩ := halike
  exact .intro ((List.filter_cons_of_neg (Bool.eq_false_iff.1 hevent)).trans hcalls)

theorem alike_begin {s s' : State σ ι} (halike : Alike s s')
    (depth depth' position position' : Nat) (i i' : Instruction) :
    Alike (s.begin depth position i) (s'.begin depth' position' i') :=
  (halike.record_left rfl).record_right rfl

theorem alike_record {s s' : State σ ι} (halike : Alike s s') (event : Event) :
    Alike (s.record event) (s'.record event) := by
  obtain ⟨hcalls⟩ := halike
  exact .intro (filter_isCall_cons hcalls event)

section Step

variable {depth : Nat} (position position' : Nat) {s s' : State σ ι}

/-- What follows an instruction does the same from alike states. -/
theorem matched_wrapUp (halike : Alike s s') :
    Matched depth position position' (wrapUp.run s) (wrapUp.run s') := by
  obtain ⟨hcalls⟩ := halike
  exact .ok (.intro hcalls)

/-- An action stops the run in its own frame, if at all. -/
theorem matched_perform (a : Action) (halike : Alike s s') (hframe : s.frame? = some depth) :
    Matched depth position position' ((do perform desk position a; wrapUp).run s)
      ((do perform desk position' a; wrapUp).run s') := by
  have hparted := (correspondence_parted desk position position').perform a s s' halike
  rw [EStateM.run_bind, EStateM.run_bind]
  generalize (perform desk position a).run s = result at hparted
  generalize (perform desk position' a).run s' = result' at hparted
  cases hparted with
  | ok halike₁ _ => exact matched_wrapUp position position' halike₁
  | error stop halike₁ hframe₁ => exact .here stop halike₁ (hframe₁.trans hframe)

/-- The frame of a stored command stops the run in that frame or deeper, if at all. -/
theorem matched_frame {part : Running σ ι Unit} (hpart : Repeatable (depth + 1) part)
    (halike : Alike s s') :
    Matched depth position position' ((do part; wrapUp).run s) ((do part; wrapUp).run s') := by
  have hrerun := hpart s s' halike
  rw [EStateM.run_bind, EStateM.run_bind]
  generalize part.run s = result at hrerun
  generalize part.run s' = result' at hrerun
  cases hrerun with
  | ok halike₁ => exact matched_wrapUp position position' halike₁
  | error halike₁ hframe hdepth => exact .deeper halike₁ hframe hdepth

/-- Instructions with one action end alike from alike states, when the frames that they enter do
the same. -/
theorem matched_step {i i' : Instruction}
    (haction : Action.ofInstruction i' = Action.ofInstruction i)
    (hframe : depth + 1 < UInt64.size → ∀ program : Program,
      Repeatable (depth + 1) (runFrom desk (depth + 1) 1 program)) (halike : Alike s s') :
    Matched depth position position' ((step desk depth position i).run s)
      ((step desk depth position' i').run s') := by
  have hbegin := alike_begin halike depth depth position position' i i'
  have hcap : s'.session.maxCallDepth = s.session.maxCallDepth := by
    obtain ⟨hcalls⟩ := halike
    rfl
  generalize hfirst : Action.ofInstruction i = a at haction
  cases way desk depth s.session a with
  | acts hcall =>
    rw [run_step_of_not_call desk hfirst hcall, run_step_of_not_call desk haction hcall]
    exact matched_perform desk position position' a hbegin rfl
  | @refused name hdeep =>
    rw [run_step_refused desk depth position hfirst hdeep,
      run_step_refused desk depth position' haction (hcap ▸ hdeep), hcap]
    exact .here (.depthExceeded position s.session.maxCallDepth name) hbegin rfl
  | absent hdeep hname =>
    rw [run_step_absent desk depth position hfirst hdeep hname,
      run_step_absent desk depth position' haction (hcap ▸ hdeep) hname]
    exact matched_wrapUp position position' hbegin
  | entered hdeep hdepth hname =>
    rw [run_step_entered desk depth position hfirst hdeep hname,
      run_step_entered desk depth position' haction (hcap ▸ hdeep) hname]
    exact matched_frame position position' (hframe hdepth _) (alike_record hbegin _)

end Step

/-- Every program does the same from alike states. -/
theorem repeatable_runFrom (depth position : Nat) (program : Program) :
    Repeatable depth (runFrom desk depth position program) := by
  refine runFrom_holds Repeatable repeatable_pure
    (fun _ _ _ hfirst hsecond ↦ hfirst.seq hsecond) ?_ (admits_true depth position program)
  intro depth position i _ hframe s s' halike
  refine (matched_step desk position position rfl ?_ halike).rerun
  intro hdepth program
  exact hframe hdepth program (admits_true (depth + 1) 1 program)

end Macropad.Engine
