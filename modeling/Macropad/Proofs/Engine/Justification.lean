import Macropad.Proofs.Engine.Correspondence
import Macropad.Proofs.Engine.Effect
import Mathlib.Logic.Function.Basic

/-!
# What the events of a run rest on

The events of a run tell its course. From the first moment on, `Moment.after` follows the frames
that are entered and the states of the locator and of the injector. Each event is justified by the
moment at which it is recorded (`Moment.Justifies`): an instruction that is begun stands at its
position of the frame that was entered last at its depth, and an answer is the one that the
collaborator gives in the state in which the earlier calls have left it.

`execute_justified` says so of every run. A part of a run is accounted for (`Accounted`) when its
events are justified, lead to the states of the collaborators that it leaves and enter no frame at
its own depth or above; deeper frames that it has entered are left behind. Actions are built from
calls, for which this holds, and the induction is the one along a run.
-/

set_option autoImplicit false

namespace Macropad.Engine

open Macropad.Input Macropad.Language Macropad.Screen Macropad.Setting

variable {σ ι α : Type}

/-! ### Moments of a run -/

/-- The instruction stands at this position of the frame. -/
def StandsIn (frame : Program) (position : Nat) (i : Instruction) : Prop :=
  0 < position ∧ frame[position - 1]? = some i

/-- What the events so far tell of a moment of a run. -/
structure Moment (σ ι : Type) where
  /-- The program of the frame that was entered last at a depth. -/
  frame : Nat → Program
  locator : σ
  injector : ι

namespace Moment

/-- The first moment, at which only the frame of the program itself has been entered. -/
def start (program : Program) (locator : σ) (injector : ι) : Moment σ ι where
  frame := Function.update (fun _ ↦ []) 0 program
  locator := locator
  injector := injector

variable (desk : Desk σ ι)

/-- The moment after an event. -/
def after (moment : Moment σ ι) : Event → Moment σ ι
  | .began .. => moment
  | .entered depth _ program => { moment with frame := Function.update moment.frame depth program }
  | .located image wait _ =>
    { moment with locator := (desk.locator.locate image wait moment.locator).2 }
  | .locatedAll image _ =>
    { moment with locator := (desk.locator.locateAll image moment.locator).2 }
  | .tuned change _ => { moment with locator := (desk.locator.tune change moment.locator).2 }
  | .injected operation _ =>
    { moment with injector := (desk.injector.perform operation moment.injector).2 }

/-- The moment after a number of events. -/
def afterAll (moment : Moment σ ι) (events : List Event) : Moment σ ι :=
  events.foldl (after desk) moment

theorem afterAll_append (moment : Moment σ ι) (first second : List Event) :
    moment.afterAll desk (first ++ second) =
      (moment.afterAll desk first).afterAll desk second :=
  List.foldl_append

/-- The event can be recorded at this moment. -/
def Justifies (moment : Moment σ ι) : Event → Prop
  | .began depth position i _ => StandsIn (moment.frame depth) position i
  | .entered .. => True
  | .located image wait answer => answer = (desk.locator.locate image wait moment.locator).1
  | .locatedAll image answer => answer = (desk.locator.locateAll image moment.locator).1
  | .tuned change taken => taken = (desk.locator.tune change moment.locator).1
  | .injected operation report =>
    report = (desk.injector.perform operation moment.injector).1

end Moment

variable (desk : Desk σ ι)

/-- Every event can be recorded at the moment to which the earlier ones lead. -/
def Justified : Moment σ ι → List Event → Prop
  | _, [] => True
  | moment, event :: rest => moment.Justifies desk event ∧ Justified (moment.after desk event) rest

theorem justified_append (moment : Moment σ ι) (first second : List Event) :
    Justified desk moment (first ++ second) ↔
      Justified desk moment first ∧ Justified desk (moment.afterAll desk first) second := by
  induction first generalizing moment with
  | nil => exact ⟨fun hsecond ↦ ⟨trivial, hsecond⟩, And.right⟩
  | cons event rest ih =>
    have hrest := ih (moment.after desk event)
    exact (and_congr_right fun _ ↦ hrest).trans and_assoc.symm

/-- An event is justified by what the events before it lead to. -/
theorem Justified.justifies {desk : Desk σ ι} {moment : Moment σ ι} {before after : List Event}
    {event : Event} (hjustified : Justified desk moment (before ++ event :: after)) :
    (moment.afterAll desk before).Justifies desk event :=
  ((justified_append desk moment before (event :: after)).1 hjustified).2.1

/-! ### Parts of a run that are accounted for -/

/-- The state in which a part of a run ends. -/
def endState : EStateM.Result Stop (State σ ι) α → State σ ι
  | .ok _ s => s
  | .error _ s => s

theorem endState_resume (result : Except Stop α) (s : State σ ι) :
    endState (resume result s) = s := by
  cases result <;> rfl

/-- The events lead from the first state to the second, and from the moment of the first to one of
the second. -/
structure Leads (depth : Nat) (moment : Moment σ ι) (events : List Event) (s s' : State σ ι) :
    Prop where
  recorded : s'.events = s.events ++ events
  justified : Justified desk moment events
  locator : (moment.afterAll desk events).locator = s'.locator
  injector : (moment.afterAll desk events).injector = s'.injector
  frame (depth' : Nat) (hdepth : depth' ≤ depth) :
    (moment.afterAll desk events).frame depth' = moment.frame depth'

variable {desk} {depth : Nat} {moment : Moment σ ι} {s s' s'' : State σ ι}
  {first second : List Event}

theorem Leads.trans (hfirst : Leads desk depth moment first s s')
    (hsecond : Leads desk depth (moment.afterAll desk first) second s' s'') :
    Leads desk depth moment (first ++ second) s s'' where
  recorded := by rw [hsecond.recorded, hfirst.recorded, List.append_assoc]
  justified := (justified_append desk moment first second).2 ⟨hfirst.justified, hsecond.justified⟩
  locator := by rw [Moment.afterAll_append, hsecond.locator]
  injector := by rw [Moment.afterAll_append, hsecond.injector]
  frame depth' hdepth := by
    rw [Moment.afterAll_append, hsecond.frame depth' hdepth, hfirst.frame depth' hdepth]

/-- What leads on in a deeper frame does so in this one. -/
theorem Leads.above {events : List Event} (hleads : Leads desk (depth + 1) moment events s s') :
    Leads desk depth moment events s s' where
  recorded := hleads.recorded
  justified := hleads.justified
  locator := hleads.locator
  injector := hleads.injector
  frame depth' hdepth := hleads.frame depth' (Nat.le_succ_of_le hdepth)

variable (desk) in
/-- From every moment at which the frame is this one, the part of the run is led on by events. -/
def Accounted (depth : Nat) (frame : Program) (part : Running σ ι α) : Prop :=
  ∀ (moment : Moment σ ι) (s : State σ ι), moment.locator = s.locator →
    moment.injector = s.injector → moment.frame depth = frame →
    ∃ events, Leads desk depth moment events s (endState (part.run s))

variable {frame : Program}

/-- A part that changes neither collaborator and records nothing. -/
theorem accounted_of_quiet {part : Running σ ι α}
    (hpart : ∀ s, (endState (part.run s)).events = s.events ∧
      (endState (part.run s)).locator = s.locator ∧
      (endState (part.run s)).injector = s.injector) : Accounted desk depth frame part := by
  intro moment s hlocator hinjector _
  obtain ⟨hevents, hlocator', hinjector'⟩ := hpart s
  exact ⟨[], hevents.trans (List.append_nil _).symm, trivial, hlocator.trans hlocator'.symm,
    hinjector.trans hinjector'.symm, fun _ _ ↦ rfl⟩

theorem accounted_pure (a : α) : Accounted desk depth frame (pure a) :=
  accounted_of_quiet fun _ ↦ ⟨rfl, rfl, rfl⟩

theorem Accounted.bind {β : Type} {part : Running σ ι α} {next : α → Running σ ι β}
    (hpart : Accounted desk depth frame part) (hnext : ∀ a, Accounted desk depth frame (next a)) :
    Accounted desk depth frame (part >>= next) := by
  intro moment s hlocator hinjector hframe
  obtain ⟨events, hleads⟩ := hpart moment s hlocator hinjector hframe
  rw [EStateM.run_bind]
  cases hresult : part.run s with
  | error stop s₁ =>
    rw [hresult] at hleads
    exact ⟨events, hleads⟩
  | ok a s₁ =>
    rw [hresult] at hleads
    obtain ⟨events', hleads'⟩ := hnext a (moment.afterAll desk events) s₁ hleads.locator
      hleads.injector ((hleads.frame depth depth.le_refl).trans hframe)
    exact ⟨events ++ events', hleads.trans hleads'⟩

theorem accounted_wrapUp : Accounted desk depth frame (wrapUp : Running σ ι Unit) :=
  accounted_of_quiet fun _ ↦ ⟨rfl, rfl, rfl⟩

variable (desk) in
/-- Actions are accounted for. -/
theorem correspondence_accounted (position : Nat) (depth : Nat) (frame : Program) :
    Correspondence desk desk position position fun part _ ↦ Accounted desk depth frame part where
  files := rfl
  pure := accounted_pure
  bind := Accounted.bind
  session hnext moment s := hnext s.session moment s
  pause _ := accounted_of_quiet fun _ ↦ ⟨rfl, rfl, rfl⟩
  inject operation := by
    intro moment s hlocator hinjector _
    refine ⟨[.injected operation (desk.injector.perform operation s.injector).1],
      State.events_record _ _, ⟨?_, trivial⟩, hlocator, ?_, fun _ _ ↦ rfl⟩
    · rw [Moment.Justifies, hinjector]
    · exact congrArg (fun injector ↦ (desk.injector.perform operation injector).2) hinjector
  tooLong := accounted_of_quiet fun _ ↦ ⟨rfl, rfl, rfl⟩
  locate image wait := by
    intro moment s hlocator hinjector _
    rw [run_locate_eq, endState_resume]
    refine ⟨[.located image wait (desk.locator.locate image wait s.locator).1],
      State.events_record _ _, ⟨?_, trivial⟩, ?_, hinjector, fun _ _ ↦ rfl⟩
    · rw [Moment.Justifies, hlocator]
    · exact congrArg (fun locator ↦ (desk.locator.locate image wait locator).2) hlocator
  locateAll image := by
    intro moment s hlocator hinjector _
    rw [run_locateAll_eq, endState_resume]
    refine ⟨[.locatedAll image (desk.locator.locateAll image s.locator).1],
      State.events_record _ _, ⟨?_, trivial⟩, ?_, hinjector, fun _ _ ↦ rfl⟩
    · rw [Moment.Justifies, hlocator]
    · exact congrArg (fun locator ↦ (desk.locator.locateAll image locator).2) hlocator
  update change := by
    cases change with
    | commandDelay ms => exact accounted_of_quiet fun _ ↦ ⟨rfl, rfl, rfl⟩
    | maxCallDepth depth => exact accounted_of_quiet fun _ ↦ ⟨rfl, rfl, rfl⟩
    | tuning change =>
      intro moment s hlocator hinjector _
      refine ⟨[.tuned change (desk.locator.tune change s.locator).1], State.events_record _ _,
        ⟨?_, trivial⟩, ?_, hinjector, fun _ _ ↦ rfl⟩
      · rw [Moment.Justifies, hlocator]
      · exact congrArg (fun locator ↦ (desk.locator.tune change locator).2) hlocator

/-! ### Instructions and programs -/

/-- Every instruction of a program stands at its position of it. -/
theorem admits_standsIn (depth : Nat) (program : Program) :
    Admits (fun _ ↦ StandsIn program) depth 1 program := by
  intro k i hi
  refine ⟨Nat.zero_lt_of_lt (Nat.lt_add_right k Nat.one_pos), ?_⟩
  rwa [Nat.add_sub_cancel_left]

/-- What accounts for a part leads on from where other events have led. -/
theorem Leads.follow {events : List Event} {part : Running σ ι α}
    (hleads : Leads desk depth moment events s s') (hpart : Accounted desk depth frame part)
    (hframe : moment.frame depth = frame) :
    ∃ events', Leads desk depth moment events' s (endState (part.run s')) := by
  obtain ⟨events', hleads'⟩ := hpart (moment.afterAll desk events) s' hleads.locator
    hleads.injector ((hleads.frame depth depth.le_refl).trans hframe)
  exact ⟨events ++ events', hleads.trans hleads'⟩

/-- A deeper frame that is entered and accounted for. -/
theorem accounted_frame (name : String) {program : Program} {part : Running σ ι Unit}
    (hpart : Accounted desk (depth + 1) program part) :
    Accounted desk depth frame (do record (.entered (depth + 1) name program); part) := by
  intro moment s hlocator hinjector _
  have hentered : Leads desk depth moment [.entered (depth + 1) name program] s
      (s.record (.entered (depth + 1) name program)) := by
    refine ⟨State.events_record _ _, ⟨trivial, trivial⟩, hlocator, hinjector, ?_⟩
    intro depth' hdepth
    have hother : depth' ≠ depth + 1 := Nat.ne_of_lt (Nat.lt_succ_of_le hdepth)
    simp only [Moment.afterAll, List.foldl_cons, List.foldl_nil, Moment.after, ne_eq, hother,
      not_false_eq_true, Function.update_of_ne]
  have hframe : (moment.afterAll desk [.entered (depth + 1) name program]).frame (depth + 1) =
      program := by
    simp only [Moment.afterAll, List.foldl_cons, List.foldl_nil, Moment.after,
      Function.update_self]
  obtain ⟨events, hleads⟩ := hpart _ _ hentered.locator hentered.injector hframe
  exact ⟨_, hentered.trans hleads.above⟩

/-- An instruction of the frame, when the programs of deeper frames are accounted for. -/
theorem accounted_step {position : Nat} {i : Instruction} (hstands : StandsIn frame position i)
    (hframes : depth + 1 < UInt64.size → ∀ program : Program,
      Accounted desk (depth + 1) program (runFrom desk (depth + 1) 1 program)) :
    Accounted desk depth frame (step desk depth position i) := by
  intro moment s hlocator hinjector hframe
  have hbegun : Leads desk depth moment [.began depth position i s.session.maxCallDepth] s
      (s.begin depth position i) := by
    refine ⟨State.events_record _ _, ⟨?_, trivial⟩, hlocator, hinjector, fun _ _ ↦ rfl⟩
    rw [Moment.Justifies, hframe]
    exact hstands
  generalize haction : Action.ofInstruction i = a
  cases way desk depth s.session a with
  | acts hcall =>
    have hperform := (correspondence_accounted desk position depth frame).perform a
    rw [run_step_of_not_call desk haction hcall]
    exact hbegun.follow (hperform.bind fun _ ↦ accounted_wrapUp) hframe
  | refused hcap =>
    rw [run_step_refused desk depth position haction hcap]
    exact ⟨_, hbegun⟩
  | absent hcap hname =>
    rw [run_step_absent desk depth position haction hcap hname]
    exact hbegun.follow accounted_wrapUp hframe
  | @entered name text hcap hdepth hname =>
    have hentered : Accounted desk depth frame (do
        record (.entered (depth + 1) name (Program.parse text))
        runFrom desk (depth + 1) 1 (Program.parse text)) :=
      accounted_frame name (hframes hdepth (Program.parse text))
    rw [run_step_entered desk depth position haction hcap hname]
    exact hbegun.follow (hentered.bind fun _ ↦ accounted_wrapUp) hframe

/-- A program that stands in the frame. -/
theorem accounted_runFrom {position : Nat} {program : Program}
    (hprogram : Admits (fun _ ↦ StandsIn frame) depth position program) :
    Accounted desk depth frame (runFrom desk depth position program) := by
  induction depth, position, program using runFrom_rec generalizing frame with
  | nil depth position =>
    rw [runFrom_nil]
    exact accounted_pure ()
  | cons depth position i rest hframes hblock hrest =>
    -- The frame is the same for the block and the rest; a deeper one is its own program.
    have hstep : Accounted desk depth frame (step desk depth position i) := by
      refine accounted_step hprogram.head ?_
      intro hdepth program
      exact hframes hdepth program (admits_standsIn (depth + 1) program)
    have hpass := hstep.bind fun _ ↦ hblock (hprogram.block i.followers)
    have hseq (first second first' second' : Running σ ι Unit)
        (hfirst : Accounted desk depth frame first) (hsecond : Accounted desk depth frame second) :
        Accounted desk depth frame (do first; second) :=
      hfirst.bind fun _ ↦ hsecond
    rw [runFrom_cons]
    refine Accounted.bind ?_ fun _ ↦ hrest (hprogram.behind i.followers)
    exact @replay_related σ ι σ ι (fun part _ ↦ Accounted desk depth frame part)
      (accounted_pure ()) hseq _ (pure ()) hpass i.passes

/-- The events of every run are justified, and they lead to the states of the collaborators that
the run leaves. -/
theorem execute_justified (desk : Desk σ ι) (program : Program) (session : Session) (locator : σ)
    (injector : ι) :
    let run := execute desk program session locator injector
    let first := Moment.start program locator injector
    Justified desk first run.state.events ∧
      (first.afterAll desk run.state.events).locator = run.state.locator ∧
      (first.afterAll desk run.state.events).injector = run.state.injector := by
  intro run first
  have hprogram : Accounted desk 0 program (runFrom desk 0 1 program) :=
    accounted_runFrom (admits_standsIn 0 program)
  have hframe : first.frame 0 = program := by
    simp only [first, Moment.start, Function.update_self]
  obtain ⟨events, hleads⟩ := hprogram first (.start session locator injector) rfl rfl hframe
  have hrun : run.state =
      endState ((runFrom desk 0 1 program).run (.start session locator injector)) := by
    simp only [run, execute_eq]
    cases (runFrom desk 0 1 program).run (.start session locator injector) <;> rfl
  have hevents : run.state.events = events := by
    rw [hrun, hleads.recorded]
    rfl
  rw [hevents, hrun]
  exact ⟨hleads.justified, hleads.locator, hleads.injector⟩

end Macropad.Engine
