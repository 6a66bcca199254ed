import Macropad.Proofs.Engine.Correspondence
import Macropad.Proofs.Engine.Effect

/-!
# Failed input does not change a run

Two runs of one program that differ in their injectors only, which may fail on any operation. They
end alike, leave the same session, ask the locator for the same and attempt the same input, but for
one thing: the button of a drag is released only where it was pressed. `SameInput` compares the
events of the two runs in this way, and `execute_withInjector` says so of whole runs.

Nothing but the press of a drag looks at the report of an operation. So the actions of the two runs
are coupled by the relation that keeps everything but the injectors, the pauses and what the events
say about input (`coupling_twinned`), and from the actions it passes to instructions and programs.
-/

set_option autoImplicit false

namespace Macropad.Engine

open Macropad.Input Macropad.Language Macropad.Screen Macropad.Setting

variable {σ ι ι' α : Type}

/-! ### The same input -/

/-- Whether the event is an attempt at input. -/
def Event.isInput : Event → Bool
  | .injected .. => true
  | _ => false

/-- Whether the event is a call of the locator. -/
def Event.asksLocator : Event → Bool
  | .located .. | .locatedAll .. | .tuned .. => true
  | _ => false

/-- The operation that the event attempts, if it is no release. -/
def Event.attempt? : Event → Option Operation
  | .injected (.release _) _ => none
  | .injected operation _ => some operation
  | _ => none

/-- Events that are the same but for the reports of the operations, and for the release of each
drag, which is attempted only where the press has succeeded. -/
inductive SameInput : List Event → List Event → Prop
  | nil : SameInput [] []
  | event {events events' : List Event} {event : Event} (hinput : event.isInput = false)
      (hevents : SameInput events events') :
    SameInput (events ++ [event]) (events' ++ [event])
  | operation {events events' : List Event} {operation : Operation}
      (hdrag : ofDrag operation = false) (report report' : Report)
      (hevents : SameInput events events') :
    SameInput (events ++ [.injected operation report]) (events' ++ [.injected operation report'])
  | drag {events events' drag drag' : List Event} {start finish : Point}
      (hdrag : Pressed (some start) (some finish) drag)
      (hdrag' : Pressed (some start) (some finish) drag') (hevents : SameInput events events') :
    SameInput (events ++ drag) (events' ++ drag')

/-- A drag asks the locator for nothing, and it attempts the same but for its release. -/
theorem Pressed.asksLocator_attempt? {start finish : Point} {events : List Event}
    (hpressed : Pressed (some start) (some finish) events) :
    events.filter Event.asksLocator = [] ∧ events.filterMap Event.attempt? = [.hold start] := by
  cases hpressed with
  | refused | released => exact ⟨rfl, rfl⟩

namespace SameInput

variable {events events' : List Event}

/-- The locator is asked for the same, and answers the same. -/
theorem filter_asksLocator (hevents : SameInput events events') :
    events'.filter Event.asksLocator = events.filter Event.asksLocator := by
  induction hevents with
  | nil => rfl
  | event _ _ ih => rw [List.filter_append, List.filter_append, ih]
  | operation _ report report' _ ih =>
    rw [List.filter_append, List.filter_append, ih]
    rfl
  | drag hdrag hdrag' _ ih =>
    rw [List.filter_append, List.filter_append, ih, hdrag.asksLocator_attempt?.1,
      hdrag'.asksLocator_attempt?.1]

/-- The same operations are attempted, releases left aside. -/
theorem filterMap_attempt? (hevents : SameInput events events') :
    events'.filterMap Event.attempt? = events.filterMap Event.attempt? := by
  induction hevents with
  | nil => rfl
  | event _ _ ih => rw [List.filterMap_append, List.filterMap_append, ih]
  | @operation _ _ operation _ report report' _ ih =>
    rw [List.filterMap_append, List.filterMap_append, ih]
    cases operation <;> rfl
  | drag hdrag hdrag' _ ih =>
    rw [List.filterMap_append, List.filterMap_append, ih, hdrag.asksLocator_attempt?.2,
      hdrag'.asksLocator_attempt?.2]

end SameInput

/-! ### Twin runs -/

/-- The desk with another injector. -/
def Desk.withInjector (desk : Desk σ ι) (injector : Injector ι') : Desk σ ι' where
  command? := desk.command?
  fileText? := desk.fileText?
  locator := desk.locator
  injector := injector

/-- States of two runs that differ in how input went. -/
structure Twins (s : State σ ι) (s' : State σ ι') : Prop where
  session : s'.session = s.session
  locator : s'.locator = s.locator
  executed : s'.executed = s.executed
  events : SameInput s.events s'.events

/-- Parts of two runs that end alike in twin states. -/
inductive TwinResults :
    EStateM.Result Stop (State σ ι) α → EStateM.Result Stop (State σ ι') α → Prop
  | ok (a : α) {s : State σ ι} {s' : State σ ι'} (htwins : Twins s s') :
    TwinResults (.ok a s) (.ok a s')
  | error (stop : Stop) {s : State σ ι} {s' : State σ ι'} (htwins : Twins s s') :
    TwinResults (.error stop s) (.error stop s')

/-- Parts of two runs that end alike from twin states. -/
def Twinned (part : Running σ ι α) (part' : Running σ ι' α) : Prop :=
  ∀ s s', Twins s s' → TwinResults (part.run s) (part'.run s')

theorem twinned_pure (a : α) : Twinned (pure a : Running σ ι α) (pure a : Running σ ι' α) :=
  fun _ _ htwins ↦ .ok a htwins

theorem Twinned.bind {β : Type} {part : Running σ ι α} {part' : Running σ ι' α}
    {next : α → Running σ ι β} {next' : α → Running σ ι' β} (hpart : Twinned part part')
    (hnext : ∀ a, Twinned (next a) (next' a)) : Twinned (part >>= next) (part' >>= next') := by
  intro s s' htwins
  have hresults := hpart s s' htwins
  rw [EStateM.run_bind, EStateM.run_bind]
  generalize part.run s = result at hresults
  generalize part'.run s' = result' at hresults
  cases hresults with
  | ok a htwins₁ => exact hnext a _ _ htwins₁
  | error stop htwins₁ => exact .error stop htwins₁

/-- The same event that is no input, in twin states. -/
theorem Twins.record {s : State σ ι} {s' : State σ ι'} (htwins : Twins s s') {event : Event}
    (hinput : event.isInput = false) : Twins (s.record event) (s'.record event) where
  session := htwins.session
  locator := htwins.locator
  executed := htwins.executed
  events := by
    rw [State.events_record, State.events_record]
    exact htwins.events.event hinput

theorem Twins.withLocator {s : State σ ι} {s' : State σ ι'} (htwins : Twins s s') (locator : σ) :
    Twins { s with locator := locator } { s' with locator := locator } :=
  ⟨htwins.session, rfl, htwins.executed, htwins.events⟩

theorem Twins.withSession {s : State σ ι} {s' : State σ ι'} (htwins : Twins s s')
    {session session' : Session} (hsession : session' = session) :
    Twins { s with session := session } { s' with session := session' } :=
  ⟨hsession, htwins.locator, htwins.executed, htwins.events⟩

/-- Parts that come to the same in twin states. -/
theorem Twins.resume {s : State σ ι} {s' : State σ ι'} (htwins : Twins s s')
    (result : Except Stop α) : TwinResults (resume result s) (resume result s') := by
  cases result with
  | ok a => exact .ok a htwins
  | error stop => exact .error stop htwins

/-! ### Input of twin runs -/

/-- Twin states stay twins when the input that they receive is the same. -/
theorem Twins.byInput {events events' : List Event} {s s₁ : State σ ι} {s' s₁' : State σ ι'}
    (htwins : Twins s s') (hinput : ByInput events s s₁) (hinput' : ByInput events' s' s₁')
    (hevents : SameInput (s.events ++ events) (s'.events ++ events')) : Twins s₁ s₁' where
  session := hinput'.session.trans (htwins.session.trans hinput.session.symm)
  locator := hinput'.locator.trans (htwins.locator.trans hinput.locator.symm)
  executed := hinput'.executed.trans (htwins.executed.trans hinput.executed.symm)
  events := by rwa [hinput.events, hinput'.events]

theorem twinned_session {next : Session → Running σ ι α} {next' : Session → Running σ ι' α}
    (hnext : ∀ session, Twinned (next session) (next' session)) :
    Twinned (do let s ← get; next s.session) (do let s ← get; next' s.session) := by
  intro s s' htwins
  change TwinResults ((next s.session).run s) ((next' s'.session).run s')
  rw [htwins.session]
  exact hnext s.session s s' htwins

theorem twinned_pause (ms : UInt64) :
    Twinned (pause ms : Running σ ι Unit) (pause ms : Running σ ι' Unit) := by
  intro s s' htwins
  obtain ⟨s₁, hpause, hinput⟩ := run_pause ms s
  obtain ⟨s₁', hpause', hinput'⟩ := run_pause ms s'
  rw [hpause, hpause']
  refine .ok () (htwins.byInput hinput hinput' ?_)
  rw [List.append_nil, List.append_nil]
  exact htwins.events

theorem twinned_wrapUp : Twinned (wrapUp : Running σ ι Unit) (wrapUp : Running σ ι' Unit) := by
  have hcount : Twinned (modify fun s ↦ { s with executed := s.executed + 1 } : Running σ ι Unit)
      (modify fun s ↦ { s with executed := s.executed + 1 } : Running σ ι' Unit) := by
    intro s s' htwins
    have hexecuted : s'.executed + 1 = s.executed + 1 := by rw [htwins.executed]
    exact .ok () ⟨htwins.session, htwins.locator, hexecuted, htwins.events⟩
  exact hcount.bind fun _ ↦ twinned_session fun session ↦ twinned_pause session.commandDelay

/-! ### Instructions and programs -/

variable (desk : Desk σ ι) (injector : Injector ι')

/-- Actions end alike from twin states. -/
theorem coupling_twinned (position : Nat) :
    Coupling desk (desk.withInjector injector) position position
      fun part part' ↦ Twinned part part' where
  files := rfl
  pure := twinned_pure
  bind := Twinned.bind
  session := twinned_session
  pause := twinned_pause
  inject := by
    intro operation hdrag s s' htwins
    obtain ⟨report, s₁, hinject, hinput⟩ := run_inject desk operation s
    obtain ⟨report', s₁', hinject', hinput'⟩ :=
      run_inject (desk.withInjector injector) operation s'
    rw [EStateM.run_bind, EStateM.run_bind, hinject, hinject']
    exact .ok () (htwins.byInput hinput hinput' (htwins.events.operation hdrag report report'))
  press := by
    intro start finish s s' htwins
    obtain ⟨events, s₁, hpress, hpressed, hinput⟩ := run_press desk (some start) (some finish) s
    obtain ⟨events', s₁', hpress', hpressed', hinput'⟩ :=
      run_press (desk.withInjector injector) (some start) (some finish) s'
    rw [hpress, hpress']
    exact .ok () (htwins.byInput hinput hinput' (htwins.events.drag hpressed hpressed'))
  tooLong _ _ htwins := .error (.halted (.overflow .capacity)) htwins
  locate := by
    intro image wait s s' htwins
    rw [run_locate_eq, run_locate_eq, htwins.locator]
    refine Twins.resume (Twins.record (htwins.withLocator _) ?_) _
    rfl
  locateAll := by
    intro image s s' htwins
    rw [run_locateAll_eq, run_locateAll_eq, htwins.locator]
    refine Twins.resume (Twins.record (htwins.withLocator _) ?_) _
    rfl
  update := by
    intro change s s' htwins
    cases change with
    | commandDelay ms =>
      have hsession : { s'.session with commandDelay := ms } =
          { s.session with commandDelay := ms } := by rw [htwins.session]
      exact .ok () (htwins.withSession hsession)
    | maxCallDepth depth =>
      have hsession : { s'.session with maxCallDepth := depth } =
          { s.session with maxCallDepth := depth } := by rw [htwins.session]
      exact .ok () (htwins.withSession hsession)
    | tuning change =>
      generalize hcall : desk.locator.tune change s.locator = reply
      obtain ⟨taken, locator⟩ := reply
      have hcall' : (desk.withInjector injector).locator.tune change s'.locator =
          (taken, locator) := htwins.locator ▸ hcall
      have hinput : (Event.tuned change taken).isInput = false := rfl
      have htwins₁ := (htwins.withLocator locator).record hinput
      simp only [EStateM.run, update, Session.apply, hcall, hcall']
      exact .ok () htwins₁

/-- An instruction, when the programs of deeper frames end alike. -/
theorem twinned_step (depth position : Nat) (i : Instruction)
    (hframe : depth + 1 < UInt64.size → ∀ program : Program,
      Twinned (runFrom desk (depth + 1) 1 program)
        (runFrom (desk.withInjector injector) (depth + 1) 1 program)) :
    Twinned (step desk depth position i) (step (desk.withInjector injector) depth position i) := by
  intro s s' htwins
  have hsession : s'.session = s.session := htwins.session
  have hbegun : Twins (s.begin depth position i) (s'.begin depth position i) := by
    have hinput : (Event.began depth position i s.session.maxCallDepth).isInput = false := rfl
    rw [State.begin, State.begin, hsession]
    exact htwins.record hinput
  generalize haction : Action.ofInstruction i = a
  cases way desk depth s.session a with
  | acts hcall =>
    have hperform := (coupling_twinned desk injector position).perform a
    rw [run_step_of_not_call desk haction hcall, run_step_of_not_call _ haction hcall]
    exact hperform.bind (fun _ ↦ twinned_wrapUp) _ _ hbegun
  | refused hcap =>
    have hcap' : s'.session.maxCallDepth.toNat < depth + 1 := hsession ▸ hcap
    rw [run_step_refused desk depth position haction hcap,
      run_step_refused _ depth position haction hcap', hsession]
    exact .error _ hbegun
  | absent hcap hname =>
    have hcap' : depth + 1 ≤ s'.session.maxCallDepth.toNat := hsession ▸ hcap
    rw [run_step_absent desk depth position haction hcap hname,
      run_step_absent (desk.withInjector injector) depth position haction hcap' hname]
    exact twinned_wrapUp _ _ hbegun
  | @entered name text hcap hdepth hname =>
    have hcap' : depth + 1 ≤ s'.session.maxCallDepth.toNat := hsession ▸ hcap
    have hinput : (Event.entered (depth + 1) name (Program.parse text)).isInput = false := rfl
    rw [run_step_entered desk depth position haction hcap hname,
      run_step_entered (desk.withInjector injector) depth position haction hcap' hname]
    exact (hframe hdepth _).bind (fun _ ↦ twinned_wrapUp) _ _ (hbegun.record hinput)

/-- Programs end alike from twin states. -/
theorem twinned_runFrom (depth position : Nat) (program : Program) :
    Twinned (runFrom desk depth position program)
      (runFrom (desk.withInjector injector) depth position program) := by
  refine @runFrom_related σ ι σ ι' desk (desk.withInjector injector) (fun _ _ _ ↦ True)
    (fun _ part part' ↦ Twinned part part') (fun _ position ↦ position) (fun _ _ _ ↦ rfl)
    (fun _ ↦ rfl) (fun _ ↦ twinned_pure ())
    (fun _ _ _ _ _ hfirst hsecond ↦ hfirst.bind fun _ ↦ hsecond) ?_ depth position program
    (admits_true depth position program)
  intro depth position i _ hframe
  refine twinned_step desk injector depth position i ?_
  intro hdepth program
  exact hframe hdepth program (admits_true (depth + 1) 1 program)

/-- Whichever operations fail, a run ends alike, with the same session, and asks the locator for
the same. The same operations are attempted, but for the release of a drag, which is attempted only
where the press has succeeded. -/
theorem execute_withInjector (program : Program) (session : Session) (locator : σ) (start : ι)
    (start' : ι') :
    let run := execute desk program session locator start
    let run' := execute (desk.withInjector injector) program session locator start'
    run'.ending = run.ending ∧ run'.state.executed = run.state.executed ∧
      run'.state.session = run.state.session ∧ run'.state.locator = run.state.locator ∧
      run'.state.events.filter Event.asksLocator = run.state.events.filter Event.asksLocator ∧
      run'.state.events.filterMap Event.attempt? = run.state.events.filterMap Event.attempt? ∧
      SameInput run.state.events run'.state.events := by
  have hstart : Twins (State.start session locator start) (State.start session locator start') :=
    ⟨rfl, rfl, rfl, .nil⟩
  have hresults := twinned_runFrom desk injector 0 1 program _ _ hstart
  rw [execute_eq, execute_eq]
  generalize (runFrom desk 0 1 program).run _ = result at hresults
  generalize (runFrom (desk.withInjector injector) 0 1 program).run _ = result' at hresults
  have hends (s : State σ ι) (s' : State σ ι') (htwins : Twins s s') :
      s'.executed = s.executed ∧ s'.session = s.session ∧ s'.locator = s.locator ∧
        s'.events.filter Event.asksLocator = s.events.filter Event.asksLocator ∧
        s'.events.filterMap Event.attempt? = s.events.filterMap Event.attempt? ∧
        SameInput s.events s'.events :=
    ⟨htwins.executed, htwins.session, htwins.locator, htwins.events.filter_asksLocator,
      htwins.events.filterMap_attempt?, htwins.events⟩
  cases hresults with
  | ok _ htwins =>
    exact ⟨congrArg (Except.ok ∘ Outcome.completed) htwins.executed, hends _ _ htwins⟩
  | error stop htwins => exact ⟨rfl, hends _ _ htwins⟩

end Macropad.Engine
