import Macropad.Proofs.Engine.CallDepth
import Macropad.Proofs.Engine.Justification
import Macropad.Proofs.Engine.Ranges

/-!
# The states of a run

A run passes through many states, in any frame and in any pass of a loop; they are the states that
the machine reaches from the start of the run. Each of them is told by what happened so far
(`Told`): the session is the one that the instructions begun so far have left, the collaborators are
as the recorded calls have left them, and nothing out of range was asked for. `told_advance` says
that every transition preserves this, and `Told.of_reaches` that every reachable state has it.

What the calls of a locator keep (`Keeps`) therefore holds in every state, and before every event,
of every run that starts with it (`Told.keeps`, `Told.keeps_before`).
-/

set_option autoImplicit false

namespace Macropad.Engine

open Macropad.Input Macropad.Language Macropad.Screen Macropad.Setting

variable {σ ι : Type}

/-- The second state is told by its events, which lead to it from the first one. -/
structure Told (desk : Desk σ ι) (program : Program) (start s : State σ ι) : Prop where
  session : s.session = sessionAfter start.session s.events
  locator :
    ((Moment.start program start.locator start.injector).afterAll desk s.events).locator = s.locator
  injector :
    ((Moment.start program start.locator start.injector).afterAll desk s.events).injector =
      s.injector
  inRange : ∀ event ∈ s.events, event.InRange

theorem told_start (desk : Desk σ ι) (program : Program) (session : Session) (locator : σ)
    (injector : ι) :
    Told desk program (.start session locator injector) (.start session locator injector) :=
  ⟨rfl, rfl, rfl, List.forall_mem_nil _⟩

/-! ### One transition -/

variable {desk : Desk σ ι} {program : Program} {start s : State σ ι}

/-- A pause and the count of instructions do not matter. -/
theorem Told.of_eq {s' : State σ ι} (htold : Told desk program start s)
    (hlog : s'.log = s.log) (hsession : s'.session = s.session) (hlocator : s'.locator = s.locator)
    (hinjector : s'.injector = s.injector) : Told desk program start s' := by
  have hevents : s'.events = s.events := congrArg List.reverse hlog
  constructor
  · rw [hsession, hevents, htold.session]
  · rw [hlocator, hevents, htold.locator]
  · rw [hinjector, hevents, htold.injector]
  · rw [hevents]
    exact htold.inRange

/-- An event that is no call leaves the collaborators as they are. -/
theorem Moment.after_of_not_call (desk : Desk σ ι) {event : Event} (hevent : event.isCall = false)
    (moment : Moment σ ι) :
    (moment.after desk event).locator = moment.locator ∧
      (moment.after desk event).injector = moment.injector := by
  cases event with
  | began | entered => exact ⟨rfl, rfl⟩
  | located | locatedAll | tuned | injected => cases hevent

theorem Event.inRange_of_not_call {event : Event} (hevent : event.isCall = false) :
    event.InRange := by
  cases event with
  | began | entered => exact trivial
  | located | locatedAll | tuned | injected => cases hevent

/-- An event that is no call and leaves the session as it is. -/
theorem Told.record (htold : Told desk program start s) {event : Event}
    (hevent : event.isCall = false) (hsession : event.sessionAfter s.session = s.session) :
    Told desk program start (s.record event) := by
  have hmoment := Moment.after_of_not_call desk hevent
    ((Moment.start program start.locator start.injector).afterAll desk s.events)
  constructor
  · rw [State.events_record, sessionAfter_append, ← htold.session]
    exact hsession.symm
  · rw [State.events_record, Moment.afterAll_append]
    exact hmoment.1.trans htold.locator
  · rw [State.events_record, Moment.afterAll_append]
    exact hmoment.2.trans htold.injector
  · rw [State.events_record]
    exact List.forall_mem_append.2
      ⟨htold.inRange, List.forall_mem_singleton.2 (Event.inRange_of_not_call hevent)⟩

/-- A call that is begun, before its frame is entered. -/
theorem Told.begin (htold : Told desk program start s) (depth position : Nat) {i : Instruction}
    {name : String} (haction : Action.ofInstruction i = .call name) :
    Told desk program start (s.begin depth position i) :=
  htold.record rfl (sessionAfter_of_call haction s.session)

theorem endState_ending (effect : Effect) (s : State σ ι) : endState (effect.ending s) = s := by
  rw [Effect.ending]
  cases effect.stop? <;> rfl

/-- An action that is no call has one of its effects, and the events of this effect lead the
collaborators to the states that the action leaves. -/
theorem run_perform_leads (desk : Desk σ ι) (depth position : Nat) {a : Action}
    (hcall : ∀ name, a ≠ .call name) {moment : Moment σ ι} (hlocator : moment.locator = s.locator)
    (hinjector : moment.injector = s.injector) :
    ∃ block s', (perform desk position a).run s = block.ending s' ∧
      Performs desk s.session depth position a block ∧
      s'.session = a.sessionAfter s.session ∧ Leads desk depth moment block.events s s' := by
  obtain ⟨block, s', hrun, hblock, hmoved⟩ := run_perform desk depth position hcall s
  obtain ⟨events, hleads⟩ :=
    (correspondence_accounted desk position depth (moment.frame depth)).perform a moment s hlocator
      hinjector rfl
  rw [hrun, endState_ending] at hleads
  have hevents : s.events ++ events = s.events ++ block.events :=
    hleads.recorded.symm.trans hmoved.events
  rw [List.append_cancel_left hevents] at hleads
  exact ⟨block, s', hrun, hblock, hmoved.session, hleads⟩

/-- An instruction that is no call, begun and performed. -/
theorem Told.perform (htold : Told desk program start s) (depth position : Nat)
    {i : Instruction} (hcall : ∀ name, Action.ofInstruction i ≠ .call name) :
    Told desk program start
      (endState ((perform desk position (Action.ofInstruction i)).run
        (s.begin depth position i))) := by
  obtain ⟨block, s', hrun, hblock, hsession, hleads⟩ :=
    run_perform_leads (s := s.begin depth position i) desk depth position hcall htold.locator
      htold.injector
  have hperforms : Performs desk s.session depth position (Action.ofInstruction i) block := hblock
  have hevents : s'.events =
      s.events ++ beginning s.session depth position i :: block.events := by
    rw [hleads.recorded, State.begin, State.events_record, List.append_assoc]
    rfl
  rw [hrun, endState_ending]
  constructor
  · have hafter := sessionAfter_block hperforms []
    rw [List.append_nil] at hafter
    rw [hevents, sessionAfter_append, ← htold.session, hafter, hsession]
    rfl
  · rw [hevents, Moment.afterAll_append]
    exact hleads.locator
  · rw [hevents, Moment.afterAll_append]
    exact hleads.injector
  · rw [hevents]
    exact List.forall_mem_append.2 ⟨htold.inRange, List.forall_mem_cons.2
      ⟨trivial, hblock.inRange (Action.inRange_ofInstruction i)⟩⟩

namespace Machine

/-- The state that the machine is in. -/
def Config.state : Config σ ι → State σ ι
  | .running _ s => s
  | .ended result => endState result

theorem state_proceed (tasks : List Task) (result : EStateM.Result Stop (State σ ι) Unit) :
    (proceed tasks result).state = endState result := by
  cases result <;> rfl

/-- A transition that takes up an instruction. -/
theorem told_enter (htold : Told desk program start s) (depth position : Nat)
    (i : Instruction) (tasks : List Task) :
    Told desk program start
      (enter desk depth position i tasks (s.begin depth position i)).state := by
  have hcaps : (s.begin depth position i).session.maxCallDepth = s.session.maxCallDepth := rfl
  generalize haction : Action.ofInstruction i = a
  cases way desk depth s.session a with
  | acts hcall =>
    rw [enter_of_not_call depth position haction hcall, state_proceed]
    subst haction
    exact htold.perform depth position hcall
  | refused hcap =>
    simp only [enter, haction, hcaps, hcap, if_true]
    exact htold.begin depth position haction
  | absent hcap hname =>
    simp only [enter, haction, hcaps, Nat.not_lt.2 hcap, if_false, hname]
    exact htold.begin depth position haction
  | entered hcap _ hname =>
    simp only [enter, haction, hcaps, Nat.not_lt.2 hcap, if_false, hname]
    exact (htold.begin depth position haction).record rfl rfl

/-- Every transition leads from a state that is told by its events to another one. -/
theorem told_advance {config : Config σ ι}
    (htold : Told desk program start config.state) :
    Told desk program start (advance desk config).state := by
  match config with
  | .running [] _ => exact htold
  | .running (.program _ _ [] :: _) _ => exact htold
  | .running (.program _ _ (_ :: _) :: _) _ => exact htold
  | .running (.passes _ _ _ _ 0 :: _) _ => exact htold
  | .running (.passes _ _ _ _ (_ + 1) :: _) _ => exact htold
  | .running (.instruction depth position i :: tasks) _ =>
    exact told_enter htold depth position i tasks
  | .running (.wrapUp :: tasks) s =>
    rw [advance, state_proceed]
    exact Told.of_eq htold rfl rfl rfl rfl
  | .ended _ => exact htold

end Machine

/-! ### All states of a run -/

theorem Told.of_reaches {config config' : Machine.Config σ ι}
    (htold : Told desk program start config.state)
    (hreaches : Machine.Reaches desk config config') :
    Told desk program start config'.state := by
  obtain ⟨n, rfl⟩ := hreaches
  induction n generalizing config with
  | zero => exact htold
  | succ n ih => exact ih (Machine.told_advance htold)

theorem state_ofResult (result : EStateM.Result Stop (State σ ι) Unit) :
    (Finished.ofResult result).state = endState result := by
  cases result <;> rfl

/-- The state in which a run ends is one of those that the machine reaches. -/
theorem told_execute (desk : Desk σ ι) (program : Program) (session : Session) (locator : σ)
    (injector : ι) :
    Told desk program (.start session locator injector)
      (execute desk program session locator injector).state := by
  have hreached := (told_start desk program session locator injector).of_reaches
    (Machine.reaches_ended program _)
  rw [execute_eq, state_ofResult]
  exact hreached

/-! ### What holds in all states -/

theorem timings_sessionAfter (session : Session) (events : List Event) :
    (sessionAfter session events).timings = session.timings := by
  induction events generalizing session with
  | nil => rfl
  | cons event rest ih =>
    refine (ih (event.sessionAfter session)).trans ?_
    cases event with
    | began depth position i cap =>
      rw [Event.sessionAfter]
      cases Action.ofInstruction i with
      | update change => exact Session.timings_apply session change
      | _ => rfl
    | _ => rfl

/-- Programs never set a cap on depth of zero. -/
theorem maxCallDepth_sessionAfter_ne_zero {session : Session} (hcap : session.maxCallDepth ≠ 0)
    (events : List Event) : (sessionAfter session events).maxCallDepth ≠ 0 := by
  rcases maxCallDepth_sessionAfter session events with hstart | ⟨_, _, i, _, -, haction⟩
  · rw [hstart]
    exact hcap
  · have hrange := Action.inRange_ofInstruction i
    rw [haction] at hrange
    exact hrange

/-- A property that calls of the locator keep when they ask for nothing out of range. -/
structure Keeps (locator : Locator σ) (holds : σ → Prop) : Prop where
  locate {image : ImageRef} {s : σ} (himage : image.InRange) (wait : Wait) (hs : holds s) :
    holds (locator.locate image wait s).2
  locateAll {image : ImageRef} {s : σ} (himage : image.InRange) (hs : holds s) :
    holds (locator.locateAll image s).2
  tune {change : Tuning} {s : σ} (hchange : change.InRange) (hs : holds s) :
    holds (locator.tune change s).2

variable {holds : σ → Prop} (hkeeps : Keeps desk.locator holds)

include hkeeps

theorem Keeps.afterAll {moment : Moment σ ι} (hmoment : holds moment.locator) {events : List Event}
    (hevents : ∀ event ∈ events, event.InRange) : holds (moment.afterAll desk events).locator := by
  induction events generalizing moment with
  | nil => exact hmoment
  | cons event rest ih =>
    obtain ⟨hevent, hrest⟩ := List.forall_mem_cons.1 hevents
    have hafter : holds (moment.after desk event).locator := by
      cases event with
      | began | entered | injected => exact hmoment
      | located image wait answer => exact hkeeps.locate hevent wait hmoment
      | locatedAll image answer => exact hkeeps.locateAll hevent hmoment
      | tuned change taken => exact hkeeps.tune hevent hmoment
    exact ih hafter hrest

/-- The property holds in the state itself. -/
theorem Told.keeps (htold : Told desk program start s) (hlocator : holds start.locator) :
    holds s.locator :=
  htold.locator ▸ hkeeps.afterAll hlocator htold.inRange

/-- The property holds before each of the events. -/
theorem Told.keeps_before (htold : Told desk program start s) (hlocator : holds start.locator)
    {before after : List Event} (hevents : s.events = before ++ after) :
    holds ((Moment.start program start.locator start.injector).afterAll desk before).locator := by
  refine hkeeps.afterAll hlocator fun event hevent ↦ ?_
  exact htold.inRange event (hevents ▸ List.mem_append_left after hevent)

end Macropad.Engine
