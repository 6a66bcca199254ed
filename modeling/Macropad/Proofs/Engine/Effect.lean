import Macropad.Proofs.Engine.Running

/-!
# What an instruction brings about

The effect of an instruction is the list of its events and, if it stops the run, the cause.
`Performs` gives the effects that each action can have. They depend on the answers of the
collaborators, which the events carry: a search that is not answered with a place stops the run,
a release follows a press that succeeded, and a call enters a frame only within the cap on depth.
Key text that would be too long stops the run as well, without any event.

`run_perform` says that performing an action has one of these effects and changes the session as
`Action.sessionAfter` says. It is put together from one lemma for each part of an action, which
all have the same form: there are events with which the part moves the state on.
-/

set_option autoImplicit false

namespace Macropad.Engine

open Macropad.Input Macropad.Language Macropad.Screen Macropad.Setting

variable {σ ι α : Type}

/-! ### Effects -/

/-- What a part of a run brings about. -/
structure Effect where
  events : List Event := []
  stop? : Option Stop := none

/-- What a search has come to once it is answered. -/
def concluded (position : Nat) (image : ImageRef) : Except Halt Located → Except Stop Point
  | .ok (.found place) => .ok place
  | .ok .timedOut => .error (.timedOut position image.file)
  | .error halt => .error (.halted halt)

/-- What a search for all instances has come to once it is answered. -/
def gathered : Except Halt (List Point) → Except Stop (List Point)
  | .ok places => .ok places
  | .error halt => .error (.halted halt)

/-- The events of a question that may not have to be asked. -/
inductive Answered {γ δ : Type} (event : γ → δ → Event) : Option γ → List Event → Prop
  | unasked : Answered event none []
  | asked (question : γ) (answer : δ) : Answered event (some question) [event question answer]

/-- The events of one side of a drag, and what it comes to. -/
inductive SideSought (position : Nat) :
    Option Endpoint → List Event → Except Stop (Option Point) → Prop
  | unreadable : SideSought position none [] (.ok none)
  | point (place : Point) : SideSought position (some (.point place)) [] (.ok (some place))
  | image (image : ImageRef) (answer : Except Halt Located) :
    SideSought position (some (.image image)) [.located image .forever answer]
      ((concluded position image answer).map some)

/-- The events of a drag whose sides have been looked for. -/
inductive Pressed : Option Point → Option Point → List Event → Prop
  | noStart (finish? : Option Point) : Pressed none finish? []
  | noFinish (start : Point) : Pressed (some start) none []
  | refused {start finish : Point} {report : Report} (hreport : report.succeeded = false) :
    Pressed (some start) (some finish) [.injected (.hold start) report]
  | released {start finish : Point} {report report' : Report} (hreport : report.succeeded = true) :
    Pressed (some start) (some finish)
      [.injected (.hold start) report, .injected (.release finish) report']

namespace Action

/-- The operation of an action that consists of a single one. -/
def operation? (desk : Desk σ ι) : Action → Option Operation
  | .capture => some .capture
  | .type keys => some (.text keys)
  | .typeFile path =>
    (desk.fileText? path).map fun text ↦ .text (String.ofList (Keys.toInjectionForm text.toList))
  | .click place button => some (.click place button)
  | .switchWindows times =>
    if switchSize times ≤ textCapacity then some (.text (switchKeys times)) else none
  | _ => none

/-- The session that an action leaves. -/
def sessionAfter (session : Session) : Action → Session
  | .update change => (session.apply change).1
  | _ => session

end Action

/-- What is done at the place of an image. -/
def Response.operation? (session : Session) (place : Point) : Response → Option Operation
  | .click button => some (.click place button)
  | .doubleClick button => some (.doubleClick place button session.timings.doubleClickGap)
  | .nothing => none

/-- The effects that an action can have at a depth and a position. -/
inductive Performs (desk : Desk σ ι) (session : Session) (depth position : Nat) :
    Action → Effect → Prop
  | skip : Performs desk session depth position .skip {}
  | sleep (ms : UInt64) : Performs desk session depth position (.sleep ms) {}
  | unreadable {path : String} (hpath : desk.fileText? path = none) :
    Performs desk session depth position (.typeFile path) {}
  | inject {a : Action} {operation : Operation} (hoperation : a.operation? desk = some operation)
      (report : Report) :
    Performs desk session depth position a { events := [.injected operation report] }
  | tooLong {times : Nat} (hsize : textCapacity < switchSize times) :
    Performs desk session depth position (.switchWindows times)
      { stop? := some (.halted (.overflow .capacity)) }
  | setting {change : SettingUpdate} {events : List Event}
      (htuned : Answered .tuned (session.apply change).2 events) :
    Performs desk session depth position (.update change) { events := events }
  | tabs (reports : List Report) :
    Performs desk session depth position (.tabs reports.length)
      { events := reports.map (.injected (.text Action.tabKeys)) }
  | dragUnstarted {start finish : Option Endpoint} {events : List Event} {stop : Stop}
      (hstart : SideSought position start events (.error stop)) :
    Performs desk session depth position (.drag start finish)
      { events := events, stop? := some stop }
  | dragUnfinished {start finish : Option Endpoint} {events events' : List Event}
      {place? : Option Point} {stop : Stop}
      (hstart : SideSought position start events (.ok place?))
      (hfinish : SideSought position finish events' (.error stop)) :
    Performs desk session depth position (.drag start finish)
      { events := events ++ events', stop? := some stop }
  | drag {start finish : Option Endpoint} {events events' events'' : List Event}
      {start? finish? : Option Point} (hstart : SideSought position start events (.ok start?))
      (hfinish : SideSought position finish events' (.ok finish?))
      (hpressed : Pressed start? finish? events'') :
    Performs desk session depth position (.drag start finish)
      { events := events ++ events' ++ events'' }
  | respond {image : ImageRef} {response : Response} {answer : Except Halt Located}
      {place : Point} {events : List Event} (hanswer : concluded position image answer = .ok place)
      (hinjected : Answered .injected (response.operation? session place) events) :
    Performs desk session depth position (.respond image response)
      { events := .located image .forever answer :: events }
  | respondStopped {image : ImageRef} {response : Response} {answer : Except Halt Located}
      {stop : Stop} (hanswer : concluded position image answer = .error stop) :
    Performs desk session depth position (.respond image response)
      { events := [.located image .forever answer], stop? := some stop }
  | await {timed : TimedImage} {answer : Except Halt Located} {place : Point}
      (hanswer : concluded position timed.image answer = .ok place) :
    Performs desk session depth position (.await timed)
      { events := [.located timed.image (.limit timed.limit) answer] }
  | awaitStopped {timed : TimedImage} {answer : Except Halt Located} {stop : Stop}
      (hanswer : concluded position timed.image answer = .error stop) :
    Performs desk session depth position (.await timed)
      { events := [.located timed.image (.limit timed.limit) answer], stop? := some stop }
  | noInstance (image : ImageRef) :
    Performs desk session depth position (.lastInstance image)
      { events := [.locatedAll image (.ok [])] }
  | lastInstance (image : ImageRef) (places : List Point) (last : Point) (report : Report) :
    Performs desk session depth position (.lastInstance image)
      { events := [.locatedAll image (.ok (places ++ [last])),
          .injected (.doubleClick last .left session.timings.doubleClickGap) report] }
  | lastInstanceHalted (image : ImageRef) (halt : Halt) :
    Performs desk session depth position (.lastInstance image)
      { events := [.locatedAll image (.error halt)], stop? := some (.halted halt) }
  | refused {name : String} (hcap : session.maxCallDepth.toNat < depth + 1) :
    Performs desk session depth position (.call name)
      { stop? := some (.depthExceeded position session.maxCallDepth name) }
  | absent {name : String} (hcap : depth + 1 ≤ session.maxCallDepth.toNat)
      (hname : desk.runnable? name = none) : Performs desk session depth position (.call name) {}
  | entered {name text : String} (hcap : depth + 1 ≤ session.maxCallDepth.toNat)
      (hname : desk.runnable? name = some text) :
    Performs desk session depth position (.call name)
      { events := [.entered (depth + 1) name (Program.parse text)] }

/-! ### How the state moves -/

/-- How a part of a run ends that comes to `result` in the state `s`. -/
def resume : Except Stop α → State σ ι → EStateM.Result Stop (State σ ι) α
  | .ok a, s => .ok a s
  | .error stop, s => .error stop s

/-- How a part of a run with this effect ends in the state `s`. -/
def Effect.ending (effect : Effect) (s : State σ ι) : EStateM.Result Stop (State σ ι) Unit :=
  match effect.stop? with
  | none => .ok () s
  | some stop => .error stop s

/-- The second state is reached from the first with these events and in one session. -/
structure Moved (events : List Event) (s s' : State σ ι) : Prop where
  log : s'.log = events.reverse ++ s.log
  session : s'.session = s.session

theorem Moved.refl (s : State σ ι) : Moved [] s s := ⟨rfl, rfl⟩

theorem Moved.trans {events events' : List Event} {s s' s'' : State σ ι}
    (hfirst : Moved events s s') (hsecond : Moved events' s' s'') :
    Moved (events ++ events') s s'' where
  log := by rw [hsecond.log, hfirst.log, List.reverse_append, List.append_assoc]
  session := hsecond.session.trans hfirst.session

theorem Moved.events {events : List Event} {s s' : State σ ι} (hmoved : Moved events s s') :
    s'.events = s.events ++ events := by
  rw [State.events, hmoved.log, List.reverse_append, List.reverse_reverse, State.events]

/-- The second state is reached from the first by input and pauses, with these events. -/
structure ByInput (events : List Event) (s s' : State σ ι) : Prop extends Moved events s s' where
  locator : s'.locator = s.locator
  executed : s'.executed = s.executed

theorem ByInput.refl (s : State σ ι) : ByInput [] s s := ⟨.refl s, rfl, rfl⟩

theorem ByInput.trans {events events' : List Event} {s s' s'' : State σ ι}
    (hfirst : ByInput events s s') (hsecond : ByInput events' s' s'') :
    ByInput (events ++ events') s s'' where
  toMoved := hfirst.toMoved.trans hsecond.toMoved
  locator := hsecond.locator.trans hfirst.locator
  executed := hsecond.executed.trans hfirst.executed

variable (desk : Desk σ ι)

theorem run_inject (operation : Operation) (s : State σ ι) :
    ∃ report s', (inject desk operation).run s = .ok report s' ∧
      ByInput [.injected operation report] s s' :=
  ⟨_, _, rfl, ⟨rfl, rfl⟩, rfl, rfl⟩

theorem run_pause (ms : UInt64) (s : State σ ι) :
    ∃ s', (pause ms).run s = .ok () s' ∧ ByInput [] s s' :=
  ⟨_, rfl, ⟨rfl, rfl⟩, rfl, rfl⟩

theorem run_settle (s : State σ ι) : ∃ s', settle.run s = .ok () s' ∧ ByInput [] s s' :=
  ⟨_, rfl, ⟨rfl, rfl⟩, rfl, rfl⟩

theorem run_wrapUp (s : State σ ι) : ∃ s', wrapUp.run s = .ok () s' ∧ Moved [] s s' :=
  ⟨_, rfl, rfl, rfl⟩

/-- A search is recorded with its answer, and the run goes on as the answer says. -/
theorem run_locate_eq (position : Nat) (image : ImageRef) (wait : Wait) (s : State σ ι) :
    (locate desk position image wait).run s =
      resume (concluded position image (desk.locator.locate image wait s.locator).1)
        ({ s with locator := (desk.locator.locate image wait s.locator).2 }.record
          (.located image wait (desk.locator.locate image wait s.locator).1)) := by
  generalize hcall : desk.locator.locate image wait s.locator = reply
  obtain ⟨answer, locator⟩ := reply
  simp only [EStateM.run, locate, hcall]
  split <;> rfl

theorem run_locateAll_eq (image : ImageRef) (s : State σ ι) :
    (locateAll desk image).run s =
      resume (gathered (desk.locator.locateAll image s.locator).1)
        ({ s with locator := (desk.locator.locateAll image s.locator).2 }.record
          (.locatedAll image (desk.locator.locateAll image s.locator).1)) := by
  generalize hcall : desk.locator.locateAll image s.locator = reply
  obtain ⟨answer, locator⟩ := reply
  simp only [EStateM.run, locateAll, hcall]
  split <;> rfl

theorem run_locate (position : Nat) (image : ImageRef) (wait : Wait) (s : State σ ι) :
    ∃ answer s', (locate desk position image wait).run s =
        resume (concluded position image answer) s' ∧
      Moved [.located image wait answer] s s' :=
  ⟨_, _, run_locate_eq desk position image wait s, rfl, rfl⟩

theorem run_locateAll (image : ImageRef) (s : State σ ι) :
    ∃ answer s', (locateAll desk image).run s = resume (gathered answer) s' ∧
      Moved [.locatedAll image answer] s s' :=
  ⟨_, _, run_locateAll_eq desk image s, rfl, rfl⟩

theorem run_doubleClick (place : Point) (button : MouseButton) (s : State σ ι) :
    ∃ report s', (doubleClick desk place button).run s = .ok () s' ∧
      ByInput [.injected (.doubleClick place button s.session.timings.doubleClickGap) report]
        s s' :=
  ⟨_, _, rfl, ⟨rfl, rfl⟩, rfl, rfl⟩

theorem run_update (change : SettingUpdate) (s : State σ ι) :
    ∃ events s', (update desk change).run s = .ok () s' ∧
      Answered .tuned (s.session.apply change).2 events ∧
      Moved events { s with session := (s.session.apply change).1 } s' := by
  cases change with
  | commandDelay ms => exact ⟨_, _, rfl, .unasked, rfl, rfl⟩
  | maxCallDepth depth => exact ⟨_, _, rfl, .unasked, rfl, rfl⟩
  | tuning change => exact ⟨_, _, rfl, .asked _ _, rfl, rfl⟩

theorem run_respond (place : Point) (response : Response) (s : State σ ι) :
    ∃ events s', (respond desk place response).run s = .ok () s' ∧
      Answered .injected (response.operation? s.session place) events ∧ ByInput events s s' := by
  cases response with
  | click button => exact ⟨_, _, rfl, .asked _ _, ⟨rfl, rfl⟩, rfl, rfl⟩
  | doubleClick button => exact ⟨_, _, rfl, .asked _ _, ⟨rfl, rfl⟩, rfl, rfl⟩
  | nothing => exact ⟨_, _, rfl, .unasked, .refl s⟩

theorem run_tabTimes (n : Nat) (s : State σ ι) :
    ∃ (reports : List Report) (s' : State σ ι), reports.length = n ∧
      (tabTimes desk n).run s = .ok () s' ∧
      ByInput (reports.map (.injected (.text Action.tabKeys))) s s' := by
  induction n generalizing s with
  | zero => exact ⟨[], s, rfl, rfl, .refl s⟩
  | succ n ih =>
    obtain ⟨report, s₁, hinject, hinput₁⟩ := run_inject desk (.text Action.tabKeys) s
    obtain ⟨s₂, hsettle, hinput₂⟩ := run_settle s₁
    obtain ⟨reports, s₃, rfl, hrest, hinput₃⟩ := ih s₂
    refine ⟨report :: reports, s₃, rfl, ?_, (hinput₁.trans hinput₂).trans hinput₃⟩
    simp only [tabTimes, EStateM.run_bind, hinject, hsettle, hrest]

theorem run_endpoint (position : Nat) (side : Option Endpoint) (s : State σ ι) :
    ∃ events result s', (endpoint desk position side).run s = resume result s' ∧
      SideSought position side events result ∧ Moved events s s' := by
  match side with
  | none => exact ⟨_, _, s, rfl, .unreadable, .refl s⟩
  | some (.point place) => exact ⟨_, _, s, rfl, .point place, .refl s⟩
  | some (.image image) =>
    obtain ⟨answer, s', hrun, hmoved⟩ := run_locate desk position image .forever s
    refine ⟨_, _, s', ?_, .image image answer, hmoved⟩
    simp only [endpoint, EStateM.run_bind, hrun]
    cases concluded position image answer <;> rfl

theorem run_press (start? finish? : Option Point) (s : State σ ι) :
    ∃ events s', (press desk start? finish?).run s = .ok () s' ∧
      Pressed start? finish? events ∧ ByInput events s s' := by
  match start?, finish? with
  | none, finish? => exact ⟨_, s, rfl, .noStart finish?, .refl s⟩
  | some start, none => exact ⟨_, s, rfl, .noFinish start, .refl s⟩
  | some start, some finish =>
    obtain ⟨report, s₁, hhold, hinput₁⟩ := run_inject desk (.hold start) s
    cases hreport : report.succeeded with
    | false =>
      refine ⟨_, s₁, ?_, .refused hreport, hinput₁⟩
      simp only [press, EStateM.run_bind, hhold, hreport]
      rfl
    | true =>
      obtain ⟨s₂, hpause, hinput₂⟩ := run_pause s₁.session.timings.dragHold s₁
      obtain ⟨report', s₃, hrelease, hinput₃⟩ := run_inject desk (.release finish) s₂
      refine ⟨_, s₃, ?_, .released hreport, (hinput₁.trans hinput₂).trans hinput₃⟩
      simp only [press, EStateM.run_bind, hhold, hreport, if_true, EStateM.run_get, hpause,
        hrelease]
      rfl

theorem run_drag (depth position : Nat) (start finish : Option Endpoint) (s : State σ ι) :
    ∃ effect s', (drag desk position start finish).run s = effect.ending s' ∧
      Performs desk s.session depth position (.drag start finish) effect ∧
      Moved effect.events s s' := by
  obtain ⟨events₁, result₁, s₁, hrun₁, hstart, hmoved₁⟩ := run_endpoint desk position start s
  cases result₁ with
  | error stop =>
    refine ⟨_, s₁, ?_, .dragUnstarted hstart, hmoved₁⟩
    simp only [drag, EStateM.run_bind, hrun₁, resume]
    rfl
  | ok start? =>
    obtain ⟨events₂, result₂, s₂, hrun₂, hfinish, hmoved₂⟩ := run_endpoint desk position finish s₁
    cases result₂ with
    | error stop =>
      refine ⟨_, s₂, ?_, .dragUnfinished hstart hfinish, hmoved₁.trans hmoved₂⟩
      simp only [drag, EStateM.run_bind, hrun₁, hrun₂, resume]
      rfl
    | ok finish? =>
      obtain ⟨events₃, s₃, hpress, hpressed, hinput⟩ := run_press desk start? finish? s₂
      refine ⟨_, s₃, ?_, .drag hstart hfinish hpressed,
        (hmoved₁.trans hmoved₂).trans hinput.toMoved⟩
      simp only [drag, EStateM.run_bind, hrun₁, hrun₂, resume, hpress]
      rfl

/-- Of several places the last one is clicked. -/
theorem run_doubleClickLast_concat (others : List Point) (last : Point) (s : State σ ι) :
    ∃ report s', (doubleClickLast desk (others ++ [last])).run s = .ok () s' ∧
      ByInput [.injected (.doubleClick last .left s.session.timings.doubleClickGap) report]
        s s' := by
  obtain ⟨s₁, hpause, hinput₁⟩ := run_pause s.session.timings.lastInstanceDelay s
  obtain ⟨report, s₂, hclick, hinput₂⟩ := run_doubleClick desk last .left s₁
  rw [hinput₁.session] at hinput₂
  refine ⟨report, s₂, ?_, hinput₁.trans hinput₂⟩
  simp only [doubleClickLast, List.getLast?_append, List.getLast?_singleton, Option.some_or,
    EStateM.run_bind, EStateM.run_get, hpause, hclick]

theorem run_doubleClickLast (depth position : Nat) (image : ImageRef) (places : List Point)
    (s : State σ ι) :
    ∃ events s', (doubleClickLast desk places).run s = .ok () s' ∧
      Performs desk s.session depth position (.lastInstance image)
        { events := .locatedAll image (.ok places) :: events } ∧
      Moved events s s' := by
  rcases List.eq_nil_or_concat places with rfl | ⟨others, last, rfl⟩
  · exact ⟨_, s, rfl, .noInstance image, .refl s⟩
  · rw [List.concat_eq_append]
    obtain ⟨report, s', hrun, hinput⟩ := run_doubleClickLast_concat desk others last s
    exact ⟨_, s', hrun, .lastInstance image others last report, hinput.toMoved⟩

/-! ### Performing an action -/

theorem perform_of_operation? (position : Nat) {a : Action} {operation : Operation}
    (hoperation : a.operation? desk = some operation) :
    perform desk position a = (do let _ ← inject desk operation) := by
  cases a with
  | typeFile path =>
    obtain ⟨text, htext, rfl⟩ := Option.map_eq_some_iff.1 hoperation
    simp only [perform, htext]
  | switchWindows times =>
    obtain ⟨hsize, hkeys⟩ := Option.ite_none_right_eq_some.1 hoperation
    obtain rfl := Option.some.inj hkeys
    rw [perform, switchWindows, if_pos hsize]
  | capture | type | click =>
    obtain rfl := Option.some.inj hoperation
    rfl
  | skip | sleep | update | call | tabs | drag | respond | await | lastInstance =>
    cases hoperation

theorem sessionAfter_of_operation? {a : Action} {operation : Operation}
    (hoperation : a.operation? desk = some operation) (session : Session) :
    a.sessionAfter session = session := by
  cases a with
  | update => cases hoperation
  | _ => rfl

/-- An action that is a single operation. -/
theorem run_operation (depth position : Nat) {a : Action} {operation : Operation}
    (hoperation : a.operation? desk = some operation) (s : State σ ι) :
    ∃ effect s', (perform desk position a).run s = effect.ending s' ∧
      Performs desk s.session depth position a effect ∧
      Moved effect.events { s with session := a.sessionAfter s.session } s' := by
  obtain ⟨report, s', hrun, hinput⟩ := run_inject desk operation s
  refine ⟨_, s', ?_, .inject hoperation report, ?_⟩
  · rw [perform_of_operation? desk position hoperation]
    simp only [EStateM.run_bind, hrun]
    rfl
  · rw [sessionAfter_of_operation? desk hoperation]
    exact hinput.toMoved

/-- An action that is no call has one of its effects. -/
theorem run_perform (depth position : Nat) {a : Action} (hcall : ∀ name, a ≠ .call name)
    (s : State σ ι) :
    ∃ effect s', (perform desk position a).run s = effect.ending s' ∧
      Performs desk s.session depth position a effect ∧
      Moved effect.events { s with session := a.sessionAfter s.session } s' := by
  cases a with
  | skip => exact ⟨_, s, rfl, .skip, .refl s⟩
  | capture | type | click => exact run_operation desk depth position rfl s
  | switchWindows times =>
    by_cases hsize : switchSize times ≤ textCapacity
    · have hoperation : (Action.switchWindows times).operation? desk =
          some (.text (switchKeys times)) := if_pos hsize
      exact run_operation desk depth position hoperation s
    · refine ⟨_, s, ?_, .tooLong (Nat.not_le.1 hsize), .refl s⟩
      rw [perform, switchWindows, if_neg hsize]
      rfl
  | typeFile path =>
    cases hpath : desk.fileText? path with
    | some text =>
      have hoperation : (Action.typeFile path).operation? desk =
          some (.text (String.ofList (Keys.toInjectionForm text.toList))) := by
        simp only [Action.operation?, hpath, Option.map_some]
      exact run_operation desk depth position hoperation s
    | none =>
      refine ⟨_, s, ?_, .unreadable hpath, .refl s⟩
      simp only [perform, hpath]
      rfl
  | sleep ms =>
    obtain ⟨s', hrun, hinput⟩ := run_pause ms s
    refine ⟨_, s', ?_, .sleep ms, hinput.toMoved⟩
    exact hrun
  | update change =>
    obtain ⟨events, s', hrun, htuned, hmoved⟩ := run_update desk change s
    refine ⟨_, s', ?_, .setting htuned, hmoved⟩
    exact hrun
  | call name => exact absurd rfl (hcall name)
  | tabs times =>
    obtain ⟨reports, s', rfl, hrun, hinput⟩ := run_tabTimes desk times s
    refine ⟨_, s', ?_, .tabs reports, hinput.toMoved⟩
    exact hrun
  | drag start finish => exact run_drag desk depth position start finish s
  | respond image response =>
    obtain ⟨answer, s₁, hlocate, hmoved₁⟩ := run_locate desk position image .forever s
    cases hanswer : concluded position image answer with
    | error stop =>
      refine ⟨_, s₁, ?_, .respondStopped hanswer, hmoved₁⟩
      simp only [perform, EStateM.run_bind, hlocate, hanswer, resume]
      rfl
    | ok place =>
      obtain ⟨events, s₂, hrespond, hinjected, hinput⟩ := run_respond desk place response s₁
      rw [hmoved₁.session] at hinjected
      refine ⟨_, s₂, ?_, .respond hanswer hinjected, hmoved₁.trans hinput.toMoved⟩
      simp only [perform, EStateM.run_bind, hlocate, hanswer, resume, hrespond]
      rfl
  | await timed =>
    obtain ⟨answer, s₁, hlocate, hmoved₁⟩ :=
      run_locate desk position timed.image (.limit timed.limit) s
    cases hanswer : concluded position timed.image answer with
    | error stop =>
      refine ⟨_, s₁, ?_, .awaitStopped hanswer, hmoved₁⟩
      simp only [perform, EStateM.run_bind, hlocate, hanswer, resume]
      rfl
    | ok place =>
      refine ⟨_, s₁, ?_, .await hanswer, hmoved₁⟩
      simp only [perform, EStateM.run_bind, hlocate, hanswer, resume]
      rfl
  | lastInstance image =>
    obtain ⟨answer, s₁, hlocate, hmoved₁⟩ := run_locateAll desk image s
    cases answer with
    | error halt =>
      refine ⟨_, s₁, ?_, .lastInstanceHalted image halt, hmoved₁⟩
      simp only [perform, EStateM.run_bind, hlocate, resume, gathered]
      rfl
    | ok places =>
      obtain ⟨events, s₂, hclick, hperforms, hmoved₂⟩ :=
        run_doubleClickLast desk depth position image places s₁
      rw [hmoved₁.session] at hperforms
      refine ⟨_, s₂, ?_, hperforms, hmoved₁.trans hmoved₂⟩
      simp only [perform, EStateM.run_bind, hlocate, resume, gathered, hclick]
      rfl

end Macropad.Engine
