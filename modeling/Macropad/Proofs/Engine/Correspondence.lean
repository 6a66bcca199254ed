import Macropad.Proofs.Engine.Running

/-!
# Corresponding runs

A coupling relates parts of two runs, and pauses, calls of the collaborators and sequences respect
it. Since actions are built from these alone, `Coupling.perform` relates every action on the one
desk to the same action on the other, whatever the relation is. Only a drag makes use of how input
went, so a coupling takes the press of a drag as a whole and does not depend on reports elsewhere.
A relation that respects single operations with their reports is a correspondence, which is the
stronger notion (`Correspondence.coupling`).

The two positions are those at which the actions are performed. A search that ends the run reports
its position, which is the only use that actions make of it.
-/

set_option autoImplicit false

namespace Macropad.Engine

open Macropad.Input Macropad.Language Macropad.Screen Macropad.Setting

variable {σ ι σ' ι' : Type}

/-- Whether the operation presses or releases the button of a drag. -/
def ofDrag : Operation → Bool
  | .hold _ | .release _ => true
  | _ => false

/-- A relation between parts of two runs that everything respects of which actions are built. -/
structure Coupling (desk : Desk σ ι) (desk' : Desk σ' ι') (position position' : Nat)
    (related : {α : Type} → Running σ ι α → Running σ' ι' α → Prop) : Prop where
  files : desk.fileText? = desk'.fileText?
  pure {α : Type} (a : α) : related (pure a) (pure a)
  bind {α β : Type} {part : Running σ ι α} {part' : Running σ' ι' α} {next : α → Running σ ι β}
    {next' : α → Running σ' ι' β} (hpart : related part part')
    (hnext : ∀ a, related (next a) (next' a)) : related (part >>= next) (part' >>= next')
  session {α : Type} {next : Session → Running σ ι α} {next' : Session → Running σ' ι' α}
    (hnext : ∀ session, related (next session) (next' session)) :
    related (do let s ← get; next s.session) (do let s ← get; next' s.session)
  pause (ms : UInt64) : related (pause ms) (pause ms)
  inject {operation : Operation} (hdrag : ofDrag operation = false) :
    related (do let _ ← inject desk operation) (do let _ ← inject desk' operation)
  press (start finish : Point) :
    related (press desk (some start) (some finish)) (press desk' (some start) (some finish))
  tooLong : related tooLong tooLong
  locate (image : ImageRef) (wait : Wait) :
    related (locate desk position image wait) (locate desk' position' image wait)
  locateAll (image : ImageRef) : related (locateAll desk image) (locateAll desk' image)
  update (change : SettingUpdate) : related (update desk change) (update desk' change)

namespace Coupling

variable {desk : Desk σ ι} {desk' : Desk σ' ι'} {position position' : Nat}
  {related : {α : Type} → Running σ ι α → Running σ' ι' α → Prop}
  (c : Coupling desk desk' position position' related)

include c

theorem settle : related settle settle :=
  c.session fun session ↦ c.pause session.commandDelay

/-- An operation with what follows it, whatever its report is. -/
theorem inject_then {α : Type} {operation : Operation} {next : Running σ ι α}
    {next' : Running σ' ι' α} (hdrag : ofDrag operation = false) (hnext : related next next') :
    related (do let _ ← Engine.inject desk operation; next)
      (do let _ ← Engine.inject desk' operation; next') := by
  have hparts := c.bind (c.inject hdrag) fun _ ↦ hnext
  simpa only [bind_assoc, pure_bind] using hparts

theorem tabTimes (n : Nat) : related (tabTimes desk n) (tabTimes desk' n) := by
  induction n with
  | zero => exact c.pure ()
  | succ n ih => exact c.inject_then rfl (c.bind c.settle fun _ ↦ ih)

theorem switchWindows (times : Nat) :
    related (switchWindows desk times) (switchWindows desk' times) := by
  unfold Engine.switchWindows
  split
  · exact c.inject rfl
  · exact c.tooLong

theorem doubleClick (place : Point) (button : MouseButton) :
    related (doubleClick desk place button) (doubleClick desk' place button) := by
  have hclick (session : Session) : related
      (do let _ ← Engine.inject desk (.doubleClick place button session.timings.doubleClickGap))
      (do let _ ← Engine.inject desk' (.doubleClick place button session.timings.doubleClickGap)) :=
    c.inject rfl
  exact c.session hclick

theorem endpoint (side : Option Endpoint) :
    related (endpoint desk position side) (endpoint desk' position' side) := by
  match side with
  | none => exact c.pure none
  | some (.point place) => exact c.pure (some place)
  | some (.image image) => exact c.bind (c.locate image .forever) fun place ↦ c.pure (some place)

theorem drag (start finish : Option Endpoint) :
    related (drag desk position start finish) (drag desk' position' start finish) := by
  refine c.bind (c.endpoint start) fun start? ↦ c.bind (c.endpoint finish) fun finish? ↦ ?_
  match start?, finish? with
  | none, _ => exact c.pure ()
  | some _, none => exact c.pure ()
  | some start, some finish => exact c.press start finish

theorem respond (place : Point) (response : Response) :
    related (respond desk place response) (respond desk' place response) := by
  cases response with
  | click button => exact c.inject rfl
  | doubleClick button =>
    exact c.session fun session ↦ c.bind (c.pause session.timings.preDoubleClick) fun _ ↦
      c.doubleClick place button
  | nothing => exact c.pure ()

theorem doubleClickLast (places : List Point) :
    related (doubleClickLast desk places) (doubleClickLast desk' places) := by
  unfold Engine.doubleClickLast
  cases places.getLast? with
  | none => exact c.pure ()
  | some place =>
    exact c.session fun session ↦ c.bind (c.pause session.timings.lastInstanceDelay) fun _ ↦
      c.doubleClick place .left

/-- Every action is coupled with itself. -/
theorem perform (a : Action) : related (perform desk position a) (perform desk' position' a) := by
  cases a with
  | skip | call => exact c.pure ()
  | capture | type | click => exact c.inject rfl
  | switchWindows times => exact c.switchWindows times
  | typeFile path =>
    simp only [Engine.perform, ← c.files]
    cases desk.fileText? path with
    | none => exact c.pure ()
    | some text => exact c.inject rfl
  | sleep ms => exact c.pause ms
  | update change => exact c.update change
  | tabs times => exact c.tabTimes times
  | drag start finish => exact c.drag start finish
  | respond image response =>
    exact c.bind (c.locate image .forever) fun place ↦ c.respond place response
  | await timed =>
    exact c.bind (c.locate timed.image (.limit timed.limit)) fun _ ↦ c.pure ()
  | lastInstance image => exact c.bind (c.locateAll image) fun places ↦ c.doubleClickLast places

end Coupling

/-- A relation between parts of two runs that respects every operation with its report. -/
structure Correspondence (desk : Desk σ ι) (desk' : Desk σ' ι') (position position' : Nat)
    (related : {α : Type} → Running σ ι α → Running σ' ι' α → Prop) : Prop where
  files : desk.fileText? = desk'.fileText?
  pure {α : Type} (a : α) : related (pure a) (pure a)
  bind {α β : Type} {part : Running σ ι α} {part' : Running σ' ι' α} {next : α → Running σ ι β}
    {next' : α → Running σ' ι' β} (hpart : related part part')
    (hnext : ∀ a, related (next a) (next' a)) : related (part >>= next) (part' >>= next')
  session {α : Type} {next : Session → Running σ ι α} {next' : Session → Running σ' ι' α}
    (hnext : ∀ session, related (next session) (next' session)) :
    related (do let s ← get; next s.session) (do let s ← get; next' s.session)
  pause (ms : UInt64) : related (pause ms) (pause ms)
  inject (operation : Operation) : related (inject desk operation) (inject desk' operation)
  tooLong : related tooLong tooLong
  locate (image : ImageRef) (wait : Wait) :
    related (locate desk position image wait) (locate desk' position' image wait)
  locateAll (image : ImageRef) : related (locateAll desk image) (locateAll desk' image)
  update (change : SettingUpdate) : related (update desk change) (update desk' change)

namespace Correspondence

variable {desk : Desk σ ι} {desk' : Desk σ' ι'} {position position' : Nat}
  {related : {α : Type} → Running σ ι α → Running σ' ι' α → Prop}
  (c : Correspondence desk desk' position position' related)

include c

theorem press (start finish : Point) :
    related (press desk (some start) (some finish)) (press desk' (some start) (some finish)) := by
  refine c.bind (c.inject (.hold start)) fun report ↦ ?_
  cases report.succeeded with
  | false => exact c.pure ()
  | true =>
    exact c.session fun session ↦ c.bind (c.pause session.timings.dragHold) fun _ ↦
      c.bind (c.inject (.release finish)) fun _ ↦ c.pure ()

theorem coupling : Coupling desk desk' position position' related where
  files := c.files
  pure := c.pure
  bind := c.bind
  session := c.session
  pause := c.pause
  inject {operation} _ := c.bind (c.inject operation) fun _ ↦ c.pure ()
  press := c.press
  tooLong := c.tooLong
  locate := c.locate
  locateAll := c.locateAll
  update := c.update

/-- Every action corresponds to itself. -/
theorem perform (a : Action) : related (perform desk position a) (perform desk' position' a) :=
  c.coupling.perform a

end Correspondence

end Macropad.Engine
