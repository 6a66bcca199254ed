import Macropad.Engine.Action
import Macropad.Engine.State
import Macropad.Keys.Injection

/-!
Running programs. Instructions run in order. One with a loop header runs its block as
often as the header says before the run moves past the block; loops inside a block
are cut off at its end. A wait that expires and a call that nests too deep stop the
whole run, nested frames included, and so does key text that would be too long for any
text; failed input does not. Pauses are only added up.
The run ends because the cap on calls is a 64-bit number and a block is shorter than
the program around it.
-/

set_option autoImplicit false

namespace Macropad.Engine

open Macropad.Input Macropad.Language Macropad.Screen Macropad.Setting

variable {σ ι : Type}

/-- A part of a run: it goes on with a value or stops. -/
abbrev Running (σ ι α : Type) : Type := EStateM Stop (State σ ι) α

variable (desk : Desk σ ι)

def inject (operation : Operation) : Running σ ι Report := fun s ↦
  let (report, injector) := desk.injector.perform operation s.injector
  .ok report ({ s with injector := injector }.record (.injected operation report))

def pause (ms : UInt64) : Running σ ι Unit := modify fun s ↦ { s with slept := s.slept + ms.toNat }

/-- The pause that follows every instruction and every Tab press of a row. -/
def settle : Running σ ι Unit := do
  let s ← get
  pause s.session.commandDelay

def tabTimes : Nat → Running σ ι Unit
  | 0 => pure ()
  | n + 1 => do
    let _ ← inject desk (.text Action.tabKeys)
    settle
    tabTimes n

/-- The place of an image; a wait that expires stops the run. -/
def locate (position : Nat) (image : ImageRef) (wait : Wait) : Running σ ι Point := fun s ↦
  let (answer, locator) := desk.locator.locate image wait s.locator
  let s := { s with locator := locator }.record (.located image wait answer)
  match answer with
  | .ok (.found place) => .ok place s
  | .ok .timedOut => .error (.timedOut position image.file) s
  | .error halt => .error (.halted halt) s

def locateAll (image : ImageRef) : Running σ ι (List Point) := fun s ↦
  let (answer, locator) := desk.locator.locateAll image s.locator
  let s := { s with locator := locator }.record (.locatedAll image answer)
  match answer with
  | .ok places => .ok places s
  | .error halt => .error (.halted halt) s

def update (change : SettingUpdate) : Running σ ι Unit := fun s ↦
  let (session, tuning?) := s.session.apply change
  let s := { s with session := session }
  match tuning? with
  | none => .ok () s
  | some tuning =>
    let (taken, locator) := desk.locator.tune tuning s.locator
    .ok () ({ s with locator := locator }.record (.tuned tuning taken))

def doubleClick (place : Point) (button : MouseButton) : Running σ ι Unit := do
  let s ← get
  let _ ← inject desk (.doubleClick place button s.session.timings.doubleClickGap)

def endpoint (position : Nat) : Option Endpoint → Running σ ι (Option Point)
  | none => pure none
  | some (.point place) => pure (some place)
  | some (.image image) => do return some (← locate desk position image .forever)

/-- The button is released only if it was pressed. -/
def press : Option Point → Option Point → Running σ ι Unit
  | some start, some finish => do
    let pressed ← inject desk (.hold start)
    if pressed.succeeded then
      let s ← get
      pause s.session.timings.dragHold
      let _ ← inject desk (.release finish)
  | _, _ => pure ()

/-- Both sides are looked for before anything is pressed. -/
def drag (position : Nat) (start finish : Option Endpoint) : Running σ ι Unit := do
  let start? ← endpoint desk position start
  let finish? ← endpoint desk position finish
  press desk start? finish?

def respond (place : Point) : Response → Running σ ι Unit
  | .click button => do let _ ← inject desk (.click place button)
  | .doubleClick button => do
    let s ← get
    pause s.session.timings.preDoubleClick
    doubleClick desk place button
  | .nothing => pure ()

/-- Without a place nothing is clicked. -/
def doubleClickLast (places : List Point) : Running σ ι Unit :=
  match places.getLast? with
  | some place => do
    let s ← get
    pause s.session.timings.lastInstanceDelay
    doubleClick desk place .left
  | none => pure ()

/-- One Tab press for each time, in a group under Alt. -/
def switchKeys (times : Nat) : String :=
  String.ofList ('%' :: '(' :: (List.replicate times Action.tabToken).flatten ++ [')'])

/-- The bytes of this key text, which are known before it is made. -/
def switchSize (times : Nat) : Nat := 3 + 5 * times

theorem utf8ByteSize_switchKeys (times : Nat) :
    (switchKeys times).utf8ByteSize = switchSize times := by
  let row (n : Nat) : String := String.ofList (List.replicate n Action.tabToken).flatten
  have hrow : (row times).utf8ByteSize = 5 * times := by
    induction times with
    | zero => rfl
    | succ n ih =>
      have htoken : (String.ofList Action.tabToken).utf8ByteSize = 5 := by decide
      simp only [row] at ih ⊢
      rw [List.replicate_succ, List.flatten_cons, String.ofList_append,
        String.utf8ByteSize_append, ih, htoken, Nat.mul_succ, Nat.add_comm]
  have hkeys : switchKeys times = "%(" ++ row times ++ ")" := by
    simp [switchKeys]
    rfl
  have hopening : "%(".utf8ByteSize = 2 := by decide
  have hclosing : ")".utf8ByteSize = 1 := by decide
  rw [hkeys, String.utf8ByteSize_append, String.utf8ByteSize_append, hrow, hopening, hclosing,
    switchSize]
  omega

/-- The bytes that a text can have, one less than half of what a word of 64 bits can count. -/
def textCapacity : Nat := UInt64.size / 2 - 1

/-- Stops the run without an outcome in place of making a text that is too long. -/
def tooLong : Running σ ι Unit := throw (.halted (.overflow .capacity))

def switchWindows (times : Nat) : Running σ ι Unit :=
  if switchSize times ≤ textCapacity then do let _ ← inject desk (.text (switchKeys times))
  else tooLong

/-- Everything but a call. -/
def perform (position : Nat) : Action → Running σ ι Unit
  | .skip | .call _ => pure ()
  | .sleep ms => pause ms
  | .capture => do let _ ← inject desk .capture
  | .type keys => do let _ ← inject desk (.text keys)
  | .typeFile path =>
    match desk.fileText? path with
    | some text => do
      let _ ← inject desk (.text (String.ofList (Keys.toInjectionForm text.toList)))
    | none => pure ()
  | .click place button => do let _ ← inject desk (.click place button)
  | .update change => update desk change
  | .switchWindows times => switchWindows desk times
  | .tabs times => tabTimes desk times
  | .drag start finish => drag desk position start finish
  | .respond image response => do
    let place ← locate desk position image .forever
    respond desk place response
  | .await timed => do let _ ← locate desk position timed.image (.limit timed.limit)
  | .lastInstance image => do
    let places ← locateAll desk image
    doubleClickLast desk places

/-- A stored command counts only with a text that is not blank. -/
def Desk.runnable? (desk : Desk σ ι) (name : String) : Option String :=
  (desk.command? name).filter fun text ↦ !Text.allBlank text.toList

/-- Does the same a number of times. -/
def replay (body : Running σ ι Unit) : Nat → Running σ ι Unit
  | 0 => pure ()
  | n + 1 => do
    body
    replay body n

def record (event : Event) : Running σ ι Unit := modify (·.record event)

/-- What follows an instruction that did not stop the run. -/
def wrapUp : Running σ ι Unit := do
  modify fun s ↦ { s with executed := s.executed + 1 }
  settle

mutual

/-- One instruction, once. The cap on calls is judged before the name is. -/
def step (depth position : Nat) (i : Instruction) : Running σ ι Unit := do
  let max := (← get).session.maxCallDepth
  record (.began depth position i max)
  match Action.ofInstruction i with
  | .call name =>
    if _h : max.toNat < depth + 1 then throw (.depthExceeded position max name)
    else
      match desk.runnable? name with
      | none => pure ()
      | some text =>
        let program := Program.parse text
        record (.entered (depth + 1) name program)
        runFrom (depth + 1) 1 program
  | action => perform desk position action
  wrapUp
termination_by (UInt64.size - depth, 0)
decreasing_by
  have := max.toNat_lt_size
  exact Prod.Lex.left _ _ (by omega)

/-- A program, or the rest of one, whose first instruction stands at `position`. -/
def runFrom (depth position : Nat) (program : Program) : Running σ ι Unit :=
  match program with
  | [] => pure ()
  | i :: rest => do
    replay
      (do
        step depth position i
        runFrom depth (position + 1) (rest.take i.followers))
      i.passes
    runFrom depth (position + 1 + i.followers) (rest.drop i.followers)
termination_by (UInt64.size - depth, program.length + 1)
decreasing_by all_goals exact Prod.Lex.right _ (by simp; try omega)

end

/-- How a run ended, and the state that it left. -/
structure Finished (σ ι : Type) where
  ending : Except Halt Outcome
  state : State σ ι

def execute (program : Program) (session : Session) (locator : σ) (injector : ι) :
    Finished σ ι :=
  let start : State σ ι := { session := session, locator := locator, injector := injector }
  match runFrom desk 0 1 program start with
  | .ok _ s => ⟨.ok (.completed s.executed), s⟩
  | .error (.timedOut position image) s => ⟨.ok (.timedOut position image), s⟩
  | .error (.depthExceeded position max name) s => ⟨.ok (.depthExceeded position max name), s⟩
  | .error (.halted halt) s => ⟨.error halt, s⟩

end Macropad.Engine
