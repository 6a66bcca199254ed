import Macropad.Screen.Frame
import Macropad.Screen.Locator
import Macropad.Setting.Session

/-!
The polling locator. It looks at the screen again and again until an answer
qualifies: a match counts from the threshold on, and a failed attempt is one without
a match. A limited wait makes at least one attempt and gives up after the first
failed one at which the limit has passed; an unlimited wait ends only with a match.
-/

set_option autoImplicit false

namespace Macropad.Screen

open Macropad.Setting

def Wait.isOver (wait : Wait) (elapsed : Nat) : Bool :=
  match wait with
  | .forever => false
  | .limit ms => ms.toNat ≤ elapsed

def Match.qualifies (threshold : Number.Double) (m : Match) : Bool := threshold.le m.score

namespace Glimpse

/-- The best match is the first; a lesser one behind it does not count. -/
def best? (threshold : Number.Double) : Glimpse → Option Match
  | .failed => none
  | .seen matched => matched.head?.filter (·.qualifies threshold)

/-- All matches that qualify, if there is one. -/
def qualifying? (threshold : Number.Double) : Glimpse → Option (List Match)
  | .failed => none
  | .seen matched =>
    match matched.filter (·.qualifies threshold) with
    | [] => none
    | found => some found

end Glimpse

/-- How looking at a number of frames ends. -/
inductive Polled (α : Type)
  | accepted (answer : α)
  | gaveUp
  /-- All frames were refused and the wait goes on. -/
  | waiting
deriving Repr, DecidableEq

/-- Looks at frames until one is accepted or the wait is over; also counts the
attempts. -/
def poll {α : Type} (accept : Glimpse → Option α) (wait : Wait) :
    List Frame → Polled α × Nat
  | [] => (.waiting, 0)
  | frame :: rest =>
    match accept frame.glimpse with
    | some answer => (.accepted answer, 1)
    | none =>
      if wait.isOver frame.elapsed then (.gaveUp, 1)
      else ((poll accept wait rest).1, (poll accept wait rest).2 + 1)

structure Poller where
  directory : String
  interval : UInt64
  threshold : Number.Double
  display : Display
deriving Repr, DecidableEq

/-- A file in a directory; a file from the root stays as it is. -/
def joinPath (directory file : String) : String :=
  if file.toList.head? = some '/' ∨ directory = "" then file
  else if directory.toList.getLast? = some '/' then directory ++ file
  else directory ++ "/" ++ file

namespace Poller

def pathFor (poller : Poller) (image : ImageRef) : String :=
  joinPath poller.directory image.file

def ofEngine (engine : EngineConfig) (display : Display) : Poller :=
  ⟨engine.imageDirectory, engine.pollInterval, engine.matchThreshold, display⟩

/-- The result of a search, with the number of attempts that it took. -/
structure Search (α : Type) where
  result : Except Halt α
  attempts : Nat
  poller : Poller

def search {α β : Type} (poller : Poller) (path : String) (accept : Glimpse → Option α)
    (wait : Wait) (conclude : Polled α → Except Halt β) : Search β :=
  let (polled, attempts) := poll accept wait (poller.display.script path).frames
  { result := conclude polled
    attempts := attempts
    poller := { poller with display := poller.display.advance path attempts } }

def orOverflow {α : Type} : Except Overflow α → Except Halt α
  | .ok a => .ok a
  | .error cause => .error (.overflow cause)

/-- The last frame of a script lasts past every limit. -/
def locate (poller : Poller) (image : ImageRef) (wait : Wait) : Search Located :=
  let path := poller.pathFor image
  poller.search path (Glimpse.best? poller.threshold) wait fun
    | .accepted m => (orOverflow (image.clickPoint m.box)).map .found
    | .gaveUp => .ok .timedOut
    | .waiting =>
      match wait with
      | .forever => .error (.waitsForever path)
      | .limit _ => .ok .timedOut

def locateAll (poller : Poller) (image : ImageRef) : Search (List Point) :=
  let path := poller.pathFor image
  poller.search path (Glimpse.qualifying? poller.threshold) .forever fun
    | .accepted found => orOverflow (found.mapM fun m ↦ image.clickPoint m.box)
    | .gaveUp | .waiting => .error (.waitsForever path)

def tune (poller : Poller) : Tuning → Poller
  | .pollInterval ms => { poller with interval := ms }
  | .threshold value => { poller with threshold := value }
  | .imageDirectory directory => { poller with directory := directory }

def locator : Locator Poller where
  locate image wait poller :=
    let found := poller.locate image wait
    (found.result, found.poller)
  locateAll image poller :=
    let found := poller.locateAll image
    (found.result, found.poller)
  tune change poller := (true, poller.tune change)

end Poller

end Macropad.Screen
