/-!
Timetables. A source polls at regular times from zero on until it is cancelled; in
between, things happen around it at times of their own. `Timetable.run` takes the state
of a source with its surroundings through all of it in order of time.
-/

set_option autoImplicit false

namespace Macropad.Trigger

inductive Moment (α : Type)
  | poll
  | step (action : α)
deriving Repr, DecidableEq

structure Timetable (α : Type) where
  /-- Milliseconds between polls. -/
  interval : Nat
  /-- The time of the cancellation. -/
  cancelled : Nat
  steps : List (Nat × α)

namespace Timetable

variable {α : Type}

def pollTimes (timetable : Timetable α) : List Nat :=
  (List.range ((timetable.cancelled + timetable.interval - 1) / timetable.interval)).map
    (· * timetable.interval)

def moments (timetable : Timetable α) : List (Nat × Moment α) :=
  List.merge (timetable.pollTimes.map fun time ↦ (time, .poll))
    (timetable.steps.map fun (time, action) ↦ (time, .step action))
    fun a b ↦ a.1 ≤ b.1

/-- Goes through moments; what is seen at each keeps its time. -/
def through {σ ε : Type} (poll : σ → List ε × σ) (act : α → σ → List ε × σ) :
    List (Nat × Moment α) → σ → List (Nat × ε) × σ
  | [], s => ([], s)
  | (time, moment) :: rest, s =>
    let (seen, s) :=
      match moment with
      | .poll => poll s
      | .step action => act action s
    let (later, s) := through poll act rest s
    (seen.map (fun event ↦ (time, event)) ++ later, s)

def run {σ ε : Type} (timetable : Timetable α) (poll : σ → List ε × σ)
    (act : α → σ → List ε × σ) (s : σ) : List (Nat × ε) × σ :=
  through poll act timetable.moments s

end Timetable

end Macropad.Trigger
