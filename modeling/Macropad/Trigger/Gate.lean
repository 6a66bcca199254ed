/-!
The execution gate. It admits one execution at a time: an attempt that finds it free
gives a guard, and dropping the guard frees the gate. All handles on a gate are handles
on the same gate, so a step does not say by which of them it is made.
-/

set_option autoImplicit false

namespace Macropad.Trigger

structure Gate where
  busy : Bool := false
  /-- For every attempt so far, whether its guard is still held. -/
  guards : List Bool := []
deriving Repr, DecidableEq

namespace Gate

inductive Step
  | acquire
  /-- Drop the guard of an attempt, counted from zero. -/
  | drop (attempt : Nat)
deriving Repr, DecidableEq

/-- Whether the attempt gives a guard. -/
def acquire (gate : Gate) : Bool × Gate :=
  (!gate.busy, { busy := true, guards := gate.guards ++ [!gate.busy] })

/-- Whether there was a guard to drop. -/
def drop (attempt : Nat) (gate : Gate) : Bool × Gate :=
  if gate.guards[attempt]? = some true then
    (true, { busy := false, guards := gate.guards.set attempt false })
  else (false, gate)

def step (gate : Gate) : Step → Bool × Gate
  | .acquire => gate.acquire
  | .drop attempt => gate.drop attempt

def steps (gate : Gate) : List Step → Gate
  | [] => gate
  | s :: rest => (gate.step s).2.steps rest

theorem fst_acquire (gate : Gate) : gate.acquire.1 = true ↔ gate.busy = false := by
  simp [acquire]

end Gate

end Macropad.Trigger
