import Macropad.Setting.Update

/-!
The engine block of a configuration and the session that it starts. A session holds
what a program may change for itself, the pause after every instruction and the cap
on nested calls, and the fixed pauses of compound actions. It outlives a run.
-/

set_option autoImplicit false

namespace Macropad.Setting

structure EngineConfig where
  commandDelay : UInt64 := 500
  pollInterval : UInt64 := 1000
  matchThreshold : Number.Double := .ofDecimal false 9 (-1)
  imageDirectory : String := "find"
  maxCallDepth : UInt64 := 16
  preDoubleClick : UInt64 := 250
  doubleClickGap : UInt64 := 75
  lastInstanceDelay : UInt64 := 100
  dragHold : UInt64 := 500
deriving Repr, DecidableEq

/-- Pauses inside compound actions, in milliseconds. -/
structure Timings where
  preDoubleClick : UInt64
  doubleClickGap : UInt64
  lastInstanceDelay : UInt64
  dragHold : UInt64
deriving Repr, DecidableEq

structure Session where
  commandDelay : UInt64
  timings : Timings
  maxCallDepth : UInt64
deriving Repr, DecidableEq

namespace Session

def ofEngine (engine : EngineConfig) : Session where
  commandDelay := engine.commandDelay
  timings :=
    { preDoubleClick := engine.preDoubleClick
      doubleClickGap := engine.doubleClickGap
      lastInstanceDelay := engine.lastInstanceDelay
      dragHold := engine.dragHold }
  maxCallDepth := engine.maxCallDepth

/-- A session without any pause. -/
def immediate : Session := ⟨0, ⟨0, 0, 0, 0⟩, 16⟩

/-- The session after an update, and the change of tuning that is not its own. -/
def apply (session : Session) : SettingUpdate → Session × Option Tuning
  | .commandDelay ms => ({ session with commandDelay := ms }, none)
  | .maxCallDepth depth => ({ session with maxCallDepth := depth }, none)
  | .tuning change => (session, some change)

@[simp] theorem timings_apply (session : Session) (update : SettingUpdate) :
    (session.apply update).1.timings = session.timings := by
  cases update <;> rfl

end Session

end Macropad.Setting
