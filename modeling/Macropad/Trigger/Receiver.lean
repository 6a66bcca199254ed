import Macropad.Trigger.Request

/-!
The receiving end of a source of requests, and what is seen of a source while it runs. A
receiver may go away after some requests; a source that finds it gone ends.
-/

set_option autoImplicit false

namespace Macropad.Trigger

structure Receiver where
  /-- How many more requests are taken before the receiver goes away; `none` if it
  stays. -/
  room? : Option Nat := none
deriving Repr, DecidableEq

/-- The receiver after one more request, if it is still there. -/
def Receiver.take? : Receiver → Option Receiver
  | ⟨none⟩ => some ⟨none⟩
  | ⟨some 0⟩ => none
  | ⟨some (n + 1)⟩ => some ⟨some n⟩

inductive Event (ρ : Type)
  /-- The clipboard is read, for the n-th time from zero. -/
  | read (n : Nat)
  | request (request : Request)
  /-- Something is done around the source, with the report of it. -/
  | step (report : ρ)
deriving Repr, DecidableEq

end Macropad.Trigger
