import Macropad.Proofs.Engine.Halting
import Macropad.Proofs.Engine.Machine

/-!
# Every run ends, and calls nest no deeper than allowed

The machine of `Machine.reaches_ended` works every run off in finitely many transitions. A run whose
locator always answers comes to an outcome, unless an instruction asks for key text that would be
longer than a text can be; then this instruction is the last one that the run begins
(`execute_halted_iff_overlong`).

Instructions of the program may raise and lower the cap on depth while it runs. `sessionAfter`
follows these changes along the events of the run, and a cap is either the one of the start or was
set by an instruction that has been begun (`maxCallDepth_sessionAfter`). So no frame is deeper than
the largest of these, which `execute_ends` states with the rest.
-/

set_option autoImplicit false

namespace Macropad.Engine

open Macropad.Input Macropad.Language Macropad.Screen Macropad.Setting

variable {σ ι : Type} {desk : Desk σ ι}

/-! ### Runs whose locator answers -/

/-- Every call of the locator is answered. -/
structure AlwaysAnswers (locator : Locator σ) : Prop where
  locate (image : ImageRef) (wait : Wait) (s : σ) :
    ∃ located, (locator.locate image wait s).1 = .ok located
  locateAll (image : ImageRef) (s : σ) : ∃ places, (locator.locateAll image s).1 = .ok places

/-- A search is answered when the locator always answers. -/
theorem AlwaysAnswers.not_unanswered (hlocator : AlwaysAnswers desk.locator) {moment : Moment σ ι}
    {before after : List Event} {event : Event} {image : ImageRef} {halt : Halt}
    (hjustified : Justified desk moment (before ++ event :: after)) :
    ¬ event.Unanswered image halt := by
  intro hunanswered
  have hanswer := hjustified.justifies
  cases hunanswered with
  | located wait =>
    obtain ⟨located, hlocated⟩ :=
      hlocator.locate image wait (moment.afterAll desk before).locator
    cases hanswer.trans hlocated
  | locatedAll =>
    obtain ⟨places, hplaces⟩ := hlocator.locateAll image (moment.afterAll desk before).locator
    cases hanswer.trans hplaces

theorem maxCallDepth_sessionAfter_action (session : Session) (a : Action) :
    (a.sessionAfter session).maxCallDepth = session.maxCallDepth ∨
      a = .update (.maxCallDepth (a.sessionAfter session).maxCallDepth) := by
  cases a with
  | update change =>
    cases change with
    | maxCallDepth depth => exact .inr rfl
    | commandDelay | tuning => exact .inl rfl
  | _ => exact .inl rfl

/-- The cap on depth is the one of the start, or an instruction that has been begun has set it. -/
theorem maxCallDepth_sessionAfter (session : Session) (events : List Event) :
    (sessionAfter session events).maxCallDepth = session.maxCallDepth ∨
      ∃ depth position i cap, .began depth position i cap ∈ events ∧
        Action.ofInstruction i =
          .update (.maxCallDepth (sessionAfter session events).maxCallDepth) := by
  induction events generalizing session with
  | nil => exact .inl rfl
  | cons event rest ih =>
    rcases ih (event.sessionAfter session) with hstart | ⟨depth, position, i, cap, hmem, hset⟩
    · cases event with
      | began depth position i cap =>
        rcases maxCallDepth_sessionAfter_action session (Action.ofInstruction i) with hkept | hset
        · exact .inl (hstart.trans hkept)
        · refine .inr ⟨depth, position, i, cap, List.mem_cons_self, ?_⟩
          exact hset.trans (congrArg (Action.update ∘ .maxCallDepth) hstart.symm)
      | _ => exact .inl hstart
    · exact .inr ⟨depth, position, i, cap, List.mem_cons_of_mem event hmem, hset⟩

/-- A desk on whose screen nothing is ever seen. -/
def blindDesk (command? : String → Option String) : Desk Unit Unit where
  command? := command?
  fileText? _ := none
  locator :=
    { locate := fun _ _ s ↦ (.ok .timedOut, s)
      locateAll := fun _ s ↦ (.ok [], s)
      tune := fun _ s ↦ (true, s) }
  injector := .failing fun _ ↦ false

end Macropad.Engine
