import Macropad.Proofs.Engine.Effect
import Macropad.Proofs.Screen.References
import Macropad.Proofs.Setting.Ranges

/-!
# Actions and events in range

Whatever the text of an instruction is, the action that it asks for is in range: its change of a
setting lies in the range of the setting, and the images that it looks for have anchors in the range
of coordinates (`Action.inRange_ofInstruction`). An action asks its collaborators for nothing else,
so the events of its block are in range as well (`Performs.inRange`).
-/

set_option autoImplicit false

namespace Macropad.Engine

open Macropad.Input Macropad.Language Macropad.Screen Macropad.Setting

variable {σ ι : Type}

def Endpoint.InRange : Endpoint → Prop
  | .point _ => True
  | .image target => target.InRange

/-- The values that the action hands on lie in their ranges. -/
def Action.InRange : Action → Prop
  | .update change => change.InRange
  | .drag start finish => (∀ side, start = some side → side.InRange) ∧
      ∀ side, finish = some side → side.InRange
  | .respond image _ | .lastInstance image => image.InRange
  | .await timed => timed.image.InRange
  | _ => True

/-- The question of the event lies in the range of what can be asked. -/
def Event.InRange : Event → Prop
  | .located image _ _ | .locatedAll image _ => image.InRange
  | .tuned change _ => change.InRange
  | _ => True

/-! ### Actions of instructions -/

namespace Action

theorem inRange_of_endpoint? {side : List Char} {e : Endpoint} (hside : endpoint? side = some e) :
    e.InRange := by
  rw [endpoint?] at hside
  cases hpoint : Point.read side with
  | some place =>
    rw [hpoint] at hside
    obtain rfl := Option.some.inj hside
    exact trivial
  | none =>
    rw [hpoint] at hside
    cases himage : ImageRef.parse (String.ofList side) with
    | ok image =>
      simp only [himage] at hside
      obtain rfl := Option.some.inj hside
      exact ImageRef.inRange_of_parse himage
    | error fault =>
      simp only [himage] at hside
      cases hside

theorem inRange_of_drag? {argument : String} {a : Action} (hdrag : drag? argument = some a) :
    a.InRange := by
  obtain ⟨⟨start, finish⟩, -, rfl⟩ := Option.map_eq_some_iff.1 hdrag
  exact ⟨fun _ ↦ inRange_of_endpoint?, fun _ ↦ inRange_of_endpoint?⟩

theorem inRange_of_update? {argument : String} {a : Action} (hupdate : update? argument = some a) :
    a.InRange := by
  rw [update?] at hupdate
  split at hupdate
  · cases hupdate
  · split at hupdate
    · rename_i change hparse
      obtain rfl := Option.some.inj hupdate
      exact SettingUpdate.inRange_of_parse hparse
    · cases hupdate

theorem inRange_of_respond? {argument : String} {response : Response} {a : Action}
    (hrespond : respond? argument response = some a) : a.InRange := by
  rw [respond?] at hrespond
  split at hrespond
  · rename_i image hparse
    obtain rfl := Option.some.inj hrespond
    exact ImageRef.inRange_of_parse hparse
  · cases hrespond

/-- An opcode asks for nothing out of range. -/
theorem inRange_of_ofOpcode? {op : Opcode} {argument : String} {a : Action}
    (hasked : ofOpcode? op argument = some a) : a.InRange := by
  cases op with
  | startMenu | maximize | minimize | screenshot | copy | paste | selectAll | runCommand =>
    obtain rfl := Option.some.inj hasked
    exact trivial
  | type =>
    rw [ofOpcode?] at hasked
    split at hasked <;> (obtain rfl := Option.some.inj hasked; exact trivial)
  | tab =>
    rw [ofOpcode?] at hasked
    split at hasked
    · obtain rfl := Option.some.inj hasked
      exact trivial
    · obtain ⟨_, -, rfl⟩ := Option.map_eq_some_iff.1 hasked
      exact trivial
  | leftClick | rightClick | sleep | altTab =>
    obtain ⟨_, -, rfl⟩ := Option.map_eq_some_iff.1 hasked
    exact trivial
  | updateSetting => exact inRange_of_update? hasked
  | drag => exact inRange_of_drag? hasked
  | findAndClick | doubleClickImage | findAndRightClick | doubleRightClickImage | waitForImage =>
    exact inRange_of_respond? hasked
  | waitForImageWithTimeout =>
    rw [ofOpcode?] at hasked
    split at hasked
    · rename_i timed hparse
      obtain rfl := Option.some.inj hasked
      exact TimedImage.inRange_of_parse hparse
    · cases hasked
  | clickLastInstance =>
    rw [ofOpcode?] at hasked
    split at hasked
    · rename_i image hparse
      obtain rfl := Option.some.inj hasked
      exact ImageRef.inRange_of_parse hparse
    · cases hasked
  | loop => cases hasked

/-- No instruction asks for anything out of range. -/
theorem inRange_ofInstruction (i : Instruction) : (ofInstruction i).InRange := by
  rw [ofInstruction]
  cases i.opcode? with
  | none => exact trivial
  | some op =>
    simp only
    cases hasked : ofOpcode? op i.argument with
    | none => exact trivial
    | some a => exact inRange_of_ofOpcode? hasked

end Action

/-! ### Events of actions -/

/-- Input is always in range. -/
theorem Answered.inRange_of_injected {question : Option Operation} {events : List Event}
    (hanswered : Answered .injected question events) : ∀ event ∈ events, event.InRange := by
  cases hanswered <;> simp [Event.InRange]

theorem SideSought.inRange {position : Nat} {side : Option Endpoint} {events : List Event}
    {result : Except Stop (Option Point)} (hside : SideSought position side events result)
    (hrange : ∀ e, side = some e → e.InRange) : ∀ event ∈ events, event.InRange := by
  cases hside with
  | unreadable | point => exact List.forall_mem_nil _
  | image image answer =>
    have himage : image.InRange := hrange (.image image) rfl
    exact List.forall_mem_singleton.2 himage

theorem Pressed.inRange {start? finish? : Option Point} {events : List Event}
    (hpressed : Pressed start? finish? events) : ∀ event ∈ events, event.InRange := by
  cases hpressed <;> simp [Event.InRange]

/-- The block of an action in range asks for nothing out of range. -/
theorem Performs.inRange {desk : Desk σ ι} {session : Session} {depth position : Nat} {a : Action}
    {block : Effect} (hblock : Performs desk session depth position a block) (ha : a.InRange) :
    ∀ event ∈ block.events, event.InRange := by
  cases hblock with
  | skip | sleep | unreadable | tooLong | refused | absent => exact List.forall_mem_nil _
  | inject | tabs | entered => simp [Event.InRange]
  | setting htuned =>
    rename_i change events
    cases change with
    | commandDelay | maxCallDepth =>
      cases htuned
      exact List.forall_mem_nil _
    | tuning change =>
      cases htuned
      exact List.forall_mem_singleton.2 ha
  | dragUnstarted hstart => exact hstart.inRange ha.1
  | dragUnfinished hstart hfinish =>
    exact List.forall_mem_append.2 ⟨hstart.inRange ha.1, hfinish.inRange ha.2⟩
  | drag hstart hfinish hpressed =>
    exact List.forall_mem_append.2 ⟨List.forall_mem_append.2
      ⟨hstart.inRange ha.1, hfinish.inRange ha.2⟩, hpressed.inRange⟩
  | respond _ hinjected => exact List.forall_mem_cons.2 ⟨ha, hinjected.inRange_of_injected⟩
  | respondStopped | await | awaitStopped | noInstance | lastInstanceHalted =>
    exact List.forall_mem_singleton.2 ha
  | lastInstance => exact List.forall_mem_cons.2 ⟨ha, by simp [Event.InRange]⟩

end Macropad.Engine
