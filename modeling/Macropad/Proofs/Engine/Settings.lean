import Macropad.Proofs.Engine.Malformed
import Macropad.Proofs.Engine.Reachable

/-!
# The settings that a run leaves

A program changes settings by instructions of one opcode, and each of them is an accepted update
(`Instruction.setting?`) or rejected. The session that a run leaves is the one of its start with the
accepted updates applied in the order in which they were run (`sessionAfter_eq_applyAll`), in
whichever frame or pass of a loop that was. So each of the two settings that the session holds has
the value of its last accepted update (`Session.read_applyAll`), and what has no update stays as it
was. The other updates are calls of the locator; `Transcript.tuned` says that they are made in this
order too, and that no other instruction makes one.

`execute_settings` says all this of whole runs, and that a rejected update changes nothing.
-/

set_option autoImplicit false

namespace Macropad

/-! ### Updates -/

namespace Setting

namespace SettingUpdate

def commandDelay? : SettingUpdate → Option UInt64
  | .commandDelay ms => some ms
  | _ => none

def maxCallDepth? : SettingUpdate → Option UInt64
  | .maxCallDepth depth => some depth
  | _ => none

/-- The change that is handed on to the locator. -/
def tuning? : SettingUpdate → Option Tuning
  | .tuning change => some change
  | _ => none

end SettingUpdate

namespace Session

/-- The session after some updates, the first one first. -/
def applyAll (session : Session) (changes : List SettingUpdate) : Session :=
  changes.foldl (fun session change ↦ (session.apply change).1) session

theorem apply_snd (session : Session) (change : SettingUpdate) :
    (session.apply change).2 = change.tuning? := by
  cases change <;> rfl

/-- What an update sets or leaves alone has the value of the last update that sets it. -/
theorem read_applyAll {α : Type} (read : Session → α) {value? : SettingUpdate → Option α}
    (hread : ∀ session change,
      read (session.apply change).1 = (value? change).getD (read session))
    (session : Session) (changes : List SettingUpdate) :
    read (session.applyAll changes) =
      (changes.filterMap value?).getLast?.getD (read session) := by
  induction changes generalizing session with
  | nil => rfl
  | cons change changes ih =>
    rw [applyAll, List.foldl_cons]
    refine (ih (session.apply change).1).trans ?_
    rw [hread]
    cases hvalue : value? change with
    | none => rw [List.filterMap_cons_none hvalue, Option.getD_none]
    | some value =>
      rw [List.filterMap_cons_some hvalue, List.getLast?_cons, Option.getD_some, Option.getD_some]

theorem commandDelay_applyAll (session : Session) (changes : List SettingUpdate) :
    (session.applyAll changes).commandDelay =
      (changes.filterMap SettingUpdate.commandDelay?).getLast?.getD session.commandDelay := by
  refine read_applyAll commandDelay (fun session change ↦ ?_) session changes
  cases change <;> rfl

theorem maxCallDepth_applyAll (session : Session) (changes : List SettingUpdate) :
    (session.applyAll changes).maxCallDepth =
      (changes.filterMap SettingUpdate.maxCallDepth?).getLast?.getD session.maxCallDepth := by
  refine read_applyAll maxCallDepth (fun session change ↦ ?_) session changes
  cases change <;> rfl

end Session

end Setting

open Setting

/-- The update that an instruction asks for, if its key and its value are accepted. -/
def Language.Instruction.setting? (i : Language.Instruction) : Option SettingUpdate :=
  if i.opcode? = some .updateSetting then
    match Text.cutFirst ':' i.argument.toList with
    | none => none
    | some (key, value) => (SettingUpdate.parse (String.ofList key) (String.ofList value)).toOption
  else none

namespace Engine

open Macropad.Input Macropad.Language Macropad.Screen

variable {σ ι : Type}

/-! ### Instructions -/

/-- The action of an instruction that has the opcode of updates. -/
theorem ofInstruction_of_updateSetting {i : Instruction}
    (hopcode : i.opcode? = some .updateSetting) :
    Action.ofInstruction i = (i.setting?.map Action.update).getD .skip := by
  rw [Action.ofInstruction, Instruction.setting?, if_pos hopcode]
  simp only [hopcode, Action.ofOpcode?, Action.update?]
  cases Text.cutFirst ':' i.argument.toList with
  | none => rfl
  | some parts =>
    obtain ⟨key, value⟩ := parts
    simp only
    cases SettingUpdate.parse (String.ofList key) (String.ofList value) <;> rfl

/-- An instruction asks for an update when it is an accepted one. -/
theorem ofInstruction_eq_update_iff {i : Instruction} {change : SettingUpdate} :
    Action.ofInstruction i = .update change ↔ i.setting? = some change := by
  by_cases hopcode : i.opcode? = some .updateSetting
  · rw [ofInstruction_of_updateSetting hopcode]
    cases i.setting? <;> simp
  · have hnone : i.setting? = none := if_neg hopcode
    rw [hnone]
    refine ⟨fun haction ↦ ?_, fun hsome ↦ by cases hsome⟩
    obtain ⟨op, hupdate, rfl⟩ := comesFrom_of_ofInstruction haction nofun
    exact absurd hupdate hopcode

/-- An update is rejected without a colon, or when its key or its value is refused. -/
theorem setting?_eq_none_iff {i : Instruction} (hopcode : i.opcode? = some .updateSetting) :
    i.setting? = none ↔ ':' ∉ i.argument.toList ∨
      ∃ key value fault, Text.cutFirst ':' i.argument.toList = some (key, value) ∧
        SettingUpdate.parse (String.ofList key) (String.ofList value) = .error fault := by
  rw [Instruction.setting?, if_pos hopcode, ← Text.cutFirst_eq_none_iff]
  cases Text.cutFirst ':' i.argument.toList with
  | none => simp
  | some parts =>
    obtain ⟨key, value⟩ := parts
    simp only
    cases hparse : SettingUpdate.parse (String.ofList key) (String.ofList value) with
    | ok change => simp [hparse, Except.toOption]
    | error fault => simp [hparse, Except.toOption]

/-! ### Events -/

/-- The accepted update of the instruction that an event begins. -/
def Event.update? : Event → Option SettingUpdate
  | .began _ _ i _ => i.setting?
  | _ => none

/-- The change with which an event calls the locator to be tuned. -/
def Event.tuned? : Event → Option Tuning
  | .tuned change _ => some change
  | _ => none

/-- Only an instruction that begins with an accepted update changes the session. -/
theorem Event.sessionAfter_eq (session : Session) (event : Event) :
    event.sessionAfter session = session.applyAll event.update?.toList := by
  cases event with
  | began depth position i cap =>
    rw [Event.sessionAfter, Event.update?]
    cases hsetting : i.setting? with
    | some change =>
      rw [ofInstruction_eq_update_iff.2 hsetting]
      rfl
    | none =>
      cases haction : Action.ofInstruction i with
      | update change => cases (ofInstruction_eq_update_iff.1 haction).symm.trans hsetting
      | _ => rfl
  | _ => rfl

/-- The instructions of a run change the session by their accepted updates, in order. -/
theorem sessionAfter_eq_applyAll (session : Session) (events : List Event) :
    sessionAfter session events = session.applyAll (events.filterMap Event.update?) := by
  induction events generalizing session with
  | nil => rfl
  | cons event events ih =>
    have hrest : sessionAfter session (event :: events) =
        (event.sessionAfter session).applyAll (events.filterMap Event.update?) :=
      ih (event.sessionAfter session)
    rw [hrest, event.sessionAfter_eq, List.filterMap_cons]
    cases event.update? <;> rfl

/-! ### Calls that tune the locator -/

/-- Events among which the locator is not tuned. -/
def Untuned (events : List Event) : Prop := ∀ event ∈ events, event.tuned? = none

theorem Answered.untuned {question : Option Operation} {events : List Event}
    (hanswered : Answered .injected question events) : Untuned events := by
  cases hanswered <;> simp [Untuned, Event.tuned?]

theorem SideSought.untuned {position : Nat} {side : Option Endpoint} {events : List Event}
    {result : Except Stop (Option Point)} (hside : SideSought position side events result) :
    Untuned events := by
  cases hside <;> simp [Untuned, Event.tuned?]

theorem Pressed.untuned {start? finish? : Option Point} {events : List Event}
    (hpressed : Pressed start? finish? events) : Untuned events := by
  cases hpressed <;> simp [Untuned, Event.tuned?]

section Performs

variable {desk : Desk σ ι} {session : Session} {depth position : Nat} {block : Effect}

/-- Only an update tunes the locator. -/
theorem Performs.untuned {a : Action} (hupdate : ∀ change, a ≠ .update change)
    (hblock : Performs desk session depth position a block) : Untuned block.events := by
  cases hblock with
  | setting => exact absurd rfl (hupdate _)
  | dragUnstarted hstart => exact hstart.untuned
  | dragUnfinished hstart hfinish =>
    exact List.forall_mem_append.2 ⟨hstart.untuned, hfinish.untuned⟩
  | drag hstart hfinish hpressed =>
    exact List.forall_mem_append.2
      ⟨List.forall_mem_append.2 ⟨hstart.untuned, hfinish.untuned⟩, hpressed.untuned⟩
  | respond hanswer hinjected => exact List.forall_mem_cons.2 ⟨rfl, hinjected.untuned⟩
  | _ => simp [Untuned, Event.tuned?]

/-- An update tunes the locator if it is a change of tuning, and then once. -/
theorem Performs.tuned_of_update {change : SettingUpdate}
    (hblock : Performs desk session depth position (.update change) block) :
    block.events.filterMap Event.tuned? = change.tuning?.toList := by
  cases hblock with
  | inject hoperation => cases hoperation
  | setting htuned =>
    rw [Session.apply_snd] at htuned
    cases hchange : change.tuning? with
    | none =>
      rw [hchange] at htuned
      cases htuned
      rfl
    | some tuning =>
      rw [hchange] at htuned
      cases htuned
      rfl

/-- The only update of a block is the one of its instruction. -/
theorem Performs.updates {i : Instruction}
    (hblock : Performs desk session depth position (Action.ofInstruction i) block) :
    (beginning session depth position i :: block.events).filterMap Event.update? =
      i.setting?.toList := by
  have hnone : block.events.filterMap Event.update? = [] := by
    refine List.filterMap_eq_nil_iff.2 fun event hevent ↦ ?_
    cases event with
    | began depth' position' i' cap =>
      exact absurd hevent (hblock.began_not_mem depth' position' i' cap)
    | _ => rfl
  have hbegun : (beginning session depth position i).update? = i.setting? := rfl
  rw [List.filterMap_cons, hnone, hbegun]
  cases i.setting? <;> rfl

/-- The block of an instruction tunes the locator as its accepted update says. -/
theorem Performs.tuned {i : Instruction}
    (hblock : Performs desk session depth position (Action.ofInstruction i) block) :
    (beginning session depth position i :: block.events).filterMap Event.tuned? =
      ((beginning session depth position i :: block.events).filterMap
        Event.update?).filterMap SettingUpdate.tuning? := by
  have hbegun : (beginning session depth position i).tuned? = none := rfl
  rw [hblock.updates, List.filterMap_cons_none hbegun]
  cases hsetting : i.setting? with
  | none =>
    have huntuned := hblock.untuned fun change haction ↦ by
      cases (ofInstruction_eq_update_iff.1 haction).symm.trans hsetting
    exact List.filterMap_eq_nil_iff.2 huntuned
  | some change =>
    rw [ofInstruction_eq_update_iff.2 hsetting] at hblock
    rw [hblock.tuned_of_update, Option.toList_some, List.filterMap_cons, List.filterMap_nil]
    cases change.tuning? <;> rfl

end Performs

/-- A run tunes the locator as its accepted updates say, in order. -/
theorem Transcript.tuned {desk : Desk σ ι} {admitted : Nat → Nat → Instruction → Prop}
    {session final : Session} {effect : Effect}
    (htranscript : Transcript desk admitted session effect final) :
    effect.events.filterMap Event.tuned? =
      (effect.events.filterMap Event.update?).filterMap SettingUpdate.tuning? := by
  induction htranscript with
  | done session => rfl
  | stopped hadmitted hblock hstop => exact hblock.tuned
  | acted hadmitted hblock hstop hrest ih =>
    rw [Effect.andThen, List.filterMap_append, List.filterMap_append, List.filterMap_append, ih]
    exact congrArg (· ++ _) hblock.tuned

/-! ### Whole runs -/

/-- A rejected update is passed over. -/
theorem run_step_of_rejected (desk : Desk σ ι) {i : Instruction}
    (hopcode : i.opcode? = some .updateSetting) (hrejected : i.setting? = none)
    (depth position : Nat) (s : State σ ι) :
    (step desk depth position i).run s = .ok () (s.passed depth position i) := by
  have hskip : Action.ofInstruction i = .skip := by
    rw [ofInstruction_of_updateSetting hopcode, hrejected]
    rfl
  rw [run_step_of_not_call desk hskip nofun]
  rfl

/-- However a run ends, the pause after each instruction is the one of the last accepted update of
it, or the one of the start, and so is the cap on the depth of calls; the pauses of compound actions
are those of the start. The calls that tune the locator are the accepted updates of its settings, in
the order in which they were run. An update without a colon, or whose key or value is refused,
changes nothing. -/
theorem execute_settings (desk : Desk σ ι) (program : Program) (session : Session) (locator : σ)
    (injector : ι) :
    let final := (execute desk program session locator injector).state
    let updates := final.events.filterMap Event.update?
    final.session.commandDelay =
        (updates.filterMap SettingUpdate.commandDelay?).getLast?.getD session.commandDelay ∧
      final.session.maxCallDepth =
        (updates.filterMap SettingUpdate.maxCallDepth?).getLast?.getD session.maxCallDepth ∧
      final.session.timings = session.timings ∧
      final.events.filterMap Event.tuned? = updates.filterMap SettingUpdate.tuning? ∧
      ∀ i : Instruction, i.opcode? = some .updateSetting →
        (':' ∉ i.argument.toList ∨
          ∃ key value fault, Text.cutFirst ':' i.argument.toList = some (key, value) ∧
            SettingUpdate.parse (String.ofList key) (String.ofList value) = .error fault) →
        ∀ depth position (s : State σ ι), ∃ s', (step desk depth position i).run s = .ok () s' ∧
          s'.events = s.events ++ [.began depth position i s.session.maxCallDepth] ∧
          s'.session = s.session ∧ s'.locator = s.locator ∧ s'.injector = s.injector := by
  intro final updates
  have hsession : final.session = sessionAfter session final.events :=
    (told_execute desk program session locator injector).session
  have hupdates : final.session = session.applyAll updates :=
    hsession.trans (sessionAfter_eq_applyAll session final.events)
  obtain ⟨effect, htranscript, hevents, -⟩ :=
    execute_transcribed desk program session locator injector
  refine ⟨?_, ?_, ?_, ?_, ?_⟩
  · rw [hupdates, Session.commandDelay_applyAll]
  · rw [hupdates, Session.maxCallDepth_applyAll]
  · rw [hsession, timings_sessionAfter]
  · have htuned := htranscript.tuned
    rwa [← hevents] at htuned
  · intro i hopcode hbad depth position s
    have hrejected := (setting?_eq_none_iff hopcode).2 hbad
    exact ⟨_, run_step_of_rejected desk hopcode hrejected depth position s,
      State.events_record _ s, rfl, rfl, rfl⟩

end Engine

end Macropad
