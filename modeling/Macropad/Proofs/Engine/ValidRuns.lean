import Mathlib
import Macropad.Proofs.Engine.CallDepth
import Macropad.Proofs.Engine.Validity

/-!
# Runs of valid programs

Every instruction that a run of a valid program begins has passed its check, those of stored
commands included, since an accepted configuration holds valid commands only (`handsOn_checked`).
So each asks for an action that the engine performs, and the events of the run show that it does
(`execute_valid`), apart from a sleep and an update, which show in the state behind their step
(`run_step_of_sleep`, `run_step_of_update`). Three things are left open: a file that cannot be read
is not typed, an image that is seen nowhere has no last instance, and a drag may have sides in
digits that the engine does not read.
-/

set_option autoImplicit false

namespace Macropad.Engine

open Macropad.Input Macropad.Language Macropad.Screen Macropad.Setting

variable {σ ι : Type}

/-- The instruction has an opcode, and its argument passes the check. -/
def Checked (surroundings : Surroundings) (i : Instruction) : Prop :=
  ∃ op, i.opcode? = some op ∧ Validation.checkArgument surroundings op i.argument = .ok ()

theorem checked_of_validate {surroundings : Surroundings} {program : Program}
    (hvalid : program.validate surroundings = .valid) {k : Nat} {i : Instruction}
    (hi : program[k]? = some i) : Checked surroundings i := by
  have hcheck := Program.validate_eq_valid_iff.1 hvalid k i hi
  exact (Validation.checkInstruction_eq_ok_iff.1 hcheck).2

/-- What is known of an instruction in a run of a program: it has passed its check, and in the
frame of the program itself it stands at its position. -/
def CheckedIn (config : Config) (program : Program) (depth position : Nat)
    (i : Instruction) : Prop :=
  Checked config.surroundings i ∧ (depth = 0 → program[position - 1]? = some i)

section Accepted

variable {config : Config} {desk : Desk σ ι} (hcommands : desk.command? = config.command?)

include hcommands

/-- Stored commands of an accepted configuration hold instructions that have passed their checks. -/
theorem handsOn_checked (hconfig : config.check = .ok ()) (program : Program) :
    HandsOn desk (CheckedIn config program) := by
  intro depth position i name text _ _ hname k j hj
  have hcommand : config.command? name = some text := by
    rw [← hcommands]
    exact (Option.filter_eq_some_iff.1 hname).1
  have hvalid := Config.verdict_of_command? hconfig hcommand
  exact ⟨checked_of_validate hvalid hj, fun h ↦ absurd h (Nat.succ_ne_zero depth)⟩

end Accepted

/-- In a run of a valid program every instruction that is begun has passed its check. The run
performs its action, in the session that the instructions before have left. -/
theorem exists_block_of_valid {config : Config} (hconfig : config.check = .ok ()) {text : String}
    (hvalid : config.verdict text = .valid) {desk : Desk σ ι}
    (hcommands : desk.command? = config.command?) {session : Session} {locator : σ} {injector : ι}
    {before after : List Event} {depth position : Nat} {i : Instruction} {cap : UInt64}
    (hevents : (execute desk (Program.parse text) session locator injector).state.events =
      before ++ .began depth position i cap :: after) :
    CheckedIn config (Program.parse text) depth position i ∧
      cap = (sessionAfter session before).maxCallDepth ∧
      ∃ block,
        Performs desk (sessionAfter session before) depth position (Action.ofInstruction i) block ∧
          ((∃ stop, block.stop? = some stop ∧ after = block.events ∧
              (execute desk (Program.parse text) session locator injector).ending = stop.ending) ∨
            (block.stop? = none ∧ ∃ rest, after = block.events ++ rest)) := by
  have hprogram : Admits (CheckedIn config (Program.parse text)) 0 1 (Program.parse text) := by
    intro k j hj
    refine ⟨checked_of_validate hvalid hj, fun _ ↦ ?_⟩
    rwa [Nat.add_sub_cancel_left]
  obtain ⟨effect, htranscript, hlog, hending⟩ :=
    execute_transcript (handsOn_checked hcommands hconfig _) hprogram session locator injector
  obtain ⟨hchecked, hcap, block, hblock, hrest⟩ := htranscript.block (hlog.symm.trans hevents)
  refine ⟨hchecked, hcap, block, hblock, ?_⟩
  rcases hrest with ⟨stop, hstop, heffect, hafter⟩ | ⟨hstop, rest, hafter, -⟩
  · refine .inl ⟨stop, hstop, hafter, ?_⟩
    rw [hending, Effect.outcome, heffect]
  · exact .inr ⟨hstop, rest.events, hafter⟩

/-- An instruction that has passed its check does not ask for text that is too long. -/
theorem Checked.not_overlong {surroundings : Surroundings} {i : Instruction}
    (hchecked : Checked surroundings i) : ¬ Overlong i := by
  rintro ⟨hop, times, hcount, hsize⟩
  obtain ⟨op, hopcode, hcheck⟩ := hchecked
  cases hop.symm.trans hopcode
  obtain ⟨n, hn, hbound⟩ := count?_of_check (Validation.require_eq_ok_iff.1 hcheck)
  cases hcount.symm.trans hn
  rw [utf8ByteSize_switchKeys] at hsize
  exact absurd (switchSize_le_textCapacity hbound) (Nat.not_le.2 hsize)

/-! ### What the state shows -/

/-- An instruction that sleeps lengthens the pauses of the run by its time and the usual one. -/
theorem run_step_of_sleep (desk : Desk σ ι) {i : Instruction} {ms : UInt64}
    (haction : Action.ofInstruction i = .sleep ms) (depth position : Nat) (s : State σ ι) :
    ∃ s', (step desk depth position i).run s = .ok () s' ∧
      s'.slept = s.slept + ms.toNat + s.session.commandDelay.toNat := by
  rw [run_step_of_not_call desk haction fun _ ↦ nofun]
  exact ⟨_, rfl, rfl⟩

/-- An instruction that updates a setting leaves the session with the change, and the locator with
the tuning that the change asks for. -/
theorem run_step_of_update (desk : Desk σ ι) {i : Instruction} {change : SettingUpdate}
    (haction : Action.ofInstruction i = .update change) (depth position : Nat) (s : State σ ι) :
    ∃ s', (step desk depth position i).run s = .ok () s' ∧
      s'.session = (s.session.apply change).1 ∧
      s'.locator = (s.session.apply change).2.elim s.locator
        fun tuning ↦ (desk.locator.tune tuning s.locator).2 := by
  rw [run_step_of_not_call desk haction fun _ ↦ nofun]
  cases change <;> exact ⟨_, rfl, rfl, rfl⟩

/-- Every instruction that a run of a valid program begins asks for an action, which is ready
unless it is a drag with sides in other digits. The run performs the action, in the session that
the instructions before have left; a sleep lengthens the pauses, and an update changes the session
and tunes the locator. -/
theorem execute_valid {config : Config} (hconfig : config.check = .ok ()) {text : String}
    (hvalid : config.verdict text = .valid) {desk : Desk σ ι}
    (hcommands : desk.command? = config.command?) (session : Session) (locator : σ) (injector : ι)
    {before after : List Event} {depth position : Nat} {i : Instruction} {cap : UInt64}
    (hevents : (execute desk (Program.parse text) session locator injector).state.events =
      before ++ .began depth position i cap :: after) :
    (depth = 0 → (Program.parse text)[position - 1]? = some i) ∧
      cap = (sessionAfter session before).maxCallDepth ∧
      ∃ op action, i.opcode? = some op ∧ Action.ofOpcode? op i.argument = some action ∧
        Action.ofInstruction i = action ∧
        ((op = .drag → PlainSides i.argument) → action.Ready desk) ∧
        (∀ ms, action = .sleep ms → ∀ s : State σ ι, ∃ s',
          (step desk depth position i).run s = .ok () s' ∧
            s'.slept = s.slept + ms.toNat + s.session.commandDelay.toNat) ∧
        (∀ change, action = .update change → ∀ s : State σ ι, ∃ s',
          (step desk depth position i).run s = .ok () s' ∧
            s'.session = (s.session.apply change).1 ∧
            s'.locator = (s.session.apply change).2.elim s.locator
              fun tuning ↦ (desk.locator.tune tuning s.locator).2) ∧
        ∃ block, Performs desk (sessionAfter session before) depth position action block ∧
          ((∃ stop, block.stop? = some stop ∧ after = block.events ∧
              (execute desk (Program.parse text) session locator injector).ending = stop.ending) ∨
            (block.stop? = none ∧ ∃ rest, after = block.events ++ rest)) := by
  obtain ⟨⟨⟨op, hop, hcheck⟩, hplace⟩, hcap, block, hblock, hrest⟩ :=
    exists_block_of_valid hconfig hvalid hcommands hevents
  obtain ⟨action, haction, hready⟩ := ofOpcode?_of_checkArgument hcommands hcheck
  have hof : Action.ofInstruction i = action := by
    rw [Action.ofInstruction, hop]
    simp only [haction, Option.getD_some]
  rw [hof] at hblock
  refine ⟨hplace, hcap, op, action, hop, haction, hof, hready, ?_, ?_, block, hblock, hrest⟩
  · rintro ms rfl s
    exact run_step_of_sleep desk hof depth position s
  · rintro change rfl s
    exact run_step_of_update desk hof depth position s

/-- A stored command that clicks an image. -/
def clicking : Config where
  engine := { matchThreshold := .zero, commandDelay := 0 }
  commands := ⟨[("b", "fa.png")]⟩

/-- A desk with this command and a locator that polls a display. -/
def clickingDesk : Desk Poller Unit where
  command? := clicking.command?
  fileText? _ := none
  locator := Poller.locator
  injector := .failing fun _ ↦ false

/-- Every image is seen in the corner of the screen. -/
def clickingPoller : Poller :=
  ⟨"find", 1, .zero, ⟨[], .always (.seen [⟨⟨⟨0, 0⟩, 2, 2⟩, .zero⟩])⟩⟩

/-- The first instruction of a loop, with two passes over four instructions. -/
def capping : Instruction :=
  ⟨some 'u', "MaxCallDepth:3", some (.valid ⟨⟨2, by decide⟩, some ⟨4, by decide⟩⟩)⟩

/-- One pass of this loop over two updates, a call and a drag, with the cap on calls that it starts
with. -/
def clickingPass (cap : UInt64) : List Event :=
  [.began 0 1 capping cap, .began 0 2 ⟨some 'u', "PollInterval:5", none⟩ 3,
    .tuned (.pollInterval 5) true,
    .began 0 3 ⟨some 'z', "b", none⟩ 3, .entered 1 "b" [⟨some 'f', "a.png", none⟩],
    .began 1 1 ⟨some 'f', "a.png", none⟩ 3,
    .located ⟨"a.png", none⟩ .forever (.ok (.found ⟨1, 1⟩)),
    .injected (.click ⟨1, 1⟩ .left) ⟨true, [.click ⟨1, 1⟩ .left]⟩,
    .began 0 4 ⟨some 'd', "1:2,a.png", none⟩ 3,
    .located ⟨"a.png", none⟩ .forever (.ok (.found ⟨1, 1⟩)),
    .injected (.hold ⟨1, 2⟩) ⟨true, [.hold ⟨1, 2⟩]⟩,
    .injected (.release ⟨1, 1⟩) ⟨true, [.release ⟨1, 1⟩]⟩]

theorem events_of_clicking :
    (execute clickingDesk
      (Program.parse "[4:2]uMaxCallDepth:3;uPollInterval:5;zb;d1:2,a.png") .immediate clickingPoller
      ()).state.events = clickingPass 16 ++ clickingPass 3 := by
  cbv

/-- In the second pass of this loop the updates, the call, the drag and the instruction of the
stored command are performed, under the cap that the first pass has set. -/
theorem execute_valid_of_click :
    let text := "[4:2]uMaxCallDepth:3;uPollInterval:5;zb;d1:2,a.png"
    let drag : Action := .drag (some (.point ⟨1, 2⟩)) (some (.image ⟨"a.png", none⟩))
    clicking.check = .ok () ∧ clicking.verdict text = .valid ∧
      (∀ s : State Poller Unit, ∃ s', (step clickingDesk 0 1 capping).run s = .ok () s' ∧
        s'.session = { s.session with maxCallDepth := 3 }) ∧
      (∀ s : State Poller Unit, ∃ s',
        (step clickingDesk 0 2 ⟨some 'u', "PollInterval:5", none⟩).run s = .ok () s' ∧
          s'.locator = s.locator.tune (.pollInterval 5)) ∧
      (Action.call "b").Ready clickingDesk ∧
      (∃ session block, session.maxCallDepth = 3 ∧
        Performs clickingDesk session 1 1 (.respond ⟨"a.png", none⟩ (.click .left)) block) ∧
      drag.Ready clickingDesk ∧
      ∃ session block, session.maxCallDepth = 3 ∧ Performs clickingDesk session 0 4 drag block := by
  intro text drag
  have hconfig : clicking.check = .ok () :=
    Config.check_eq_ok_iff.2 ⟨by decide +kernel, rfl, by decide +kernel⟩
  have hvalid : clicking.verdict text = .valid := by decide +kernel
  have hcommands : clickingDesk.command? = clicking.command? := rfl
  have hplain : PlainSides "1:2,a.png" := by
    intro start finish hsides
    have hparts : Text.cutFirst ',' "1:2,a.png".toList = some ("1:2".toList, "a.png".toList) := by
      decide
    cases hparts.symm.trans hsides
    exact List.forall_mem_cons.2 ⟨fun _ ↦ by decide, List.forall_mem_singleton.2 (by decide)⟩
  -- The second pass, cut in front of one of its events.
  have hcut (k : Nat) : (execute clickingDesk (Program.parse text) .immediate clickingPoller
      ()).state.events =
        (clickingPass 16 ++ (clickingPass 3).take k) ++ (clickingPass 3).drop k := by
    rw [List.append_assoc, List.take_append_drop]
    exact events_of_clicking
  refine ⟨hconfig, hvalid, ?_, ?_, ?_, ?_, ?_⟩
  · intro s
    obtain ⟨-, -, op, action, -, -, hof, -, -, hupdate, -⟩ :=
      execute_valid hconfig hvalid hcommands .immediate clickingPoller () (hcut 0)
    obtain ⟨s', hrun, hsession, -⟩ := hupdate (.maxCallDepth 3) (hof.symm.trans (by cbv)) s
    exact ⟨s', hrun, hsession⟩
  · intro s
    obtain ⟨-, -, op, action, -, -, hof, -, -, hupdate, -⟩ :=
      execute_valid hconfig hvalid hcommands .immediate clickingPoller () (hcut 1)
    obtain ⟨s', hrun, -, hlocator⟩ :=
      hupdate (.tuning (.pollInterval 5)) (hof.symm.trans (by cbv)) s
    exact ⟨s', hrun, hlocator⟩
  · obtain ⟨-, -, op, action, hop, -, hof, hready, -⟩ :=
      execute_valid hconfig hvalid hcommands .immediate clickingPoller () (hcut 3)
    obtain rfl : action = .call "b" := hof.symm.trans (by cbv)
    refine hready fun hdrag ↦ ?_
    subst hdrag
    cases hop
  · obtain ⟨-, hcap, op, action, -, -, hof, -, -, -, block, hblock, -⟩ :=
      execute_valid hconfig hvalid hcommands .immediate clickingPoller () (hcut 5)
    obtain rfl : action = .respond ⟨"a.png", none⟩ (.click .left) := hof.symm.trans (by cbv)
    exact ⟨_, block, hcap.symm, hblock⟩
  · obtain ⟨-, hcap, op, action, -, -, hof, hready, -, -, block, hblock, -⟩ :=
      execute_valid hconfig hvalid hcommands .immediate clickingPoller () (hcut 8)
    obtain rfl : action = drag := hof.symm.trans (by cbv)
    exact ⟨hready fun _ ↦ hplain, _, block, hcap.symm, hblock⟩

/-- Two valid programs that the engine passes over: a drag with a side in other digits, which
presses nothing, and a click on the last instance of an image that is seen nowhere. -/
theorem valid_passed_over :
    ({} : Config).check = .ok () ∧
      ({} : Config).verdict "d\u0663:\u0664,5:6" = .valid ∧
      (execute (blindDesk ({} : Config).command?) (Program.parse "d\u0663:\u0664,5:6") .immediate ()
        ()).state.events = [.began 0 1 ⟨some 'd', "\u0663:\u0664,5:6", none⟩ 16] ∧
      ({} : Config).verdict "qa.png" = .valid ∧
      (execute (blindDesk ({} : Config).command?) (Program.parse "qa.png") .immediate ()
        ()).state.events = [.began 0 1 ⟨some 'q', "a.png", none⟩ 16,
          .locatedAll ⟨"a.png", none⟩ (.ok [])] := by
  have hdrag : Action.ofInstruction ⟨some 'd', "\u0663:\u0664,5:6", none⟩ =
      .drag none (some (.point ⟨5, 6⟩)) := by decide
  have hparse : Program.parse "d\u0663:\u0664,5:6" =
      [⟨some 'd', "\u0663:\u0664,5:6", none⟩] := by decide
  have hlast : Action.ofInstruction ⟨some 'q', "a.png", none⟩ =
      .lastInstance ⟨"a.png", none⟩ := by decide
  have hparse' : Program.parse "qa.png" = [⟨some 'q', "a.png", none⟩] := by decide
  refine ⟨Config.check_default, by decide, ?_, by decide, ?_⟩
  · rw [hparse, execute_single _ hdrag (fun _ ↦ nofun) rfl]
    rfl
  · rw [hparse', execute_single _ hlast (fun _ ↦ nofun) rfl]
    rfl

end Macropad.Engine
