import Mathlib
import Macropad.Proofs.Engine.DepthGuard
import Macropad.Proofs.Engine.ValidRuns
import Macropad.Proofs.Player.Requests

/-!
# The frames of a run over an accepted configuration

Validation looks at one program and only one call deep: a call has to name a stored command that is
not blank. Over an accepted configuration that is enough, since every stored command was validated
in the same configuration. `Config.Stores` is what is known of a stored command then, and the frames
of a run are the program of the request and programs that are stored in this sense
(`stores_of_entered`, `frame_of_began`), however deep the calls are nested and wherever they go
round in circles.

So an instruction that a run begins stands in a valid program, which says what its form is
(`WellFormed`), and a call reaches a stored command or stops the run at the cap on depth
(`call_of_began`). `frames_of_answer` puts this together for the requests to a player.
-/

set_option autoImplicit false

namespace Macropad

open Macropad.Engine Macropad.Input Macropad.Language Macropad.Screen Macropad.Setting

variable {σ ι : Type}

/-- The stored command is not blank and valid in the same configuration, and it is this program. -/
def Config.Stores (config : Config) (name : String) (program : Program) : Prop :=
  ∃ text, config.command? name = some text ∧ Text.allBlank text.toList = false ∧
    config.verdict text = .valid ∧ program = Program.parse text

namespace Language

/-- The instruction is not empty, its opcode is known, and its loop header, if it has one, is well
formed and covers no more than the instructions that remain. -/
structure WellFormed (i : Instruction) (remaining : Nat) : Prop where
  opcode : ∃ code op, i.code = some code ∧ Opcode.ofCode? code = some op
  header : i.header = none ∨ ∃ spec, i.header = some (.valid spec) ∧ spec.span ≤ remaining

theorem wellFormed_of_checkInstruction {surroundings : Surroundings} {i : Instruction}
    {remaining : Nat}
    (hcheck : Validation.checkInstruction surroundings i remaining = .ok ()) :
    WellFormed i remaining := by
  obtain ⟨hheader, op, hop, -⟩ := Validation.checkInstruction_eq_ok_iff.1 hcheck
  obtain ⟨code, hcode, hof⟩ := Option.bind_eq_some_iff.1 hop
  refine ⟨⟨code, op, hcode, hof⟩, ?_⟩
  rw [Validation.checkHeader] at hheader
  split at hheader
  · rename_i hnone
    exact .inl hnone
  · cases hheader
  · cases hheader
  · rename_i spec hspec
    refine .inr ⟨spec, hspec, ?_⟩
    rw [hcode] at hheader
    exact of_decide_eq_true (Validation.require_eq_ok_iff.1 hheader)

end Language

namespace Engine

/-- The frame of a depth is the one of the first moment, or the one that was entered last. -/
theorem Moment.frame_afterAll (desk : Desk σ ι) (moment : Moment σ ι) (events : List Event)
    (depth : Nat) :
    (moment.afterAll desk events).frame depth = moment.frame depth ∨
      ∃ name, .entered depth name ((moment.afterAll desk events).frame depth) ∈ events := by
  induction events generalizing moment with
  | nil => exact .inl rfl
  | cons event rest ih =>
    rcases ih (moment.after desk event) with hkept | ⟨name, hmem⟩
    · cases event with
      | entered depth' name program =>
        by_cases hdepth : depth = depth'
        · subst hdepth
          have hframe : ((moment.after desk (.entered depth name program)).afterAll desk
              rest).frame depth = program := by
            rw [hkept, Moment.after]
            exact Function.update_self ..
          exact .inr ⟨name, List.mem_cons.2 (.inl (congrArg (Event.entered depth name) hframe))⟩
        · refine .inl (hkept.trans ?_)
          rw [Moment.after]
          exact Function.update_of_ne hdepth ..
      | _ => exact .inl hkept
    · exact .inr ⟨name, List.mem_cons_of_mem event hmem⟩

section Accepted

variable {config : Config} {desk : Desk σ ι} {session : Session} {locator : σ} {injector : ι}
  {program : Program} {before after : List Event}

/-- A stored command that a call can run is one that the configuration stores. -/
theorem stores_of_runnable? (hconfig : config.check = .ok ())
    (hcommands : desk.command? = config.command?) {name text : String}
    (hname : desk.runnable? name = some text) : config.Stores name (Program.parse text) := by
  obtain ⟨hcommand, hblank⟩ := Option.filter_eq_some_iff.1 hname
  rw [hcommands] at hcommand
  exact ⟨text, hcommand, Bool.not_eq_true' _ ▸ hblank, Config.verdict_of_command? hconfig hcommand,
    rfl⟩

/-- A frame that is entered holds a stored command, which the instruction begun before it calls. -/
theorem stores_of_entered (hconfig : config.check = .ok ())
    (hcommands : desk.command? = config.command?) {depth : Nat} {name : String} {frame : Program}
    (hevents : (execute desk program session locator injector).state.events =
      before ++ .entered depth name frame :: after) :
    config.Stores name frame ∧
      ∃ earlier caller position i cap, before = earlier ++ [.began caller position i cap] ∧
        i.opcode? = some .runCommand ∧ i.argument = name ∧ depth = caller + 1 := by
  obtain ⟨effect, htranscript, hlog, -⟩ :=
    execute_transcribed desk program session locator injector
  obtain ⟨earlier, caller, position, i, cap, hbefore, haction, hdepth, -, -, text, hname, rfl⟩ :=
    htranscript.entry (hlog.symm.trans hevents)
  obtain ⟨op, hopcode, rfl, hargument⟩ := comesFrom_of_ofInstruction haction nofun
  exact ⟨stores_of_runnable? hconfig hcommands hname, earlier, caller, position, i, cap, hbefore,
    hopcode, hargument, hdepth⟩

/-- An instruction that is begun stands in the frame of its depth, which is the program of the run
or a stored command. -/
theorem frame_of_began (hconfig : config.check = .ok ())
    (hcommands : desk.command? = config.command?) {depth position : Nat} {i : Instruction}
    {cap : UInt64}
    (hevents : (execute desk program session locator injector).state.events =
      before ++ .began depth position i cap :: after) :
    let frame := ((Moment.start program locator injector).afterAll desk before).frame depth
    StandsIn frame position i ∧
      ((depth = 0 ∧ frame = program) ∨ ∃ name, config.Stores name frame) := by
  intro frame
  have hjustified := (execute_justified desk program session locator injector).1
  rw [hevents] at hjustified
  have hstands : StandsIn frame position i := hjustified.justifies
  refine ⟨hstands, ?_⟩
  rcases Moment.frame_afterAll desk (Moment.start program locator injector) before depth with
    hstart | ⟨name, hmem⟩
  · have hframe : frame = Function.update (fun _ ↦ []) 0 program depth := hstart
    by_cases hdepth : depth = 0
    · subst hdepth
      exact .inl ⟨rfl, hframe.trans (Function.update_self ..)⟩
    · -- No frame of this depth would have been entered, and nothing stands in an empty one.
      rw [hframe, Function.update_of_ne hdepth] at hstands
      cases hstands.2
  · obtain ⟨earlier, later, hbefore⟩ := List.append_of_mem hmem
    have hentered : (execute desk program session locator injector).state.events =
        earlier ++ .entered depth name frame ::
          (later ++ .began depth position i cap :: after) := by
      rw [hevents]
      exact (congrArg (· ++ _) hbefore).trans (List.append_assoc ..)
    exact .inr ⟨name, (stores_of_entered hconfig hcommands hentered).1⟩

/-- A call that has passed its check enters its stored command, or stops the run at the cap. -/
theorem call_of_began (hconfig : config.check = .ok ())
    (hcommands : desk.command? = config.command?) {depth position : Nat} {i : Instruction}
    {cap : UInt64}
    (hevents : (execute desk program session locator injector).state.events =
      before ++ .began depth position i cap :: after)
    (hopcode : i.opcode? = some .runCommand)
    (hcheck : Validation.checkArgument config.surroundings .runCommand i.argument = .ok ()) :
    ∃ frame, config.Stores i.argument frame ∧
      ((cap.toNat < depth + 1 ∧ after = [] ∧
          (execute desk program session locator injector).ending =
            .ok (.depthExceeded position cap i.argument)) ∨
        (depth + 1 ≤ cap.toNat ∧
          ∃ rest, after = .entered (depth + 1) i.argument frame :: rest)) := by
  have hname := Validation.require_eq_ok_iff.1 hcheck
  rw [Surroundings.runnable?] at hname
  obtain ⟨text, htext⟩ := Option.isSome_iff_exists.1 hname
  have hrunnable : desk.runnable? i.argument = some text := by
    rw [Desk.runnable?, hcommands]
    exact htext
  refine ⟨Program.parse text, stores_of_runnable? hconfig hcommands hrunnable, ?_⟩
  obtain ⟨-, hfollows⟩ := execute_callFollows hevents hopcode
  cases hfollows with
  | refused hcap hending => exact .inl ⟨hcap, rfl, hending⟩
  | completed _ hnone | passedOver _ hnone => cases hnone.symm.trans hrunnable
  | entered hcap hsome =>
    obtain rfl := Option.some.inj (hsome.symm.trans hrunnable)
    exact .inr ⟨hcap, _, rfl⟩

end Accepted

end Engine

namespace Player

/-- Every frame of a run over an accepted configuration, or the one of defaults, is a valid program.
A frame that is entered holds a stored command that is not blank, which the call right before it
names. An instruction that is begun stands in the program of the request or in such a command, so it
is well formed; and a call names such a command, which it enters unless the run stops there at the
cap on depth. -/
theorem frames_of_answer {player : Player σ ι} {devices : Devices σ ι} {request : Request}
    {performance : Performance σ ι}
    (hconfig : player.config.check = .ok () ∨ player.config = {})
    (hanswer : player.answer devices request = .ok performance) :
    ∃ text, request.text? player.config = some text ∧ player.config.verdict text = .valid ∧
      (∀ before depth name frame after,
        performance.events = before ++ .entered depth name frame :: after →
        player.config.Stores name frame ∧
          ∃ earlier caller position i cap, before = earlier ++ [.began caller position i cap] ∧
            i.opcode? = some .runCommand ∧ i.argument = name ∧ depth = caller + 1) ∧
      ∀ before depth position i cap after,
        performance.events = before ++ .began depth position i cap :: after →
        let moment := (Moment.start (Program.parse text) player.locator player.injector).afterAll
          (player.desk devices) before
        let frame := moment.frame depth
        ((depth = 0 ∧ frame = Program.parse text) ∨ ∃ name, player.config.Stores name frame) ∧
          StandsIn frame position i ∧
          WellFormed i (frame.length - (position - 1)) ∧
          (i.opcode? = some .runCommand →
            ∃ called, player.config.Stores i.argument called ∧
              ((cap.toNat < depth + 1 ∧ after = [] ∧
                  performance.ending = .ok (.depthExceeded position cap i.argument)) ∨
                (depth + 1 ≤ cap.toNat ∧
                  ∃ rest, after = .entered (depth + 1) i.argument called :: rest))) := by
  have haccepted : player.config.check = .ok () := by
    rcases hconfig with hcheck | hdefault
    · exact hcheck
    · rw [hdefault]
      exact Config.check_default
  obtain ⟨text, htext, hvalid, rfl⟩ := answer_eq_ok_iff.1 hanswer
  have hcommands : (player.desk devices).command? = player.config.command? := rfl
  refine ⟨text, htext, hvalid, ?_, ?_⟩
  · intro before depth name frame after hevents
    exact stores_of_entered haccepted hcommands hevents
  · intro before depth position i cap after hevents moment frame
    obtain ⟨hstands, hframe⟩ := frame_of_began haccepted hcommands hevents
    have hcheck : Validation.checkInstruction player.config.surroundings i
        (frame.length - (position - 1)) = .ok () := by
      rcases hframe with ⟨-, hprogram⟩ | ⟨_, stored, -, -, hstored, hprogram⟩
      · have hall := Program.validate_eq_valid_iff.1 hvalid
        rw [← hprogram] at hall
        exact hall _ _ hstands.2
      · have hall := Program.validate_eq_valid_iff.1 hstored
        rw [← hprogram] at hall
        exact hall _ _ hstands.2
    refine ⟨hframe, hstands, wellFormed_of_checkInstruction hcheck, ?_⟩
    intro hopcode
    obtain ⟨-, op, hop, hargument⟩ := Validation.checkInstruction_eq_ok_iff.1 hcheck
    obtain rfl := Option.some.inj (hop.symm.trans hopcode)
    exact call_of_began haccepted hcommands hevents hopcode hargument

/-- A stored command that runs itself, with a cap on depth of one. -/
def cyclic : Config where
  engine := { matchThreshold := .zero, maxCallDepth := 1 }
  commands := ⟨[("go", "zgo")]⟩

/-- Devices that read no file and see nothing on the screen. -/
def blind : Devices Unit Unit where
  fileText? _ := none
  locator := (blindDesk fun _ ↦ none).locator
  injector := .failing fun _ ↦ false

/-- The request for the command enters it once and stops at the second call. -/
theorem frames_of_answer_of_cycle :
    cyclic.check = .ok () ∧
      ∃ performance,
        (Player.ofConfig cyclic () ()).answer blind (.command "go") = .ok performance ∧
        performance.ending = .ok (.depthExceeded 1 1 "go") ∧
        ∃ rest, performance.events = .began 0 1 ⟨some 'z', "go", none⟩ 1 ::
          .entered 1 "go" (Program.parse "zgo") :: rest ∧
          cyclic.Stores "go" (Program.parse "zgo") := by
  have hcheck : cyclic.check = .ok () :=
    Config.check_eq_ok_iff.2 ⟨by decide +kernel, rfl, by decide⟩
  have hanswer : (Player.ofConfig cyclic () ()).answer blind (.command "go") =
      .ok ((Player.ofConfig cyclic () ()).perform blind (Program.parse "zgo")) :=
    answer_eq_ok_iff.2 ⟨"zgo", rfl, by decide, rfl⟩
  have hending : ((Player.ofConfig cyclic () ()).perform blind (Program.parse "zgo")).ending =
      .ok (.depthExceeded 1 1 "go") := by
    cbv
  have hevents : ((Player.ofConfig cyclic () ()).perform blind (Program.parse "zgo")).events =
      [.began 0 1 ⟨some 'z', "go", none⟩ 1] ++ .entered 1 "go" (Program.parse "zgo") ::
        [.began 1 1 ⟨some 'z', "go", none⟩ 1] := by
    cbv
  obtain ⟨-, -, -, hentered, -⟩ := frames_of_answer (.inl hcheck) hanswer
  exact ⟨hcheck, _, hanswer, hending, _, hevents, (hentered _ _ _ _ _ hevents).1⟩

end Player

end Macropad
