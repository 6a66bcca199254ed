import Macropad.Proofs.Engine.Running

/-!
# Runs as a machine

A machine that works a run off in small transitions. It keeps the tasks that are left on a stack:
programs with what is left of them, blocks with the passes that are left, instructions, and what
follows an instruction. A transition takes the topmost task apart or does it. Nothing bounds the
number of transitions beforehand: a block is put back after each pass, and a call puts a whole
program on the stack.

`Machine.reaches_ended` says that the machine ends all the same, for every program, desk and
session, and that it ends as the run does. The induction is the one along a run, `runFrom_rec`:
tasks simulate a part of a run (`Machine.Simulates`) when the machine works them off, whatever
stands below them, and goes on with the state or the stop that the part leaves.
-/

set_option autoImplicit false

namespace Macropad.Engine

open Macropad.Input Macropad.Language Macropad.Screen Macropad.Setting

namespace Machine

variable {σ ι : Type} (desk : Desk σ ι)

/-- What is left to be done. -/
inductive Task
  | program (depth position : Nat) (program : Program)
  /-- An instruction with the rest of its block, a number of times. -/
  | passes (depth position : Nat) (i : Instruction) (block : Program) (times : Nat)
  | instruction (depth position : Nat) (i : Instruction)
  | wrapUp

inductive Config (σ ι : Type)
  /-- The tasks that are left, the next one first. -/
  | running (tasks : List Task) (s : State σ ι)
  | ended (result : EStateM.Result Stop (State σ ι) Unit)

/-- How the machine goes on after a part of the run. -/
def proceed (tasks : List Task) : EStateM.Result Stop (State σ ι) Unit → Config σ ι
  | .ok () s => .running tasks s
  | .error stop s => .ended (.error stop s)

/-- How the machine goes on with an instruction that has been begun. -/
def enter (depth position : Nat) (i : Instruction) (tasks : List Task) (s : State σ ι) :
    Config σ ι :=
  match Action.ofInstruction i with
  | .call name =>
    if s.session.maxCallDepth.toNat < depth + 1 then
      .ended (.error (.depthExceeded position s.session.maxCallDepth name) s)
    else
      match desk.runnable? name with
      | none => .running (.wrapUp :: tasks) s
      | some text =>
        .running (.program (depth + 1) 1 (Program.parse text) :: .wrapUp :: tasks)
          (s.record (.entered (depth + 1) name (Program.parse text)))
  | action => proceed (.wrapUp :: tasks) ((perform desk position action).run s)

/-- One transition. -/
def advance : Config σ ι → Config σ ι
  | .running [] s => .ended (.ok () s)
  | .running (.program _ _ [] :: tasks) s => .running tasks s
  | .running (.program depth position (i :: rest) :: tasks) s =>
    .running
      (.passes depth position i (rest.take i.followers) i.passes ::
        .program depth (position + 1 + i.followers) (rest.drop i.followers) :: tasks) s
  | .running (.passes _ _ _ _ 0 :: tasks) s => .running tasks s
  | .running (.passes depth position i block (times + 1) :: tasks) s =>
    .running
      (.instruction depth position i :: .program depth (position + 1) block ::
        .passes depth position i block times :: tasks) s
  | .running (.instruction depth position i :: tasks) s =>
    enter desk depth position i tasks (s.begin depth position i)
  | .running (.wrapUp :: tasks) s => proceed tasks (wrapUp.run s)
  | .ended result => .ended result

/-- A number of transitions. -/
def run : Nat → Config σ ι → Config σ ι
  | 0, config => config
  | n + 1, config => run n (advance desk config)

/-- One configuration comes to another in finitely many transitions. -/
def Reaches (config config' : Config σ ι) : Prop := ∃ n, run desk n config = config'

variable {desk}

theorem run_add (m n : Nat) (config : Config σ ι) :
    run desk (m + n) config = run desk n (run desk m config) := by
  induction m generalizing config with
  | zero => rw [Nat.zero_add, run]
  | succ m ih => rw [Nat.succ_add, run, ih, run]

theorem Reaches.refl (config : Config σ ι) : Reaches desk config config := ⟨0, rfl⟩

theorem Reaches.trans {first second third : Config σ ι} (hfirst : Reaches desk first second)
    (hsecond : Reaches desk second third) : Reaches desk first third := by
  obtain ⟨m, rfl⟩ := hfirst
  obtain ⟨n, rfl⟩ := hsecond
  exact ⟨m + n, run_add m n first⟩

theorem Reaches.of_advance {config config' : Config σ ι}
    (hrest : Reaches desk (advance desk config) config') : Reaches desk config config' := by
  obtain ⟨n, rfl⟩ := hrest
  exact ⟨n + 1, rfl⟩

/-! ### Tasks and parts of a run -/

variable (desk) in
/-- The machine works the tasks off as the part of the run says. -/
def Simulates (tasks : List Task) (part : Running σ ι Unit) : Prop :=
  ∀ below s, Reaches desk (.running (tasks ++ below) s) (proceed below (part.run s))

theorem simulates_nil : Simulates desk [] (pure ()) := fun _ _ ↦ .refl _

theorem Simulates.seq {tasks tasks' : List Task} {first second : Running σ ι Unit}
    (hfirst : Simulates desk tasks first) (hsecond : Simulates desk tasks' second) :
    Simulates desk (tasks ++ tasks') (do first; second) := by
  intro below s
  have hreaches := hfirst (tasks' ++ below) s
  rw [EStateM.run_bind, List.append_assoc]
  cases hresult : first.run s with
  | ok _ s₁ =>
    rw [hresult] at hreaches
    exact hreaches.trans (hsecond below s₁)
  | error stop s₁ =>
    rw [hresult] at hreaches
    exact hreaches

theorem simulates_wrapUp : Simulates desk [.wrapUp] wrapUp :=
  fun _ _ ↦ .of_advance (.refl _)

/-- A task that a transition takes apart. -/
theorem Simulates.of_advance {task : Task} {tasks : List Task} {part : Running σ ι Unit}
    (hadvance : ∀ below s,
      advance desk (.running (task :: below) s) = .running (tasks ++ below) s)
    (htasks : Simulates desk tasks part) : Simulates desk [task] part := by
  intro below s
  refine .of_advance ?_
  rw [List.singleton_append, hadvance]
  exact htasks below s

theorem enter_of_not_call (depth position : Nat) {i : Instruction} {a : Action}
    (haction : Action.ofInstruction i = a) (hcall : ∀ name, a ≠ .call name) (below : List Task)
    (s : State σ ι) :
    enter desk depth position i below s =
      proceed (.wrapUp :: below) ((perform desk position a).run s) := by
  subst haction
  unfold enter
  split
  · rename_i name haction
    exact absurd haction (hcall name)
  · rfl

/-- An instruction, when the programs of deeper frames are worked off. -/
theorem simulates_instruction (depth position : Nat) (i : Instruction)
    (hframe : depth + 1 < UInt64.size → ∀ program : Program,
      Simulates desk [.program (depth + 1) 1 program] (runFrom desk (depth + 1) 1 program)) :
    Simulates desk [.instruction depth position i] (step desk depth position i) := by
  intro below s
  refine .of_advance ?_
  change Reaches desk (enter desk depth position i below (s.begin depth position i)) _
  have hcaps : (s.begin depth position i).session.maxCallDepth = s.session.maxCallDepth := rfl
  generalize haction : Action.ofInstruction i = a
  cases way desk depth s.session a with
  | acts hcall =>
    rw [run_step_of_not_call desk haction hcall, enter_of_not_call depth position haction hcall,
      EStateM.run_bind]
    cases (perform desk position a).run (s.begin depth position i) with
    | ok _ s₁ => exact simulates_wrapUp below s₁
    | error stop s₁ => exact .refl _
  | refused hcap =>
    rw [run_step_refused desk depth position haction hcap]
    simp only [enter, haction, hcaps, hcap, if_true]
    exact .refl _
  | absent hcap hname =>
    rw [run_step_absent desk depth position haction hcap hname]
    simp only [enter, haction, hcaps, Nat.not_lt.2 hcap, if_false, hname]
    exact simulates_wrapUp below _
  | entered hcap hdepth hname =>
    rw [run_step_entered desk depth position haction hcap hname]
    simp only [enter, haction, hcaps, Nat.not_lt.2 hcap, if_false, hname]
    exact ((hframe hdepth _).seq simulates_wrapUp) below _

/-- The passes of a block, when its instruction and the rest of it are worked off. -/
theorem simulates_passes {depth position : Nat} {i : Instruction} {block : Program}
    (hinstruction : Simulates desk [.instruction depth position i] (step desk depth position i))
    (hblock : Simulates desk [.program depth (position + 1) block]
      (runFrom desk depth (position + 1) block)) (times : Nat) :
    Simulates desk [.passes depth position i block times]
      (replay (do step desk depth position i; runFrom desk depth (position + 1) block) times) := by
  induction times with
  | zero => exact .of_advance (fun _ _ ↦ rfl) simulates_nil
  | succ times ih =>
    have hpass := (hinstruction.seq hblock).seq ih
    exact .of_advance (fun _ _ ↦ rfl) hpass

/-- A program. -/
theorem simulates_program (depth position : Nat) (program : Program) :
    Simulates desk [.program depth position program] (runFrom desk depth position program) := by
  induction depth, position, program using runFrom_rec with
  | nil depth position =>
    rw [runFrom_nil]
    exact .of_advance (fun _ _ ↦ rfl) simulates_nil
  | cons depth position i rest hframe hblock hrest =>
    have hinstruction := simulates_instruction depth position i hframe
    rw [runFrom_cons]
    exact .of_advance (fun _ _ ↦ rfl)
      ((simulates_passes hinstruction hblock i.passes).seq hrest)

/-- The machine ends a program in finitely many transitions, and it ends as the run does. -/
theorem reaches_ended (program : Program) (s : State σ ι) :
    Reaches desk (.running [.program 0 1 program] s)
      (.ended ((runFrom desk 0 1 program).run s)) := by
  refine (simulates_program 0 1 program [] s).trans ?_
  cases (runFrom desk 0 1 program).run s with
  | ok _ s₁ => exact .of_advance (.refl _)
  | error stop s₁ => exact .refl _

end Machine

end Macropad.Engine
