import Macropad.Engine.Run

/-!
# The instructions of a run

An instruction that is no call performs its action. A call is refused by the cap on depth, finds
no stored command, or enters the frame of one. These four ways (`way`) and the equations for them
(`run_step_of_not_call`, `run_step_refused`, `run_step_absent`, `run_step_entered`) are all that
later modules use of a single instruction. Some actions come from one opcode only, and
`comesFrom_of_ofInstruction` leads from such an action back to it.

`runFrom_rec` is the induction along a run: its frames lie one level deeper than the instruction
that enters them, and the depth of a frame stays below the limit of the cap. `runFrom_related` is
its form for a relation between parts of two runs that sequences keep, and `runFrom_holds` the
form for a property of parts of one run.
-/

set_option autoImplicit false

namespace Macropad.Engine

open Macropad.Input Macropad.Language Macropad.Screen Macropad.Setting

variable {σ ι σ' ι' : Type} (desk : Desk σ ι)

/-- How a run ends that is stopped. -/
def Stop.ending : Stop → Except Halt Outcome
  | .timedOut position image => .ok (.timedOut position image)
  | .depthExceeded position max name => .ok (.depthExceeded position max name)
  | .halted halt => .error halt

namespace State

/-- The state that a run starts in. -/
def start (session : Session) (locator : σ) (injector : ι) : State σ ι where
  session := session
  locator := locator
  injector := injector

end State

/-- The run that comes to this result. -/
def Finished.ofResult : EStateM.Result Stop (State σ ι) Unit → Finished σ ι
  | .ok _ s => ⟨.ok (.completed s.executed), s⟩
  | .error stop s => ⟨stop.ending, s⟩

theorem execute_eq (program : Program) (session : Session) (locator : σ) (injector : ι) :
    execute desk program session locator injector =
      .ofResult ((runFrom desk 0 1 program).run (.start session locator injector)) := by
  rw [execute, EStateM.run, State.start]
  match runFrom desk 0 1 program
    { session := session, locator := locator, injector := injector } with
  | .ok () s => rfl
  | .error (.timedOut position image) s => rfl
  | .error (.depthExceeded position max name) s => rfl
  | .error (.halted halt) s => rfl

/-! ### One instruction -/

/-- Whether the event is a call of a collaborator. -/
def Event.isCall : Event → Bool
  | .began .. | .entered .. => false
  | _ => true

/-- The state in which an instruction has been begun. -/
def State.begin (depth position : Nat) (i : Instruction) (s : State σ ι) : State σ ι :=
  s.record (.began depth position i s.session.maxCallDepth)

/-- What the opcode of an instruction asks for, the instruction asks for. -/
theorem ofInstruction_of_opcode {i : Instruction} {op : Opcode} {a : Action}
    (hopcode : i.opcode? = some op) (hasked : Action.ofOpcode? op i.argument = some a) :
    Action.ofInstruction i = a := by
  rw [Action.ofInstruction, hopcode]
  exact congrArg (·.getD .skip) hasked

/-- An instruction that asks for something has an opcode, which asks for it. -/
theorem exists_opcode_of_ofInstruction {i : Instruction} {a : Action}
    (haction : Action.ofInstruction i = a) (hskip : a ≠ .skip) :
    ∃ op, i.opcode? = some op ∧ Action.ofOpcode? op i.argument = some a := by
  rw [Action.ofInstruction] at haction
  cases hop : i.opcode? with
  | none =>
    rw [hop] at haction
    exact absurd haction.symm hskip
  | some op =>
    rw [hop] at haction
    refine ⟨op, rfl, ?_⟩
    cases hasked : Action.ofOpcode? op i.argument with
    | none =>
      simp only [hasked, Option.getD_none] at haction
      exact absurd haction.symm hskip
    | some a' =>
      simp only [hasked, Option.getD_some] at haction
      rw [haction]

/-- The opcode that an action comes from and what was read of its argument, for the actions that
one opcode alone asks for. -/
def Action.ComesFrom (op : Opcode) (argument : String) : Action → Prop
  | .await timed => op = .waitForImageWithTimeout ∧ TimedImage.parse argument = .ok timed
  | .call name => op = .runCommand ∧ argument = name
  | .switchWindows times => op = .altTab ∧ Action.count? argument = some times
  | .update _ => op = .updateSetting
  | _ => True

theorem Action.comesFrom_of_ofOpcode? {op : Opcode} {argument : String} {a : Action}
    (hasked : Action.ofOpcode? op argument = some a) : a.ComesFrom op argument := by
  cases op <;>
    grind [Action.ComesFrom, Action.ofOpcode?, Action.respond?, Action.drag?, Action.update?,
      Option.map_eq_some_iff]

/-- An instruction that asks for something has an opcode, and its action comes from there. -/
theorem comesFrom_of_ofInstruction {i : Instruction} {a : Action}
    (haction : Action.ofInstruction i = a) (hskip : a ≠ .skip) :
    ∃ op, i.opcode? = some op ∧ a.ComesFrom op i.argument := by
  obtain ⟨op, hop, hasked⟩ := exists_opcode_of_ofInstruction haction hskip
  exact ⟨op, hop, Action.comesFrom_of_ofOpcode? hasked⟩

/-- An instruction that is no call performs its action. -/
theorem run_step_of_not_call {i : Instruction} {a : Action} (haction : Action.ofInstruction i = a)
    (hcall : ∀ name, a ≠ .call name) (depth position : Nat) (s : State σ ι) :
    (step desk depth position i).run s =
      (do perform desk position a; wrapUp).run (s.begin depth position i) := by
  subst haction
  rw [step]
  split
  · rename_i name haction
    exact absurd haction (hcall name)
  · rfl

section Call

variable {i : Instruction} {name : String} {s : State σ ι} (depth position : Nat)
  (haction : Action.ofInstruction i = .call name)

include haction

/-- A call that would nest deeper than the cap allows stops the run. -/
theorem run_step_refused (hcap : s.session.maxCallDepth.toNat < depth + 1) :
    (step desk depth position i).run s =
      .error (.depthExceeded position s.session.maxCallDepth name) (s.begin depth position i) := by
  rw [step]
  simp only [haction, EStateM.run_bind, EStateM.run_get, record, EStateM.run_modify, hcap, dif_pos]
  rfl

/-- A call without a stored command that can run does nothing. -/
theorem run_step_absent (hcap : depth + 1 ≤ s.session.maxCallDepth.toNat)
    (hname : desk.runnable? name = none) :
    (step desk depth position i).run s = wrapUp.run (s.begin depth position i) := by
  rw [step]
  simp only [haction, EStateM.run_bind, EStateM.run_get, record, EStateM.run_modify,
    Nat.not_lt.2 hcap, dif_neg, hname, not_false_eq_true]
  rfl

/-- Every other call runs its stored command as a frame of its own. -/
theorem run_step_entered {text : String} (hcap : depth + 1 ≤ s.session.maxCallDepth.toNat)
    (hname : desk.runnable? name = some text) :
    (step desk depth position i).run s =
      (do runFrom desk (depth + 1) 1 (Program.parse text); wrapUp).run
        ((s.begin depth position i).record (.entered (depth + 1) name (Program.parse text))) := by
  rw [step]
  simp only [haction, EStateM.run_bind, EStateM.run_get, record, EStateM.run_modify,
    Nat.not_lt.2 hcap, dif_neg, hname, not_false_eq_true]
  rfl

end Call

/-- The ways in which an action can go at a depth and in a session. -/
inductive Way (desk : Desk σ ι) (depth : Nat) (session : Session) : Action → Prop
  | acts {a : Action} (hcall : ∀ name, a ≠ .call name) : Way desk depth session a
  | refused {name : String} (hcap : session.maxCallDepth.toNat < depth + 1) :
    Way desk depth session (.call name)
  | absent {name : String} (hcap : depth + 1 ≤ session.maxCallDepth.toNat)
      (hname : desk.runnable? name = none) : Way desk depth session (.call name)
  | entered {name text : String} (hcap : depth + 1 ≤ session.maxCallDepth.toNat)
      (hdepth : depth + 1 < UInt64.size) (hname : desk.runnable? name = some text) :
    Way desk depth session (.call name)

/-- Every action goes one of the four ways, and only depths of 64 bits are entered. -/
theorem way (depth : Nat) (session : Session) (a : Action) : Way desk depth session a := by
  by_cases hcall : ∃ name, a = .call name
  · obtain ⟨name, rfl⟩ := hcall
    rcases Nat.lt_or_ge session.maxCallDepth.toNat (depth + 1) with hcap | hcap
    · exact .refused hcap
    have hdepth : depth + 1 < UInt64.size :=
      Nat.lt_of_le_of_lt hcap session.maxCallDepth.toNat_lt_size
    cases hname : desk.runnable? name with
    | none => exact .absent hcap hname
    | some text => exact .entered hcap hdepth hname
  · exact .acts fun name hname ↦ hcall ⟨name, hname⟩

/-! ### Induction along a run -/

theorem runFrom_nil (depth position : Nat) : runFrom desk depth position [] = pure () := by
  rw [runFrom]

theorem runFrom_cons (depth position : Nat) (i : Instruction) (rest : Program) :
    runFrom desk depth position (i :: rest) = (do
      replay
        (do
          step desk depth position i
          runFrom desk depth (position + 1) (rest.take i.followers))
        i.passes
      runFrom desk depth (position + 1 + i.followers) (rest.drop i.followers)) := by
  rw [runFrom]

/-- An instruction that begins no loop runs once, for itself alone. -/
theorem runFrom_cons_of_not_loop (depth position : Nat) {i : Instruction} (rest : Program)
    (hloop : i.loop? = none) :
    runFrom desk depth position (i :: rest) =
      (do step desk depth position i; runFrom desk depth (position + 1) rest) := by
  have hpasses : i.passes = 1 := by rw [Instruction.passes, hloop]
  have hfollowers : i.followers = 0 := by rw [Instruction.followers, hloop]
  rw [runFrom_cons, hpasses, hfollowers, List.take_zero, List.drop_zero, runFrom_nil, Nat.add_zero]
  simp only [replay, bind_assoc, pure_bind]

/-- A run of one instruction that is no call and has no header performs the action. -/
theorem execute_single {i : Instruction} {a : Action} (haction : Action.ofInstruction i = a)
    (hcall : ∀ name, a ≠ .call name) (hheader : i.header = none) (session : Session) (locator : σ)
    (injector : ι) :
    execute desk [i] session locator injector =
      .ofResult ((do perform desk 1 a; wrapUp).run
        ((State.start session locator injector).begin 0 1 i)) := by
  have hloop : i.loop? = none := by rw [Instruction.loop?, hheader]
  rw [execute_eq, runFrom_cons_of_not_loop desk 0 1 [] hloop, runFrom_nil,
    ← run_step_of_not_call desk haction hcall, bind_pure_unit]

/-- The induction along a run: over the block of an instruction, over what stands behind the block
and, as long as the cap on depth can allow it, over every program of the next deeper frame. -/
theorem runFrom_rec {motive : Nat → Nat → Program → Prop}
    (nil : ∀ depth position, motive depth position [])
    (cons : ∀ depth position i rest,
      (depth + 1 < UInt64.size → ∀ program, motive (depth + 1) 1 program) →
      motive depth (position + 1) (rest.take i.followers) →
      motive depth (position + 1 + i.followers) (rest.drop i.followers) →
      motive depth position (i :: rest)) (depth position : Nat) (program : Program) :
    motive depth position program :=
  match program with
  | [] => nil depth position
  | i :: rest =>
    cons depth position i rest (fun _ program ↦ runFrom_rec nil cons (depth + 1) 1 program)
      (runFrom_rec nil cons depth (position + 1) (rest.take i.followers))
      (runFrom_rec nil cons depth (position + 1 + i.followers) (rest.drop i.followers))
termination_by (UInt64.size - depth, program.length)
decreasing_by
  · exact Prod.Lex.left _ _ (by omega)
  all_goals exact Prod.Lex.right _ (by simp; try omega)

/-- Passes of related blocks are related. -/
theorem replay_related {related : Running σ ι Unit → Running σ' ι' Unit → Prop}
    (hpure : related (pure ()) (pure ()))
    (hseq : ∀ first second first' second', related first first' → related second second' →
      related (do first; second) (do first'; second'))
    {body : Running σ ι Unit} {body' : Running σ' ι' Unit} (hbody : related body body') (n : Nat) :
    related (replay body n) (replay body' n) := by
  induction n with
  | zero => exact hpure
  | succ n ih => exact hseq _ _ _ _ hbody ih

/-- Every instruction of a program that starts at `position` of a frame at `depth` has the
property. -/
def Admits (admitted : Nat → Nat → Instruction → Prop) (depth position : Nat)
    (program : Program) : Prop :=
  ∀ k i, program[k]? = some i → admitted depth (position + k) i

theorem admits_true (depth position : Nat) (program : Program) :
    Admits (fun _ _ _ ↦ True) depth position program :=
  fun _ _ _ ↦ trivial

section Admits

variable {admitted : Nat → Nat → Instruction → Prop} {depth position : Nat} {i : Instruction}
  {rest : Program}

theorem Admits.head (hprogram : Admits admitted depth position (i :: rest)) :
    admitted depth position i :=
  hprogram 0 i rfl

theorem Admits.block (hprogram : Admits admitted depth position (i :: rest)) (n : Nat) :
    Admits admitted depth (position + 1) (rest.take n) := by
  intro k j hj
  have hrest : rest[k]? = some j := by
    rw [List.getElem?_take] at hj
    split at hj
    · exact hj
    · cases hj
  rw [Nat.add_assoc, Nat.add_comm 1 k]
  exact hprogram (k + 1) j hrest

theorem Admits.behind (hprogram : Admits admitted depth position (i :: rest)) (n : Nat) :
    Admits admitted depth (position + 1 + n) (rest.drop n) := by
  intro k j hj
  rw [List.getElem?_drop] at hj
  have hplace : position + 1 + n + k = position + (n + k + 1) := by omega
  rw [hplace]
  exact hprogram (n + k + 1) j hj

end Admits

/-- Two runs of one program are related when their instructions are. An instruction is taken with
the hypothesis that the runs of deeper frames are related. The second run may count positions in
another way, `place`, which goes on by one for each instruction and starts deeper frames at one. -/
theorem runFrom_related {desk : Desk σ ι} {desk' : Desk σ' ι'}
    {admitted : Nat → Nat → Instruction → Prop}
    {related : Nat → Running σ ι Unit → Running σ' ι' Unit → Prop} {place : Nat → Nat → Nat}
    (hplace : ∀ depth position n, place depth (position + n) = place depth position + n)
    (hentry : ∀ depth, place (depth + 1) 1 = 1)
    (hpure : ∀ depth, related depth (pure ()) (pure ()))
    (hseq : ∀ depth first second first' second', related depth first first' →
      related depth second second' → related depth (do first; second) (do first'; second'))
    (hstep : ∀ depth position i, admitted depth position i →
      (depth + 1 < UInt64.size → ∀ program, Admits admitted (depth + 1) 1 program →
        related (depth + 1) (runFrom desk (depth + 1) 1 program)
          (runFrom desk' (depth + 1) 1 program)) →
      related depth (step desk depth position i) (step desk' depth (place depth position) i))
    {depth position : Nat} {program : Program} (hprogram : Admits admitted depth position program) :
    related depth (runFrom desk depth position program)
      (runFrom desk' depth (place depth position) program) := by
  induction depth, position, program using runFrom_rec with
  | nil depth position =>
    rw [runFrom_nil, runFrom_nil]
    exact hpure depth
  | cons depth position i rest hframe hblock hrest =>
    rw [runFrom_cons, runFrom_cons, ← hplace depth position 1, ← hplace depth (position + 1)]
    refine hseq depth _ _ _ _ (replay_related (hpure depth) (hseq depth) ?_ _) ?_
    · refine hseq depth _ _ _ _ (hstep depth position i hprogram.head ?_) ?_
      · intro hdepth program hadmits
        have hentered := hframe hdepth program hadmits
        rwa [hentry depth] at hentered
      · exact hblock (hprogram.block i.followers)
    · exact hrest (hprogram.behind i.followers)

/-- A property of parts of a run that sequences keep holds of a run when it holds of its
instructions. -/
theorem runFrom_holds {desk : Desk σ ι} {admitted : Nat → Nat → Instruction → Prop}
    (holds : Nat → Running σ ι Unit → Prop) (hpure : ∀ depth, holds depth (pure ()))
    (hseq : ∀ depth first second, holds depth first → holds depth second →
      holds depth (do first; second))
    (hstep : ∀ depth position i, admitted depth position i →
      (depth + 1 < UInt64.size → ∀ program, Admits admitted (depth + 1) 1 program →
        holds (depth + 1) (runFrom desk (depth + 1) 1 program)) →
      holds depth (step desk depth position i))
    {depth position : Nat} {program : Program} (hprogram : Admits admitted depth position program) :
    holds depth (runFrom desk depth position program) :=
  @runFrom_related σ ι σ ι desk desk admitted (fun depth part _ ↦ holds depth part)
    (fun _ position ↦ position) (fun _ _ _ ↦ rfl) (fun _ ↦ rfl) hpure
    (fun depth first second _ _ ↦ hseq depth first second) hstep depth position program hprogram

end Macropad.Engine
