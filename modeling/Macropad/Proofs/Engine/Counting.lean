import Mathlib
import Macropad.Proofs.Engine.CallDepth
import Macropad.Proofs.Engine.Stopping
import Macropad.Proofs.Engine.Unrolling

/-!
# How many instructions a completed run counts

`count` is read off a program and the stored commands alone. Every entry of the unrolling counts
one, whatever it asks for, and a call counts the program of its command besides. Commands may call
each other for ever, so this is an equation, `Counts`, between numbers that may be infinite; it has
exactly one solution (`counts_count`, `Counts.eq_count`).

A run has a counter instead, which its instructions raise one by one. A part of a run adds a number
when it raises the counter by it wherever it comes to its end (`Adds`). Actions add nothing
(`correspondence_adds`), an instruction adds its share, and a program adds its count: the induction
is on how much deeper the cap could still allow calls to nest, and below it along the unrolling. So
two runs that complete agree (`execute_count`), however different everything else about them is.
-/

set_option autoImplicit false

namespace Macropad.Engine

open Macropad.Input Macropad.Language Macropad.Screen Macropad.Setting

variable {σ ι : Type}

/-! ### The count of a program -/

section Count

variable (command? : String → Option String)

/-- The program that the instruction calls: that of a stored command whose text is not blank. -/
def called? (i : Instruction) : Option Program :=
  match i.opcode? with
  | some .runCommand =>
    ((command? i.argument).filter fun text ↦ !Text.allBlank text.toList).map Program.parse
  | _ => none

/-- What an instruction calls goes by the action that it asks for. -/
theorem called?_of_call {i : Instruction} {name : String}
    (haction : Action.ofInstruction i = .call name) :
    called? command? i =
      ((command? name).filter fun text ↦ !Text.allBlank text.toList).map Program.parse := by
  obtain ⟨op, hopcode, rfl, rfl⟩ := comesFrom_of_ofInstruction haction nofun
  rw [called?, hopcode]

theorem called?_of_not_call {i : Instruction}
    (hcall : ∀ name, Action.ofInstruction i ≠ .call name) : called? command? i = none := by
  rw [called?]
  split
  · rename_i hopcode
    exact absurd (ofInstruction_of_opcode hopcode rfl) (hcall i.argument)
  · rfl

/-- What the instruction counts when programs count this much. -/
def share (count : Program → ℕ∞) (i : Instruction) : ℕ∞ :=
  1 + (called? command? i).elim 0 count

/-- A program counts what the entries of its unrolling count. -/
def Counts (count : Program → ℕ∞) : Prop :=
  ∀ program, count program =
    ((unroll program).map fun entry ↦ share command? count entry.2).sum

/-- The count of a program when frames that nest `bound` deep count nothing. -/
def countWithin : Nat → Program → ℕ∞
  | 0, _ => 0
  | bound + 1, program =>
    ((unroll program).map fun entry ↦ share command? (countWithin bound) entry.2).sum

/-- How many instructions the program and the commands that it calls come to. -/
noncomputable def count (program : Program) : ℕ∞ := ⨆ bound, countWithin command? bound program

variable {command?}

/-- Everything but a call counts one, instructions that ask for nothing included. -/
theorem share_of_not_call {i : Instruction} (hcall : ∀ name, Action.ofInstruction i ≠ .call name)
    (count : Program → ℕ∞) : share command? count i = 1 := by
  rw [share, called?_of_not_call command? hcall]
  exact add_zero 1

theorem share_mono {first second : Program → ℕ∞} (hle : first ≤ second) (i : Instruction) :
    share command? first i ≤ share command? second i := by
  rw [share, share]
  cases called? command? i with
  | none => exact le_rfl
  | some program => exact add_le_add_right (hle program) 1

theorem countWithin_mono : Monotone (countWithin command?) := by
  refine monotone_nat_of_le_succ fun bound ↦ ?_
  induction bound with
  | zero => exact fun program ↦ zero_le
  | succ bound ih =>
    exact fun program ↦ List.sum_le_sum fun entry _ ↦ share_mono ih entry.2

/-- The share of an instruction in the count is that in the bounded counts in the end. -/
theorem share_count (i : Instruction) :
    share command? (count command?) i = ⨆ bound, share command? (countWithin command? bound) i := by
  simp only [share]
  cases called? command? i with
  | none => exact (ciSup_const).symm
  | some program => exact ENat.add_iSup _

theorem sum_share_count (entries : List (Nat × Instruction)) :
    ⨆ bound, (entries.map fun entry ↦ share command? (countWithin command? bound) entry.2).sum =
      (entries.map fun entry ↦ share command? (count command?) entry.2).sum := by
  induction entries with
  | nil => exact ciSup_const
  | cons entry rest ih =>
    simp only [List.map_cons, List.sum_cons]
    rw [← ih, share_count]
    refine (ENat.iSup_add_iSup_of_monotone ?_ ?_).symm
    · exact fun bound bound' hle ↦ share_mono (countWithin_mono hle) entry.2
    · exact fun bound bound' hle ↦ List.sum_le_sum fun entry _ ↦
        share_mono (countWithin_mono hle) entry.2

variable (command?) in
/-- The count satisfies its equation. -/
theorem counts_count : Counts command? (count command?) := by
  intro program
  have hmono : Monotone fun bound ↦ countWithin command? bound program :=
    fun bound bound' hle ↦ countWithin_mono hle program
  rw [count, ← sum_share_count, ← hmono.iSup_nat_add 1]
  rfl

/-- Where a solution is finite, every other one is the same. The induction is on its value, which
is smaller for the programs that are called. -/
theorem Counts.eq_of_finite {first second : Program → ℕ∞} (hfirst : Counts command? first)
    (hsecond : Counts command? second) (bound : Nat) (program : Program)
    (hbound : first program = bound) : second program = first program := by
  induction bound using Nat.strong_induction_on generalizing program with
  | _ bound ih =>
    rw [hfirst program, hsecond program]
    refine congrArg List.sum (List.map_congr_left fun entry hentry ↦ ?_)
    rw [share, share]
    cases hcalled : called? command? entry.2 with
    | none => rfl
    | some callee =>
      have hshare : 1 + first callee ≤ bound := by
        have hmem : share command? first entry.2 ∈
            (unroll program).map fun entry ↦ share command? first entry.2 :=
          List.mem_map_of_mem hentry
        rw [← hbound, hfirst program]
        refine le_trans ?_ (List.single_le_sum (fun _ _ ↦ zero_le) _ hmem)
        rw [share, hcalled]
        rfl
      obtain ⟨value, hvalue⟩ : ∃ value : Nat, first callee = value :=
        ENat.ne_top_iff_exists.1 (ne_top_of_le_ne_top (ENat.natCast_ne_top bound)
          (le_trans le_add_self hshare)) |>.imp fun _ ↦ Eq.symm
      have hless : value < bound := by
        rw [hvalue] at hshare
        have hshare : 1 + value ≤ bound := by exact_mod_cast hshare
        omega
      exact congrArg (1 + ·) (ih value hless callee hvalue)

/-- The equation has one solution only. -/
theorem Counts.eq_count {other : Program → ℕ∞} (hother : Counts command? other) :
    other = count command? := by
  funext program
  by_cases hfinite : other program = ⊤
  · by_cases hfinite' : count command? program = ⊤
    · rw [hfinite, hfinite']
    · obtain ⟨value, hvalue⟩ := ENat.ne_top_iff_exists.1 hfinite'
      exact (counts_count command?).eq_of_finite hother value program hvalue.symm
  · obtain ⟨value, hvalue⟩ := ENat.ne_top_iff_exists.1 hfinite
    exact (hother.eq_of_finite (counts_count command?) value program hvalue.symm).symm

end Count

/-! ### What a run counts -/

/-- The part of a run raises the counter by `n` when it comes to its end. -/
def Adds {α : Type} (n : ℕ∞) (part : Running σ ι α) : Prop :=
  ∀ s a s', part.run s = .ok a s' → (s'.executed : ℕ∞) = s.executed + n

theorem Adds.bind {α β : Type} {m n : ℕ∞} {part : Running σ ι α} {next : α → Running σ ι β}
    (hpart : Adds m part) (hnext : ∀ a, Adds n (next a)) : Adds (m + n) (part >>= next) := by
  intro s b s' hrun
  rw [EStateM.run_bind] at hrun
  cases hresult : part.run s with
  | error stop s₁ =>
    rw [hresult] at hrun
    cases hrun
  | ok a s₁ =>
    rw [hresult] at hrun
    rw [hnext a s₁ b s' hrun, hpart s a s₁ hresult, add_assoc]

/-- A part that leaves the counter as it is. -/
theorem adds_zero {α : Type} {part : Running σ ι α}
    (hpart : ∀ s a s', part.run s = .ok a s' → s'.executed = s.executed) : Adds 0 part := by
  intro s a s' hrun
  rw [hpart s a s' hrun, add_zero]

theorem adds_pure {α : Type} (a : α) : Adds 0 (pure a : Running σ ι α) :=
  adds_zero fun _ _ _ hrun ↦ by cases hrun; rfl

theorem eq_of_resume {α : Type} {result : Except Stop α} {a : α} {s s' : State σ ι}
    (hresult : resume result s = .ok a s') : s' = s := by
  cases result with
  | error stop => cases hresult
  | ok value =>
    cases hresult
    rfl

theorem adds_wrapUp : Adds 1 (wrapUp : Running σ ι Unit) := by
  intro s a s' hrun
  cases hrun
  exact Nat.cast_succ s.executed

variable (desk : Desk σ ι)

/-- Actions do not count. -/
theorem correspondence_adds (position : Nat) :
    Correspondence desk desk position position fun part _ ↦ Adds 0 part where
  files := rfl
  pure := adds_pure
  bind hpart hnext := by simpa only [add_zero] using hpart.bind hnext
  session hnext s := hnext s.session s
  pause _ := adds_zero fun _ _ _ hrun ↦ by cases hrun; rfl
  inject _ := adds_zero fun _ _ _ hrun ↦ by cases hrun; rfl
  tooLong := fun _ _ _ ↦ nofun
  locate image wait := adds_zero fun s _ _ hrun ↦ by
    rw [run_locate_eq] at hrun
    rw [eq_of_resume hrun]
    rfl
  locateAll image := adds_zero fun s _ _ hrun ↦ by
    rw [run_locateAll_eq] at hrun
    rw [eq_of_resume hrun]
    rfl
  update change := adds_zero fun _ _ _ hrun ↦ by cases change <;> cases hrun <;> rfl

/-- An instruction adds its share, when the programs of deeper frames add their counts. -/
theorem adds_step (depth position : Nat) (i : Instruction)
    (hframes : depth + 1 < UInt64.size → ∀ program,
      Adds (count desk.command? program) (runFrom desk (depth + 1) 1 program)) :
    Adds (share desk.command? (count desk.command?) i) (step desk depth position i) := by
  intro s _ s' hrun
  generalize haction : Action.ofInstruction i = a
  cases way desk depth s.session a with
  | acts hcall =>
    have hshare : share desk.command? (count desk.command?) i = 1 :=
      share_of_not_call (fun name ↦ haction.symm ▸ hcall name) _
    have hacts := ((correspondence_adds desk position).perform a).bind fun _ ↦ adds_wrapUp
    rw [run_step_of_not_call desk haction hcall] at hrun
    rw [hacts _ _ _ hrun, hshare, zero_add]
    rfl
  | refused hcap =>
    rw [run_step_refused desk depth position haction hcap] at hrun
    cases hrun
  | absent hcap hname =>
    have hcalled : called? desk.command? i = none :=
      (called?_of_call desk.command? haction).trans (congrArg (Option.map Program.parse) hname)
    rw [run_step_absent desk depth position haction hcap hname] at hrun
    rw [adds_wrapUp _ _ _ hrun, share, hcalled]
    rfl
  | @entered name text hcap hdepth hname =>
    have hcalled : called? desk.command? i = some (Program.parse text) :=
      (called?_of_call desk.command? haction).trans (congrArg (Option.map Program.parse) hname)
    have hframe := (hframes hdepth (Program.parse text)).bind fun _ ↦ adds_wrapUp
    rw [run_step_entered desk depth position haction hcap hname] at hrun
    rw [hframe _ _ _ hrun, share, hcalled, add_comm 1]
    rfl

/-- A program adds its count. -/
theorem adds_runFrom (depth : Nat) (program : Program) :
    Adds (count desk.command? program) (runFrom desk depth 1 program) := by
  induction hroom : UInt64.size - depth using Nat.strongRecOn generalizing depth program with
  | _ room ih =>
    have hframes (hdepth : depth + 1 < UInt64.size) (callee : Program) :
        Adds (count desk.command? callee) (runFrom desk (depth + 1) 1 callee) :=
      ih (UInt64.size - (depth + 1)) (by omega) (depth + 1) callee rfl
    have horder (entries : List (Nat × Instruction)) :
        Adds (entries.map fun entry ↦ share desk.command? (count desk.command?) entry.2).sum
          (inOrder desk depth entries) := by
      induction entries with
      | nil => exact adds_pure ()
      | cons entry rest ih =>
        exact (adds_step desk depth (entry.1 + 1) entry.2 hframes).bind fun _ ↦ ih
    have hrange := runFrom_eq_inOrder desk depth program 0 program.length
    rw [List.take_length, List.drop_zero] at hrange
    rw [hrange, counts_count desk.command? program]
    exact horder (unroll program)

theorem count_eq_executed {desk : Desk σ ι} {program : Program} {session : Session} {locator : σ}
    {injector : ι} {executed : Nat}
    (hcompleted : (execute desk program session locator injector).ending =
      .ok (.completed executed)) : count desk.command? program = executed := by
  rw [execute_eq] at hcompleted
  cases hresult : (runFrom desk 0 1 program).run (.start session locator injector) with
  | ok _ s =>
    rw [hresult] at hcompleted
    cases hcompleted
    rw [adds_runFrom desk 0 program _ _ _ hresult]
    exact (zero_add _).symm
  | error stop s =>
    rw [hresult] at hcompleted
    cases stop <;> cases hcompleted

/-- A run that completes has executed the count of its program, which is the only solution of its
equation and in which everything but a call counts one, skipped instructions included. So all
completed runs of one program with the same stored commands report the same number. -/
theorem execute_count (desk : Desk σ ι) (program : Program) (session : Session) (locator : σ)
    (injector : ι) {executed : Nat}
    (hcompleted : (execute desk program session locator injector).ending =
      .ok (.completed executed)) :
    (∀ other, Counts desk.command? other ↔ other = count desk.command?) ∧
      (∀ i, (∀ name, Action.ofInstruction i ≠ .call name) →
        share desk.command? (count desk.command?) i = 1) ∧
      count desk.command? program = executed ∧
      ∀ {σ' ι' : Type} (desk' : Desk σ' ι') (session' : Session) (locator' : σ') (injector' : ι')
        (executed' : Nat), desk'.command? = desk.command? →
        (execute desk' program session' locator' injector').ending = .ok (.completed executed') →
        executed' = executed := by
  refine ⟨?_, fun i hcall ↦ share_of_not_call hcall _, count_eq_executed hcompleted, ?_⟩
  · exact fun other ↦ ⟨Counts.eq_count, fun hother ↦ hother ▸ counts_count desk.command?⟩
  · intro σ' ι' desk' session' locator' injector' executed' hcommands hcompleted'
    have hcount := count_eq_executed hcompleted'
    rw [hcommands, count_eq_executed hcompleted] at hcount
    exact (Nat.cast_inj.1 hcount).symm

/-- A call in a loop counts with its command each time, unknown opcodes included. -/
theorem execute_count_of_loop :
    count (fun _ ↦ some "w;c") (Program.parse "[2]zb;p") = 7 := by
  have hcompleted : (execute (blindDesk fun _ ↦ some "w;c") (Program.parse "[2]zb;p") .immediate ()
      ()).ending = .ok (.completed 7) := by
    cbv
  exact (execute_count (blindDesk fun _ ↦ some "w;c") (Program.parse "[2]zb;p") .immediate () ()
    hcompleted).2.2.1

end Macropad.Engine
