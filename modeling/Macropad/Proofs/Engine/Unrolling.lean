import Macropad.Proofs.Engine.Alike

/-!
# Loops are their unrolling

`unroll` writes a program out without its loops: each block as often as its header says, blocks
inside of it cut off at its end, and every entry with the index of its instruction. A run of the
program is the run of these entries in order (`runFrom_eq_inOrder`), each at its own position.

`execute_unroll` compares it with the run of the unrolling as a program of its own, whose
instructions have no headers and stand at other positions. Both make the same calls and leave the
same session. They end alike, and a stop in the frame of the program itself is reported at the
place of one and the same entry, counted in the program or in its unrolling.
-/

set_option autoImplicit false

namespace Macropad.Engine

open Macropad.Input Macropad.Language Macropad.Screen Macropad.Setting

variable {σ ι : Type} (desk : Desk σ ι)

/-! ### Unrolling -/

/-- What the instructions with the indices from `i` on and before `stop` come to, each with its
index: a block is repeated as often as its header says, and it ends at `stop` at the latest. -/
def unrollRange (program : Program) (i stop : Nat) : List (Nat × Instruction) :=
  if _h : i < stop then
    match program[i]? with
    | none => []
    | some instruction =>
      match instruction.loop? with
      | none => (i, instruction) :: unrollRange program (i + 1) stop
      | some spec =>
        (List.replicate spec.count.val
            ((i, instruction) :: unrollRange program (i + 1) (min (i + spec.span) stop))).flatten ++
          unrollRange program (min (i + spec.span) stop) stop
  else []
termination_by stop - i
decreasing_by
  all_goals have := LoopSpec.span_pos
  · omega
  · have := this spec
    omega
  · have := this spec
    omega

/-- A program without its loops. -/
def unroll (program : Program) : List (Nat × Instruction) := unrollRange program 0 program.length

/-- Instructions one after another, each once and at the position that its index says. -/
def inOrder (depth : Nat) : List (Nat × Instruction) → Running σ ι Unit
  | [] => pure ()
  | (index, i) :: rest => do
    step desk depth (index + 1) i
    inOrder depth rest

theorem inOrder_append (depth : Nat) (first second : List (Nat × Instruction)) :
    inOrder desk depth (first ++ second) =
      (do inOrder desk depth first; inOrder desk depth second) := by
  induction first with
  | nil => rw [List.nil_append, inOrder, pure_bind]
  | cons entry rest ih => rw [List.cons_append, inOrder, inOrder, ih, bind_assoc]

/-- Passes of a block are the block that often in a row. -/
theorem replay_inOrder (depth : Nat) (block : List (Nat × Instruction)) (n : Nat) :
    replay (inOrder desk depth block) n =
      inOrder desk depth (List.replicate n block).flatten := by
  induction n with
  | zero => rfl
  | succ n ih => rw [replay, ih, List.replicate_succ, List.flatten_cons, inOrder_append]

section Range

variable {program : Program} {i stop : Nat} {instruction : Instruction}

/-- The first instruction of a part of a program, and the rest of the part. -/
theorem range_eq_cons (hi : i < stop) (hinstruction : program[i]? = some instruction) :
    (program.take stop).drop i = instruction :: (program.take stop).drop (i + 1) := by
  have hpart : (program.take stop)[i]? = some instruction := by
    rw [List.getElem?_take, if_pos hi, hinstruction]
  obtain ⟨hlength, rfl⟩ := List.getElem?_eq_some_iff.1 hpart
  exact List.drop_eq_getElem_cons hlength

/-- A part of a program that starts behind it is empty. -/
theorem range_eq_nil (hi : program[i]? = none) : (program.take stop).drop i = [] := by
  rw [List.getElem?_eq_none_iff] at hi
  rw [List.drop_eq_nil_iff, List.length_take]
  exact Nat.le_trans (Nat.min_le_right _ _) hi

/-- A block of `span` instructions ends after them or where the part ends. -/
theorem take_range {span : Nat} (hspan : 1 ≤ span) :
    ((program.take stop).drop (i + 1)).take (span - 1) =
      (program.take (min (i + span) stop)).drop (i + 1) := by
  have hend : i + 1 + (span - 1) = i + span := by omega
  rw [List.take_drop, hend, List.take_take]

/-- Behind a block of `span` instructions the rest of the part stands, at its place. -/
theorem runFrom_drop_range (depth : Nat) {span : Nat} (hspan : 1 ≤ span) :
    runFrom desk depth (i + 1 + 1 + (span - 1))
        (((program.take stop).drop (i + 1)).drop (span - 1)) =
      runFrom desk depth (min (i + span) stop + 1)
        ((program.take stop).drop (min (i + span) stop)) := by
  have hstart : i + 1 + (span - 1) = i + span := by omega
  have hposition : i + 1 + 1 + (span - 1) = i + span + 1 := by omega
  rw [List.drop_drop, hstart, hposition]
  rcases Nat.le_total (i + span) stop with hle | hle
  · rw [Nat.min_eq_left hle]
  · have hlength : (program.take stop).length ≤ stop := List.length_take_le stop program
    rw [Nat.min_eq_right hle, List.drop_eq_nil_of_le hlength,
      List.drop_eq_nil_of_le (Nat.le_trans hlength hle), runFrom_nil, runFrom_nil]

end Range

/-- A part of a program runs as its unrolling. -/
theorem runFrom_eq_inOrder (depth : Nat) (program : Program) (i stop : Nat) :
    runFrom desk depth (i + 1) ((program.take stop).drop i) =
      inOrder desk depth (unrollRange program i stop) := by
  induction i, stop using unrollRange.induct program with
  | case1 i stop hi hnone =>
    rw [range_eq_nil hnone, runFrom_nil, unrollRange, dif_pos hi, hnone]
    rfl
  | case2 i stop hi instruction hinstruction hloop ih =>
    have hunroll : unrollRange program i stop =
        (i, instruction) :: unrollRange program (i + 1) stop := by
      rw [unrollRange, dif_pos hi, hinstruction]
      simp only [hloop]
    rw [range_eq_cons hi hinstruction, runFrom_cons_of_not_loop desk depth _ _ hloop, ih, hunroll]
    rfl
  | case3 i stop hi instruction hinstruction spec hloop ih ih' =>
    have hunroll : unrollRange program i stop =
        (List.replicate spec.count.val
            ((i, instruction) :: unrollRange program (i + 1) (min (i + spec.span) stop))).flatten ++
          unrollRange program (min (i + spec.span) stop) stop := by
      rw [unrollRange, dif_pos hi, hinstruction]
      simp only [hloop]
    have hpasses : instruction.passes = spec.count.val := by rw [Instruction.passes, hloop]
    have hfollowers : instruction.followers = spec.span - 1 := by
      rw [Instruction.followers, hloop]
    have hblock : (do
        step desk depth (i + 1) instruction
        inOrder desk depth (unrollRange program (i + 1) (min (i + spec.span) stop))) =
        inOrder desk depth
          ((i, instruction) :: unrollRange program (i + 1) (min (i + spec.span) stop)) := rfl
    rw [range_eq_cons hi hinstruction, runFrom_cons, hpasses, hfollowers,
      take_range spec.span_pos, runFrom_drop_range desk depth spec.span_pos, ih, ih', hblock,
      replay_inOrder, ← inOrder_append, ← hunroll]
  | case4 i stop hi =>
    have hlength : (program.take stop).length ≤ i :=
      Nat.le_trans (List.length_take_le stop program) (Nat.le_of_not_lt hi)
    rw [List.drop_eq_nil_of_le hlength, runFrom_nil, unrollRange, dif_neg hi]
    rfl

/-- The entries of an unrolling are instructions of the program with their indices. -/
theorem getElem?_of_mem_unrollRange {program : Program} {i stop index : Nat}
    {instruction : Instruction} (hentry : (index, instruction) ∈ unrollRange program i stop) :
    program[index]? = some instruction := by
  induction i, stop using unrollRange.induct program with
  | case1 i stop hi hnone =>
    rw [unrollRange, dif_pos hi, hnone] at hentry
    cases hentry
  | case2 i stop hi first hfirst hloop ih =>
    rw [unrollRange, dif_pos hi, hfirst] at hentry
    simp only [hloop, List.mem_cons, Prod.mk.injEq] at hentry
    rcases hentry with ⟨rfl, rfl⟩ | hentry
    · exact hfirst
    · exact ih hentry
  | case3 i stop hi first hfirst spec hloop ih ih' =>
    rw [unrollRange, dif_pos hi, hfirst] at hentry
    simp only [hloop, List.mem_append, List.mem_flatten, List.mem_replicate] at hentry
    rcases hentry with ⟨block, ⟨-, rfl⟩, hentry⟩ | hentry
    · rcases List.mem_cons.1 hentry with hhead | hentry
      · obtain ⟨rfl, rfl⟩ := Prod.mk.inj hhead
        exact hfirst
      · exact ih hentry
    · exact ih' hentry
  | case4 i stop hi =>
    rw [unrollRange, dif_neg hi] at hentry
    cases hentry

/-! ### The unrolling as a program -/

/-- The instruction without its header. -/
def bare (i : Instruction) : Instruction := { i with header := none }

/-- The unrolling as a program of its own. -/
def unrolled (program : Program) : Program := (unroll program).map fun entry ↦ bare entry.2

theorem runFrom_bare (depth position : Nat) (i : Instruction) (rest : Program) :
    runFrom desk depth position (bare i :: rest) =
      (do step desk depth position (bare i); runFrom desk depth (position + 1) rest) :=
  runFrom_cons_of_not_loop desk depth position rest rfl

/-- How entries in order and the same instructions as a program, whose first one stands at `start`,
end alike. A stop in the frame itself is that of one entry. -/
inductive Followed (depth start : Nat) (entries : List (Nat × Instruction)) :
    EStateM.Result Stop (State σ ι) Unit → EStateM.Result Stop (State σ ι) Unit → Prop
  | ok {s s' : State σ ι} (halike : Alike s s') :
    Followed depth start entries (.ok () s) (.ok () s')
  | here (stop : Stop) {s s' : State σ ι} {place index : Nat} {i : Instruction}
      (halike : Alike s s') (hframe : s.frame? = some depth)
      (hentry : entries[place]? = some (index, i)) :
    Followed depth start entries (.error (stop.moveTo (index + 1)) s)
      (.error (stop.moveTo (start + place)) s')
  | deeper {stop : Stop} {s s' : State σ ι} {frame : Nat} (halike : Alike s s')
      (hframe : s.frame? = some frame) (hdepth : depth < frame) :
    Followed depth start entries (.error stop s) (.error stop s')

theorem Followed.cons {depth start : Nat} {entries : List (Nat × Instruction)}
    {result result' : EStateM.Result Stop (State σ ι) Unit} (entry : Nat × Instruction)
    (hfollowed : Followed depth (start + 1) entries result result') :
    Followed depth start (entry :: entries) result result' := by
  cases hfollowed with
  | ok halike => exact .ok halike
  | @here stop s s' place index i halike hframe hentry =>
    have hplace : start + 1 + place = start + (place + 1) := by omega
    rw [hplace]
    exact .here stop halike hframe hentry
  | deeper halike hframe hdepth => exact .deeper halike hframe hdepth

/-- Entries in order and the same instructions as a program end alike. -/
theorem followed_inOrder (depth start : Nat) (entries : List (Nat × Instruction))
    {s s' : State σ ι} (halike : Alike s s') :
    Followed depth start entries ((inOrder desk depth entries).run s)
      ((runFrom desk depth start (entries.map fun entry ↦ bare entry.2)).run s') := by
  induction entries generalizing start s s' with
  | nil =>
    rw [List.map_nil, runFrom_nil]
    exact .ok halike
  | cons entry rest ih =>
    obtain ⟨index, i⟩ := entry
    have haction : Action.ofInstruction (bare i) = Action.ofInstruction i := rfl
    have hentry : ((index, i) :: rest)[0]? = some (index, i) := rfl
    have hmatched := matched_step desk (index + 1) start haction
      (fun _ program ↦ repeatable_runFrom desk (depth + 1) 1 program) halike
    rw [List.map_cons, runFrom_bare, inOrder, EStateM.run_bind, EStateM.run_bind]
    generalize (step desk depth (index + 1) i).run s = result at hmatched
    generalize (step desk depth start (bare i)).run s' = result' at hmatched
    cases hmatched with
    | ok halike₁ => exact (ih (start + 1) halike₁).cons (index, i)
    | here stop halike₁ hframe => exact .here stop halike₁ hframe hentry
    | deeper halike₁ hframe hdepth => exact .deeper halike₁ hframe hdepth

namespace Outcome

/-- The position that a stopped run reports. -/
def position? : Outcome → Option Nat
  | .completed _ => none
  | .timedOut position _ => some position
  | .depthExceeded position _ _ => some position

/-- The outcome with another position, if it reports one. -/
def moveTo (position : Nat) : Outcome → Outcome
  | .completed executed => .completed executed
  | .timedOut _ image => .timedOut position image
  | .depthExceeded _ max name => .depthExceeded position max name

end Outcome

theorem ending_moveTo (stop : Stop) (position : Nat) :
    (stop.moveTo position).ending = stop.ending.map (Outcome.moveTo position) := by
  cases stop <;> rfl

theorem map_moveTo_map_moveTo (ending : Except Halt Outcome) (position position' : Nat) :
    (ending.map (Outcome.moveTo position)).map (Outcome.moveTo position') =
      ending.map (Outcome.moveTo position') := by
  match ending with
  | .error halt => rfl
  | .ok (.completed executed) => rfl
  | .ok (.timedOut _ image) => rfl
  | .ok (.depthExceeded _ max name) => rfl

theorem position_of_moveTo {ending : Except Halt Outcome} {outcome : Outcome} {place position : Nat}
    (houtcome : ending.map (Outcome.moveTo place) = .ok outcome)
    (hposition : outcome.position? = some position) : position = place := by
  cases ending with
  | error halt => cases houtcome
  | ok stopped =>
    obtain rfl : stopped.moveTo place = outcome := Except.ok.inj houtcome
    cases stopped with
    | completed executed => cases hposition
    | timedOut | depthExceeded => exact (Option.some.inj hposition).symm

/-- A run is the run of its unrolling, entry after entry. As a program of its own, whose
instructions have no headers, the unrolling makes the same calls with the same answers and leaves
everything but the begun instructions the same. It has the same outcome but for the position of a
stop, and the stop of the frame of the program itself is that of one entry: the run reports the
position of this instruction in the program. -/
theorem execute_unroll (program : Program) (session : Session) (locator : σ) (injector : ι) :
    let run := execute desk program session locator injector
    let flat := execute desk (unrolled program) session locator injector
    run = .ofResult
        ((inOrder desk 0 (unroll program)).run (.start session locator injector)) ∧
      Alike run.state flat.state ∧
      flat.ending.map (Outcome.moveTo 0) = run.ending.map (Outcome.moveTo 0) ∧
      (run.state.frame? ≠ some 0 → flat.ending = run.ending) ∧
      ∀ outcome position, run.ending = .ok outcome → outcome.position? = some position →
        run.state.frame? = some 0 →
        ∃ place index i, (unroll program)[place]? = some (index, i) ∧ program[index]? = some i ∧
          position = index + 1 ∧ flat.ending = .ok (outcome.moveTo (place + 1)) := by
  have hrun : execute desk program session locator injector = .ofResult
      ((inOrder desk 0 (unroll program)).run (.start session locator injector)) := by
    have hrange := runFrom_eq_inOrder desk 0 program 0 program.length
    rw [List.take_length, List.drop_zero] at hrange
    rw [execute_eq, hrange, unroll]
  have hflat := execute_eq desk (unrolled program) session locator injector
  have hfollowed := followed_inOrder desk 0 1 (unroll program)
    (Alike.refl (State.start session locator injector))
  rw [← unrolled] at hfollowed
  intro run flat
  refine ⟨hrun, ?_⟩
  simp only [run, flat, hrun, hflat]
  generalize (inOrder desk 0 (unroll program)).run _ = result at hfollowed
  generalize (runFrom desk 0 1 (unrolled program)).run _ = result' at hfollowed
  cases hfollowed with
  | @ok s s' halike =>
    have hending : (Except.ok (.completed s'.executed) : Except Halt Outcome) =
        .ok (.completed s.executed) := by
      obtain ⟨hcalls⟩ := halike
      rfl
    refine ⟨halike, congrArg _ hending, fun _ ↦ hending, ?_⟩
    rintro _ position ⟨⟩ ⟨⟩
  | @here stop s s' place index i halike hframe hentry =>
    simp only [Finished.ofResult, ending_moveTo, map_moveTo_map_moveTo]
    refine ⟨halike, trivial, fun hother ↦ absurd hframe hother, ?_⟩
    intro outcome position houtcome hposition _
    have hmem : (index, i) ∈ unroll program := List.mem_of_getElem? hentry
    refine ⟨place, index, i, hentry, getElem?_of_mem_unrollRange hmem, ?_, ?_⟩
    · exact position_of_moveTo houtcome hposition
    · rw [Nat.add_comm place 1, ← map_moveTo_map_moveTo stop.ending (index + 1), houtcome]
      rfl
  | @deeper stop s s' frame halike hframe hdepth =>
    refine ⟨halike, rfl, fun _ ↦ rfl, ?_⟩
    intro outcome position _ _ htop
    cases hframe.symm.trans htop
    exact absurd hdepth (Nat.lt_irrefl 0)

end Macropad.Engine
