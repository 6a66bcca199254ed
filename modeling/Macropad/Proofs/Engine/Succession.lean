import Mathlib
import Macropad.Proofs.Engine.Alike
import Macropad.Proofs.Engine.CallDepth
import Macropad.Proofs.Language.Checking

/-!
# Programs one after another

A program whose loops all end within it (`Fits`) can be run in front of any other one: no block of
the first reaches into the second (`runFrom_append`). The second then starts with what the first has
left, and its run is the run that it has as a program of its own (`follows_runFrom`). What differs
is what is counted: instructions and pauses go on from those of the first program, the log stands
behind that of the first, and positions in the outermost frame are counted from its start. Positions
in the frames of stored commands stay.

`execute_append` puts the two together. That the loops of a program end within it is part of being
valid (`fits_of_validate`).
-/

set_option autoImplicit false

namespace Macropad.Engine

open Macropad.Input Macropad.Language Macropad.Screen Macropad.Setting

variable {σ ι α : Type}

/-! ### Loops that end within their program -/

/-- Every loop of the program ends within it. -/
def Fits (program : Program) : Prop :=
  ∀ k i spec, program[k]? = some i → i.loop? = some spec → k + spec.span ≤ program.length

/-- The loops of a valid program end within it. -/
theorem fits_of_validate {surroundings : Surroundings} {program : Program}
    (hvalid : program.validate surroundings = .valid) : Fits program := by
  intro k i spec hi hspec
  have hcheck := Program.validate_eq_valid_iff.1 hvalid k i hi
  have hheader := (Validation.checkInstruction_eq_ok_iff.1 hcheck).1
  obtain ⟨hlength, -⟩ := List.getElem?_eq_some_iff.1 hi
  have hspan : spec.span ≤ program.length - k := by
    rw [Instruction.loop?] at hspec
    split at hspec
    · rename_i spec' hvalidHeader
      obtain rfl := Option.some.inj hspec
      rw [Validation.checkHeader, hvalidHeader] at hheader
      cases hcode : i.code with
      | none =>
        rw [hcode] at hheader
        cases hheader
      | some code =>
        rw [hcode] at hheader
        exact of_decide_eq_true (Validation.require_eq_ok_iff.1 hheader)
    · cases hspec
  omega

section Fits

variable {i : Instruction} {rest : Program}

theorem Fits.followers_le (hfits : Fits (i :: rest)) : i.followers ≤ rest.length := by
  rw [Instruction.followers]
  cases hspec : i.loop? with
  | none => exact Nat.zero_le _
  | some spec =>
    have hend := hfits 0 i spec rfl hspec
    rw [List.length_cons] at hend
    simp only
    omega

theorem Fits.behind (hfits : Fits (i :: rest)) (n : Nat) : Fits (rest.drop n) := by
  intro k j spec hj hspec
  rw [List.getElem?_drop] at hj
  have hplace : (i :: rest)[n + k + 1]? = some j := hj
  have hend := hfits (n + k + 1) j spec hplace hspec
  rw [List.length_cons] at hend
  rw [List.length_drop]
  omega

end Fits

variable (desk : Desk σ ι)

/-- Two programs run one after the other when the loops of the first end within it. -/
theorem runFrom_append {first : Program} (hfits : Fits first) (second : Program)
    (depth position : Nat) :
    runFrom desk depth position (first ++ second) = (do
      runFrom desk depth position first
      runFrom desk depth (position + first.length) second) := by
  induction depth, position, first using runFrom_rec with
  | nil depth position =>
    rw [List.nil_append, runFrom_nil, pure_bind]
    rfl
  | cons depth position i rest _ _ hrest =>
    have hle := hfits.followers_le
    have hposition : position + 1 + i.followers + (rest.drop i.followers).length =
        position + (i :: rest).length := by
      rw [List.length_drop, List.length_cons]
      omega
    rw [List.cons_append, runFrom_cons, runFrom_cons, List.take_append_of_le_length hle,
      List.drop_append_of_le_length hle, hrest (hfits.behind i.followers), hposition, bind_assoc]

/-! ### Going on from an earlier run -/

/-- By how much positions shift in a frame when `offset` instructions stand in front: those of the
outermost frame do, and no others. -/
def ahead (offset : Nat) (frame? : Option Nat) : Nat := if frame? = some 0 then offset else 0

/-- The event, when `offset` instructions stand in front of the program. -/
def Event.behind (offset : Nat) : Event → Event
  | .began depth position i cap => .began depth (position + ahead offset (some depth)) i cap
  | event => event

/-- The stop with its position further on. -/
def Stop.forward (offset : Nat) : Stop → Stop
  | .timedOut position image => .timedOut (position + offset) image
  | .depthExceeded position max name => .depthExceeded (position + offset) max name
  | .halted halt => .halted halt

/-- The state `s` of a run that goes on from the state `earlier`. -/
def State.behind (s earlier : State σ ι) (offset : Nat) : State σ ι :=
  { s with
    executed := earlier.executed + s.executed
    slept := earlier.slept + s.slept
    log := s.log.map (Event.behind offset) ++ earlier.log }

/-- A run goes on from the state that it starts in. -/
theorem start_behind (earlier : State σ ι) (offset : Nat) :
    (State.start earlier.session earlier.locator earlier.injector).behind earlier offset =
      earlier :=
  rfl

variable (earlier : State σ ι) (offset : Nat)

/-- How a part of a run ends in a frame, and how it ends when it goes on from an earlier run. -/
inductive Continued (frame? : Option Nat) :
    EStateM.Result Stop (State σ ι) α → EStateM.Result Stop (State σ ι) α → Prop
  | ok (a : α) {s : State σ ι} (hframe : s.frame? = frame?) :
    Continued frame? (.ok a s) (.ok a (s.behind earlier offset))
  | error (stop : Stop) {s : State σ ι} (hframe : s.frame? = frame?) :
    Continued frame? (.error stop s)
      (.error (stop.forward (ahead offset frame?)) (s.behind earlier offset))

/-- The same pause and one that goes on. -/
theorem behind_pause (ms : Nat) (s : State σ ι) :
    ({ s with slept := s.slept + ms }).behind earlier offset =
      { s.behind earlier offset with slept := (s.behind earlier offset).slept + ms } := by
  simp only [State.behind, Nat.add_assoc]

/-- Actions go on from an earlier run as they start. -/
theorem correspondence_continued (depth position : Nat) :
    Correspondence desk desk position (position + ahead offset (some depth)) fun part part' ↦
      ∀ s, s.frame? = some depth →
        Continued earlier offset (some depth) (part.run s)
          (part'.run (s.behind earlier offset)) where
  files := rfl
  pure a s hframe := .ok a hframe
  bind := by
    intro α β part part' next next' hpart hnext s hframe
    have hcontinued := hpart s hframe
    rw [EStateM.run_bind, EStateM.run_bind]
    generalize part.run s = result at hcontinued
    generalize part'.run (s.behind earlier offset) = result' at hcontinued
    cases hcontinued with
    | ok a hframe₁ => exact hnext a _ hframe₁
    | error stop hframe₁ => exact .error stop hframe₁
  session hnext s hframe := hnext s.session s hframe
  pause := by
    intro ms s hframe
    have hpause : (pause ms).run (s.behind earlier offset) =
        .ok () (({ s with slept := s.slept + ms.toNat }).behind earlier offset) := by
      rw [behind_pause]
      rfl
    rw [hpause]
    exact .ok () hframe
  inject operation s hframe := .ok _ hframe
  tooLong _ hframe := .error (.halted (.overflow .capacity)) hframe
  locate := by
    intro image wait s hframe
    have hlocator : (s.behind earlier offset).locator = s.locator := rfl
    rw [run_locate_eq, run_locate_eq, hlocator]
    match (desk.locator.locate image wait s.locator).1 with
    | .ok (.found place) => exact .ok place hframe
    | .ok .timedOut => exact .error (.timedOut position image.file) hframe
    | .error halt => exact .error (.halted halt) hframe
  locateAll := by
    intro image s hframe
    have hlocator : (s.behind earlier offset).locator = s.locator := rfl
    rw [run_locateAll_eq, run_locateAll_eq, hlocator]
    match (desk.locator.locateAll image s.locator).1 with
    | .ok places => exact .ok places hframe
    | .error halt => exact .error (.halted halt) hframe
  update := by
    intro change s hframe
    cases change with
    | commandDelay | maxCallDepth | tuning => exact .ok () hframe

/-- The result of a run that goes on from an earlier one. A stop has moved when it was met in the
outermost frame. -/
def continued : EStateM.Result Stop (State σ ι) Unit → EStateM.Result Stop (State σ ι) Unit
  | .ok _ s => .ok () (s.behind earlier offset)
  | .error stop s => .error (stop.forward (ahead offset s.frame?)) (s.behind earlier offset)

/-- The second part does from behind an earlier run what the first one does. -/
def Follows (part part' : Running σ ι Unit) : Prop :=
  ∀ s, part'.run (s.behind earlier offset) = continued earlier offset (part.run s)

theorem follows_pure : Follows earlier offset (pure ()) (pure ()) := fun _ ↦ rfl

theorem Follows.seq {first first' second second' : Running σ ι Unit}
    (hfirst : Follows earlier offset first first')
    (hsecond : Follows earlier offset second second') :
    Follows earlier offset (do first; second) (do first'; second') := by
  intro s
  have hresult := hfirst s
  rw [EStateM.run_bind, EStateM.run_bind, hresult]
  cases first.run s with
  | ok _ s₁ => exact hsecond s₁
  | error stop s₁ => rfl

theorem follows_wrapUp : Follows earlier offset wrapUp wrapUp := by
  intro s
  have hrun : wrapUp.run (s.behind earlier offset) = .ok () (({ s with
      executed := s.executed + 1
      slept := s.slept + s.session.commandDelay.toNat }).behind earlier offset) := by
    have hpause := behind_pause earlier offset s.session.commandDelay.toNat
      { s with executed := s.executed + 1 }
    rw [hpause]
    rfl
  rw [hrun]
  rfl

/-- An instruction does behind an earlier run what it does at the start, when the programs of deeper
frames do. -/
theorem follows_step (depth position : Nat) (i : Instruction)
    (hframe : depth + 1 < UInt64.size → ∀ program : Program,
      Follows earlier offset (runFrom desk (depth + 1) 1 program)
        (runFrom desk (depth + 1) 1 program)) :
    Follows earlier offset (step desk depth position i)
      (step desk depth (position + ahead offset (some depth)) i) := by
  intro s
  have hbegin : (s.behind earlier offset).begin depth (position + ahead offset (some depth)) i =
      (s.begin depth position i).behind earlier offset := rfl
  generalize haction : Action.ofInstruction i = a
  cases way desk depth s.session a with
  | acts hcall =>
    have hperform := correspondence_continued desk earlier offset depth position
    have hcontinued := hperform.perform a (s.begin depth position i) rfl
    rw [run_step_of_not_call desk haction hcall, run_step_of_not_call desk haction hcall, hbegin,
      EStateM.run_bind, EStateM.run_bind]
    generalize (perform desk position a).run _ = result at hcontinued
    generalize (perform desk _ a).run _ = result' at hcontinued
    cases hcontinued with
    | ok _ hframe₁ => exact follows_wrapUp earlier offset _
    | error stop hframe₁ => rw [← hframe₁]; rfl
  | refused hcap =>
    have hcap' : (s.behind earlier offset).session.maxCallDepth.toNat < depth + 1 := hcap
    rw [run_step_refused desk depth position haction hcap,
      run_step_refused desk depth _ haction hcap', hbegin]
    rfl
  | absent hcap hname =>
    have hcap' : depth + 1 ≤ (s.behind earlier offset).session.maxCallDepth.toNat := hcap
    rw [run_step_absent desk depth position haction hcap hname,
      run_step_absent desk depth _ haction hcap' hname, hbegin]
    exact follows_wrapUp earlier offset _
  | @entered name text hcap hdepth hname =>
    have hcap' : depth + 1 ≤ (s.behind earlier offset).session.maxCallDepth.toNat := hcap
    have hpart := (hframe hdepth (Program.parse text)).seq earlier offset
      (follows_wrapUp earlier offset)
    rw [run_step_entered desk depth position haction hcap hname,
      run_step_entered desk depth _ haction hcap' hname, hbegin]
    exact hpart ((s.begin depth position i).record (.entered (depth + 1) name (Program.parse text)))

/-- A program does behind an earlier run what it does at the start. -/
theorem follows_runFrom (depth position : Nat) (program : Program) :
    Follows earlier offset (runFrom desk depth position program)
      (runFrom desk depth (position + ahead offset (some depth)) program) := by
  refine @runFrom_related σ ι σ ι desk desk (fun _ _ _ ↦ True)
    (fun _ part part' ↦ Follows earlier offset part part')
    (fun depth position ↦ position + ahead offset (some depth)) ?_ (fun _ ↦ rfl)
    (fun _ ↦ follows_pure earlier offset)
    (fun _ _ _ _ _ hfirst hsecond ↦ hfirst.seq earlier offset hsecond) ?_ depth position program
    (admits_true depth position program)
  · exact fun depth position n ↦ Nat.add_right_comm position n _
  · intro depth position i _ hframe
    refine follows_step desk earlier offset depth position i fun hdepth program ↦ ?_
    exact hframe hdepth program (admits_true (depth + 1) 1 program)

/-! ### One run after another -/

/-- The calls of collaborators, in order. -/
def State.calls (s : State σ ι) : List Event := s.events.filter Event.isCall

/-- The outcome of a run that goes on from an earlier one. -/
def Outcome.behind (executed offset : Nat) : Outcome → Outcome
  | .completed n => .completed (executed + n)
  | .timedOut position image => .timedOut (position + offset) image
  | .depthExceeded position max name => .depthExceeded (position + offset) max name

theorem calls_behind (s : State σ ι) :
    (s.behind earlier offset).calls = earlier.calls ++ s.calls := by
  have hisCall : Event.isCall ∘ Event.behind offset = Event.isCall := by
    funext event
    cases event <;> rfl
  have hfilter : (s.log.map (Event.behind offset)).filter Event.isCall =
      s.log.filter Event.isCall := by
    rw [List.filter_map, hisCall]
    refine (List.map_congr_left fun event hevent ↦ ?_).trans (List.map_id _)
    have hcall := (List.mem_filter.1 hevent).2
    cases event <;> first | rfl | cases hcall
  rw [State.calls, State.calls, State.calls, State.events, State.events, State.events,
    List.filter_reverse, List.filter_reverse, List.filter_reverse, State.behind,
    List.filter_append, hfilter, List.reverse_append]

theorem ofResult_continued (result : EStateM.Result Stop (State σ ι) Unit) :
    Finished.ofResult (continued earlier offset result) =
      { ending := (Finished.ofResult result).ending.map (Outcome.behind earlier.executed
          (ahead offset (Finished.ofResult result).state.frame?))
        state := (Finished.ofResult result).state.behind earlier offset } := by
  cases result with
  | ok _ s => rfl
  | error stop s => cases stop <;> rfl

/-- A run of two programs, when the loops of the first end within it, which they do in a valid
program. If the first one completes, the second one goes on from what the first has left: it makes
its own calls behind those of the first, and it ends as it does alone, with the instructions of the
first counted in and a stop in its outermost frame moved by the length of the first. If the first
one stops, that is the run of both. -/
theorem execute_append (first second : Program) (session : Session) (locator : σ) (injector : ι) :
    (∀ surroundings, first.validate surroundings = .valid → Fits first) ∧
    (Fits first →
      let run := execute desk first session locator injector
      let next := execute desk second run.state.session run.state.locator run.state.injector
      let both := execute desk (first ++ second) session locator injector
      (∀ n, run.ending = .ok (.completed n) →
        both.ending =
            next.ending.map (Outcome.behind n (ahead first.length next.state.frame?)) ∧
          both.state.calls = run.state.calls ++ next.state.calls ∧
          both.state.session = next.state.session ∧ both.state.locator = next.state.locator ∧
          both.state.injector = next.state.injector ∧
          both.state = next.state.behind run.state first.length) ∧
      ((∀ n, run.ending ≠ .ok (.completed n)) → both = run)) := by
  refine ⟨fun surroundings hvalid ↦ fits_of_validate hvalid, ?_⟩
  intro hfits run next both
  have hrun : run =
      .ofResult ((runFrom desk 0 1 first).run (.start session locator injector)) :=
    execute_eq desk first session locator injector
  have hboth : both = .ofResult ((do
      runFrom desk 0 1 first
      runFrom desk 0 (1 + first.length) second).run (.start session locator injector)) := by
    rw [← runFrom_append desk hfits]
    exact execute_eq desk (first ++ second) session locator injector
  have hnext : next = .ofResult ((runFrom desk 0 1 second).run
      (.start run.state.session run.state.locator run.state.injector)) :=
    execute_eq desk second run.state.session run.state.locator run.state.injector
  rw [EStateM.run_bind] at hboth
  cases hresult : (runFrom desk 0 1 first).run (.start session locator injector) with
  | error stop s =>
    rw [hresult] at hrun hboth
    refine ⟨fun n hcompleted ↦ ?_, fun _ ↦ hboth.trans hrun.symm⟩
    rw [hrun] at hcompleted
    cases stop <;> cases hcompleted
  | ok _ s =>
    rw [hresult] at hrun hboth
    have hfollows := follows_runFrom desk s first.length 0 1 second
      (.start s.session s.locator s.injector)
    rw [start_behind] at hfollows
    have hstate : run.state = s := congrArg Finished.state hrun
    have hending : run.ending = .ok (.completed s.executed) := congrArg Finished.ending hrun
    rw [hstate] at hnext
    have hgoes : both = { ending := next.ending.map (Outcome.behind s.executed
          (ahead first.length next.state.frame?)), state := next.state.behind s first.length } := by
      rw [hnext, ← ofResult_continued, ← hfollows]
      exact hboth
    refine ⟨fun n hcompleted ↦ ?_, fun hstopped ↦ absurd hending (hstopped s.executed)⟩
    obtain rfl : n = s.executed :=
      (Outcome.completed.inj (Except.ok.inj (hending.symm.trans hcompleted))).symm
    have hcalls := calls_behind s first.length next.state
    rw [hgoes, hstate]
    exact ⟨rfl, hcalls, rfl, rfl, rfl, rfl⟩

/-- A loop in front of a wait that expires: the position of the stop counts the loop in. -/
theorem execute_append_of_loop :
    Fits (Program.parse "[2]x") ∧
      (execute (blindDesk fun _ ↦ none) (Program.parse "[2]x" ++ Program.parse "va.png,5")
        .immediate () ()).ending = .ok (.timedOut 2 "a.png") := by
  have hvalid : Program.validate ⟨fun _ ↦ none, fun _ ↦ false⟩ (Program.parse "[2]x") = .valid := by
    decide
  have hcompleted : (execute (blindDesk fun _ ↦ none) (Program.parse "[2]x") .immediate ()
      ()).ending = .ok (.completed 2) := by
    cbv
  obtain ⟨hfits, happend⟩ := execute_append (blindDesk fun _ ↦ none) (Program.parse "[2]x")
    (Program.parse "va.png,5") .immediate () ()
  have hending := ((happend (hfits _ hvalid)).1 2 hcompleted).1
  refine ⟨hfits _ hvalid, hending.trans ?_⟩
  cbv

end Macropad.Engine
