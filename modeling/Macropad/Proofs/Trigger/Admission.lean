import Macropad.Trigger.Gate

/-!
# One execution at a time

A gate is shared by all its handles: whoever tries to acquire it, asks whether it is busy or drops a
guard does this to the same gate (`Gate.Deed`), in any order. `Gate.Exclusive` is what every deed
keeps (`Gate.Exclusive.perform`): the gate is busy exactly while a guard is alive, and no two are.
`Gate.holds_after_iff` says which guards these are: those that an attempt has returned and that have
not been dropped since.

`Watch` puts the gate to use. A request that arrives is admitted with a guard or dropped; an
admitted one waits until it is begun, and its guard is dropped when it has finished. Nothing but the
gate keeps the executions apart: what waits may be begun at any time, in any order. `Watch.Sound` is
what every step keeps: the unfinished requests are those whose guards are alive, so there is one at
most, and those before it have been run one after the other.
-/

set_option autoImplicit false

namespace Macropad.Trigger

namespace Gate

/-! ### Guards -/

/-- The guard of an attempt is alive. -/
def Holds (gate : Gate) (attempt : Nat) : Prop := gate.guards[attempt]? = some true

/-- The gate is busy while a guard is alive, and no two guards are. -/
structure Exclusive (gate : Gate) : Prop where
  busy_iff : gate.busy = true ↔ ∃ attempt, gate.Holds attempt
  unique : ∀ first second, gate.Holds first → gate.Holds second → first = second

variable {gate : Gate} {attempt i : Nat}

theorem not_holds_fresh (i : Nat) : ¬ ({} : Gate).Holds i := by
  simp [Holds]

theorem exclusive_fresh : ({} : Gate).Exclusive where
  busy_iff := by simp [not_holds_fresh]
  unique _ _ hfirst := absurd hfirst (not_holds_fresh _)

theorem Exclusive.busy_eq_false_iff (hgate : gate.Exclusive) :
    gate.busy = false ↔ ∀ attempt, ¬ gate.Holds attempt := by
  rw [← Bool.not_eq_true, hgate.busy_iff, not_exists]

/-- An attempt adds its own guard, if the gate is free. -/
theorem holds_acquire :
    gate.acquire.2.Holds i ↔ gate.Holds i ∨ i = gate.guards.length ∧ gate.busy = false := by
  simp only [Holds, acquire]
  obtain hlt | rfl | hgt := Nat.lt_trichotomy i gate.guards.length
  · rw [List.getElem?_append_left hlt]
    exact (or_iff_left fun h ↦ Nat.ne_of_lt hlt h.1).symm
  · rw [List.getElem?_concat_length, List.getElem?_eq_none (Nat.le_refl _)]
    simp
  · rw [List.getElem?_eq_none (by simpa using Nat.succ_le_of_lt hgt),
      List.getElem?_eq_none (Nat.le_of_lt hgt)]
    simp [Nat.ne_of_gt hgt]

/-- A drop takes away the guard of its attempt and no other. -/
theorem holds_drop : (gate.drop attempt).2.Holds i ↔ gate.Holds i ∧ i ≠ attempt := by
  rw [drop]
  split
  case isTrue halive =>
    obtain rfl | hne := Decidable.em (attempt = i)
    · simp [Holds, List.getElem?_set]
    · simp [Holds, hne, Ne.symm hne]
  case isFalse hgone =>
    refine (and_iff_left_of_imp ?_).symm
    rintro hi rfl
    exact hgone hi

/-! ### Handles in any order -/

/-- What is done to a gate by one of its handles, or with a guard of it. -/
inductive Deed (Handle : Type)
  | tryAcquire (handle : Handle)
  | isBusy (handle : Handle)
  /-- Drop the guard of an attempt, counted from zero. -/
  | dropGuard (attempt : Nat)
deriving Repr, DecidableEq

variable {Handle : Type}

/-- The answer to a deed, which is whether there is a guard or whether the gate is busy. -/
def perform (gate : Gate) : Deed Handle → Bool × Gate
  | .tryAcquire _ => gate.step .acquire
  | .isBusy _ => (gate.busy, gate)
  | .dropGuard attempt => gate.step (.drop attempt)

/-- The gate after some deeds. -/
def after (gate : Gate) (deeds : List (Deed Handle)) : Gate :=
  deeds.foldl (fun gate deed ↦ (gate.perform deed).2) gate

theorem Exclusive.acquire (hgate : gate.Exclusive) : gate.acquire.2.Exclusive where
  busy_iff := by
    refine iff_of_true rfl ?_
    cases hbusy : gate.busy with
    | true =>
      obtain ⟨attempt, hattempt⟩ := hgate.busy_iff.1 hbusy
      exact ⟨attempt, holds_acquire.2 (.inl hattempt)⟩
    | false => exact ⟨_, holds_acquire.2 (.inr ⟨rfl, hbusy⟩)⟩
  unique first second hfirst hsecond := by
    -- A guard that was alive before leaves no room for a new one.
    obtain hfirst | ⟨rfl, hfree⟩ := holds_acquire.1 hfirst
    · obtain hsecond | ⟨-, hfree⟩ := holds_acquire.1 hsecond
      · exact hgate.unique first second hfirst hsecond
      · exact absurd hfirst (hgate.busy_eq_false_iff.1 hfree first)
    · obtain hsecond | ⟨rfl, -⟩ := holds_acquire.1 hsecond
      · exact absurd hsecond (hgate.busy_eq_false_iff.1 hfree second)
      · rfl

theorem Exclusive.drop (hgate : gate.Exclusive) (attempt : Nat) :
    (gate.drop attempt).2.Exclusive where
  busy_iff := by
    simp only [holds_drop]
    rw [Gate.drop]
    split
    case isTrue halive =>
      refine iff_of_false Bool.false_ne_true ?_
      rintro ⟨other, hother, hne⟩
      exact hne (hgate.unique other attempt hother halive)
    case isFalse hgone =>
      rw [hgate.busy_iff]
      refine exists_congr fun other ↦ (and_iff_left_of_imp ?_).symm
      rintro hother rfl
      exact hgone hother
  unique first second hfirst hsecond :=
    hgate.unique first second (holds_drop.1 hfirst).1 (holds_drop.1 hsecond).1

theorem Exclusive.perform (hgate : gate.Exclusive) (deed : Deed Handle) :
    (gate.perform deed).2.Exclusive := by
  cases deed with
  | tryAcquire => exact hgate.acquire
  | isBusy => exact hgate
  | dropGuard attempt => exact hgate.drop attempt

theorem Exclusive.after (hgate : gate.Exclusive) (deeds : List (Deed Handle)) :
    (gate.after deeds).Exclusive := by
  induction deeds generalizing gate with
  | nil => exact hgate
  | cons deed rest ih => exact ih (hgate.perform deed)

theorem holds_perform (deed : Deed Handle) :
    (gate.perform deed).2.Holds i ↔
      gate.Holds i ∧ deed ≠ .dropGuard i ∨
      (∃ handle, deed = .tryAcquire handle) ∧ i = gate.guards.length ∧ gate.busy = false := by
  cases deed with
  | tryAcquire handle =>
    change gate.acquire.2.Holds i ↔ _
    simp [holds_acquire]
  | isBusy => simp [perform]
  | dropGuard attempt =>
    change (gate.drop attempt).2.Holds i ↔ _
    simp [holds_drop, ne_comm]

/-- The guards alive after some deeds are those alive before and those that attempts among the
deeds have returned, unless they have been dropped since. -/
theorem holds_after_iff (gate : Gate) (deeds : List (Deed Handle)) (i : Nat) :
    (gate.after deeds).Holds i ↔
      gate.Holds i ∧ .dropGuard i ∉ deeds ∨
      ∃ earlier handle later, deeds = earlier ++ .tryAcquire handle :: later ∧
        i = (gate.after earlier).guards.length ∧ (gate.after earlier).busy = false ∧
        .dropGuard i ∉ later := by
  induction deeds generalizing gate with
  | nil => simp [after]
  | cons deed rest ih =>
    rw [after, List.foldl_cons, ← after, ih, holds_perform]
    constructor
    · rintro (⟨⟨hi, hdeed⟩ | ⟨⟨handle, rfl⟩, hi, hfree⟩, hrest⟩ |
        ⟨earlier, handle, later, rfl, hi, hfree, hlater⟩)
      · exact .inl ⟨hi, List.not_mem_cons_of_ne_of_not_mem hdeed.symm hrest⟩
      · exact .inr ⟨[], handle, rest, rfl, hi, hfree, hrest⟩
      · exact .inr ⟨deed :: earlier, handle, later, rfl, hi, hfree, hlater⟩
    · rintro (⟨hi, hdeeds⟩ | ⟨earlier, handle, later, heq, hi, hfree, hlater⟩)
      · obtain ⟨hdeed, hrest⟩ := not_or.1 (mt List.mem_cons.2 hdeeds)
        exact .inl ⟨.inl ⟨hi, Ne.symm hdeed⟩, hrest⟩
      · cases earlier with
        | nil =>
          cases heq
          exact .inl ⟨.inr ⟨⟨handle, rfl⟩, hi, hfree⟩, hlater⟩
        | cons first earlier =>
          cases heq
          exact .inr ⟨earlier, handle, later, rfl, hi, hfree, hlater⟩

end Gate

/-! ### Requests and the executor -/

/-- What happens to a request. -/
inductive Watch.Report (ρ : Type)
  | admitted (request : ρ)
  | dropped (request : ρ)
  | began (request : ρ)
  | finished (request : ρ)
deriving Repr, DecidableEq

namespace Watch.Report

variable {ρ : Type}

def admitted? : Report ρ → Option ρ
  | .admitted request => some request
  | _ => none

def finished? : Report ρ → Option ρ
  | .finished request => some request
  | _ => none

/-- It tells of an execution. -/
def isExecution : Report ρ → Bool
  | .began _ | .finished _ => true
  | _ => false

end Watch.Report

/-- What may happen to a watch. -/
inductive Watch.Step (ρ : Type)
  | arrives (request : ρ)
  /-- One of the requests that wait is begun. -/
  | begins (place : Nat)
  /-- One of the executions is done, and its guard is dropped. -/
  | finishes (place : Nat)
deriving Repr, DecidableEq

/-- A gate, with the requests that it has admitted. An admitted request has the attempt beside it
whose guard goes with it. -/
structure Watch (ρ : Type) where
  gate : Gate := {}
  waiting : List (Nat × ρ) := []
  running : List (Nat × ρ) := []
  /-- What has happened so far. -/
  log : List (Watch.Report ρ) := []
deriving Repr, DecidableEq

namespace Watch

variable {ρ : Type}

def step (watch : Watch ρ) : Step ρ → Watch ρ
  | .arrives request =>
    let (free, gate) := watch.gate.acquire
    if free then
      { watch with
        gate := gate
        waiting := watch.waiting ++ [(watch.gate.guards.length, request)]
        log := watch.log ++ [.admitted request] }
    else { watch with gate := gate, log := watch.log ++ [.dropped request] }
  | .begins place =>
    match watch.waiting[place]? with
    | some next =>
      { watch with
        waiting := watch.waiting.eraseIdx place
        running := watch.running ++ [next]
        log := watch.log ++ [.began next.2] }
    | none => watch
  | .finishes place =>
    match watch.running[place]? with
    | some (attempt, request) =>
      { watch with
        gate := (watch.gate.drop attempt).2
        running := watch.running.eraseIdx place
        log := watch.log ++ [.finished request] }
    | none => watch

/-- The watch after some steps. -/
def after (watch : Watch ρ) (steps : List (Step ρ)) : Watch ρ := steps.foldl step watch

/-- The requests that have been admitted and have not finished. -/
def unfinished (watch : Watch ρ) : List (Nat × ρ) := watch.running ++ watch.waiting

def admitted (watch : Watch ρ) : List ρ := watch.log.filterMap Report.admitted?

def finished (watch : Watch ρ) : List ρ := watch.log.filterMap Report.finished?

/-- The executions, each with its beginning and its end. -/
def executions (watch : Watch ρ) : List (Report ρ) := watch.log.filter Report.isExecution

/-- The unfinished requests are those whose guards are alive, and there is one at most. The others
have been run one after the other, and the unfinished one may have been begun. -/
structure Sound (watch : Watch ρ) : Prop where
  gate : watch.gate.Exclusive
  guards : ∀ attempt, watch.gate.Holds attempt ↔ attempt ∈ watch.unfinished.map Prod.fst
  one : watch.unfinished.length ≤ 1
  admitted_eq : watch.admitted = watch.finished ++ watch.unfinished.map Prod.snd
  executions_eq : watch.executions =
    watch.finished.flatMap (fun request ↦ [.began request, .finished request]) ++
      watch.running.map fun next ↦ .began next.2

variable {watch : Watch ρ}

theorem sound_fresh : ({} : Watch ρ).Sound where
  gate := Gate.exclusive_fresh
  guards attempt := iff_of_false (Gate.not_holds_fresh attempt) List.not_mem_nil
  one := Nat.zero_le 1
  admitted_eq := rfl
  executions_eq := rfl

/-- Nothing is unfinished, or one request waits, or one runs. -/
theorem Sound.cases (hwatch : watch.Sound) :
    (watch.running = [] ∧ watch.waiting = []) ∨
      (∃ next, watch.running = [] ∧ watch.waiting = [next]) ∨
      ∃ next, watch.running = [next] ∧ watch.waiting = [] := by
  have hone := hwatch.one
  rw [unfinished, List.length_append] at hone
  rcases hrunning : watch.running with _ | ⟨next, rest⟩
  · rcases hwaiting : watch.waiting with _ | ⟨next, rest⟩
    · exact .inl ⟨rfl, rfl⟩
    · have hrest : rest = [] := by simpa [hrunning, hwaiting] using hone
      exact .inr (.inl ⟨next, rfl, congrArg (next :: ·) hrest⟩)
  · rw [hrunning, List.length_cons] at hone
    have hrest : rest = [] := List.length_eq_zero_iff.1 (by omega)
    have hwaiting : watch.waiting = [] := List.length_eq_zero_iff.1 (by omega)
    exact .inr (.inr ⟨next, congrArg (next :: ·) hrest, hwaiting⟩)

theorem Sound.waits (hwatch : watch.Sound) {place : Nat} {next : Nat × ρ}
    (hnext : watch.waiting[place]? = some next) :
    place = 0 ∧ watch.running = [] ∧ watch.waiting = [next] := by
  obtain ⟨-, hwaiting⟩ | ⟨other, hrunning, hwaiting⟩ | ⟨other, -, hwaiting⟩ := hwatch.cases
  · simp [hwaiting] at hnext
  · obtain ⟨rfl, rfl⟩ : place = 0 ∧ other = next := by
      simpa [hwaiting, List.getElem?_singleton] using hnext
    exact ⟨rfl, hrunning, hwaiting⟩
  · simp [hwaiting] at hnext

theorem Sound.runs (hwatch : watch.Sound) {place : Nat} {next : Nat × ρ}
    (hnext : watch.running[place]? = some next) :
    place = 0 ∧ watch.running = [next] ∧ watch.waiting = [] := by
  obtain ⟨hrunning, -⟩ | ⟨other, hrunning, -⟩ | ⟨other, hrunning, hwaiting⟩ := hwatch.cases
  · simp [hrunning] at hnext
  · simp [hrunning] at hnext
  · obtain ⟨rfl, rfl⟩ : place = 0 ∧ other = next := by
      simpa [hrunning, List.getElem?_singleton] using hnext
    exact ⟨rfl, hrunning, hwaiting⟩

theorem Sound.busy_eq_false_iff (hwatch : watch.Sound) :
    watch.gate.busy = false ↔ watch.unfinished = [] := by
  rw [hwatch.gate.busy_eq_false_iff, ← List.map_eq_nil_iff, List.eq_nil_iff_forall_not_mem]
  exact forall_congr' fun attempt ↦ not_congr (hwatch.guards attempt)

section Steps

attribute [local simp] unfinished admitted finished executions Report.admitted? Report.finished?
  Report.isExecution List.filterMap_cons List.filter_cons

theorem Sound.arrives (hwatch : watch.Sound) (request : ρ) :
    (watch.step (.arrives request)).Sound := by
  obtain ⟨hgate, hguards, hone, hadmitted, hexecutions⟩ := id hwatch
  cases hbusy : watch.gate.busy with
  | true =>
    have hstep : watch.step (.arrives request) =
        { watch with gate := watch.gate.acquire.2, log := watch.log ++ [.dropped request] } := by
      simp [step, Gate.acquire, hbusy]
    rw [hstep]
    refine ⟨hgate.acquire, fun attempt ↦ ?_, hone, ?_, ?_⟩
    · simpa [Gate.holds_acquire, hbusy] using hguards attempt
    · simpa using hadmitted
    · simpa using hexecutions
  | false =>
    obtain ⟨hrunning, hwaiting⟩ := List.append_eq_nil_iff.1 (hwatch.busy_eq_false_iff.1 hbusy)
    have hstep : watch.step (.arrives request) =
        { watch with
          gate := watch.gate.acquire.2
          waiting := [(watch.gate.guards.length, request)]
          log := watch.log ++ [.admitted request] } := by
      simp [step, Gate.acquire, hbusy, hwaiting]
    rw [hstep]
    refine ⟨hgate.acquire, fun attempt ↦ ?_, ?_, ?_, ?_⟩
    · simp [Gate.holds_acquire, hbusy, hguards, hrunning, hwaiting]
    · simp [hrunning]
    · simpa [hrunning, hwaiting] using hadmitted
    · simpa using hexecutions

theorem Sound.begins (hwatch : watch.Sound) (place : Nat) : (watch.step (.begins place)).Sound := by
  obtain ⟨hgate, hguards, hone, hadmitted, hexecutions⟩ := id hwatch
  rw [step]
  split
  case h_1 next hnext =>
    obtain ⟨rfl, hrunning, hwaiting⟩ := hwatch.waits hnext
    refine ⟨hgate, fun attempt ↦ ?_, ?_, ?_, ?_⟩
    · simpa [hrunning, hwaiting] using hguards attempt
    · simp [hrunning, hwaiting]
    · simpa [hrunning, hwaiting] using hadmitted
    · simpa [hrunning] using hexecutions
  case h_2 => exact hwatch

theorem Sound.finishes (hwatch : watch.Sound) (place : Nat) :
    (watch.step (.finishes place)).Sound := by
  obtain ⟨hgate, hguards, hone, hadmitted, hexecutions⟩ := id hwatch
  rw [step]
  split
  case h_1 attempt request hnext =>
    obtain ⟨rfl, hrunning, hwaiting⟩ := hwatch.runs hnext
    refine ⟨hgate.drop attempt, fun other ↦ ?_, ?_, ?_, ?_⟩
    · simp [Gate.holds_drop, hguards, hrunning, hwaiting]
    · simp [hrunning, hwaiting]
    · simpa [hrunning, hwaiting] using hadmitted
    · simpa [hrunning] using congrArg (· ++ [.finished request]) hexecutions
  case h_2 => exact hwatch

end Steps

theorem Sound.after (hwatch : watch.Sound) (steps : List (Step ρ)) :
    (watch.after steps).Sound := by
  induction steps generalizing watch with
  | nil => exact hwatch
  | cons next rest ih =>
    cases next with
    | arrives request => exact ih (hwatch.arrives request)
    | begins place => exact ih (hwatch.begins place)
    | finishes place => exact ih (hwatch.finishes place)

/-- A request that arrives is admitted when none is unfinished. -/
theorem Sound.admits_iff (hwatch : watch.Sound) (request : ρ) :
    (watch.step (.arrives request)).log = watch.log ++ [.admitted request] ↔
      watch.unfinished = [] := by
  rw [← hwatch.busy_eq_false_iff]
  cases hbusy : watch.gate.busy <;> simp [step, Gate.acquire, hbusy]

/-- A request that arrives is dropped when one is unfinished. -/
theorem Sound.drops_iff (hwatch : watch.Sound) (request : ρ) :
    (watch.step (.arrives request)).log = watch.log ++ [.dropped request] ↔
      watch.unfinished ≠ [] := by
  rw [ne_eq, ← hwatch.busy_eq_false_iff]
  cases hbusy : watch.gate.busy <;> simp [step, Gate.acquire, hbusy]

/-- Every request that was admitted has finished once what waits is begun and what runs is done. -/
theorem Sound.finished_after (hwatch : watch.Sound) :
    (watch.after [.begins 0, .finishes 0]).finished = watch.admitted := by
  rw [hwatch.admitted_eq]
  obtain ⟨hrunning, hwaiting⟩ | ⟨next, hrunning, hwaiting⟩ | ⟨next, hrunning, hwaiting⟩ :=
    hwatch.cases
  all_goals
    simp [Watch.after, step, hrunning, hwaiting, unfinished, finished, Report.finished?,
      List.filterMap_cons]

end Watch

/-- At most one guard of a gate is alive, and the gate is busy and refuses exactly while one is. So
a request is dropped when an execution is unfinished and runs alone otherwise, and those that run do
so once and in the order in which they were admitted. -/
theorem admits_one_at_a_time {Handle ρ : Type} :
    (∀ deeds : List (Gate.Deed Handle),
      let gate := ({} : Gate).after deeds
      (∀ attempt, gate.Holds attempt ↔
        ∃ earlier handle later, deeds = earlier ++ .tryAcquire handle :: later ∧
          attempt = (({} : Gate).after earlier).guards.length ∧
          ((({} : Gate).after earlier).perform (.tryAcquire handle)).1 = true ∧
          .dropGuard attempt ∉ later) ∧
      (∀ first second, gate.Holds first → gate.Holds second → first = second) ∧
      (∀ handle : Handle,
        (gate.perform (.isBusy handle)).1 = true ↔ ∃ attempt, gate.Holds attempt) ∧
      ∀ handle : Handle,
        (gate.perform (.tryAcquire handle)).1 = true ↔ ¬ ∃ attempt, gate.Holds attempt) ∧
    ∀ steps : List (Watch.Step ρ),
      let watch := ({} : Watch ρ).after steps
      watch.executions =
        watch.finished.flatMap (fun request ↦ [.began request, .finished request]) ++
          watch.running.map (fun next ↦ .began next.2) ∧
      watch.admitted = watch.finished ++ watch.unfinished.map Prod.snd ∧
      watch.unfinished.length ≤ 1 ∧
      (watch.after [.begins 0, .finishes 0]).finished = watch.admitted ∧
      ∀ request,
        ((watch.step (.arrives request)).log = watch.log ++ [.admitted request] ↔
          watch.unfinished = []) ∧
        ((watch.step (.arrives request)).log = watch.log ++ [.dropped request] ↔
          watch.unfinished ≠ []) := by
  refine ⟨fun deeds ↦ ?_, fun steps ↦ ?_⟩
  · have hgate := Gate.exclusive_fresh.after deeds
    refine ⟨fun attempt ↦ ?_, hgate.unique, fun _ ↦ hgate.busy_iff, fun handle ↦ ?_⟩
    · simp only [Gate.holds_after_iff, Gate.not_holds_fresh, false_and, false_or, Gate.perform,
        Gate.step, Gate.fst_acquire]
    · rw [not_exists, ← hgate.busy_eq_false_iff]
      exact Gate.fst_acquire _
  · have hwatch := Watch.sound_fresh.after steps
    exact ⟨hwatch.executions_eq, hwatch.admitted_eq, hwatch.one, hwatch.finished_after,
      fun request ↦ ⟨hwatch.admits_iff request, hwatch.drops_iff request⟩⟩

end Macropad.Trigger
