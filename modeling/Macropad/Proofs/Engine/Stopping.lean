import Mathlib
import Macropad.Proofs.Engine.Justification
import Macropad.Proofs.Engine.Transcript
import Macropad.Proofs.Screen.Matching

/-!
# How a run stops

Two things stop a run with an outcome: a wait that expires and a call that nests too deep. Without
one it stops at a search that is not answered and at key text that would be too long. `Cause` gives
what it takes for an action to stop the run, with the events of its block, and `execute_lastBlock`
says that this block is the last one of the run, whichever frame and whichever pass of a loop it
belongs to.

`execute_stopped` is about runs whose locator polls a matcher. Their answers are the ones of the
poller of that moment (`execute_justified`), so the wait that has expired is a limited one that has
missed its image, and an unlimited wait never expires.
-/

set_option autoImplicit false

namespace Macropad.Engine

open Macropad.Input Macropad.Language Macropad.Screen Macropad.Setting

variable {σ ι : Type} {desk : Desk σ ι}

/-! ### Blocks that stop -/

/-- What it takes for an action to stop the run, with the events of its block. -/
inductive Cause (session : Session) (depth position : Nat) (events : List Event) :
    Action → Stop → Prop
  | expired {timed : TimedImage}
      (hevents : events = [.located timed.image (.limit timed.limit) (.ok .timedOut)]) :
    Cause session depth position events (.await timed) (.timedOut position timed.image.file)
  /-- An unlimited wait that expires all the same. -/
  | gaveUp {a : Action} {before : List Event} {image : ImageRef}
      (hevents : events = before ++ [.located image .forever (.ok .timedOut)]) :
    Cause session depth position events a (.timedOut position image.file)
  | halted {a : Action} (halt : Halt) : Cause session depth position events a (.halted halt)
  | refused {name : String} (hcap : session.maxCallDepth.toNat < depth + 1)
      (hevents : events = []) :
    Cause session depth position events (.call name)
      (.depthExceeded position session.maxCallDepth name)

section Cause

variable {session : Session} {depth position : Nat} {a : Action} {stop : Stop}

/-- A limited wait that stops the run. -/
theorem cause_of_await {timed : TimedImage} {answer : Except Halt Located}
    (hanswer : concluded position timed.image answer = .error stop) :
    Cause session depth position [.located timed.image (.limit timed.limit) answer]
      (.await timed) stop := by
  match answer with
  | .ok (.found place) => cases hanswer
  | .ok .timedOut =>
    cases hanswer
    exact .expired rfl
  | .error halt =>
    cases hanswer
    exact .halted halt

/-- An unlimited wait that stops the run. -/
theorem cause_of_forever (before : List Event) {image : ImageRef} {answer : Except Halt Located}
    (hanswer : concluded position image answer = .error stop) :
    Cause session depth position (before ++ [.located image .forever answer]) a stop := by
  match answer with
  | .ok (.found place) => cases hanswer
  | .ok .timedOut =>
    cases hanswer
    exact .gaveUp rfl
  | .error halt =>
    cases hanswer
    exact .halted halt

/-- A side of a drag that stops the run. -/
theorem SideSought.cause {side : Option Endpoint} {events : List Event}
    (hside : SideSought position side events (.error stop)) (before : List Event) :
    Cause session depth position (before ++ events) a stop := by
  generalize hresult : Except.error stop = result at hside
  cases hside with
  | unreadable | point => cases hresult
  | image image answer =>
    cases hanswer : concluded position image answer with
    | ok place =>
      rw [hanswer] at hresult
      cases hresult
    | error stop' =>
      rw [hanswer] at hresult
      cases hresult
      exact cause_of_forever before hanswer

/-- Whatever stops the run has one of the causes. -/
theorem Performs.cause {block : Effect} (hblock : Performs desk session depth position a block)
    (hstop : block.stop? = some stop) : Cause session depth position block.events a stop := by
  cases hblock with
  | skip | sleep | unreadable | inject | setting | tabs | drag | respond | await | noInstance
  | lastInstance | absent | entered => cases hstop
  | awaitStopped hanswer =>
    cases hstop
    exact cause_of_await hanswer
  | respondStopped hanswer =>
    cases hstop
    exact cause_of_forever [] hanswer
  | dragUnstarted hstart =>
    cases hstop
    exact hstart.cause []
  | dragUnfinished _ hfinish =>
    cases hstop
    exact hfinish.cause _
  | tooLong | lastInstanceHalted =>
    cases hstop
    exact .halted _
  | refused hcap =>
    cases hstop
    exact .refused hcap rfl

end Cause

/-! ### The last block of a run -/

/-- A run that stops does so in the block of the instruction that it has begun last. -/
theorem Transcript.lastBlock {admitted : Nat → Nat → Instruction → Prop} {session final : Session}
    {effect : Effect} (htranscript : Transcript desk admitted session effect final) {stop : Stop}
    (hstop : effect.stop? = some stop) :
    ∃ before depth position i block,
      effect.events =
        before ++ beginning (sessionAfter session before) depth position i :: block.events ∧
      Performs desk (sessionAfter session before) depth position (Action.ofInstruction i) block ∧
      block.stop? = some stop := by
  induction htranscript with
  | done session => cases hstop
  | @stopped session depth position i block _ _ hblock _ =>
    exact ⟨[], depth, position, i, block, rfl, hblock, hstop⟩
  | @acted session final depth' position' i' first rest _ hfirst _ _ ih =>
    -- The first block does not stop, so the last one is that of what follows it.
    obtain ⟨before, depth, position, i, block, hevents, hblock, hlast⟩ := ih hstop
    rw [← sessionAfter_block hfirst before] at hevents hblock
    refine ⟨beginning session depth' position' i' :: (first.events ++ before), depth, position, i,
      block, ?_, hblock, hlast⟩
    rw [List.cons_append, List.append_assoc, ← hevents]
    rfl

/-- Only a stop ends a run in this way. -/
theorem Effect.stop?_of_outcome {effect : Effect} {executed : Nat} {stop : Stop}
    (houtcome : effect.outcome executed = stop.ending) : effect.stop? = some stop := by
  rw [Effect.outcome] at houtcome
  cases hstop : effect.stop? with
  | none =>
    rw [hstop] at houtcome
    cases stop <;> cases houtcome
  | some stop' =>
    rw [hstop] at houtcome
    cases stop <;> cases stop' <;> cases houtcome <;> rfl

/-- A run that is stopped ends with the block of the instruction that it has begun last, and the
action of this instruction is the cause. -/
theorem execute_lastBlock (desk : Desk σ ι) (program : Program) (session : Session) (locator : σ)
    (injector : ι) {stop : Stop}
    (hending : (execute desk program session locator injector).ending = stop.ending) :
    ∃ before depth position i block,
      (execute desk program session locator injector).state.events =
        before ++ beginning (sessionAfter session before) depth position i :: block ∧
      Cause (sessionAfter session before) depth position block (Action.ofInstruction i) stop := by
  obtain ⟨effect, htranscript, hevents, houtcome⟩ :=
    execute_transcribed desk program session locator injector
  have hstop : effect.stop? = some stop := Effect.stop?_of_outcome (houtcome.symm.trans hending)
  obtain ⟨before, depth, position, i, block, hlast, hblock, hcause⟩ := htranscript.lastBlock hstop
  exact ⟨before, depth, position, i, block.events, hevents.trans hlast, hblock.cause hcause⟩

/-- A run that nests too deep ends with the beginning of the call, which stands in the frame of that
moment, at a depth that the cap of that moment does not allow to go beyond. -/
theorem execute_of_depthExceeded (desk : Desk σ ι) (program : Program) (session : Session)
    (locator : σ) (injector : ι) {position : Nat} {max : UInt64} {name : String}
    (hending : (execute desk program session locator injector).ending =
      .ok (.depthExceeded position max name)) :
    ∃ before depth i,
      (execute desk program session locator injector).state.events =
        before ++ [.began depth position i max] ∧
      StandsIn (((Moment.start program locator injector).afterAll desk before).frame depth)
        position i ∧
      i.opcode? = some .runCommand ∧ i.argument = name ∧
      max = (sessionAfter session before).maxCallDepth ∧ max.toNat < depth + 1 := by
  have hjustified := (execute_justified desk program session locator injector).1
  have hstop : (execute desk program session locator injector).ending =
      (Stop.depthExceeded position max name).ending := hending
  obtain ⟨before, depth, position', i, block, hevents, hcause⟩ :=
    execute_lastBlock desk program session locator injector hstop
  rw [hevents] at hjustified
  generalize haction : Action.ofInstruction i = a at hcause
  cases hcause with
  | refused hcap hblock =>
    subst hblock
    obtain ⟨op, hopcode, rfl, hname⟩ := comesFrom_of_ofInstruction haction nofun
    exact ⟨before, depth, i, hevents, hjustified.justifies, hopcode, hname, rfl, hcap⟩

/-! ### Runs whose locator polls a matcher -/

section Polling

variable {μ : Type} {matcher : Matcher μ} {desk : Desk (Polling μ) ι}
  {moment : Moment (Polling μ) ι} {before after : List Event}

/-- A wait that has expired was limited, and the poller of that moment has missed its image. -/
theorem Justified.limit_misses (hlocator : desk.locator = matcher.locator) {image : ImageRef}
    {wait : Wait}
    (hjustified :
      Justified desk moment (before ++ .located image wait (.ok .timedOut) :: after)) :
    (∃ ms, wait = .limit ms) ∧
      (matcher.poller (moment.afterAll desk before).locator).Misses image wait := by
  have hanswer := hjustified.justifies
  rw [Moment.Justifies, hlocator] at hanswer
  exact Poller.limit_misses_of_timedOut hanswer.symm

/-- An unlimited wait never expires. -/
theorem Justified.forever_not_mem (hlocator : desk.locator = matcher.locator)
    {events : List Event} (hjustified : Justified desk moment events) (image : ImageRef) :
    .located image .forever (.ok .timedOut) ∉ events := by
  intro hmem
  obtain ⟨before, after, rfl⟩ := List.append_of_mem hmem
  obtain ⟨⟨ms, hwait⟩, -⟩ := hjustified.limit_misses hlocator
  cases hwait

/-- A run in which a wait expires ends with a limited search that has missed its image, in an
instruction that stands in the frame of that moment. -/
theorem execute_of_timedOut (hlocator : desk.locator = matcher.locator) (program : Program)
    (session : Session) (polling : Polling μ) (injector : ι) {position : Nat} {file : String}
    (hending : (execute desk program session polling injector).ending =
      .ok (.timedOut position file)) :
    ∃ before depth i cap timed,
      (execute desk program session polling injector).state.events =
        before ++ [.began depth position i cap,
          .located timed.image (.limit timed.limit) (.ok .timedOut)] ∧
      StandsIn (((Moment.start program polling injector).afterAll desk before).frame depth)
        position i ∧
      i.opcode? = some .waitForImageWithTimeout ∧ TimedImage.parse i.argument = .ok timed ∧
      timed.image.file = file ∧
      (matcher.poller ((Moment.start program polling injector).afterAll desk
        before).locator).Misses timed.image (.limit timed.limit) := by
  have hjustified := (execute_justified desk program session polling injector).1
  have hstop : (execute desk program session polling injector).ending =
      (Stop.timedOut position file).ending := hending
  obtain ⟨before, depth, position', i, block, hevents, hcause⟩ :=
    execute_lastBlock desk program session polling injector hstop
  rw [hevents] at hjustified
  generalize haction : Action.ofInstruction i = a at hcause
  cases hcause with
  | @expired timed hblock =>
    subst hblock
    obtain ⟨op, hopcode, rfl, hparse⟩ := comesFrom_of_ofInstruction haction nofun
    have hstands := hjustified.justifies
    -- The beginning of an instruction leaves the locator as it is.
    rw [List.append_cons] at hjustified
    have hmisses := (hjustified.limit_misses hlocator).2
    rw [Moment.afterAll_append] at hmisses
    exact ⟨before, depth, i, _, timed, hevents, hstands, hopcode, hparse, rfl, hmisses⟩
  | @gaveUp _ earlier image hblock =>
    subst hblock
    refine absurd ?_ (hjustified.forever_not_mem hlocator image)
    simp

/-- A run whose locator polls a matcher stops for good, and for the right cause. When a wait has
expired, the last event of the whole run is the limited search of this image, in the instruction at
the position of the current frame, and none of the attempts at it saw a match from the threshold
on. When a call would have nested too deep, the last event is the beginning of this call, at a depth
that the cap of that moment does not allow to go beyond. An unlimited wait never expires. -/
theorem execute_stopped (hlocator : desk.locator = matcher.locator) (program : Program)
    (session : Session) (polling : Polling μ) (injector : ι) :
    let run := execute desk program session polling injector
    let moment before := (Moment.start program polling injector).afterAll desk before
    (∀ position file, run.ending = .ok (.timedOut position file) →
      ∃ before depth i cap timed,
        run.state.events = before ++ [.began depth position i cap,
          .located timed.image (.limit timed.limit) (.ok .timedOut)] ∧
        StandsIn ((moment before).frame depth) position i ∧
        i.opcode? = some .waitForImageWithTimeout ∧
        TimedImage.parse i.argument = .ok timed ∧ timed.image.file = file ∧
        (matcher.poller (moment before).locator).Misses timed.image (.limit timed.limit)) ∧
      (∀ position max name, run.ending = .ok (.depthExceeded position max name) →
        ∃ before depth i,
          run.state.events = before ++ [.began depth position i max] ∧
          StandsIn ((moment before).frame depth) position i ∧
          i.opcode? = some .runCommand ∧ i.argument = name ∧
          max = (sessionAfter session before).maxCallDepth ∧ max.toNat < depth + 1) ∧
      ∀ image, .located image .forever (.ok .timedOut) ∉ run.state.events := by
  have hjustified := (execute_justified desk program session polling injector).1
  exact ⟨fun _ _ ↦ execute_of_timedOut hlocator program session polling injector,
    fun _ _ _ ↦ execute_of_depthExceeded desk program session polling injector,
    hjustified.forever_not_mem hlocator⟩

end Polling

/-- Shows an image in the first call and nothing later on. -/
def seenOnce : Matcher Nat where
  display calls :=
    ⟨[], .always (if calls = 0 then .seen [⟨⟨⟨0, 0⟩, 2, 2⟩, .zero⟩] else .seen [])⟩
  after _ _ calls := calls + 1

/-- A desk with one stored command, whose locator polls the matcher that shows an image once. -/
def seenOnceDesk : Desk (Polling Nat) Unit where
  command? _ := some "x;va.png,0"
  fileText? _ := none
  locator := seenOnce.locator
  injector := .failing fun _ ↦ false

/-- A stored command waits for an image in each of two passes. The second wait expires and stops
the caller with it. -/
theorem execute_stopped_of_wait :
    seenOnceDesk.locator = seenOnce.locator ∧
      ∃ (before : List Event) (depth : Nat) (i : Instruction) (cap : UInt64) (timed : TimedImage),
        (execute seenOnceDesk (Program.parse "[2]zb;p") .immediate ⟨"find", 1, .zero, 0⟩
          ()).state.events =
          before ++ [.began depth 2 i cap,
            .located timed.image (.limit timed.limit) (.ok .timedOut)] ∧
        i.opcode? = some .waitForImageWithTimeout ∧ timed.image.file = "a.png" := by
  have hlocator : seenOnceDesk.locator = seenOnce.locator := rfl
  have hending : (execute seenOnceDesk (Program.parse "[2]zb;p") .immediate ⟨"find", 1, .zero, 0⟩
      ()).ending = .ok (.timedOut 2 "a.png") := by
    cbv
  obtain ⟨before, depth, i, cap, timed, hevents, -, hopcode, -, hfile, -⟩ :=
    (execute_stopped hlocator (Program.parse "[2]zb;p") .immediate ⟨"find", 1, .zero, 0⟩ ()).1 2
      "a.png" hending
  exact ⟨hlocator, before, depth, i, cap, timed, hevents, hopcode, hfile⟩

end Macropad.Engine
