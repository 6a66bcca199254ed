import Macropad.Proofs.Engine.Stopping

/-!
# Runs without an outcome

There are two ways for a run to end without an outcome. A search goes without an answer
(`Event.Unanswered`), or an instruction asks for key text that would be longer than a text can be
(`Overlong`). The run does not go on behind either of them, so it has no outcome if and only if its
last event is such a search or the beginning of such an instruction (`execute_halted_iff`).

Without either of them, and when every search finds its image, there is one thing left that can stop
a run, a call that would nest deeper than the cap on depth allows (`execute_of_succeeded`).
-/

set_option autoImplicit false

namespace Macropad.Engine

open Macropad.Input Macropad.Language Macropad.Screen Macropad.Setting

variable {σ ι : Type} {desk : Desk σ ι}

/-! ### Searches without an answer -/

/-- A search for an image that has no answer. -/
inductive Event.Unanswered (image : ImageRef) (halt : Halt) : Event → Prop
  | located (wait : Wait) : Unanswered image halt (.located image wait (.error halt))
  | locatedAll : Unanswered image halt (.locatedAll image (.error halt))

/-- An instruction whose key text would be longer than a text can be. -/
def Overlong (i : Instruction) : Prop :=
  i.opcode? = some .altTab ∧
    ∃ times, Action.count? i.argument = some times ∧
      textCapacity < (switchKeys times).utf8ByteSize

theorem overlong_iff {i : Instruction} :
    Overlong i ↔ ∃ times, Action.ofInstruction i = .switchWindows times ∧
      textCapacity < switchSize times := by
  simp only [Overlong, utf8ByteSize_switchKeys]
  constructor
  · rintro ⟨hop, times, hcount, hsize⟩
    refine ⟨times, ?_, hsize⟩
    rw [Action.ofInstruction, hop]
    simp only [Action.ofOpcode?, hcount, Option.map_some, Option.getD_some]
  · rintro ⟨times, haction, hsize⟩
    obtain ⟨op, hop, rfl, hcount⟩ := comesFrom_of_ofInstruction haction (by rintro ⟨⟩)
    exact ⟨hop, times, hcount, hsize⟩

section Blocks

variable {session : Session} {depth position : Nat} {a : Action} {block : Effect} {halt : Halt}
  {event : Event} {image : ImageRef}

theorem concluded_eq_halted_iff {answer : Except Halt Located} :
    concluded position image answer = .error (.halted halt) ↔ answer = .error halt := by
  rcases answer with other | (place | _) <;> simp [concluded]

theorem SideSought.exists_unanswered {side : Option Endpoint} {events : List Event}
    (hside : SideSought position side events (.error (.halted halt))) :
    ∃ image event, events = [event] ∧ event.Unanswered image halt := by
  generalize hresult : Except.error (Stop.halted halt) = result at hside
  cases hside with
  | unreadable | point => cases hresult
  | image image answer =>
    cases hanswer : concluded position image answer with
    | ok place =>
      rw [hanswer] at hresult
      cases hresult
    | error stop =>
      rw [hanswer] at hresult
      cases hresult
      obtain rfl := concluded_eq_halted_iff.1 hanswer
      exact ⟨image, _, rfl, .located .forever⟩

theorem SideSought.halted {side : Option Endpoint} {events : List Event}
    {result : Except Stop (Option Point)} (hside : SideSought position side events result)
    (hevent : event ∈ events) (hunanswered : event.Unanswered image halt) :
    result = .error (.halted halt) := by
  cases hside with
  | unreadable | point => cases hevent
  | image image' answer =>
    obtain rfl := List.mem_singleton.1 hevent
    cases hunanswered
    rfl

theorem Pressed.not_unanswered {start? finish? : Option Point} {events : List Event}
    (hpressed : Pressed start? finish? events) (hevent : event ∈ events) :
    ¬ event.Unanswered image halt := by
  intro hunanswered
  cases hpressed <;> cases hunanswered <;> simp at hevent

theorem Answered.not_unanswered {γ δ : Type} {make : γ → δ → Event} {question : Option γ}
    {events : List Event}
    (hmake : ∀ question answer, ¬ (make question answer).Unanswered image halt)
    (hanswered : Answered make question events) (hevent : event ∈ events) :
    ¬ event.Unanswered image halt := by
  cases hanswered with
  | unasked => cases hevent
  | asked question answer =>
    obtain rfl := List.mem_singleton.1 hevent
    exact hmake question answer

/-- A block that halts has asked last for what it got no answer to, or asks for text that would be
too long. -/
theorem Performs.cause_of_halted (hblock : Performs desk session depth position a block)
    (hstop : block.stop? = some (.halted halt)) :
    (∃ before image event, block.events = before ++ [event] ∧ event.Unanswered image halt) ∨
      block.events = [] ∧ halt = .overflow .capacity ∧
        ∃ times, a = .switchWindows times ∧ textCapacity < switchSize times := by
  cases hblock with
  | skip | sleep | unreadable | inject | setting | tabs | drag | respond | await | noInstance
  | lastInstance | absent | entered | refused => cases hstop
  | dragUnstarted hstart =>
    cases hstop
    obtain ⟨image, event, rfl, hunanswered⟩ := hstart.exists_unanswered
    exact .inl ⟨[], image, event, rfl, hunanswered⟩
  | dragUnfinished _ hfinish =>
    cases hstop
    obtain ⟨image, event, rfl, hunanswered⟩ := hfinish.exists_unanswered
    exact .inl ⟨_, image, event, rfl, hunanswered⟩
  | respondStopped hanswer | awaitStopped hanswer =>
    cases hstop
    obtain rfl := concluded_eq_halted_iff.1 hanswer
    exact .inl ⟨[], _, _, rfl, .located _⟩
  | lastInstanceHalted image =>
    cases hstop
    exact .inl ⟨[], image, _, rfl, .locatedAll⟩
  | tooLong hsize =>
    cases hstop
    exact .inr ⟨rfl, rfl, _, rfl, hsize⟩

/-- A block with a search that has no answer stops there. -/
theorem Performs.halted (hblock : Performs desk session depth position a block)
    (hevent : event ∈ block.events) (hunanswered : event.Unanswered image halt) :
    block.stop? = some (.halted halt) := by
  cases hblock with
  | skip | sleep | unreadable | tooLong | absent | refused => cases hevent
  | inject | tabs | noInstance | lastInstance | entered => cases hunanswered <;> simp at hevent
  | setting htuned => exact absurd hunanswered (htuned.not_unanswered nofun hevent)
  | dragUnstarted hstart => exact congrArg _ (Except.error.inj (hstart.halted hevent hunanswered))
  | dragUnfinished hstart hfinish =>
    rcases List.mem_append.1 hevent with hevent | hevent
    · cases hstart.halted hevent hunanswered
    · exact congrArg _ (Except.error.inj (hfinish.halted hevent hunanswered))
  | drag hstart hfinish hpressed =>
    rcases List.mem_append.1 hevent with hsides | hevent
    · rcases List.mem_append.1 hsides with hevent | hevent
      · cases hstart.halted hevent hunanswered
      · cases hfinish.halted hevent hunanswered
    · exact absurd hunanswered (hpressed.not_unanswered hevent)
  | respond hanswer hinjected =>
    rcases List.mem_cons.1 hevent with rfl | hevent
    · cases hunanswered
      cases hanswer
    · exact absurd hunanswered (hinjected.not_unanswered nofun hevent)
  | await hanswer =>
    obtain rfl := List.mem_singleton.1 hevent
    cases hunanswered
    cases hanswer
  | respondStopped hanswer | awaitStopped hanswer =>
    obtain rfl := List.mem_singleton.1 hevent
    cases hunanswered
    exact congrArg _ (Except.error.inj hanswer.symm)
  | lastInstanceHalted image halt =>
    obtain rfl := List.mem_singleton.1 hevent
    cases hunanswered
    rfl

/-- A block that would have to make text that is too long stops in place of it. -/
theorem Performs.halted_of_switchWindows {times : Nat} (hsize : textCapacity < switchSize times)
    (hblock : Performs desk session depth position (.switchWindows times) block) :
    block.stop? = some (.halted (.overflow .capacity)) := by
  cases hblock with
  | inject hoperation =>
    rw [Action.operation?, if_neg (Nat.not_le.2 hsize)] at hoperation
    cases hoperation
  | tooLong => rfl

end Blocks

/-! ### Runs without an outcome -/

/-- An event behind which a run does not go on, and comes to no outcome. -/
inductive Event.Halts : Halt → Event → Prop
  | unanswered {image : ImageRef} {halt : Halt} {event : Event}
      (hunanswered : event.Unanswered image halt) : Halts halt event
  | overlong {i : Instruction} (hlong : Overlong i) (depth position : Nat) (cap : UInt64) :
    Halts (.overflow .capacity) (.began depth position i cap)

namespace Transcript

variable {admitted : Nat → Nat → Instruction → Prop} {session final : Session} {effect : Effect}
  {halt : Halt} {event : Event}

/-- A run that halts does so with its last event. -/
theorem exists_halts (htranscript : Transcript desk admitted session effect final)
    (hstop : effect.stop? = some (.halted halt)) :
    ∃ before event, effect.events = before ++ [event] ∧ event.Halts halt := by
  obtain ⟨before, depth, position, i, block, hevents, hblock, hlast⟩ := htranscript.lastBlock hstop
  rcases hblock.cause_of_halted hlast with
    ⟨earlier, image, event, hblockEvents, hunanswered⟩ | ⟨hblockEvents, rfl, hlong⟩
  · refine ⟨before ++ beginning (sessionAfter session before) depth position i :: earlier, event,
      ?_, .unanswered hunanswered⟩
    rw [hevents, hblockEvents, List.append_assoc, List.cons_append]
  · refine ⟨before, beginning (sessionAfter session before) depth position i, ?_,
      .overlong (overlong_iff.2 hlong) depth position _⟩
    rw [hevents, hblockEvents]

/-- A run does not go on behind a search without an answer. -/
theorem halted_of_unanswered {image : ImageRef}
    (htranscript : Transcript desk admitted session effect final) (hevent : event ∈ effect.events)
    (hunanswered : event.Unanswered image halt) : effect.stop? = some (.halted halt) := by
  have hbeginning (session : Session) (depth position : Nat) (i : Instruction) :
      event ≠ beginning session depth position i := by
    rintro rfl
    cases hunanswered
  induction htranscript with
  | done => cases hevent
  | stopped _ hblock _ =>
    exact hblock.halted ((List.mem_cons.1 hevent).resolve_left (hbeginning _ _ _ _)) hunanswered
  | acted _ hblock hnone _ ih =>
    rcases List.mem_append.1 hevent with hfirst | hrest
    · have hmem := (List.mem_cons.1 hfirst).resolve_left (hbeginning _ _ _ _)
      cases (hblock.halted hmem hunanswered).symm.trans hnone
    · exact ih hrest

/-- A run does not go on behind an instruction whose key text would be too long. -/
theorem halted_of_overlong {depth position : Nat} {i : Instruction} {cap : UInt64}
    (htranscript : Transcript desk admitted session effect final)
    (hevent : .began depth position i cap ∈ effect.events) (hlong : Overlong i) :
    effect.stop? = some (.halted (.overflow .capacity)) := by
  obtain ⟨before, after, hevents⟩ := List.append_of_mem hevent
  obtain ⟨times, haction, hsize⟩ := overlong_iff.1 hlong
  obtain ⟨-, -, block, hblock, hrest⟩ := htranscript.block hevents
  rw [haction] at hblock
  have hhalted := hblock.halted_of_switchWindows hsize
  rcases hrest with ⟨stop, hstop, heffect, -⟩ | ⟨hnone, -⟩
  · rw [heffect, ← hstop, hhalted]
  · cases hhalted.symm.trans hnone

end Transcript

/-- A run has no outcome if and only if it comes to a search without an answer or to key text that
would be too long, and this is then its last event. -/
theorem execute_halted_iff (desk : Desk σ ι) (program : Program) (session : Session) (locator : σ)
    (injector : ι) {halt : Halt} :
    (execute desk program session locator injector).ending = .error halt ↔
      ∃ before event, (execute desk program session locator injector).state.events =
        before ++ [event] ∧ event.Halts halt := by
  obtain ⟨effect, htranscript, hevents, houtcome⟩ :=
    execute_transcribed desk program session locator injector
  rw [hevents, houtcome]
  constructor
  · intro hending
    have hstop : effect.outcome _ = (Stop.halted halt).ending := hending
    exact htranscript.exists_halts (Effect.stop?_of_outcome hstop)
  · rintro ⟨before, event, hlast, hhalts⟩
    have hevent : event ∈ effect.events := hlast ▸ List.mem_append_right before List.mem_cons_self
    have hstop : effect.stop? = some (.halted halt) := by
      cases hhalts with
      | unanswered hunanswered => exact htranscript.halted_of_unanswered hevent hunanswered
      | overlong hlong => exact htranscript.halted_of_overlong hevent hlong
    rw [Effect.outcome, hstop]
    rfl

/-! ### Runs whose searches all succeed -/

/-- If the event is a search, the image has been found. -/
def Event.Succeeded : Event → Prop
  | .located _ _ answer => ∃ place, answer = .ok (.found place)
  | .locatedAll _ answer => ∃ places, answer = .ok places
  | _ => True

theorem Event.Unanswered.not_succeeded {image : ImageRef} {halt : Halt} {event : Event}
    (hunanswered : event.Unanswered image halt) : ¬ event.Succeeded := by
  cases hunanswered with
  | located wait =>
    rintro ⟨place, hplace⟩
    cases hplace
  | locatedAll =>
    rintro ⟨places, hplaces⟩
    cases hplaces

/-- A run whose searches all succeed and which comes to no text that would be too long completes, or
is stopped by the cap on depth. -/
theorem execute_of_succeeded {program : Program} {session : Session} {locator : σ} {injector : ι}
    (hevents : ∀ event ∈ (execute desk program session locator injector).state.events,
      event.Succeeded)
    (hshort : ∀ depth position i cap, .began depth position i cap ∈
      (execute desk program session locator injector).state.events → ¬ Overlong i) :
    (∃ executed, (execute desk program session locator injector).ending =
        .ok (.completed executed)) ∨
      ∃ position max name, (execute desk program session locator injector).ending =
        .ok (.depthExceeded position max name) := by
  cases hending : (execute desk program session locator injector).ending with
  | error halt =>
    obtain ⟨before, event, hlast, hhalts⟩ := (execute_halted_iff ..).1 hending
    have hmem := hlast ▸ List.mem_append_right before (List.mem_singleton_self event)
    cases hhalts with
    | unanswered hunanswered => exact absurd (hevents event hmem) hunanswered.not_succeeded
    | overlong hlong => exact absurd hlong (hshort _ _ _ _ hmem)
  | ok outcome =>
    cases outcome with
    | completed executed => exact .inl ⟨executed, rfl⟩
    | depthExceeded position max name => exact .inr ⟨position, max, name, rfl⟩
    | timedOut position file =>
      -- The last block would end with the search that has expired.
      have hstop : (execute desk program session locator injector).ending =
          (Stop.timedOut position file).ending := hending
      obtain ⟨before, depth, position', i, block, hlast, hcause⟩ :=
        execute_lastBlock desk program session locator injector hstop
      have hblock (event : Event) (hmem : event ∈ block) : event.Succeeded := by
        refine hevents event ?_
        rw [hlast]
        exact List.mem_append_right before (List.mem_cons_of_mem _ hmem)
      generalize Action.ofInstruction i = a at hcause
      cases hcause with
      | expired hexpired =>
        obtain ⟨place, hplace⟩ := hblock _ (hexpired ▸ List.mem_singleton_self _)
        cases hplace
      | gaveUp hgaveUp =>
        obtain ⟨place, hplace⟩ :=
          hblock _ (hgaveUp ▸ List.mem_append_right _ (List.mem_singleton_self _))
        cases hplace

end Macropad.Engine
