import Macropad.Proofs.Engine.Effect

/-!
# Transcripts of runs

The events of a run form a transcript: one block for each instruction that was begun, in order,
and each block holds an effect that the action of its instruction has in the session of that
moment. A block that stops the run is the last one. `execute_transcript` says so of every run.

Instructions come from the program or from a stored command that was entered, so every property
of instructions that calls hand on holds of each block. `Transcript.block` cuts a transcript at an
instruction and `Transcript.entry` at the entry of a stored command; the session of that moment is
the one that the instructions begun before it have left, `sessionAfter`.
-/

set_option autoImplicit false

namespace Macropad.Engine

open Macropad.Input Macropad.Language Macropad.Screen Macropad.Setting

variable {σ ι : Type}

/-- The event that begins an instruction in a session. -/
def beginning (session : Session) (depth position : Nat) (i : Instruction) : Event :=
  .began depth position i session.maxCallDepth

namespace Effect

/-- An effect with one more event in front. -/
def headed (event : Event) (effect : Effect) : Effect :=
  { effect with events := event :: effect.events }

/-- Two effects, of which the first does not stop. -/
def andThen (first second : Effect) : Effect where
  events := first.events ++ second.events
  stop? := second.stop?

theorem andThen_assoc (first second third : Effect) :
    (first.andThen second).andThen third = first.andThen (second.andThen third) := by
  simp only [andThen, List.append_assoc]

end Effect

/-- What a run can bring about that starts in the first session and leaves the second. -/
inductive Transcript (desk : Desk σ ι) (admitted : Nat → Nat → Instruction → Prop) :
    Session → Effect → Session → Prop
  | done (session : Session) : Transcript desk admitted session {} session
  | stopped {session : Session} {depth position : Nat} {i : Instruction} {block : Effect}
      {stop : Stop} (hadmitted : admitted depth position i)
      (hblock : Performs desk session depth position (Action.ofInstruction i) block)
      (hstop : block.stop? = some stop) :
    Transcript desk admitted session (block.headed (beginning session depth position i))
      ((Action.ofInstruction i).sessionAfter session)
  | acted {session final : Session} {depth position : Nat} {i : Instruction} {block rest : Effect}
      (hadmitted : admitted depth position i)
      (hblock : Performs desk session depth position (Action.ofInstruction i) block)
      (hstop : block.stop? = none)
      (hrest : Transcript desk admitted ((Action.ofInstruction i).sessionAfter session) rest
        final) :
    Transcript desk admitted session
      ((block.headed (beginning session depth position i)).andThen rest) final

variable {desk : Desk σ ι} {admitted : Nat → Nat → Instruction → Prop}

/-- A transcript that does not stop goes on with any transcript from the session it leaves. -/
theorem Transcript.append {session middle final : Session} {first second : Effect}
    (hfirst : Transcript desk admitted session first middle) (hstop : first.stop? = none)
    (hsecond : Transcript desk admitted middle second final) :
    Transcript desk admitted session (first.andThen second) final := by
  induction hfirst with
  | done session => exact hsecond
  | stopped hadmitted hblock hsome => cases hsome.symm.trans hstop
  | acted hadmitted hblock hnone hrest ih =>
    rw [Effect.andThen_assoc]
    exact .acted hadmitted hblock hnone (ih hstop hsecond)

/-! ### Every run has a transcript -/

/-- A part of a run that has a transcript wherever it starts. -/
def Transcribed (desk : Desk σ ι) (admitted : Nat → Nat → Instruction → Prop)
    (part : Running σ ι Unit) : Prop :=
  ∀ s, ∃ effect s', part.run s = effect.ending s' ∧ s'.log = effect.events.reverse ++ s.log ∧
    Transcript desk admitted s.session effect s'.session

theorem transcribed_pure : Transcribed desk admitted (pure ()) :=
  fun s ↦ ⟨{}, s, rfl, rfl, .done s.session⟩

theorem Transcribed.seq {first second : Running σ ι Unit}
    (hfirst : Transcribed desk admitted first) (hsecond : Transcribed desk admitted second) :
    Transcribed desk admitted (do first; second) := by
  intro s
  obtain ⟨effect₁, s₁, hrun₁, hlog₁, htranscript₁⟩ := hfirst s
  cases hstop : effect₁.stop? with
  | some stop =>
    refine ⟨effect₁, s₁, ?_, hlog₁, htranscript₁⟩
    simp only [EStateM.run_bind, hrun₁, Effect.ending, hstop]
  | none =>
    obtain ⟨effect₂, s₂, hrun₂, hlog₂, htranscript₂⟩ := hsecond s₁
    refine ⟨effect₁.andThen effect₂, s₂, ?_, ?_, htranscript₁.append hstop htranscript₂⟩
    · simp only [EStateM.run_bind, hrun₁, hrun₂, Effect.ending, hstop, Effect.andThen]
    · rw [hlog₂, hlog₁, Effect.andThen, List.reverse_append, List.append_assoc]

theorem transcribed_wrapUp : Transcribed desk admitted wrapUp := by
  intro s
  obtain ⟨s', hrun, hmoved⟩ := run_wrapUp s
  refine ⟨{}, s', hrun, hmoved.log, ?_⟩
  rw [hmoved.session]
  exact .done s.session

/-- Behind a block that does not stop, the transcript of the next part follows. -/
theorem Transcribed.behind {part : Running σ ι Unit} (hpart : Transcribed desk admitted part)
    {depth position : Nat} {i : Instruction} {block : Effect} (s s₁ : State σ ι)
    (hadmitted : admitted depth position i)
    (hblock : Performs desk s.session depth position (Action.ofInstruction i) block)
    (hstop : block.stop? = none)
    (hlog : s₁.log =
      (block.headed (beginning s.session depth position i)).events.reverse ++ s.log)
    (hsession : s₁.session = (Action.ofInstruction i).sessionAfter s.session) :
    ∃ effect s', part.run s₁ = effect.ending s' ∧ s'.log = effect.events.reverse ++ s.log ∧
      Transcript desk admitted s.session effect s'.session := by
  obtain ⟨rest, s₂, hrun, hlog₂, hrest⟩ := hpart s₁
  rw [hsession] at hrest
  refine ⟨(block.headed _).andThen rest, s₂, hrun, ?_, .acted hadmitted hblock hstop hrest⟩
  rw [hlog₂, hlog, Effect.andThen, List.reverse_append, List.append_assoc]

/-- A call leaves the session as it is until its frame is run. -/
theorem sessionAfter_of_call {i : Instruction} {name : String}
    (haction : Action.ofInstruction i = .call name) (session : Session) :
    (Action.ofInstruction i).sessionAfter session = session := by
  rw [haction]
  rfl

/-- An instruction that is no call has a transcript of one block. -/
theorem transcribed_step_of_not_call {depth position : Nat} {i : Instruction}
    (hadmitted : admitted depth position i) (hcall : ∀ name, Action.ofInstruction i ≠ .call name) :
    Transcribed desk admitted (step desk depth position i) := by
  intro s
  obtain ⟨block, s₁, hperform, hblock, hmoved⟩ :=
    run_perform desk depth position hcall (s.begin depth position i)
  have hsession : s₁.session = (Action.ofInstruction i).sessionAfter s.session := hmoved.session
  have hlog : s₁.log =
      (block.headed (beginning s.session depth position i)).events.reverse ++ s.log := by
    rw [Effect.headed, List.reverse_cons, List.append_assoc]
    exact hmoved.log
  rw [run_step_of_not_call desk rfl hcall, EStateM.run_bind, hperform]
  cases hstop : block.stop? with
  | some stop =>
    refine ⟨block.headed (beginning s.session depth position i), s₁, ?_, hlog, ?_⟩
    · simp only [Effect.ending, Effect.headed, hstop]
    · rw [hsession]
      exact .stopped hadmitted hblock hstop
  | none =>
    simp only [Effect.ending, hstop]
    exact transcribed_wrapUp.behind s s₁ hadmitted hblock hstop hlog hsession

/-- An instruction has a transcript when the frame that it enters, if any, has one. -/
theorem transcribed_step {depth position : Nat} {i : Instruction}
    (hadmitted : admitted depth position i)
    (hframe : depth + 1 < UInt64.size → ∀ name text, Action.ofInstruction i = .call name →
      desk.runnable? name = some text →
      Transcribed desk admitted (runFrom desk (depth + 1) 1 (Program.parse text))) :
    Transcribed desk admitted (step desk depth position i) := by
  intro s
  generalize haction : Action.ofInstruction i = a
  cases way desk depth s.session a with
  | acts hcall =>
    subst haction
    exact transcribed_step_of_not_call hadmitted hcall s
  | @refused name hcap =>
    have hblock : Performs desk s.session depth position (Action.ofInstruction i)
        { stop? := some (.depthExceeded position s.session.maxCallDepth name) } := by
      rw [haction]
      exact .refused hcap
    have htranscript := Transcript.stopped hadmitted hblock rfl
    rw [sessionAfter_of_call haction] at htranscript
    refine ⟨_, s.begin depth position i, ?_, ?_, htranscript⟩
    · exact run_step_refused desk depth position haction hcap
    · rfl
  | absent hcap hname =>
    have hblock : Performs desk s.session depth position (Action.ofInstruction i) {} := by
      rw [haction]
      exact .absent hcap hname
    rw [run_step_absent desk depth position haction hcap hname]
    exact transcribed_wrapUp.behind s (s.begin depth position i) hadmitted hblock rfl rfl
      (sessionAfter_of_call haction s.session).symm
  | @entered name text hcap hdepth hname =>
    have hblock : Performs desk s.session depth position (Action.ofInstruction i)
        { events := [.entered (depth + 1) name (Program.parse text)] } := by
      rw [haction]
      exact .entered hcap hname
    have hpart := (hframe hdepth name text haction hname).seq transcribed_wrapUp
    rw [run_step_entered desk depth position haction hcap hname]
    exact hpart.behind s _ hadmitted hblock rfl rfl (sessionAfter_of_call haction s.session).symm

/-- Calls hand a property of instructions on to the stored commands that they enter. -/
def HandsOn (desk : Desk σ ι) (admitted : Nat → Nat → Instruction → Prop) : Prop :=
  ∀ depth position i name text, admitted depth position i → Action.ofInstruction i = .call name →
    desk.runnable? name = some text → Admits admitted (depth + 1) 1 (Program.parse text)

/-- A program has a transcript, in which all instructions have the property. -/
theorem transcribed_runFrom (hcalls : HandsOn desk admitted) {depth position : Nat}
    {program : Program} (hprogram : Admits admitted depth position program) :
    Transcribed desk admitted (runFrom desk depth position program) := by
  refine runFrom_holds (fun _ part ↦ Transcribed desk admitted part) (fun _ ↦ transcribed_pure)
    (fun _ _ _ hfirst hsecond ↦ hfirst.seq hsecond) ?_ hprogram
  intro depth position i hadmitted hframe
  refine transcribed_step hadmitted ?_
  intro hdepth name text haction hname
  exact hframe hdepth _ (hcalls depth position i name text hadmitted haction hname)

/-- How a run with this effect ends that has run a number of instructions. -/
def Effect.outcome (effect : Effect) (executed : Nat) : Except Halt Outcome :=
  match effect.stop? with
  | none => .ok (.completed executed)
  | some stop => stop.ending

/-- The events of every run form a transcript, which says how the run ends. -/
theorem execute_transcript (hcalls : HandsOn desk admitted) {program : Program}
    (hprogram : Admits admitted 0 1 program) (session : Session) (locator : σ) (injector : ι) :
    ∃ effect,
      Transcript desk admitted session effect
        (execute desk program session locator injector).state.session ∧
      (execute desk program session locator injector).state.events = effect.events ∧
      (execute desk program session locator injector).ending =
        effect.outcome (execute desk program session locator injector).state.executed := by
  obtain ⟨effect, s', hrun, hlog, htranscript⟩ := transcribed_runFrom hcalls hprogram
    (State.start session locator injector)
  have hevents : s'.events = effect.events := by
    rw [State.events, hlog]
    exact (congrArg List.reverse (List.append_nil _)).trans effect.events.reverse_reverse
  rw [execute_eq, hrun]
  refine ⟨effect, ?_⟩
  simp only [Effect.ending, Effect.outcome]
  cases hstop : effect.stop? with
  | none => exact ⟨htranscript, hevents, rfl⟩
  | some stop => exact ⟨htranscript, hevents, rfl⟩

/-- The same of any program, when nothing is asked of its instructions. -/
theorem execute_transcribed (desk : Desk σ ι) (program : Program) (session : Session) (locator : σ)
    (injector : ι) :
    ∃ effect,
      Transcript desk (fun _ _ _ ↦ True) session effect
        (execute desk program session locator injector).state.session ∧
      (execute desk program session locator injector).state.events = effect.events ∧
      (execute desk program session locator injector).ending =
        effect.outcome (execute desk program session locator injector).state.executed :=
  execute_transcript
    (fun depth _ _ _ text _ _ _ ↦ admits_true (depth + 1) 1 (Program.parse text))
    (admits_true 0 1 program) session locator injector

/-! ### Cutting a transcript -/

theorem Answered.isCall {γ δ : Type} {event : γ → δ → Event} {question : Option γ}
    {events : List Event} (hevent : ∀ question answer, (event question answer).isCall)
    (hanswered : Answered event question events) : ∀ event ∈ events, event.isCall := by
  cases hanswered with
  | unasked => exact List.forall_mem_nil _
  | asked question answer =>
    intro other hother
    rw [List.mem_singleton.1 hother]
    exact hevent question answer

theorem SideSought.isCall {position : Nat} {side : Option Endpoint} {events : List Event}
    {result : Except Stop (Option Point)} (hside : SideSought position side events result) :
    ∀ event ∈ events, event.isCall := by
  cases hside <;> simp [Event.isCall]

theorem Pressed.isCall {start? finish? : Option Point} {events : List Event}
    (hpressed : Pressed start? finish? events) : ∀ event ∈ events, event.isCall := by
  cases hpressed <;> simp [Event.isCall]

section Performs

variable {session : Session} {depth position : Nat} {a : Action} {block : Effect}

/-- An action that is no call consists of calls of collaborators. -/
theorem Performs.isCall (hcall : ∀ name, a ≠ .call name)
    (hblock : Performs desk session depth position a block) :
    ∀ event ∈ block.events, event.isCall := by
  cases hblock with
  | skip | sleep | unreadable | tooLong => exact List.forall_mem_nil _
  | inject | tabs | await | awaitStopped | respondStopped | noInstance | lastInstance
  | lastInstanceHalted => simp [Event.isCall]
  | setting htuned => exact htuned.isCall fun _ _ ↦ rfl
  | dragUnstarted hstart => exact hstart.isCall
  | dragUnfinished hstart hfinish =>
    simp only [List.mem_append]
    rintro event (hevent | hevent)
    · exact hstart.isCall event hevent
    · exact hfinish.isCall event hevent
  | drag hstart hfinish hpressed =>
    simp only [List.mem_append]
    rintro event ((hevent | hevent) | hevent)
    · exact hstart.isCall event hevent
    · exact hfinish.isCall event hevent
    · exact hpressed.isCall event hevent
  | respond hanswer hinjected =>
    exact List.forall_mem_cons.2 ⟨rfl, hinjected.isCall fun _ _ ↦ rfl⟩
  | refused | absent | entered => exact absurd rfl (hcall _)

/-- No action begins an instruction. -/
theorem Performs.began_not_mem (hblock : Performs desk session depth position a block)
    (depth' position' : Nat) (i : Instruction) (cap : UInt64) :
    .began depth' position' i cap ∉ block.events := by
  intro hevent
  by_cases hcall : ∃ name, a = .call name
  · obtain ⟨name, rfl⟩ := hcall
    cases hblock with
    | inject hoperation => cases hoperation
    | refused | absent => cases hevent
    | entered => cases List.mem_singleton.1 hevent
  · cases hblock.isCall (fun name hname ↦ hcall ⟨name, hname⟩) _ hevent

/-- Only a call within the cap on depth enters a frame, and does nothing before. -/
theorem Performs.entry (hblock : Performs desk session depth position a block) {depth' : Nat}
    {name : String} {program : Program} {before after : List Event}
    (hevents : block.events = before ++ .entered depth' name program :: after) :
    a = .call name ∧ before = [] ∧ depth' = depth + 1 ∧ depth' ≤ session.maxCallDepth.toNat ∧
      ∃ text, desk.runnable? name = some text ∧ program = Program.parse text := by
  have hevent : .entered depth' name program ∈ block.events :=
    hevents ▸ List.mem_append_right before List.mem_cons_self
  by_cases hcall : ∃ name, a = .call name
  · obtain ⟨name, rfl⟩ := hcall
    cases hblock with
    | inject hoperation => cases hoperation
    | refused | absent => cases hevent
    | entered hcap hname =>
      rcases List.singleton_eq_append_iff.1 hevents with ⟨rfl, hrest⟩ | ⟨-, hrest⟩
      · cases hrest
        exact ⟨rfl, rfl, rfl, hcap, _, hname, rfl⟩
      · cases hrest
  · cases hblock.isCall (fun name hname ↦ hcall ⟨name, hname⟩) _ hevent

end Performs

/-- The session once the instruction that an event begins has been run. -/
def Event.sessionAfter (session : Session) : Event → Session
  | .began _ _ i _ => (Action.ofInstruction i).sessionAfter session
  | _ => session

/-- The session that the instructions begun in these events leave. -/
def sessionAfter (session : Session) (events : List Event) : Session :=
  events.foldl Event.sessionAfter session

theorem sessionAfter_append (session : Session) (first second : List Event) :
    sessionAfter session (first ++ second) = sessionAfter (sessionAfter session first) second :=
  List.foldl_append

/-- Events that begin no instruction leave the session as it is. -/
theorem sessionAfter_of_not_began {session : Session} {events : List Event}
    (hevents : ∀ depth position i cap, .began depth position i cap ∉ events) :
    sessionAfter session events = session := by
  induction events with
  | nil => rfl
  | cons event rest ih =>
    have hevent : event.sessionAfter session = session := by
      cases event with
      | began depth position i cap => exact absurd List.mem_cons_self (hevents depth position i cap)
      | _ => rfl
    rw [sessionAfter, List.foldl_cons, hevent]
    exact ih fun depth position i cap hmem ↦
      hevents depth position i cap (List.mem_cons_of_mem event hmem)

/-- Within a block, the session is the one that its instruction leaves. -/
theorem sessionAfter_block {session : Session} {depth position : Nat} {i : Instruction}
    {block : Effect}
    (hblock : Performs desk session depth position (Action.ofInstruction i) block)
    (events : List Event) :
    sessionAfter session (beginning session depth position i :: (block.events ++ events)) =
      sessionAfter ((Action.ofInstruction i).sessionAfter session) events := by
  have hbegun : sessionAfter session (beginning session depth position i :: block.events) =
      (Action.ofInstruction i).sessionAfter session :=
    sessionAfter_of_not_began hblock.began_not_mem
  rw [← List.cons_append, sessionAfter_append, hbegun]

/-- A block that enters a stored command does so right behind its beginning, in the session that it
starts in. -/
theorem Performs.entry_behind_beginning {session : Session} {depth position depth' : Nat}
    {i : Instruction} {block : Effect} {name : String} {program : Program}
    {before after : List Event}
    (hblock : Performs desk session depth position (Action.ofInstruction i) block)
    (hevents : block.events = before ++ .entered depth' name program :: after) :
    ∃ earlier caller position' i' cap,
      beginning session depth position i :: before = earlier ++ [.began caller position' i' cap] ∧
        Action.ofInstruction i' = .call name ∧ depth' = caller + 1 ∧ depth' ≤ cap.toNat ∧
        cap = (sessionAfter session
          (beginning session depth position i :: before)).maxCallDepth ∧
        ∃ text, desk.runnable? name = some text ∧ program = Program.parse text := by
  obtain ⟨haction, rfl, hdepth, hcap, htext⟩ := hblock.entry hevents
  have hsession : sessionAfter session [beginning session depth position i] = session := by
    exact sessionAfter_of_call haction session
  refine ⟨[], depth, position, i, session.maxCallDepth, rfl, haction, hdepth, hcap, ?_, htext⟩
  rw [hsession]

/-- An entry of two lists stands in the second or in the first. -/
theorem place_in_append {α : Type} {first second before after : List α} {a : α}
    (hlists : first ++ second = before ++ a :: after) :
    (∃ between, before = first ++ between ∧ second = between ++ a :: after) ∨
      ∃ between, first = before ++ a :: between ∧ after = between ++ second := by
  rcases List.append_eq_append_iff.1 hlists with ⟨between, hbefore, hsecond⟩ | ⟨tail, hfirst, hcons⟩
  · exact .inl ⟨between, hbefore, hsecond⟩
  · rcases List.cons_eq_append_iff.1 hcons with ⟨rfl, hsecond⟩ | ⟨between, rfl, hafter⟩
    · exact .inl ⟨[], by rw [hfirst, List.append_nil, List.append_nil], hsecond⟩
    · exact .inr ⟨between, hfirst, hafter⟩

namespace Transcript

variable {session final : Session} {effect : Effect} {before after : List Event}

/-- Where a run begins an instruction, it performs the action of the instruction in the session
that the instructions before have left, and stops there or goes on. -/
theorem block (htranscript : Transcript desk admitted session effect final) {depth position : Nat}
    {i : Instruction} {cap : UInt64}
    (hevents : effect.events = before ++ .began depth position i cap :: after) :
    admitted depth position i ∧ cap = (sessionAfter session before).maxCallDepth ∧
      ∃ block, Performs desk (sessionAfter session before) depth position
          (Action.ofInstruction i) block ∧
        ((∃ stop, block.stop? = some stop ∧ effect.stop? = some stop ∧ after = block.events) ∨
          (block.stop? = none ∧ ∃ rest, after = block.events ++ rest.events ∧
            effect.stop? = rest.stop? ∧
            Transcript desk admitted ((Action.ofInstruction i).sessionAfter
              (sessionAfter session before)) rest final)) := by
  induction htranscript generalizing before with
  | done session => cases before <;> cases hevents
  | @stopped session _ _ _ block stop hadmitted hblock hstop =>
    cases before with
    | nil =>
      cases hevents
      exact ⟨hadmitted, rfl, block, hblock, .inl ⟨stop, hstop, hstop, rfl⟩⟩
    | cons event between =>
      have htail : block.events = between ++ .began depth position i cap :: after :=
        (List.cons.inj hevents).2
      exact absurd (htail ▸ List.mem_append_right between List.mem_cons_self)
        (hblock.began_not_mem depth position i cap)
  | @acted session final depth' position' i' block rest hadmitted hblock hstop hrest ih =>
    cases before with
    | nil =>
      cases hevents
      exact ⟨hadmitted, rfl, block, hblock, .inr ⟨hstop, rest, rfl, rfl, hrest⟩⟩
    | cons event between =>
      obtain ⟨rfl, htail⟩ := List.cons.inj hevents
      rcases place_in_append htail with ⟨between, rfl, hlater⟩ | ⟨between, hwithin, -⟩
      · rw [sessionAfter_block hblock]
        exact ih hlater
      · exact absurd (hwithin ▸ List.mem_append_right _ List.mem_cons_self)
          (hblock.began_not_mem depth position i cap)

/-- A run enters a stored command right behind the call of it, one frame deeper than the call, and
within the cap on depth of that moment. -/
theorem entry (htranscript : Transcript desk admitted session effect final) {depth : Nat}
    {name : String} {program : Program}
    (hevents : effect.events = before ++ .entered depth name program :: after) :
    ∃ earlier caller position i cap, before = earlier ++ [.began caller position i cap] ∧
      Action.ofInstruction i = .call name ∧ depth = caller + 1 ∧ depth ≤ cap.toNat ∧
      cap = (sessionAfter session before).maxCallDepth ∧
      ∃ text, desk.runnable? name = some text ∧ program = Program.parse text := by
  induction htranscript generalizing before with
  | done session => cases before <;> cases hevents
  | stopped hadmitted hblock hstop =>
    cases before with
    | nil => cases hevents
    | cons event between =>
      obtain ⟨rfl, htail⟩ := List.cons.inj hevents
      exact hblock.entry_behind_beginning htail
  | @acted session final depth' position' i' block rest hadmitted hblock hstop hrest ih =>
    cases before with
    | nil => cases hevents
    | cons event between =>
      obtain ⟨rfl, htail⟩ := List.cons.inj hevents
      rcases place_in_append htail with ⟨between, rfl, hlater⟩ | ⟨between, hwithin, -⟩
      · obtain ⟨earlier, caller, position, i, cap, rfl, hcall⟩ := ih hlater
        rw [sessionAfter_block hblock]
        refine ⟨beginning session depth' position' i' :: (block.events ++ earlier), caller,
          position, i, cap, ?_, hcall⟩
        rw [List.cons_append, List.append_assoc]
      · exact hblock.entry_behind_beginning hwithin

end Transcript

end Macropad.Engine
