import Mathlib
import Macropad.Proofs.Engine.CallDepth

/-!
# The button of a drag

Only a drag holds the mouse button down. `Paired` describes events in which every hold that
succeeds is followed at once by the attempt to release the button, and in which nothing else is
released. Pairs are never torn apart, because they stand within the block of one instruction:
`Performs.paired` says so of each action, and `Transcript.paired` of every run. A cut between two
events therefore leaves pairs on both sides or separates a hold from its release (`Paired.cut`).

`heldAfter` tells from the events whether the button is down. As long as releases succeed it is
down between the two halves of a pair only (`Paired.of_heldAfter`), and up at the end of every run,
however the run ends.
-/

set_option autoImplicit false

namespace Macropad.Engine

open Macropad.Input Macropad.Language Macropad.Screen Macropad.Setting

variable {σ ι : Type}

/-! ### Pairs of a hold and a release -/

/-- Whether the event is an attempt to hold or to release the button. -/
def Event.ofButton : Event → Bool
  | .injected operation _ => ofDrag operation
  | _ => false

/-- Events in which exactly the holds that succeed are followed by an attempt to release. -/
inductive Paired : List Event → Prop
  | nil : Paired []
  | other {event : Event} {rest : List Event} (hevent : event.ofButton = false)
      (hrest : Paired rest) : Paired (event :: rest)
  | refused {start : Point} {report : Report} {rest : List Event}
      (hreport : report.succeeded = false) (hrest : Paired rest) :
    Paired (.injected (.hold start) report :: rest)
  | released {start finish : Point} {report report' : Report} {rest : List Event}
      (hreport : report.succeeded = true) (hrest : Paired rest) :
    Paired (.injected (.hold start) report :: .injected (.release finish) report' :: rest)

/-- A cut that separates a hold from its release. -/
def Between (before after : List Event) : Prop :=
  (∃ earlier start report, before = earlier ++ [.injected (.hold start) report] ∧
    report.succeeded = true) ∧
  ∃ finish report rest, after = .injected (.release finish) report :: rest

theorem Between.cons {before after : List Event} (hbetween : Between before after)
    (event : Event) : Between (event :: before) after := by
  obtain ⟨⟨earlier, start, report, rfl, hreport⟩, hafter⟩ := hbetween
  exact ⟨⟨event :: earlier, start, report, rfl, hreport⟩, hafter⟩

theorem Paired.append {first second : List Event} (hfirst : Paired first)
    (hsecond : Paired second) : Paired (first ++ second) := by
  induction hfirst with
  | nil => exact hsecond
  | other hevent _ ih => exact .other hevent ih
  | refused hreport _ ih => exact .refused hreport ih
  | released hreport _ ih => exact .released hreport ih

/-- Events that have nothing to do with the button. -/
theorem paired_of_other {events : List Event} (hevents : ∀ event ∈ events, event.ofButton = false) :
    Paired events := by
  induction events with
  | nil => exact .nil
  | cons event rest ih =>
    obtain ⟨hevent, hrest⟩ := List.forall_mem_cons.1 hevents
    exact .other hevent (ih hrest)

/-- Cut in two, paired events are paired on both sides, or a pair has been cut. -/
theorem Paired.cut {before after : List Event} (hpaired : Paired (before ++ after)) :
    (Paired before ∧ Paired after) ∨ Between before after := by
  generalize hevents : before ++ after = events at hpaired
  induction hpaired generalizing before with
  | nil =>
    obtain ⟨rfl, rfl⟩ := List.append_eq_nil_iff.1 hevents
    exact .inl ⟨.nil, .nil⟩
  | other hevent hrest ih =>
    rcases List.append_eq_cons_iff.1 hevents with ⟨rfl, rfl⟩ | ⟨before, rfl, htail⟩
    · exact .inl ⟨.nil, .other hevent hrest⟩
    · exact (ih htail.symm).imp (And.imp_left (.other hevent)) fun h ↦ h.cons _
  | refused hreport hrest ih =>
    rcases List.append_eq_cons_iff.1 hevents with ⟨rfl, rfl⟩ | ⟨before, rfl, htail⟩
    · exact .inl ⟨.nil, .refused hreport hrest⟩
    · exact (ih htail.symm).imp (And.imp_left (.refused hreport)) fun h ↦ h.cons _
  | released hreport hrest ih =>
    rcases List.append_eq_cons_iff.1 hevents with ⟨rfl, rfl⟩ | ⟨before, rfl, htail⟩
    · exact .inl ⟨.nil, .released hreport hrest⟩
    · rcases List.append_eq_cons_iff.1 htail.symm with ⟨rfl, rfl⟩ | ⟨earlier, rfl, hrest'⟩
      · exact .inr ⟨⟨[], _, _, rfl, hreport⟩, _, _, _, rfl⟩
      · exact (ih hrest'.symm).imp (And.imp_left (.released hreport)) fun h ↦ (h.cons _).cons _

/-- A hold that has succeeded is followed at once by the attempt to release. -/
theorem Paired.release_of_hold {before after : List Event} {start : Point} {report : Report}
    (hpaired : Paired (before ++ .injected (.hold start) report :: after))
    (hreport : report.succeeded = true) :
    ∃ finish report' rest, after = .injected (.release finish) report' :: rest := by
  rcases hpaired.cut with ⟨-, hhold⟩ | ⟨-, _, _, _, hrelease⟩
  · cases hhold with
    | other hevent => cases hevent
    | refused hrefused => cases hrefused.symm.trans hreport
    | released => exact ⟨_, _, _, rfl⟩
  · cases hrelease

/-- Right before an attempt to release, a hold has succeeded. -/
theorem Paired.hold_of_release {before after : List Event} {finish : Point} {report : Report}
    (hpaired : Paired (before ++ .injected (.release finish) report :: after)) :
    ∃ earlier start report', before = earlier ++ [.injected (.hold start) report'] ∧
      report'.succeeded = true := by
  rcases hpaired.cut with ⟨-, hrelease⟩ | ⟨hbefore, -⟩
  · cases hrelease with
    | other hevent => cases hevent
  · exact hbefore

/-! ### Whether the button is down -/

/-- Whether the button is down after an event. -/
def Event.held (held : Bool) : Event → Bool
  | .injected (.hold _) report => held || report.succeeded
  | .injected (.release _) report => held && !report.succeeded
  | _ => held

/-- Whether the button is down after these events, when it was up before them. -/
def heldAfter (events : List Event) : Bool := events.foldl Event.held false

/-- Every release among the events has succeeded. -/
def ReleasesSucceed (events : List Event) : Prop :=
  ∀ finish report, .injected (.release finish) report ∈ events → report.succeeded = true

theorem ReleasesSucceed.tail {event : Event} {rest : List Event}
    (hreleases : ReleasesSucceed (event :: rest)) : ReleasesSucceed rest :=
  fun finish report hmem ↦ hreleases finish report (List.mem_cons_of_mem event hmem)

theorem Event.held_of_other {event : Event} (hevent : event.ofButton = false) (held : Bool) :
    event.held held = held := by
  cases event with
  | injected operation report =>
    cases operation with
    | hold | release => cases hevent
    | _ => rfl
  | _ => rfl

/-- Behind pairs the button is up, when releases succeed. -/
theorem Paired.heldAfter_eq_false {events : List Event} (hpaired : Paired events)
    (hreleases : ReleasesSucceed events) : heldAfter events = false := by
  induction hpaired with
  | nil => rfl
  | other hevent _ ih =>
    rw [heldAfter, List.foldl_cons, Event.held_of_other hevent]
    exact ih hreleases.tail
  | refused hreport _ ih =>
    rw [heldAfter, List.foldl_cons, Event.held, hreport, Bool.or_false]
    exact ih hreleases.tail
  | @released start finish report report' rest _ _ ih =>
    have hreport' : report'.succeeded = true :=
      hreleases finish report' (List.mem_cons_of_mem _ List.mem_cons_self)
    rw [heldAfter, List.foldl_cons, List.foldl_cons, Event.held, Event.held, hreport',
      Bool.not_true, Bool.and_false]
    exact ih hreleases.tail.tail

/-- The button is down between the two halves of a pair only, when releases succeed. -/
theorem Paired.of_heldAfter {before after : List Event} (hpaired : Paired (before ++ after))
    (hreleases : ReleasesSucceed (before ++ after)) (hheld : heldAfter before = true) :
    Between before after := by
  rcases hpaired.cut with ⟨hbefore, -⟩ | hbetween
  · have hup : heldAfter before = false := hbefore.heldAfter_eq_false fun finish report hmem ↦
      hreleases finish report (List.mem_append_left after hmem)
    cases hup.symm.trans hheld
  · exact hbetween

/-! ### Runs -/

variable {desk : Desk σ ι}

theorem ofDrag_of_operation? {a : Action} {operation : Operation}
    (hoperation : a.operation? desk = some operation) : ofDrag operation = false := by
  cases a with
  | typeFile path =>
    obtain ⟨text, -, rfl⟩ := Option.map_eq_some_iff.1 hoperation
    rfl
  | capture | type | click =>
    obtain rfl := Option.some.inj hoperation
    rfl
  | switchWindows times =>
    obtain ⟨-, htext⟩ := Option.ite_none_right_eq_some.1 hoperation
    obtain rfl := Option.some.inj htext
    rfl
  | skip | sleep | update | call | tabs | drag | respond | await | lastInstance =>
    cases hoperation

theorem ofDrag_of_response {response : Response} {session : Session} {place : Point}
    {operation : Operation} (hoperation : response.operation? session place = some operation) :
    ofDrag operation = false := by
  cases response <;> cases hoperation <;> rfl

theorem Answered.paired {γ δ : Type} {event : γ → δ → Event} {question? : Option γ}
    {events : List Event} (hanswered : Answered event question? events)
    (hevent : ∀ question, question? = some question → ∀ answer,
      (event question answer).ofButton = false) : Paired events := by
  cases hanswered with
  | unasked => exact .nil
  | asked question answer => exact .other (hevent question rfl answer) .nil

theorem SideSought.paired {position : Nat} {side : Option Endpoint} {events : List Event}
    {result : Except Stop (Option Point)} (hside : SideSought position side events result) :
    Paired events := by
  cases hside with
  | unreadable | point => exact .nil
  | image => exact .other rfl .nil

theorem Pressed.paired {start? finish? : Option Point} {events : List Event}
    (hpressed : Pressed start? finish? events) : Paired events := by
  cases hpressed with
  | noStart | noFinish => exact .nil
  | refused hreport => exact .refused hreport .nil
  | released hreport => exact .released hreport .nil

/-- An action holds the button in pairs only. -/
theorem Performs.paired {session : Session} {depth position : Nat} {a : Action} {block : Effect}
    (hblock : Performs desk session depth position a block) : Paired block.events := by
  cases hblock with
  | skip | sleep | unreadable | tooLong | refused | absent => exact .nil
  | inject hoperation => exact .other (ofDrag_of_operation? hoperation) .nil
  | setting htuned => exact htuned.paired fun _ _ _ ↦ rfl
  | tabs reports =>
    refine paired_of_other fun event hevent ↦ ?_
    obtain ⟨report, -, rfl⟩ := List.mem_map.1 hevent
    rfl
  | dragUnstarted hstart => exact hstart.paired
  | dragUnfinished hstart hfinish => exact hstart.paired.append hfinish.paired
  | drag hstart hfinish hpressed =>
    exact (hstart.paired.append hfinish.paired).append hpressed.paired
  | respond _ hinjected =>
    exact .other rfl (hinjected.paired fun _ hoperation _ ↦ ofDrag_of_response hoperation)
  | await | awaitStopped | respondStopped | noInstance | lastInstanceHalted | entered =>
    exact .other rfl .nil
  | lastInstance => exact .other rfl (.other rfl .nil)

/-- A run holds the button in pairs only. -/
theorem Transcript.paired {admitted : Nat → Nat → Instruction → Prop} {session final : Session}
    {effect : Effect} (htranscript : Transcript desk admitted session effect final) :
    Paired effect.events := by
  induction htranscript with
  | done => exact .nil
  | stopped _ hblock => exact .other rfl hblock.paired
  | acted _ hblock _ _ ih => exact .other rfl (hblock.paired.append ih)

/-- The button is never left held. In every run, a hold that succeeds is followed at once by an
attempt to release, and an attempt to release follows a hold that has succeeded. As long as
releases succeed, the button is down between these two only, and it is up when the run ends,
completed or stopped in whatever way. -/
theorem execute_releases (desk : Desk σ ι) (program : Program) (session : Session) (locator : σ)
    (injector : ι) :
    let events := (execute desk program session locator injector).state.events
    (∀ before start report after, events = before ++ .injected (.hold start) report :: after →
      report.succeeded = true →
      ∃ finish report' rest, after = .injected (.release finish) report' :: rest) ∧
    (∀ before finish report after, events = before ++ .injected (.release finish) report :: after →
      ∃ earlier start report', before = earlier ++ [.injected (.hold start) report'] ∧
        report'.succeeded = true) ∧
    (ReleasesSucceed events →
      (∀ before after, events = before ++ after → heldAfter before = true →
        Between before after) ∧
      heldAfter events = false) := by
  intro events
  have hpaired : Paired events := by
    obtain ⟨effect, htranscript, hevents, -⟩ :=
      execute_transcribed desk program session locator injector
    have hevents : events = effect.events := hevents
    exact hevents.symm ▸ htranscript.paired
  refine ⟨?_, ?_, fun hreleases ↦ ⟨?_, hpaired.heldAfter_eq_false hreleases⟩⟩
  · intro before start report after hevents hreport
    rw [hevents] at hpaired
    exact hpaired.release_of_hold hreport
  · intro before finish report after hevents
    rw [hevents] at hpaired
    exact hpaired.hold_of_release
  · intro before after hevents hheld
    rw [hevents] at hpaired hreleases
    exact hpaired.of_heldAfter hreleases hheld

/-- Two drags in a loop: the hold of the second one is released. -/
theorem execute_releases_of_loop :
    ∃ before start report after,
      (execute (blindDesk fun _ ↦ none) (Program.parse "[2]d1:2,3:4") .immediate ()
        ()).state.events = before ++ .injected (.hold start) report :: after ∧
      before.length = 4 ∧ report.succeeded = true ∧
      ∃ finish report' rest, after = .injected (.release finish) report' :: rest := by
  have hevents : (execute (blindDesk fun _ ↦ none) (Program.parse "[2]d1:2,3:4") .immediate ()
      ()).state.events =
      [.began 0 1 ⟨some 'd', "1:2,3:4", some (.valid ⟨⟨2, by decide⟩, none⟩)⟩ 16,
        .injected (.hold ⟨1, 2⟩) ⟨true, [.hold ⟨1, 2⟩]⟩,
        .injected (.release ⟨3, 4⟩) ⟨true, [.release ⟨3, 4⟩]⟩,
        .began 0 1 ⟨some 'd', "1:2,3:4", some (.valid ⟨⟨2, by decide⟩, none⟩)⟩ 16] ++
      .injected (.hold ⟨1, 2⟩) ⟨true, [.hold ⟨1, 2⟩]⟩ ::
        [.injected (.release ⟨3, 4⟩) ⟨true, [.release ⟨3, 4⟩]⟩] := by
    cbv
  exact ⟨_, _, _, _, hevents, rfl, rfl, (execute_releases (blindDesk fun _ ↦ none)
    (Program.parse "[2]d1:2,3:4") .immediate () ()).1 _ _ _ _ hevents rfl⟩

end Macropad.Engine
