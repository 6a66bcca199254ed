import Mathlib
import Macropad.Proofs.Engine.Justification
import Macropad.Proofs.Screen.Instances

/-!
# The last instance of an image

An instruction that acts on the last instance of an image asks the locator once for all places of
the image and clicks the last of them. Over a locator that polls, the answer is never empty: it
holds the click points of the first answer of the matcher in which a match reaches the threshold, so
the click always comes, at the click point of the last of these matches (`lastInstance_clicked`).
-/

set_option autoImplicit false

namespace Macropad.Engine

open Macropad.Input Macropad.Language Macropad.Screen Macropad.Setting

variable {σ ι : Type} {desk : Desk σ ι}

/-! ### One instruction -/

theorem ofInstruction_of_clickLastInstance {i : Instruction} {image : ImageRef}
    (hopcode : i.opcode? = some .clickLastInstance)
    (himage : ImageRef.parse i.argument = .ok image) :
    Action.ofInstruction i = .lastInstance image := by
  refine ofInstruction_of_opcode hopcode ?_
  simp only [Action.ofOpcode?, himage]

/-- A call for all places with a known answer. -/
theorem run_locateAll_of_answer {image : ImageRef} {answer : Except Halt (List Point)}
    {s : State σ ι} (hanswer : (desk.locator.locateAll image s.locator).1 = answer) :
    ∃ s', (locateAll desk image).run s = resume (gathered answer) s' ∧
      Moved [.locatedAll image answer] s s' := by
  subst hanswer
  exact ⟨_, run_locateAll_eq desk image s, rfl, rfl⟩

section Step

variable {i : Instruction} {image : ImageRef} (depth position : Nat) {s : State σ ι}
  (haction : Action.ofInstruction i = .lastInstance image)

include haction

/-- With an answer that is not empty the last place is clicked, and nothing else happens. -/
theorem run_step_of_places {others : List Point} {last : Point}
    (hanswer : (desk.locator.locateAll image s.locator).1 = .ok (others ++ [last])) :
    ∃ report s', (step desk depth position i).run s = .ok () s' ∧
      s'.events = s.events ++ [.began depth position i s.session.maxCallDepth,
        .locatedAll image (.ok (others ++ [last])),
        .injected (.doubleClick last .left s.session.timings.doubleClickGap) report] := by
  have hbegun : (desk.locator.locateAll image (s.begin depth position i).locator).1 =
      .ok (others ++ [last]) := hanswer
  obtain ⟨s₁, hlocate, hmoved₁⟩ := run_locateAll_of_answer hbegun
  obtain ⟨report, s₂, hclick, hinput₂⟩ := run_doubleClickLast_concat desk others last s₁
  obtain ⟨s₃, hwrapUp, hmoved₃⟩ := run_wrapUp s₂
  have hsession : s₁.session = s.session := hmoved₁.session
  rw [hsession] at hinput₂
  refine ⟨report, s₃, ?_, ?_⟩
  · rw [run_step_of_not_call desk haction nofun]
    simp only [perform, EStateM.run_bind, hlocate, gathered, resume, hclick, hwrapUp]
  · rw [hmoved₃.events, hinput₂.events, hmoved₁.events, State.begin, State.events_record]
    simp only [List.append_assoc, List.cons_append, List.nil_append, List.append_nil]

/-- Without an answer the run stops. -/
theorem run_step_of_halt {halt : Halt}
    (hanswer : (desk.locator.locateAll image s.locator).1 = .error halt) :
    ∃ s', (step desk depth position i).run s = .error (.halted halt) s' := by
  have hbegun : (desk.locator.locateAll image (s.begin depth position i).locator).1 =
      .error halt := hanswer
  obtain ⟨s₁, hlocate, -⟩ := run_locateAll_of_answer hbegun
  refine ⟨s₁, ?_⟩
  rw [run_step_of_not_call desk haction nofun]
  simp only [perform, EStateM.run_bind, hlocate, gathered, resume]

end Step

/-! ### Locators that poll -/

/-- Polling for all places comes back if and only if some answer has a match from the threshold on,
and then with the click points of all such matches of the first answer that has one, in scan order,
after one question for each answer up to it. Over a locator that polls, an instruction that acts on
the last instance makes this one call and clicks at the click point of the last of these matches,
and does nothing else; it waits for ever when no answer has such a match. The answer is never
empty. -/
theorem lastInstance_clicked {asking : σ → Polling Showing}
    (hlocator : desk.locator.PollsAll asking) (image : ImageRef) :
    (∀ before : Polling Showing,
      ((∃ result asked after, LocatesAll before image result asked after) ↔
        ∃ i frame matched m, (before.answers image).get? i = some frame ∧
          frame.glimpse = .seen matched ∧ m ∈ matched ∧ m.qualifies before.threshold) ∧
      ∀ i place, before.FirstFound image i place → ∀ result asked after,
        LocatesAll before image result asked after ↔
          result = .ok ((before.qualifying image i).map place) ∧
            asked = List.replicate (i + 1) (joinPath before.directory image.file) ∧
            after = before.behind image (i + 1)) ∧
    (∀ i : Instruction, i.opcode? = some .clickLastInstance →
      ImageRef.parse i.argument = .ok image → ∀ depth position (s : State σ ι),
      (∀ k place, (asking s.locator).FirstFound image k place →
        ∃ others last report s', (asking s.locator).qualifying image k = others ++ [last] ∧
          (step desk depth position i).run s = .ok () s' ∧
          s'.events = s.events ++ [.began depth position i s.session.maxCallDepth,
            .locatedAll image (.ok ((others ++ [last]).map place)),
            .injected (.doubleClick (place last) .left s.session.timings.doubleClickGap)
              report]) ∧
      ((∀ k, (asking s.locator).qualifying image k = []) →
        ∃ path s', (step desk depth position i).run s = .error (.halted (.waitsForever path)) s')) ∧
    ∀ program session locator injector,
      .locatedAll image (.ok []) ∉
        (execute desk program session locator injector).state.events := by
  refine ⟨fun before ↦ ⟨?_, ?_⟩, ?_, ?_⟩
  · exact exists_locatesAll_iff.trans (exists_congr fun i ↦ Polling.qualifying_ne_nil_iff)
  · intro i place hfirst result asked after
    exact hfirst.locatesAll_iff
  · intro i hopcode himage depth position s
    have haction := ofInstruction_of_clickLastInstance hopcode himage
    constructor
    · intro k place hfirst
      obtain ⟨others, last, hqualifying⟩ :=
        (List.eq_nil_or_concat' _).resolve_left hfirst.counts
      have hanswer := hlocator.locateAll_of_firstFound hfirst
      rw [hqualifying, List.map_append, List.map_singleton] at hanswer
      obtain ⟨report, s', hrun, hevents⟩ := run_step_of_places depth position haction hanswer
      refine ⟨others, last, report, s', hqualifying, hrun, ?_⟩
      rwa [List.map_append, List.map_singleton]
    · intro hnothing
      obtain ⟨path, hanswer⟩ := hlocator.locateAll_of_nothing hnothing
      exact ⟨path, run_step_of_halt depth position haction hanswer⟩
  · intro program session locator injector hmem
    have hjustified := (execute_justified desk program session locator injector).1
    obtain ⟨before, after, hevents⟩ := List.append_of_mem hmem
    rw [hevents] at hjustified
    exact hlocator.locateAll_ne_nil hjustified.justifies.symm

/-- A match in a small box on the upper edge of the screen. -/
def matchAt (x : Int) (score : Number.Double) : Match := ⟨⟨⟨x, 0⟩, 2, 2⟩, score⟩

/-- A score below zero. -/
def belowZero : Number.Double := .finite true 1

/-- A first attempt fails and a second one shows a match that does not count; from the third on two
matches count, and there are others before, between and behind them. -/
def crowdedPoller : Poller where
  directory := "find"
  interval := 1
  threshold := .zero
  display := ⟨[], ⟨⟨.failed, 0⟩, [⟨.seen [matchAt 10 belowZero], 1⟩,
    ⟨.seen [matchAt 20 belowZero, matchAt 30 .zero, matchAt 40 belowZero, matchAt 50 .zero,
      matchAt 60 belowZero], 2⟩]⟩⟩

def crowdedDesk : Desk Poller Unit where
  command? _ := none
  fileText? _ := none
  locator := Poller.locator
  injector := .failing fun _ ↦ false

/-- The second of the two matches that count in the third answer is clicked. -/
theorem lastInstance_clicked_of_crowded :
    crowdedDesk.locator.PollsAll Poller.asking ∧
      ∃ report s', (step crowdedDesk 0 1 ⟨some 'q', "a.png", none⟩).run
          (.start .immediate crowdedPoller ()) = .ok () s' ∧
        s'.events = [.began 0 1 ⟨some 'q', "a.png", none⟩ 16,
          .locatedAll ⟨"a.png", none⟩ (.ok [⟨31, 1⟩, ⟨51, 1⟩]),
          .injected (.doubleClick ⟨51, 1⟩ .left 0) report] := by
  have hlocator : crowdedDesk.locator.PollsAll Poller.asking := Poller.pollsAll
  have himage : ImageRef.parse "a.png" = .ok ⟨"a.png", none⟩ := by rfl
  have hqualifying : crowdedPoller.asking.qualifying ⟨"a.png", none⟩ 2 =
      [matchAt 30 .zero] ++ [matchAt 50 .zero] := by
    rfl
  have hfirst : crowdedPoller.asking.FirstFound ⟨"a.png", none⟩ 2 fun m ↦
      ⟨m.box.topLeft.x + 1, m.box.topLeft.y + 1⟩ := by
    refine ⟨hqualifying ▸ List.cons_ne_nil _ _, ?_, ?_⟩
    · rintro (- | - | j) hj
      · rfl
      · rfl
      · omega
    · rw [hqualifying]
      simp only [List.cons_append, List.nil_append, List.forall_mem_cons]
      exact ⟨rfl, rfl, List.forall_mem_nil _⟩
  obtain ⟨others, last, report, s', hplaces, hrun, hevents⟩ :=
    ((lastInstance_clicked hlocator ⟨"a.png", none⟩).2.1 ⟨some 'q', "a.png", none⟩ (by decide)
      himage 0 1 (.start .immediate crowdedPoller ())).1 2 _ hfirst
  obtain ⟨rfl, hlast⟩ := List.append_inj' (hplaces.symm.trans hqualifying) rfl
  cases hlast
  exact ⟨hlocator, report, s', hrun, hevents⟩

end Macropad.Engine
