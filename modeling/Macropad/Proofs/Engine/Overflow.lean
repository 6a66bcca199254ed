import Mathlib
import Macropad.Config.Check
import Macropad.Proofs.Engine.Halting
import Macropad.Proofs.Screen.ClickPoints
import Macropad.Proofs.Screen.Instances

/-!
# Runs that overflow

When the locator polls a matcher, a search goes without an answer because it would wait for ever or
because the click point of a match overflows. In the second case the matcher has shown a match from
the threshold on whose box has no click point (`Poller.Shows`), and if this box lies on the screen,
then the sums of `ImageRef.HasRoom` have too little room in it. Apart from key text that would be
too long, this is the only way for a run to overflow (`execute_overflows`).

That a macro is valid does not help. A box on the screen is enough to end the run of a valid macro
in this way (`valid_overflows`).
-/

set_option autoImplicit false

namespace Macropad.Screen

/-! ### Searches that overflow -/

theorem Course.exists_accepted {α : Type} {accept : Glimpse → Option α} {wait : Wait}
    {frames : List Frame} {a : α} {attempts : Nat}
    (hcourse : Course accept wait frames (.accepted a) attempts) :
    ∃ frame ∈ frames, accept frame.glimpse = some a := by
  cases hcourse with
  | accepted _ haccept => exact ⟨_, List.mem_append_right _ List.mem_cons_self, haccept⟩

theorem Glimpse.mem_qualifying_of_best? {threshold : Number.Double} {glimpse : Glimpse} {m : Match}
    (hbest : best? threshold glimpse = some m) : m ∈ glimpse.qualifying threshold := by
  obtain ⟨lesser, hseen, hqualifies⟩ := best?_eq_some_iff.1 hbest
  exact mem_qualifying_iff.2 ⟨_, hseen, List.mem_cons_self, hqualifies⟩

theorem ImageRef.exists_clickPoint_of_mapM {image : ImageRef} {found : List Match}
    {cause : Overflow} (hmapM : (found.mapM fun m ↦ image.clickPoint m.box) = .error cause) :
    ∃ m ∈ found, image.clickPoint m.box = .error cause := by
  induction found with
  | nil => cases hmapM
  | cons m rest ih =>
    rw [List.mapM_cons] at hmapM
    cases hplace : image.clickPoint m.box with
    | error other =>
      rw [hplace] at hmapM
      cases hmapM
      exact ⟨m, List.mem_cons_self, hplace⟩
    | ok place =>
      cases hrest : rest.mapM fun m ↦ image.clickPoint m.box with
      | ok places =>
        rw [hplace, hrest] at hmapM
        cases hmapM
      | error other =>
        rw [hplace, hrest] at hmapM
        cases hmapM
        obtain ⟨m', hm', hcause⟩ := ih hrest
        exact ⟨m', List.mem_cons_of_mem m hm', hcause⟩

theorem Poller.orOverflow_eq_overflow_iff {α : Type} {result : Except Overflow α}
    {cause : Overflow} : orOverflow result = .error (.overflow cause) ↔ result = .error cause := by
  cases result <;> simp [orOverflow]

namespace Poller

variable {poller : Poller} {image : ImageRef} {cause : Overflow}

/-- A search for the image can come upon this match, and it reaches the threshold. -/
def Shows (poller : Poller) (image : ImageRef) (m : Match) : Prop :=
  ∃ frame ∈ poller.frames image, m ∈ frame.glimpse.qualifying poller.threshold

theorem exists_shows_of_locate {wait : Wait}
    (hresult : (poller.locate image wait).result = .error (.overflow cause)) :
    ∃ m, poller.Shows image m ∧ image.clickPoint m.box = .error cause := by
  have hcourse := course_poll (Glimpse.best? poller.threshold) wait (poller.frames image)
  rw [frames] at hcourse
  simp only [locate, search] at hresult
  generalize poll _ wait _ = outcome at hresult hcourse
  obtain ⟨polled, attempts⟩ := outcome
  cases polled with
  | accepted m =>
    obtain ⟨frame, hframe, hbest⟩ := hcourse.exists_accepted
    refine ⟨m, ⟨frame, hframe, Glimpse.mem_qualifying_of_best? hbest⟩, ?_⟩
    rw [← orOverflow_eq_overflow_iff]
    cases hplace : orOverflow (image.clickPoint m.box) with
    | ok place => simp [hplace, Except.map] at hresult
    | error halt => simpa [hplace, Except.map] using hresult
  | gaveUp => cases hresult
  | waiting => cases wait <;> cases hresult

theorem exists_shows_of_locateAll
    (hresult : (poller.locateAll image).result = .error (.overflow cause)) :
    ∃ m, poller.Shows image m ∧ image.clickPoint m.box = .error cause := by
  have hcourse := course_poll (Glimpse.qualifying? poller.threshold) .forever (poller.frames image)
  rw [frames] at hcourse
  simp only [locateAll, search] at hresult
  generalize poll _ .forever _ = outcome at hresult hcourse
  obtain ⟨polled, attempts⟩ := outcome
  cases polled with
  | accepted found =>
    obtain ⟨frame, hframe, hfound⟩ := hcourse.exists_accepted
    obtain ⟨rfl, -⟩ := Glimpse.qualifying?_eq_some_iff.1 hfound
    obtain ⟨m, hm, hcause⟩ :=
      ImageRef.exists_clickPoint_of_mapM (orOverflow_eq_overflow_iff.1 hresult)
    exact ⟨m, ⟨frame, hframe, hm⟩, hcause⟩
  | gaveUp | waiting => cases hresult

end Poller

end Macropad.Screen

namespace Macropad.Engine

open Macropad.Input Macropad.Language Macropad.Screen Macropad.Setting

/-! ### Runs whose locator polls a matcher -/

section Polling

variable {ι μ : Type} {matcher : Matcher μ} {desk : Desk (Polling μ) ι}

/-- When a search overflows, the poller of that moment shows a match without a click point. -/
theorem Justified.exists_shows (hlocator : desk.locator = matcher.locator)
    {moment : Moment (Polling μ) ι} {before after : List Event} {event : Event} {image : ImageRef}
    {cause : Overflow} (hjustified : Justified desk moment (before ++ event :: after))
    (hunanswered : event.Unanswered image (.overflow cause)) :
    ∃ m, (matcher.poller (moment.afterAll desk before).locator).Shows image m ∧
      image.clickPoint m.box = .error cause := by
  have hanswer := hjustified.justifies
  cases hunanswered with
  | located wait =>
    rw [Moment.Justifies, hlocator] at hanswer
    exact Poller.exists_shows_of_locate hanswer.symm
  | locatedAll =>
    rw [Moment.Justifies, hlocator] at hanswer
    exact Poller.exists_shows_of_locateAll hanswer.symm

/-- In a box on the screen the click point is the place that the anchor stands for, or the centre,
when the sums have room, and overflows when they do not. A run whose locator polls a matcher ends
with an overflow if and only if its last event is a search that does, and then the matcher has shown
a match from the threshold on that has no click point; or it is the beginning of an instruction
whose key text would be too long. -/
theorem execute_overflows (hlocator : desk.locator = matcher.locator) :
    (∀ (image : ImageRef) (box : Box), box.OnScreen → ∀ place,
      image.clickPoint box = .ok place ↔ image.HasRoom box ∧ place = image.place box) ∧
      ∀ program session polling injector cause,
        let run := execute desk program session polling injector
        let poller before :=
          matcher.poller ((Moment.start program polling injector).afterAll desk before).locator
        run.ending = .error (.overflow cause) ↔
          (∃ before image event m, run.state.events = before ++ [event] ∧
            event.Unanswered image (.overflow cause) ∧ (poller before).Shows image m ∧
            image.clickPoint m.box = .error cause ∧
            (m.box.OnScreen → ¬ image.HasRoom m.box)) ∨
          cause = .capacity ∧ ∃ before depth position i cap,
            run.state.events = before ++ [.began depth position i cap] ∧ Overlong i := by
  refine ⟨fun image box hbox place ↦ ImageRef.clickPoint_eq_ok_iff hbox, ?_⟩
  intro program session polling injector cause run poller
  rw [execute_halted_iff]
  constructor
  · rintro ⟨before, event, hevents, hhalts⟩
    cases hhalts with
    | @unanswered image _ _ hunanswered =>
      have hjustified := (execute_justified desk program session polling injector).1
      rw [hevents] at hjustified
      obtain ⟨m, hshows, hcause⟩ := hjustified.exists_shows hlocator hunanswered
      refine .inl ⟨before, image, event, m, hevents, hunanswered, hshows, hcause, ?_⟩
      intro hbox hroom
      cases hcause.symm.trans ((ImageRef.clickPoint_eq_ok_iff hbox).2 ⟨hroom, rfl⟩)
    | @overlong i hlong depth position cap =>
      exact .inr ⟨rfl, before, depth, position, i, cap, hevents, hlong⟩
  · rintro (⟨before, image, event, m, hevents, hunanswered, -⟩ |
      ⟨rfl, before, depth, position, i, cap, hevents, hlong⟩)
    · exact ⟨before, event, hevents, .unanswered hunanswered⟩
    · exact ⟨before, _, hevents, .overlong hlong depth position cap⟩

end Polling

/-- A box so far on the right that the sum of its edges has no room. -/
def farBox : Box := ⟨⟨1073741824, 0⟩, 2, 2⟩

theorem onScreen_farBox : farBox.OnScreen := by
  constructor <;> decide

/-- A desk whose locator polls a display. -/
def displayDesk : Desk (Polling Display) Unit where
  command? _ := none
  fileText? _ := none
  locator := Matcher.ofDisplay.locator
  injector := .failing fun _ ↦ false

/-- Every image is seen in the box far on the right. -/
def farPolling : Polling Display := ⟨"find", 1, .zero, ⟨[], .always (.seen [⟨farBox, .zero⟩])⟩⟩

theorem ending_of_far : (execute displayDesk (Program.parse "fa.png<tl>") .immediate farPolling
    ()).ending = .error (.overflow .addition) := by
  cbv

/-- A run that clicks an image far on the right ends with a search that overflows. -/
theorem execute_overflows_of_far :
    displayDesk.locator = Matcher.ofDisplay.locator ∧
      ∃ (before : List Event) (event : Event) (image : ImageRef) (m : Match),
        (execute displayDesk (Program.parse "fa.png<tl>") .immediate farPolling ()).state.events =
          before ++ [event] ∧
        event.Unanswered image (.overflow .addition) ∧
        (m.box.OnScreen → ¬ image.HasRoom m.box) := by
  obtain ⟨before, image, event, m, hevents, hunanswered, -, -, hroom⟩ :=
    (((execute_overflows rfl).2 (Program.parse "fa.png<tl>") .immediate farPolling () .addition).1
      ending_of_far).resolve_right nofun
  exact ⟨rfl, before, event, image, m, hevents, hunanswered, hroom⟩

/-- Valid programs overflow on a box that lies on the screen with all places that their anchors
stand for, and an offset leaves the range from the second column of the screen on. -/
theorem valid_overflows :
    farBox.OnScreen ∧
      (({} : Config).verdict "fa.png" = .valid ∧
        ImageRef.place ⟨"a.png", none⟩ farBox = ⟨1073741825, 1⟩ ∧
        (execute displayDesk (Program.parse "fa.png") .immediate farPolling ()).ending =
          .error (.overflow .multiplication)) ∧
      (({} : Config).verdict "fa.png<tl>" = .valid ∧
        ImageRef.place ⟨"a.png", some .topLeft⟩ farBox = farBox.topLeft ∧
        (execute displayDesk (Program.parse "fa.png<tl>") .immediate farPolling ()).ending =
          .error (.overflow .addition)) ∧
      ImageRef.parse "a.png<2147483647:0>" = .ok ⟨"a.png", some (.offset 2147483647 0)⟩ ∧
      ImageRef.clickPoint ⟨"a.png", some (.offset 2147483647 0)⟩ ⟨⟨1, 0⟩, 2, 2⟩ =
        .error .addition :=
  ⟨onScreen_farBox, ⟨by decide, rfl, by cbv⟩, ⟨by decide, rfl, ending_of_far⟩, by cbv, rfl⟩

end Macropad.Engine
