import Macropad.Screen.Polling

/-!
# Polling any matcher

`Course` tells how the attempts of a call go: some are refused and the wait goes on, and then one is
accepted, or the wait is over, or there is no further frame. `course_poll` says that polling takes
this course, and `Poller.limit_misses_of_timedOut` what it means for an expired wait: the wait was
limited, there was an attempt, and no attempt saw a match from the threshold on.

A poller plays a display. Behind `Matcher.locator` there is a matcher instead that may remember the
calls and show something else in each of them; a display that goes on by itself is such a matcher.
-/

set_option autoImplicit false

namespace Macropad.Screen

open Macropad.Setting

/-! ### Attempts -/

section Course

variable {α : Type} {accept : Glimpse → Option α} {wait : Wait}

/-- The frame is refused and the wait goes on. -/
def Passed (accept : Glimpse → Option α) (wait : Wait) (frame : Frame) : Prop :=
  accept frame.glimpse = none ∧ wait.isOver frame.elapsed = false

/-- How the attempts at frames end, and how many of the frames they look at. -/
inductive Course (accept : Glimpse → Option α) (wait : Wait) :
    List Frame → Polled α → Nat → Prop
  | accepted {passed later : List Frame} {frame : Frame} {a : α}
      (hpassed : ∀ frame ∈ passed, Passed accept wait frame)
      (haccept : accept frame.glimpse = some a) :
    Course accept wait (passed ++ frame :: later) (.accepted a) (passed.length + 1)
  | gaveUp {passed later : List Frame} {frame : Frame}
      (hpassed : ∀ frame ∈ passed, Passed accept wait frame)
      (haccept : accept frame.glimpse = none) (hover : wait.isOver frame.elapsed) :
    Course accept wait (passed ++ frame :: later) .gaveUp (passed.length + 1)
  | waiting {passed : List Frame} (hpassed : ∀ frame ∈ passed, Passed accept wait frame) :
    Course accept wait passed .waiting passed.length

/-- One more frame in front that is refused. -/
theorem Course.cons {frame : Frame} {frames : List Frame} {polled : Polled α} {attempts : Nat}
    (hframe : Passed accept wait frame) (hcourse : Course accept wait frames polled attempts) :
    Course accept wait (frame :: frames) polled (attempts + 1) := by
  cases hcourse with
  | accepted hpassed haccept => exact .accepted (List.forall_mem_cons.2 ⟨hframe, hpassed⟩) haccept
  | gaveUp hpassed haccept hover =>
    exact .gaveUp (List.forall_mem_cons.2 ⟨hframe, hpassed⟩) haccept hover
  | waiting hpassed => exact .waiting (List.forall_mem_cons.2 ⟨hframe, hpassed⟩)

theorem course_poll (accept : Glimpse → Option α) (wait : Wait) (frames : List Frame) :
    Course accept wait frames (poll accept wait frames).1 (poll accept wait frames).2 := by
  induction frames with
  | nil => exact .waiting (List.forall_mem_nil _)
  | cons frame rest ih =>
    cases haccept : accept frame.glimpse with
    | some a =>
      simp only [poll, haccept]
      exact .accepted (List.forall_mem_nil _) haccept
    | none =>
      cases hover : wait.isOver frame.elapsed with
      | true =>
        simp only [poll, haccept, hover, if_true]
        exact .gaveUp (List.forall_mem_nil _) haccept hover
      | false =>
        simp only [poll, haccept, hover, Bool.false_eq_true, if_false]
        exact ih.cons ⟨haccept, hover⟩

/-- Unless a frame is accepted, every frame looked at is refused. -/
theorem Course.refused {frames : List Frame} {polled : Polled α} {attempts : Nat}
    (hcourse : Course accept wait frames polled attempts) (hpolled : ∀ a, polled ≠ .accepted a) :
    ∀ frame ∈ frames.take attempts, accept frame.glimpse = none := by
  cases hcourse with
  | accepted => exact absurd rfl (hpolled _)
  | @gaveUp passed later frame hpassed haccept =>
    have htake : (passed ++ frame :: later).take (passed.length + 1) = passed ++ [frame] := by
      rw [List.take_length_add_append, List.take_one, List.head?_cons, Option.toList_some]
    rw [htake]
    exact List.forall_mem_append.2 ⟨fun other hother ↦ (hpassed other hother).1,
      List.forall_mem_singleton.2 haccept⟩
  | waiting hpassed =>
    intro other hother
    exact (hpassed other (List.mem_of_mem_take hother)).1

/-- There is an attempt when there is a frame. -/
theorem Course.attempts_pos {frames : List Frame} {polled : Polled α} {attempts : Nat}
    (hcourse : Course accept wait frames polled attempts) (hframes : frames ≠ []) :
    0 < attempts := by
  cases hcourse with
  | accepted | gaveUp => exact Nat.succ_pos _
  | waiting => exact List.length_pos_iff.2 hframes

end Course

namespace Poller

/-- The frames that a call looks at. The last frame of a script is there for all that follow. -/
def looked (poller : Poller) (image : ImageRef) (wait : Wait) : List Frame :=
  (poller.display.script (poller.pathFor image)).frames.take
    (poller.locate image wait).attempts

/-- A call makes attempts, and none of them sees a match from the threshold on. -/
def Misses (poller : Poller) (image : ImageRef) (wait : Wait) : Prop :=
  poller.looked image wait ≠ [] ∧
    ∀ frame ∈ poller.looked image wait, Glimpse.best? poller.threshold frame.glimpse = none

/-- A wait that has expired was limited, and its call has missed the image. -/
theorem limit_misses_of_timedOut {poller : Poller} {image : ImageRef} {wait : Wait}
    (htimedOut : (poller.locate image wait).result = .ok .timedOut) :
    (∃ ms, wait = .limit ms) ∧ poller.Misses image wait := by
  have hframes := (poller.display.script (poller.pathFor image)).frames_ne_nil
  simp only [Misses, looked, locate, search] at htimedOut ⊢
  generalize (poller.display.script (poller.pathFor image)).frames = frames
    at htimedOut hframes ⊢
  have hcourse := course_poll (Glimpse.best? poller.threshold) wait frames
  generalize poll (Glimpse.best? poller.threshold) wait frames = outcome at htimedOut hcourse ⊢
  obtain ⟨polled, attempts⟩ := outcome
  -- An accepted match gives a place, or no answer when its click point overflows.
  have hpolled (m : Match) : polled ≠ .accepted m := by
    rintro rfl
    cases hplace : image.clickPoint m.box <;> simp [hplace, orOverflow, Except.map] at htimedOut
  refine ⟨?_, ?_, hcourse.refused hpolled⟩
  · cases wait with
    | limit ms => exact ⟨ms, rfl⟩
    | forever =>
      cases hcourse with
      | accepted => exact absurd rfl (hpolled _)
      | gaveUp _ _ hover => cases hover
      | waiting => cases htimedOut
  · rw [ne_eq, List.take_eq_nil_iff, not_or]
    exact ⟨Nat.ne_of_gt (hcourse.attempts_pos hframes), hframes⟩

end Poller

/-! ### Matchers -/

/-- What stands behind the attempts, with a memory of any kind. -/
structure Matcher (μ : Type) where
  /-- What it shows in one call. However it answers from attempt to attempt, a call that comes to an
  end has looked at finitely many frames. -/
  display : μ → Display
  /-- What it remembers of a call for a path, with the number of attempts. -/
  after : String → Nat → μ → μ

/-- The settings of a poller with what its matcher remembers. -/
structure Polling (μ : Type) where
  directory : String
  interval : UInt64
  threshold : Number.Double
  memory : μ
deriving Repr, DecidableEq

/-- The poller that makes the next call. -/
def Matcher.poller {μ : Type} (matcher : Matcher μ) (polling : Polling μ) : Poller where
  directory := polling.directory
  interval := polling.interval
  threshold := polling.threshold
  display := matcher.display polling.memory

/-- The settings of a poller with something to remember. -/
def Poller.remembering {μ : Type} (poller : Poller) (memory : μ) : Polling μ where
  directory := poller.directory
  interval := poller.interval
  threshold := poller.threshold
  memory := memory

namespace Matcher

variable {μ : Type} (matcher : Matcher μ)

/-- The locator that polls the matcher. -/
def locator : Locator (Polling μ) where
  locate image wait polling :=
    let poller := matcher.poller polling
    let found := poller.locate image wait
    (found.result, found.poller.remembering
      (matcher.after (poller.pathFor image) found.attempts polling.memory))
  locateAll image polling :=
    let poller := matcher.poller polling
    let found := poller.locateAll image
    (found.result, found.poller.remembering
      (matcher.after (poller.pathFor image) found.attempts polling.memory))
  tune change polling := (true, ((matcher.poller polling).tune change).remembering polling.memory)

/-- A display that goes on by itself. -/
def ofDisplay : Matcher Display where
  display := id
  after path attempts display := display.advance path attempts

end Matcher

end Macropad.Screen
