import Macropad.Proofs.Screen.Answers
import Mathlib.Data.List.Forall2

/-!
# All places of an image

A call for all places waits without a limit for the first answer with a match from the threshold on,
and comes back with the click points of all matches of this answer that reach the threshold, in scan
order. `LocatesAll` is such a call over the answers of a matcher, turn by turn, and
`locatesAll_iff` says for every sequence of answers which calls there are. What an answer counts for
is `Polling.qualifying`, and it is empty for one that is a failure, shows nothing or shows only
matches below the threshold.

`Locator.PollsAll` ties a locator to the answers that it gets. A poller asks for those of its
display (`Poller.pollsAll`), and a locator that polls a matcher for what the matcher shows in that
call (`Matcher.pollsAll`).
-/

set_option autoImplicit false

namespace Macropad.Screen

open Macropad.Setting

/-! ### The matches that count -/

namespace Glimpse

/-- The matches from the threshold on, in scan order. -/
def qualifying (threshold : Number.Double) : Glimpse → List Match
  | .failed => []
  | .seen matched => matched.filter (·.qualifies threshold)

variable {threshold : Number.Double} {glimpse : Glimpse}

theorem mem_qualifying_iff {m : Match} :
    m ∈ glimpse.qualifying threshold ↔
      ∃ matched, glimpse = .seen matched ∧ m ∈ matched ∧ m.qualifies threshold := by
  cases glimpse with
  | failed => simp [qualifying]
  | seen matched => simp [qualifying]

theorem qualifying?_eq_some_iff {found : List Match} :
    qualifying? threshold glimpse = some found ↔
      found = glimpse.qualifying threshold ∧ glimpse.qualifying threshold ≠ [] := by
  cases glimpse with
  | failed => simp [qualifying?, qualifying]
  | seen matched =>
    rw [qualifying?, qualifying]
    cases matched.filter (·.qualifies threshold) <;> simp [eq_comm]

theorem qualifying?_eq_none_iff :
    qualifying? threshold glimpse = none ↔ glimpse.qualifying threshold = [] := by
  rw [Option.eq_none_iff_forall_ne_some]
  constructor
  · intro hnone
    by_contra hsome
    exact hnone _ (qualifying?_eq_some_iff.2 ⟨rfl, hsome⟩)
  · intro hempty found hfound
    exact (qualifying?_eq_some_iff.1 hfound).2 hempty

end Glimpse

namespace ImageRef

/-- Where matches lead to: their places, unless a click point overflows. -/
def foundAll (image : ImageRef) (found : List Match) : Except Halt (List Point) :=
  Poller.orOverflow (found.mapM fun m ↦ image.clickPoint m.box)

variable {image : ImageRef} {found : List Match} {places : List Point}

theorem mapM_clickPoint_eq_ok_iff :
    (found.mapM fun m ↦ image.clickPoint m.box) = .ok places ↔
      List.Forall₂ (fun m place ↦ image.clickPoint m.box = .ok place) found places := by
  induction found generalizing places with
  | nil =>
    rw [List.forall₂_nil_left_iff, List.mapM_nil]
    exact ⟨fun h ↦ (Except.ok.inj h).symm, fun h ↦ h ▸ rfl⟩
  | cons m rest ih =>
    rw [List.mapM_cons, List.forall₂_cons_left_iff]
    simp only [← ih]
    cases image.clickPoint m.box with
    | error cause => simp [bind, Except.bind]
    | ok place =>
      cases rest.mapM fun m ↦ image.clickPoint m.box <;>
        simp [bind, Except.bind, pure, Except.pure, eq_comm]

/-- Matches lead to the places that they lead to one by one. -/
theorem foundAll_eq_ok_iff :
    image.foundAll found = .ok places ↔
      List.Forall₂ (fun m place ↦ image.clickPoint m.box = .ok place) found places := by
  rw [foundAll, ← mapM_clickPoint_eq_ok_iff]
  cases found.mapM fun m ↦ image.clickPoint m.box <;> simp [Poller.orOverflow]

theorem foundAll_of_places {place : Match → Point}
    (hplace : ∀ m ∈ found, image.clickPoint m.box = .ok (place m)) :
    image.foundAll found = .ok (found.map place) :=
  foundAll_eq_ok_iff.2 (List.forall₂_map_right_iff.2 (List.forall₂_same.2 hplace))

theorem foundAll_ne_waitsForever (image : ImageRef) (found : List Match) (path : String) :
    image.foundAll found ≠ .error (.waitsForever path) := by
  rw [foundAll]
  cases found.mapM fun m ↦ image.clickPoint m.box <;> simp [Poller.orOverflow]

end ImageRef

/-- The matches that count in an answer for the image. -/
def Polling.qualifying (before : Polling Showing) (image : ImageRef) (i : Nat) : List Match :=
  ((before.answers image).get? i).elim [] fun frame ↦ frame.glimpse.qualifying before.threshold

/-! ### Calls that come back -/

/-- A call for all places that comes back: its result, the paths that the matcher was asked for, and
the locator behind it. -/
inductive LocatesAll (before : Polling Showing) (image : ImageRef) :
    Except Halt (List Point) → List String → Polling Showing → Prop
  | found {matched : List Match} {asked : List String} {showing : Showing}
      (hturns : Turns (Glimpse.qualifying? before.threshold) .forever (before.pathFor image)
        before.memory (.accepted matched) asked showing) :
    LocatesAll before image (image.foundAll matched) asked { before with memory := showing }

section Calls

variable {before after : Polling Showing} {image : ImageRef} {i : Nat} {frame : Frame}
  {result : Except Halt (List Point)} {asked : List String}

namespace Polling

theorem mem_qualifying_iff {m : Match} :
    m ∈ before.qualifying image i ↔
      ∃ frame matched, (before.answers image).get? i = some frame ∧
        frame.glimpse = .seen matched ∧ m ∈ matched ∧ m.qualifies before.threshold := by
  rw [qualifying]
  cases (before.answers image).get? i with
  | none => simp
  | some frame => simp [Glimpse.mem_qualifying_iff]

theorem qualifying_of_answer (hanswer : (before.answers image).get? i = some frame) :
    before.qualifying image i = frame.glimpse.qualifying before.threshold := by
  rw [qualifying, hanswer, Option.elim_some]

theorem qualifying_ne_nil_iff :
    before.qualifying image i ≠ [] ↔
      ∃ frame matched m, (before.answers image).get? i = some frame ∧
        frame.glimpse = .seen matched ∧ m ∈ matched ∧ m.qualifies before.threshold := by
  constructor
  · intro hqualifying
    obtain ⟨m, hm⟩ := List.exists_mem_of_ne_nil _ hqualifying
    obtain ⟨frame, matched, hcounts⟩ := mem_qualifying_iff.1 hm
    exact ⟨frame, matched, m, hcounts⟩
  · rintro ⟨frame, matched, m, hcounts⟩
    exact List.ne_nil_of_mem (mem_qualifying_iff.2 ⟨frame, matched, hcounts⟩)

theorem exists_answer_of_qualifying (hqualifying : before.qualifying image i ≠ []) :
    ∃ frame, (before.answers image).get? i = some frame := by
  obtain ⟨frame, -, -, hanswer, -⟩ := qualifying_ne_nil_iff.1 hqualifying
  exact ⟨frame, hanswer⟩

/-- The wait goes on at an answer in which nothing counts. -/
theorem passed_iff_qualifying (hanswer : (before.answers image).get? i = some frame) :
    Passed (Glimpse.qualifying? before.threshold) .forever frame ↔
      before.qualifying image i = [] := by
  rw [qualifying_of_answer hanswer, ← Glimpse.qualifying?_eq_none_iff]
  exact and_iff_left rfl

/-- The turns end at the first answer in which something counts. -/
theorem stopsAt_iff_qualifying :
    StopsAt (Glimpse.qualifying? before.threshold) .forever (before.answers image) i frame ↔
      (before.answers image).get? i = some frame ∧ before.qualifying image i ≠ [] ∧
        ∀ j < i, before.qualifying image j = [] := by
  constructor
  · intro hstops
    refine ⟨hstops.answer, mt (passed_iff_qualifying hstops.answer).2 hstops.stops, ?_⟩
    intro j hj
    obtain ⟨other, hother⟩ := Stream'.Seq.ge_stable _ hj.le hstops.answer
    exact (passed_iff_qualifying hother).1 (hstops.earlier j hj other hother)
  · rintro ⟨hanswer, hqualifying, hearlier⟩
    refine ⟨hanswer, ?_, mt (passed_iff_qualifying hanswer).1 hqualifying⟩
    intro j hj other hother
    exact (passed_iff_qualifying hother).2 (hearlier j hj)

end Polling

open Polling

/-- A call comes back where the first answer with a match that counts is, with one question for each
answer up to it, and with all that counts there. -/
theorem locatesAll_iff :
    LocatesAll before image result asked after ↔
      ∃ i, before.qualifying image i ≠ [] ∧ (∀ j < i, before.qualifying image j = []) ∧
        result = image.foundAll (before.qualifying image i) ∧
        asked = List.replicate (i + 1) (before.pathFor image) ∧
        after = before.behind image (i + 1) := by
  constructor
  · rintro ⟨hturns⟩
    obtain ⟨i, frame, hstops, hverdict, rfl, rfl⟩ := turns_iff.1 hturns
    obtain ⟨hanswer, hqualifying, hearlier⟩ := stopsAt_iff_qualifying.1 hstops
    obtain ⟨rfl, -⟩ :=
      Glimpse.qualifying?_eq_some_iff.1 (verdict_eq_accepted_iff.1 hverdict.symm)
    rw [← qualifying_of_answer hanswer]
    exact ⟨i, hqualifying, hearlier, rfl, rfl, rfl⟩
  · rintro ⟨i, hqualifying, hearlier, rfl, rfl, rfl⟩
    obtain ⟨frame, hanswer⟩ := exists_answer_of_qualifying hqualifying
    have hturns := Turns.of_stopsAt (stopsAt_iff_qualifying.2 ⟨hanswer, hqualifying, hearlier⟩)
    rw [qualifying_of_answer hanswer] at hqualifying ⊢
    rw [verdict_eq_accepted_iff.2 (Glimpse.qualifying?_eq_some_iff.2 ⟨rfl, hqualifying⟩)] at hturns
    exact .found hturns

/-- When the first answer in which something counts is known, there is one way to come back. -/
theorem locatesAll_iff_of_first (hqualifying : before.qualifying image i ≠ [])
    (hearlier : ∀ j < i, before.qualifying image j = []) :
    LocatesAll before image result asked after ↔
      result = image.foundAll (before.qualifying image i) ∧
        asked = List.replicate (i + 1) (before.pathFor image) ∧
        after = before.behind image (i + 1) := by
  rw [locatesAll_iff]
  constructor
  · rintro ⟨j, hfirst, hempty, hresult⟩
    obtain hlt | rfl | hgt := Nat.lt_trichotomy i j
    · exact absurd (hempty i hlt) hqualifying
    · exact hresult
    · exact absurd (hearlier j hgt) hfirst
  · intro hresult
    exact ⟨i, hqualifying, hearlier, hresult⟩

/-- Where something counts, there is a first answer of that kind. -/
theorem exists_first_qualifying (hqualifying : before.qualifying image i ≠ []) :
    ∃ j ≤ i, before.qualifying image j ≠ [] ∧ ∀ k < j, before.qualifying image k = [] := by
  obtain ⟨frame, hanswer⟩ := exists_answer_of_qualifying hqualifying
  obtain ⟨j, hj, other, hstops⟩ :=
    exists_stopsAt hanswer (mt (passed_iff_qualifying hanswer).1 hqualifying)
  exact ⟨j, hj, (stopsAt_iff_qualifying.1 hstops).2⟩

/-- The answer at which a call comes back, and the click points of what counts there. -/
structure Polling.FirstFound (before : Polling Showing) (image : ImageRef) (i : Nat)
    (place : Match → Point) : Prop where
  counts : before.qualifying image i ≠ []
  earlier : ∀ j < i, before.qualifying image j = []
  place : ∀ m ∈ before.qualifying image i, image.clickPoint m.box = .ok (place m)

theorem Polling.FirstFound.locatesAll_iff {place : Match → Point}
    (hfirst : before.FirstFound image i place) :
    LocatesAll before image result asked after ↔
      result = .ok ((before.qualifying image i).map place) ∧
        asked = List.replicate (i + 1) (before.pathFor image) ∧
        after = before.behind image (i + 1) := by
  rw [locatesAll_iff_of_first hfirst.counts hfirst.earlier,
    ImageRef.foundAll_of_places hfirst.place]

/-- A call comes back if and only if something counts in one of the answers. -/
theorem exists_locatesAll_iff :
    (∃ result asked after, LocatesAll before image result asked after) ↔
      ∃ i, before.qualifying image i ≠ [] := by
  constructor
  · rintro ⟨result, asked, after, hlocates⟩
    obtain ⟨i, hqualifying, -⟩ := locatesAll_iff.1 hlocates
    exact ⟨i, hqualifying⟩
  · rintro ⟨i, hqualifying⟩
    obtain ⟨j, -, hfirst, hearlier⟩ := exists_first_qualifying hqualifying
    exact ⟨_, _, _, locatesAll_iff.2 ⟨j, hfirst, hearlier, rfl, rfl, rfl⟩⟩

end Calls

/-! ### Locators that poll -/

/-- In every state the locator comes back with what polling over certain answers comes back with,
and waits for ever when this does not come back. -/
structure Locator.PollsAll {σ : Type} (locator : Locator σ) (asking : σ → Polling Showing) :
    Prop where
  comesBack_iff (image : ImageRef) (s : σ) (result : Except Halt (List Point)) :
    (∃ asked after, LocatesAll (asking s) image result asked after) ↔
      (locator.locateAll image s).1 = result ∧ ∀ path, result ≠ .error (.waitsForever path)

namespace Locator.PollsAll

variable {σ : Type} {locator : Locator σ} {asking : σ → Polling Showing}
  (hlocator : locator.PollsAll asking) {image : ImageRef} {s : σ}

include hlocator

theorem locateAll_of_firstFound {i : Nat} {place : Match → Point}
    (hfirst : (asking s).FirstFound image i place) :
    (locator.locateAll image s).1 = .ok (((asking s).qualifying image i).map place) :=
  ((hlocator.comesBack_iff image s _).1 ⟨_, _, hfirst.locatesAll_iff.2 ⟨rfl, rfl, rfl⟩⟩).1

theorem locateAll_of_nothing (hnothing : ∀ i, (asking s).qualifying image i = []) :
    ∃ path, (locator.locateAll image s).1 = .error (.waitsForever path) := by
  by_contra hends
  push Not at hends
  obtain ⟨asked, after, hlocates⟩ := (hlocator.comesBack_iff image s _).2 ⟨rfl, hends⟩
  obtain ⟨i, hqualifying⟩ := exists_locatesAll_iff.1 ⟨_, asked, after, hlocates⟩
  exact hqualifying (hnothing i)

/-- No answer is empty. -/
theorem locateAll_ne_nil : (locator.locateAll image s).1 ≠ .ok [] := by
  intro hnil
  obtain ⟨asked, after, hlocates⟩ := (hlocator.comesBack_iff image s _).2 ⟨hnil, by simp⟩
  obtain ⟨i, hqualifying, -, hresult, -⟩ := locatesAll_iff.1 hlocates
  exact hqualifying (List.forall₂_nil_right_iff.1 (ImageRef.foundAll_eq_ok_iff.1 hresult.symm))

end Locator.PollsAll

namespace Poller

variable {poller : Poller} {image : ImageRef} {i : Nat} {frame : Frame}

theorem locateAll_of_stopsAt
    (hstops : StopsAt (Glimpse.qualifying? poller.threshold) .forever
      (Stream'.Seq.ofList (poller.frames image)) i frame) :
    (poller.locateAll image).result =
      image.foundAll (frame.glimpse.qualifying poller.threshold) := by
  have hpoll := hstops.poll_eq
  have hqualifying : frame.glimpse.qualifying poller.threshold ≠ [] := fun hempty ↦
    hstops.stops ⟨Glimpse.qualifying?_eq_none_iff.2 hempty, rfl⟩
  rw [frames, verdict_eq_accepted_iff.2 (Glimpse.qualifying?_eq_some_iff.2 ⟨rfl, hqualifying⟩)]
    at hpoll
  simp only [locateAll, search, hpoll]
  rfl

/-- A call that sees nothing that counts in any of the frames waits for ever. -/
theorem locateAll_of_passed
    (hpassed : ∀ frame ∈ poller.frames image,
      Passed (Glimpse.qualifying? poller.threshold) .forever frame) :
    (poller.locateAll image).result = .error (.waitsForever (poller.pathFor image)) := by
  have hpoll := poll_of_passed hpassed
  rw [frames] at hpoll
  simp only [locateAll, search, hpoll]

/-- On the answers of its display a call of the poller comes back with what it computes from the
frames, and it does not come back when it would wait for ever. -/
theorem pollsAll : locator.PollsAll asking where
  comesBack_iff image poller result := by
    rw [show (locator.locateAll image poller).1 = (poller.locateAll image).result from rfl]
    obtain hpassed | ⟨i, frame, hstops⟩ :=
      passed_or_stopsAt (Glimpse.qualifying? poller.threshold) .forever (poller.frames image)
    · rw [locateAll_of_passed hpassed]
      constructor
      · rintro ⟨asked, after, ⟨hturns⟩⟩
        obtain ⟨i, frame, hstops, -⟩ := turns_iff.1 hturns
        exact absurd ⟨Script.refused_of_passed hpassed hstops.answer, rfl⟩ hstops.stops
      · rintro ⟨rfl, hends⟩
        exact absurd rfl (hends _)
    · have hstopsAt : StopsAt (Glimpse.qualifying? poller.asking.threshold) .forever
          (poller.asking.answers image) i frame := Script.stopsAt_answers hstops
      obtain ⟨hanswer, hqualifying, hearlier⟩ := Polling.stopsAt_iff_qualifying.1 hstopsAt
      rw [locateAll_of_stopsAt hstops]
      constructor
      · rintro ⟨asked, after, hlocates⟩
        obtain ⟨rfl, -⟩ := (locatesAll_iff_of_first hqualifying hearlier).1 hlocates
        rw [Polling.qualifying_of_answer hanswer]
        exact ⟨rfl, image.foundAll_ne_waitsForever _⟩
      · rintro ⟨rfl, -⟩
        refine ⟨_, _, (locatesAll_iff_of_first hqualifying hearlier).2 ⟨?_, rfl, rfl⟩⟩
        rw [Polling.qualifying_of_answer hanswer]
        rfl

end Poller

/-- A locator that polls a matcher asks for what the matcher shows in the call. -/
theorem Matcher.pollsAll {μ : Type} (matcher : Matcher μ) :
    matcher.locator.PollsAll fun polling ↦ (matcher.poller polling).asking where
  comesBack_iff image polling := Poller.pollsAll.comesBack_iff image (matcher.poller polling)

end Macropad.Screen
