import Macropad.Proofs.Screen.Matching
import Mathlib.Data.Seq.Basic

/-!
# The first answer that counts

A matcher answers one question at a time, and for each path it has finitely many answers or
endlessly many (`Showing`); a question without an answer hangs. `Turns` follows the attempts of a
call turn by turn, each of them one question for the path. A matcher may fall silent, or go on with
answers that are refused, and then the turns do not end.

Where the turns end is a property of the answers alone: `StopsAt` names the first answer at which
the wait does not go on, and `turns_iff` says that the turns end there, with one question for each
answer up to it. On finitely many answers this is where polling ends (`StopsAt.poll_eq`). A display
answers without end, its last frame for good (`Script.answers`).

A call that comes to an end has looked at finitely many answers, and `Poller.Plays` says of a poller
that it has the first ones of a sequence in front of it. What its call for one place computes is
`locate_first_qualifying`, for every sequence of answers, finite or not: an answer counts when it
qualifies or, behind a limit, when it expires, and the call looks for the path of the image up to
the first answer that counts.
-/

set_option autoImplicit false

namespace Macropad.Screen

open Macropad.Setting

/-! ### Questions and answers -/

/-- What a matcher answers for each path, one question after the other. -/
abbrev Showing := String → Stream'.Seq Frame

namespace Showing

/-- What is left behind a number of answers for a path. -/
def behind (showing : Showing) (path : String) (attempts : Nat) : Showing :=
  Function.update showing path ((showing path).drop attempts)

/-- The answer to a question for the path, if there is one, and what is left behind it. -/
def ask (showing : Showing) (path : String) : Option (Frame × Showing) :=
  ((showing path).get? 0).map fun frame ↦ (frame, showing.behind path 1)

variable {showing rest : Showing} {path : String} {frame : Frame}

theorem ask_eq_some_iff :
    showing.ask path = some (frame, rest) ↔
      (showing path).get? 0 = some frame ∧ rest = showing.behind path 1 := by
  simp [ask, eq_comm]

@[simp] theorem behind_self (showing : Showing) (path : String) (attempts : Nat) :
    showing.behind path attempts path = (showing path).drop attempts :=
  Function.update_self ..

theorem behind_behind (showing : Showing) (path : String) (first second : Nat) :
    (showing.behind path first).behind path second = showing.behind path (first + second) := by
  rw [behind, behind_self, behind, behind, Function.update_idem, ← Stream'.Seq.dropn_add]

end Showing

section Turns

variable {α : Type} {accept : Glimpse → Option α} {wait : Wait} {path : String}
  {showing after : Showing} {answers : Stream'.Seq Frame} {polled : Polled α} {asked : List String}
  {frame : Frame} {i : Nat}

/-- The turns of a call that comes to an end: how they end, the paths of the questions, and what is
left of the answers. -/
inductive Turns (accept : Glimpse → Option α) (wait : Wait) (path : String) :
    Showing → Polled α → List String → Showing → Prop
  | accepted {showing after : Showing} {frame : Frame} {a : α}
      (hask : showing.ask path = some (frame, after)) (haccept : accept frame.glimpse = some a) :
    Turns accept wait path showing (.accepted a) [path] after
  | gaveUp {showing after : Showing} {frame : Frame}
      (hask : showing.ask path = some (frame, after)) (haccept : accept frame.glimpse = none)
      (hover : wait.isOver frame.elapsed) :
    Turns accept wait path showing .gaveUp [path] after
  | again {showing rest after : Showing} {frame : Frame} {polled : Polled α} {asked : List String}
      (hask : showing.ask path = some (frame, rest)) (hpassed : Passed accept wait frame)
      (hrest : Turns accept wait path rest polled asked after) :
    Turns accept wait path showing polled (path :: asked) after

/-! ### The answer at which the turns end -/

/-- The first answer at which the wait does not go on. -/
structure StopsAt (accept : Glimpse → Option α) (wait : Wait) (answers : Stream'.Seq Frame)
    (i : Nat) (frame : Frame) : Prop where
  answer : answers.get? i = some frame
  earlier : ∀ j < i, ∀ other, answers.get? j = some other → Passed accept wait other
  stops : ¬ Passed accept wait frame

/-- How the attempts end with a frame at which the wait does not go on. -/
def verdict (accept : Glimpse → Option α) (frame : Frame) : Polled α :=
  match accept frame.glimpse with
  | some a => .accepted a
  | none => .gaveUp

theorem verdict_eq_accepted_iff {a : α} :
    verdict accept frame = .accepted a ↔ accept frame.glimpse = some a := by
  rw [verdict]
  split <;> simp_all

theorem verdict_eq_gaveUp_iff : verdict accept frame = .gaveUp ↔ accept frame.glimpse = none := by
  rw [verdict]
  split <;> simp_all

theorem isOver_of_not_passed (hstops : ¬ Passed accept wait frame)
    (hrefused : accept frame.glimpse = none) : wait.isOver frame.elapsed :=
  Bool.of_not_eq_false fun hover ↦ hstops ⟨hrefused, hover⟩

theorem StopsAt.zero (hanswer : answers.get? 0 = some frame) (hstops : ¬ Passed accept wait frame) :
    StopsAt accept wait answers 0 frame :=
  ⟨hanswer, fun j hj ↦ absurd hj j.not_lt_zero, hstops⟩

/-- Where the wait does not go on, there is a first answer of that kind. -/
theorem exists_stopsAt (hanswer : answers.get? i = some frame)
    (hstops : ¬ Passed accept wait frame) :
    ∃ j ≤ i, ∃ other, StopsAt accept wait answers j other := by
  induction i using Nat.strong_induction_on generalizing frame with
  | _ i ih =>
    rcases em (∀ j < i, ∀ other, answers.get? j = some other → Passed accept wait other)
      with hearlier | hearlier
    · exact ⟨i, le_rfl, frame, hanswer, hearlier, hstops⟩
    · push Not at hearlier
      obtain ⟨j, hj, other, hother, hfails⟩ := hearlier
      obtain ⟨k, hk, hstopsAt⟩ := ih j hj hother hfails
      exact ⟨k, hk.trans hj.le, hstopsAt⟩

/-- One more answer in front that is refused. -/
theorem StopsAt.succ_iff {first : Frame} (hfirst : answers.get? 0 = some first) :
    StopsAt accept wait answers (i + 1) frame ↔
      Passed accept wait first ∧ StopsAt accept wait (answers.drop 1) i frame := by
  have hdrop (j : Nat) : (answers.drop 1).get? j = answers.get? (j + 1) := by
    rw [Stream'.Seq.drop_get?, Nat.add_comm]
  constructor
  · rintro ⟨hanswer, hearlier, hstops⟩
    refine ⟨hearlier 0 i.succ_pos first hfirst, (hdrop i).trans hanswer, ?_, hstops⟩
    intro j hj other hother
    exact hearlier (j + 1) (Nat.succ_lt_succ hj) other ((hdrop j).symm.trans hother)
  · rintro ⟨hpassed, hanswer, hearlier, hstops⟩
    refine ⟨(hdrop i).symm.trans hanswer, ?_, hstops⟩
    rintro (- | j) hj other hother
    · cases hfirst.symm.trans hother
      exact hpassed
    · exact hearlier j (Nat.lt_of_succ_lt_succ hj) other ((hdrop j).trans hother)

theorem Turns.of_stopsAt (hstops : StopsAt accept wait (showing path) i frame) :
    Turns accept wait path showing (verdict accept frame) (List.replicate (i + 1) path)
      (showing.behind path (i + 1)) := by
  induction i generalizing showing with
  | zero =>
    have hask := Showing.ask_eq_some_iff.2 ⟨hstops.answer, rfl⟩
    cases haccept : accept frame.glimpse with
    | some a =>
      rw [verdict_eq_accepted_iff.2 haccept]
      exact .accepted hask haccept
    | none =>
      rw [verdict_eq_gaveUp_iff.2 haccept]
      exact .gaveUp hask haccept (isOver_of_not_passed hstops.stops haccept)
  | succ i ih =>
    obtain ⟨first, hfirst⟩ := Stream'.Seq.ge_stable _ (Nat.zero_le (i + 1)) hstops.answer
    rw [StopsAt.succ_iff hfirst, ← Showing.behind_self] at hstops
    have hturns := ih hstops.2
    rw [Showing.behind_behind, Nat.add_comm 1] at hturns
    exact .again (Showing.ask_eq_some_iff.2 ⟨hfirst, rfl⟩) hstops.1 hturns

/-- The turns end at the first answer at which the wait does not go on, with one question for each
answer up to it. -/
theorem turns_iff :
    Turns accept wait path showing polled asked after ↔
      ∃ i frame, StopsAt accept wait (showing path) i frame ∧ polled = verdict accept frame ∧
        asked = List.replicate (i + 1) path ∧ after = showing.behind path (i + 1) := by
  constructor
  · intro hturns
    induction hturns with
    | @accepted showing after frame a hask haccept =>
      obtain ⟨hanswer, rfl⟩ := Showing.ask_eq_some_iff.1 hask
      have hstops : ¬ Passed accept wait frame := by simp [Passed, haccept]
      exact ⟨0, frame, .zero hanswer hstops, (verdict_eq_accepted_iff.2 haccept).symm, rfl, rfl⟩
    | @gaveUp showing after frame hask haccept hover =>
      obtain ⟨hanswer, rfl⟩ := Showing.ask_eq_some_iff.1 hask
      have hstops : ¬ Passed accept wait frame := by simp [Passed, hover]
      exact ⟨0, frame, .zero hanswer hstops, (verdict_eq_gaveUp_iff.2 haccept).symm, rfl, rfl⟩
    | @again showing rest after first polled asked hask hpassed _ ih =>
      obtain ⟨hfirst, rfl⟩ := Showing.ask_eq_some_iff.1 hask
      obtain ⟨i, frame, hstops, rfl, rfl, rfl⟩ := ih
      rw [Showing.behind_self] at hstops
      exact ⟨i + 1, frame, (StopsAt.succ_iff hfirst).2 ⟨hpassed, hstops⟩, rfl, rfl, by
        rw [Showing.behind_behind, Nat.add_comm 1]⟩
  · rintro ⟨i, frame, hstops, rfl, rfl, rfl⟩
    exact Turns.of_stopsAt hstops

end Turns

/-! ### Finitely many answers -/

section Frames

variable {α : Type} {accept : Glimpse → Option α} {wait : Wait} {frames : List Frame}
  {frame : Frame} {i : Nat}

theorem poll_of_passed (hpassed : ∀ frame ∈ frames, Passed accept wait frame) :
    poll accept wait frames = (.waiting, frames.length) := by
  induction frames with
  | nil => rfl
  | cons first rest ih =>
    obtain ⟨⟨hrefused, hover⟩, hrest⟩ := List.forall_mem_cons.1 hpassed
    simp [poll, hrefused, hover, ih hrest]

/-- On finitely many answers the turns end where polling does. -/
theorem StopsAt.poll_eq (hstops : StopsAt accept wait (Stream'.Seq.ofList frames) i frame) :
    poll accept wait frames = (verdict accept frame, i + 1) := by
  induction frames generalizing i with
  | nil => cases hstops.answer
  | cons first rest ih =>
    cases i with
    | zero =>
      obtain ⟨hanswer, -, hstops⟩ := hstops
      cases hanswer
      cases haccept : accept frame.glimpse with
      | some a => rw [poll, haccept, verdict_eq_accepted_iff.2 haccept]
      | none =>
        have hover := isOver_of_not_passed hstops haccept
        simp only [poll, haccept, hover, if_true, verdict_eq_gaveUp_iff.2 haccept]
    | succ i =>
      rw [Stream'.Seq.ofList_cons, StopsAt.succ_iff (Stream'.Seq.get?_cons_zero ..)] at hstops
      obtain ⟨⟨hrefused, hover⟩, hrest⟩ := hstops
      simp [poll, hrefused, hover, ih hrest]

/-- Where the turns end is decided by the answers up to there. -/
theorem StopsAt.take {answers : Stream'.Seq Frame} {n : Nat}
    (hstops : StopsAt accept wait answers i frame) (hi : i < n) :
    StopsAt accept wait (Stream'.Seq.ofList (answers.take n)) i frame := by
  have hkept {j : Nat} (hj : j < n) :
      (Stream'.Seq.ofList (answers.take n)).get? j = answers.get? j := by
    rw [Stream'.Seq.ofList_get?, Stream'.Seq.getElem?_take, if_pos hj]
  refine ⟨(hkept hi).trans hstops.answer, ?_, hstops.stops⟩
  intro j hj other hother
  exact hstops.earlier j hj other ((hkept (hj.trans hi)).symm.trans hother)

/-- The wait goes on at all of the frames, or at one of them the turns end. -/
theorem passed_or_stopsAt (accept : Glimpse → Option α) (wait : Wait) (frames : List Frame) :
    (∀ frame ∈ frames, Passed accept wait frame) ∨
      ∃ i frame, StopsAt accept wait (Stream'.Seq.ofList frames) i frame := by
  rw [or_iff_not_imp_left]
  intro hnot
  push Not at hnot
  obtain ⟨frame, hframe, hstops⟩ := hnot
  obtain ⟨i, hi⟩ := List.mem_iff_getElem?.1 hframe
  obtain ⟨j, -, hfirst⟩ := exists_stopsAt ((Stream'.Seq.ofList_get? frames i).trans hi) hstops
  exact ⟨j, hfirst⟩

end Frames

/-! ### Locators that ask -/

namespace Polling

/-- The path that the matcher is asked for. -/
def pathFor {μ : Type} (polling : Polling μ) (image : ImageRef) : String :=
  joinPath polling.directory image.file

variable (before : Polling Showing) (image : ImageRef)

/-- The answers that the questions of a call will have. -/
def answers : Stream'.Seq Frame := before.memory (before.pathFor image)

/-- The locator behind a number of questions of a call. -/
def behind (attempts : Nat) : Polling Showing :=
  { before with memory := before.memory.behind (before.pathFor image) attempts }

end Polling

/-! ### The answers of a display -/

namespace Script

variable (script : Script)

/-- The frame that stays. -/
def last : Frame := script.frames.getLast script.frames_ne_nil

/-- The frames of a script as answers without end, each of which takes a millisecond more once the
last frame stays. -/
def answers : Stream'.Seq Frame :=
  Stream'.Seq.ofStream fun i ↦ script.frames[i]?.getD { script.last with elapsed := i }

variable {script} {i : Nat} {frame : Frame}

theorem answers_of_getElem? (hframe : script.frames[i]? = some frame) :
    script.answers.get? i = some frame :=
  congrArg (fun frame? : Option Frame ↦ some (frame?.getD _)) hframe

theorem answers_of_length_le (hi : script.frames.length ≤ i) :
    script.answers.get? i = some { script.last with elapsed := i } :=
  congrArg (fun frame? : Option Frame ↦ some (frame?.getD _)) (List.getElem?_eq_none hi)

section

variable {α : Type} {accept : Glimpse → Option α} {wait : Wait}

theorem stopsAt_answers (hstops : StopsAt accept wait (Stream'.Seq.ofList script.frames) i frame) :
    StopsAt accept wait script.answers i frame := by
  have hanswer : script.frames[i]? = some frame := hstops.answer
  refine ⟨answers_of_getElem? hanswer, ?_, hstops.stops⟩
  intro j hj other hother
  have hj' : j < script.frames.length := hj.trans (List.getElem?_eq_some_iff.1 hanswer).1
  have hframe := answers_of_getElem? (List.getElem?_eq_getElem hj')
  exact hstops.earlier j hj other ((List.getElem?_eq_getElem hj').trans (hframe.symm.trans hother))

/-- A script that is refused to its end is refused for good. -/
theorem refused_of_passed (hpassed : ∀ frame ∈ script.frames, Passed accept wait frame)
    (hanswer : script.answers.get? i = some frame) : accept frame.glimpse = none := by
  obtain hi | hi := Nat.lt_or_ge i script.frames.length
  · cases (answers_of_getElem? (List.getElem?_eq_getElem hi)).symm.trans hanswer
    exact (hpassed _ (List.getElem_mem hi)).1
  · cases (answers_of_length_le hi).symm.trans hanswer
    exact (hpassed _ (List.getLast_mem script.frames_ne_nil)).1

end

end Script

/-- The answers of a display, its last frame for good. -/
def Display.showing (display : Display) : Showing := fun path ↦ (display.script path).answers

namespace Poller

variable (poller : Poller) (image : ImageRef)

/-- The poller as a locator that asks for the answers of its display. -/
def asking : Polling Showing := poller.remembering poller.display.showing

/-- The frames that a call has in front of it. -/
def frames : List Frame := (poller.display.script (poller.pathFor image)).frames

end Poller

/-! ### Calls for one place -/

/-- The best match of an answer is its first, when it qualifies. -/
theorem Glimpse.best?_eq_some_iff {threshold : Number.Double} {glimpse : Glimpse} {m : Match} :
    best? threshold glimpse = some m ↔
      ∃ lesser, glimpse = .seen (m :: lesser) ∧ m.qualifies threshold := by
  obtain _ | _ | ⟨first, lesser⟩ := glimpse
  · simp [best?]
  · simp [best?]
  · simp only [best?, List.head?_cons, Option.filter_eq_some_iff, Option.some.injEq, seen.injEq,
      List.cons.injEq]
    constructor
    · rintro ⟨rfl, hqualifies⟩
      exact ⟨lesser, ⟨rfl, rfl⟩, hqualifies⟩
    · rintro ⟨_, ⟨rfl, rfl⟩, hqualifies⟩
      exact ⟨rfl, hqualifies⟩

/-- Where a match leads to: a place, unless the click point overflows. -/
def ImageRef.foundAt (image : ImageRef) (m : Match) : Except Halt Located :=
  (Poller.orOverflow (image.clickPoint m.box)).map .found

/-- How a call ends with the best match that its last attempt has accepted. -/
def ImageRef.conclude (image : ImageRef) : Option Match → Except Halt Located
  | some m => image.foundAt m
  | none => .ok .timedOut

theorem ImageRef.conclude_ne_waitsForever (image : ImageRef) (m? : Option Match) (path : String) :
    image.conclude m? ≠ .error (.waitsForever path) := by
  rcases m? with _ | m
  · simp [conclude]
  · rw [conclude, foundAt]
    cases image.clickPoint m.box <;> simp [Poller.orOverflow, Except.map]

namespace Polling

variable (before : Polling Showing) (image : ImageRef)

/-- An answer is a match from the threshold on. -/
def Qualifies (i : Nat) (m : Match) : Prop :=
  ∃ frame lesser, (before.answers image).get? i = some frame ∧
    frame.glimpse = .seen (m :: lesser) ∧ m.qualifies before.threshold

/-- An answer does not qualify, and the wait is over at it. -/
def Expires (wait : Wait) (i : Nat) : Prop :=
  (∀ m, ¬ before.Qualifies image i m) ∧
    ∃ frame, (before.answers image).get? i = some frame ∧ wait.isOver frame.elapsed

end Polling

section Calls

variable {before : Polling Showing} {image : ImageRef} {wait : Wait} {i : Nat} {m : Match}
  {frame : Frame}

namespace Polling

theorem qualifies_iff (hanswer : (before.answers image).get? i = some frame) :
    before.Qualifies image i m ↔ Glimpse.best? before.threshold frame.glimpse = some m := by
  rw [Glimpse.best?_eq_some_iff]
  constructor
  · rintro ⟨frame', lesser, hanswer', hseen, hqualifies⟩
    cases hanswer.symm.trans hanswer'
    exact ⟨lesser, hseen, hqualifies⟩
  · rintro ⟨lesser, hseen, hqualifies⟩
    exact ⟨frame, lesser, hanswer, hseen, hqualifies⟩

theorem expires_iff (hanswer : (before.answers image).get? i = some frame) :
    before.Expires image wait i ↔
      Glimpse.best? before.threshold frame.glimpse = none ∧ wait.isOver frame.elapsed := by
  simp only [Expires, qualifies_iff hanswer, Option.eq_none_iff_forall_ne_some, hanswer,
    Option.some.injEq, exists_eq_left', ne_eq]

/-- The wait goes on at an answer that neither qualifies nor expires. -/
theorem passed_iff (hanswer : (before.answers image).get? i = some frame) :
    Passed (Glimpse.best? before.threshold) wait frame ↔
      (∀ m, ¬ before.Qualifies image i m) ∧ ¬ before.Expires image wait i := by
  simp only [qualifies_iff hanswer, expires_iff hanswer, Passed]
  cases Glimpse.best? before.threshold frame.glimpse <;> simp

/-- The turns end at the first answer that qualifies or expires. -/
theorem stopsAt_of_first (hanswer : (before.answers image).get? i = some frame)
    (hcounts : (∃ m, before.Qualifies image i m) ∨ before.Expires image wait i)
    (hqualified : ∀ j < i, ∀ m, ¬ before.Qualifies image j m)
    (hexpired : ∀ j < i, ¬ before.Expires image wait j) :
    StopsAt (Glimpse.best? before.threshold) wait (before.answers image) i frame where
  answer := hanswer
  earlier j hj _ hother := (passed_iff hother).2 ⟨hqualified j hj, hexpired j hj⟩
  stops hpassed := by
    obtain ⟨hno, hnot⟩ := (passed_iff hanswer).1 hpassed
    obtain ⟨m, hm⟩ | hexpires := hcounts
    · exact hno m hm
    · exact hnot hexpires

end Polling

/-- Without a limit no answer expires. -/
theorem Polling.not_expires_forever : ¬ before.Expires image .forever i := by
  rintro ⟨-, frame, -, hover⟩
  cases hover

namespace Poller

/-- A poller with the settings of a locator, which has the first of its answers for an image in
front of it. -/
structure Plays (poller : Poller) (before : Polling Showing) (image : ImageRef) (n : Nat) :
    Prop where
  directory : poller.directory = before.directory
  interval : poller.interval = before.interval
  threshold : poller.threshold = before.threshold
  frames : (poller.display.script (joinPath before.directory image.file)).frames =
    (before.answers image).take n

variable {poller : Poller} {n : Nat}

/-- A call whose turns end ends there, after as many attempts. -/
theorem locate_of_stopsAt
    (hstops : StopsAt (Glimpse.best? poller.threshold) wait
      (Stream'.Seq.ofList (poller.frames image)) i frame) :
    (poller.locate image wait).result =
        image.conclude (Glimpse.best? poller.threshold frame.glimpse) ∧
      (poller.locate image wait).attempts = i + 1 := by
  have hpoll := hstops.poll_eq
  rw [frames] at hpoll
  simp only [locate, search, hpoll, verdict, and_true]
  cases Glimpse.best? poller.threshold frame.glimpse <;> rfl

/-- A call of which all frames are refused. -/
theorem locate_of_passed
    (hpassed : ∀ frame ∈ poller.frames image,
      Passed (Glimpse.best? poller.threshold) wait frame) :
    (poller.locate image wait).result = match wait with
      | .forever => .error (.waitsForever (poller.pathFor image))
      | .limit _ => .ok .timedOut := by
  have hpoll := poll_of_passed hpassed
  rw [frames] at hpoll
  cases wait <;> simp only [locate, search, hpoll]

/-- There is an attempt in every call. -/
theorem attempts_locate_pos (poller : Poller) (image : ImageRef) (wait : Wait) :
    0 < (poller.locate image wait).attempts :=
  (course_poll (Glimpse.best? poller.threshold) wait (poller.frames image)).attempts_pos
    (Script.frames_ne_nil _)

/-- A place found within a limit is the one found without a limit, after as many attempts. -/
theorem locate_forever_of_found {place : Point}
    (hfound : (poller.locate image wait).result = .ok (.found place)) :
    (poller.locate image .forever).result = .ok (.found place) ∧
      (poller.locate image .forever).attempts = (poller.locate image wait).attempts := by
  obtain hpassed | ⟨i, frame, hstops⟩ :=
    passed_or_stopsAt (Glimpse.best? poller.threshold) wait (poller.frames image)
  · rw [locate_of_passed hpassed] at hfound
    cases wait <;> cases hfound
  · obtain ⟨hresult, hattempts⟩ := locate_of_stopsAt hstops
    cases hbest : Glimpse.best? poller.threshold frame.glimpse with
    | none =>
      rw [hresult, hbest] at hfound
      cases hfound
    | some m =>
      have hforever : StopsAt (Glimpse.best? poller.threshold) .forever
          (Stream'.Seq.ofList (poller.frames image)) i frame := by
        refine ⟨hstops.answer, fun j hj other hother ↦ ?_, fun hpassed ↦ ?_⟩
        · exact ⟨(hstops.earlier j hj other hother).1, rfl⟩
        · cases hbest.symm.trans hpassed.1
      obtain ⟨hresult', hattempts'⟩ := locate_of_stopsAt hforever
      exact ⟨hresult'.trans (hresult.symm.trans hfound), hattempts'.trans hattempts.symm⟩

namespace Plays

theorem frames_eq (hplays : poller.Plays before image n) :
    poller.frames image = (before.answers image).take n := by
  rw [Poller.frames, pathFor, hplays.directory, hplays.frames]

/-- The call ends where the turns over the answers end, if the poller plays them up to there. -/
theorem locate_of_stopsAt (hplays : poller.Plays before image n) (hi : i < n)
    (hstops : StopsAt (Glimpse.best? before.threshold) wait (before.answers image) i frame) :
    (poller.locate image wait).result =
        image.conclude (Glimpse.best? before.threshold frame.glimpse) ∧
      (poller.locate image wait).attempts = i + 1 := by
  have hplayed := hstops.take hi
  rw [← hplays.frames_eq, ← hplays.threshold] at hplayed
  rw [← hplays.threshold]
  exact Poller.locate_of_stopsAt hplayed

/-- The first answer that qualifies is what the call ends with, unless one expires earlier. -/
theorem locate_found (hplays : poller.Plays before image n) (hi : i < n)
    (hqualifies : before.Qualifies image i m)
    (hqualified : ∀ j < i, ∀ m, ¬ before.Qualifies image j m)
    (hexpired : ∀ j < i, ¬ before.Expires image wait j) :
    (poller.locate image wait).result = image.foundAt m ∧
      (poller.locate image wait).attempts = i + 1 := by
  obtain ⟨frame, lesser, hanswer, hseen, hm⟩ := id hqualifies
  have hends := hplays.locate_of_stopsAt hi
    (Polling.stopsAt_of_first hanswer (.inl ⟨m, hqualifies⟩) hqualified hexpired)
  rwa [(Polling.qualifies_iff hanswer).1 hqualifies] at hends

/-- The first answer that expires ends the wait, unless one qualifies earlier. -/
theorem locate_timedOut (hplays : poller.Plays before image n) (hi : i < n)
    (hexpires : before.Expires image wait i) (hexpired : ∀ j < i, ¬ before.Expires image wait j)
    (hqualified : ∀ j < i, ∀ m, ¬ before.Qualifies image j m) :
    (poller.locate image wait).result = .ok .timedOut ∧
      (poller.locate image wait).attempts = i + 1 := by
  obtain ⟨hno, frame, hanswer, hover⟩ := id hexpires
  have hends := hplays.locate_of_stopsAt hi
    (Polling.stopsAt_of_first hanswer (.inr hexpires) hqualified hexpired)
  rwa [((Polling.expires_iff hanswer).1 hexpires).1] at hends

/-- When no answer that the poller plays qualifies, a wait without a limit goes on for ever. -/
theorem locate_of_nothing (hplays : poller.Plays before image n)
    (hnothing : ∀ i < n, ∀ m, ¬ before.Qualifies image i m) :
    (poller.locate image .forever).result =
      .error (.waitsForever (joinPath before.directory image.file)) := by
  rw [locate_of_passed, pathFor, hplays.directory]
  intro frame hframe
  rw [hplays.frames_eq] at hframe
  obtain ⟨i, hi⟩ := List.mem_iff_getElem?.1 hframe
  rw [Stream'.Seq.getElem?_take] at hi
  obtain ⟨hlt, hanswer⟩ := Option.ite_none_right_eq_some.1 hi
  rw [hplays.threshold]
  exact (Polling.passed_iff hanswer).2 ⟨hnothing i hlt, Polling.not_expires_forever⟩

end Plays

/-- The answers up to any of them can be played. -/
theorem exists_plays (hanswer : (before.answers image).get? i = some frame) :
    ∃ poller : Poller, poller.Plays before image (i + 1) := by
  obtain ⟨first, hfirst⟩ := Stream'.Seq.ge_stable _ i.zero_le hanswer
  cases hframes : (before.answers image).take (i + 1) with
  | nil =>
    have htake := Stream'.Seq.getElem?_take 0 (i + 1) (before.answers image)
    rw [hframes, if_pos i.succ_pos, hfirst] at htake
    cases htake
  | cons current later =>
    exact ⟨⟨before.directory, before.interval, before.threshold, [], current, later⟩, rfl, rfl,
      rfl, hframes.symm⟩

/-- When an answer qualifies, some call without a limit comes back. -/
theorem exists_locate_of_qualifies (hqualifies : before.Qualifies image i m) :
    ∃ (poller : Poller) (n : Nat), poller.Plays before image n ∧
      ∀ path, (poller.locate image .forever).result ≠ .error (.waitsForever path) := by
  obtain ⟨frame, -, hanswer, -⟩ := id hqualifies
  have hcounts : ¬ Passed (Glimpse.best? before.threshold) .forever frame := fun hpassed ↦
    ((Polling.passed_iff hanswer).1 hpassed).1 m hqualifies
  obtain ⟨j, -, other, hstops⟩ := exists_stopsAt hanswer hcounts
  obtain ⟨poller, hplays⟩ := exists_plays hstops.answer
  refine ⟨poller, j + 1, hplays, fun path ↦ ?_⟩
  rw [(hplays.locate_of_stopsAt j.lt_succ_self hstops).1]
  exact image.conclude_ne_waitsForever _ path

/-- A poller plays the answers of its own display. -/
theorem plays_asking (poller : Poller) (image : ImageRef) :
    poller.Plays poller.asking image (poller.frames image).length where
  directory := rfl
  interval := rfl
  threshold := rfl
  frames := by
    change poller.frames image = _
    refine List.ext_getElem? fun i ↦ ?_
    rw [Stream'.Seq.getElem?_take]
    split
    · rename_i hi
      exact (List.getElem?_eq_getElem hi).trans
        (Script.answers_of_getElem? (List.getElem?_eq_getElem hi)).symm
    · rename_i hi
      exact List.getElem?_eq_none (Nat.not_lt.1 hi)

end Poller

end Calls

/-- A call for a place, over any sequence of answers of which a poller plays the first ones. Without
a limit it comes back if and only if an answer qualifies, and then with the place of the first that
does, after as many attempts as there are answers up to it. Behind a limit it makes an attempt at
least, and it comes back with this place unless an answer expires earlier, and then it is out of
time. The attempts are for the path of the image in the directory, and the settings stay. -/
theorem locate_first_qualifying (before : Polling Showing) (image : ImageRef) :
    let path := joinPath before.directory image.file
    ((∃ (poller : Poller) (n : Nat), poller.Plays before image n ∧
        (poller.locate image .forever).result ≠ .error (.waitsForever path)) ↔
      ∃ i m, before.Qualifies image i m) ∧
    (∀ (poller : Poller) (n : Nat), poller.Plays before image n →
      ((∀ i < n, ∀ m, ¬ before.Qualifies image i m) →
        (poller.locate image .forever).result = .error (.waitsForever path)) ∧
      (∀ i < n, ∀ m, before.Qualifies image i m → (∀ j < i, ∀ m, ¬ before.Qualifies image j m) →
        (poller.locate image .forever).result = image.foundAt m ∧
          (poller.locate image .forever).attempts = i + 1) ∧
      (∀ ms, 0 < (poller.locate image (.limit ms)).attempts ∧
        (∀ i < n, ∀ m, before.Qualifies image i m →
          (∀ j < i, ∀ m, ¬ before.Qualifies image j m) →
          (∀ j < i, ¬ before.Expires image (.limit ms) j) →
          (poller.locate image (.limit ms)).result = image.foundAt m ∧
            (poller.locate image (.limit ms)).attempts = i + 1) ∧
        (∀ i < n, before.Expires image (.limit ms) i →
          (∀ j < i, ¬ before.Expires image (.limit ms) j) →
          (∀ j < i, ∀ m, ¬ before.Qualifies image j m) →
          (poller.locate image (.limit ms)).result = .ok .timedOut ∧
            (poller.locate image (.limit ms)).attempts = i + 1) ∧
        ∀ place, (poller.locate image (.limit ms)).result = .ok (.found place) →
          (poller.locate image .forever).result = .ok (.found place) ∧
            (poller.locate image .forever).attempts =
              (poller.locate image (.limit ms)).attempts) ∧
      ∀ wait, (poller.locate image wait).poller =
        { poller with
          display := poller.display.advance path (poller.locate image wait).attempts }) ∧
    ∀ {μ : Type} (matcher : Matcher μ) (polling : Polling μ) (wait : Wait),
      let call := (matcher.poller polling).locate image wait
      matcher.locator.locate image wait polling =
        (call.result,
          { polling with
            memory := matcher.after (joinPath polling.directory image.file) call.attempts
              polling.memory }) := by
  intro path
  refine ⟨⟨?_, ?_⟩, fun poller n hplays ↦ ⟨?_, ?_, fun ms ↦ ⟨?_, ?_, ?_, ?_⟩, ?_⟩,
    fun _ _ _ ↦ rfl⟩
  · rintro ⟨poller, n, hplays, hends⟩
    by_contra hnothing
    push Not at hnothing
    exact hends (hplays.locate_of_nothing fun i _ ↦ hnothing i)
  · rintro ⟨i, m, hqualifies⟩
    obtain ⟨poller, n, hplays, hends⟩ := Poller.exists_locate_of_qualifies hqualifies
    exact ⟨poller, n, hplays, hends path⟩
  · exact hplays.locate_of_nothing
  · intro i hi m hqualifies hqualified
    exact hplays.locate_found hi hqualifies hqualified fun _ _ ↦ Polling.not_expires_forever
  · exact poller.attempts_locate_pos image _
  · exact fun i hi m ↦ hplays.locate_found hi
  · exact fun i hi ↦ hplays.locate_timedOut hi
  · exact fun place ↦ Poller.locate_forever_of_found
  · intro wait
    have hpath : path = poller.pathFor image :=
      congrArg (joinPath · image.file) hplays.directory.symm
    rw [hpath]
    rfl

/-- A poller that is shown nothing, fails, is shown a match below the threshold, and then one above
it, with ten milliseconds for each attempt. -/
def patient : Poller :=
  ⟨"find", 10, .zero, .scripted [("find/a.png", ⟨⟨.seen [], 10⟩, [⟨.failed, 20⟩,
    ⟨.seen [⟨⟨⟨0, 0⟩, 2, 2⟩, .finite true 1⟩], 30⟩, ⟨.seen [⟨⟨⟨4, 4⟩, 2, 2⟩, .zero⟩], 40⟩]⟩)]⟩

/-- Without a limit its call finds the place in the fourth attempt, and behind a limit that passes
with the second attempt it gives up there. -/
theorem locate_first_qualifying_of_patient :
    patient.Plays patient.asking ⟨"a.png", none⟩ 4 ∧
      (patient.locate ⟨"a.png", none⟩ .forever).result = .ok (.found ⟨5, 5⟩) ∧
      (patient.locate ⟨"a.png", none⟩ .forever).attempts = 4 ∧
      (patient.locate ⟨"a.png", none⟩ (.limit 15)).result = .ok .timedOut ∧
      (patient.locate ⟨"a.png", none⟩ (.limit 15)).attempts = 2 := by
  have hplays : patient.Plays patient.asking ⟨"a.png", none⟩ 4 := patient.plays_asking _
  have hqualifies : patient.asking.Qualifies ⟨"a.png", none⟩ 3 ⟨⟨⟨4, 4⟩, 2, 2⟩, .zero⟩ :=
    ⟨_, [], rfl, rfl, rfl⟩
  have hrefused : ∀ j < 3, ∀ m, ¬ patient.asking.Qualifies ⟨"a.png", none⟩ j m := by
    rintro j hj m ⟨frame, lesser, hanswer, hseen, hm⟩
    match j, hj with
    | 0, _ | 1, _ =>
      cases hanswer
      cases hseen
    | 2, _ =>
      cases hanswer
      cases hseen
      cases hm
  have hexpires : patient.asking.Expires ⟨"a.png", none⟩ (.limit 15) 1 :=
    ⟨hrefused 1 (by decide), _, rfl, rfl⟩
  have hintime : ∀ j < 1, ¬ patient.asking.Expires ⟨"a.png", none⟩ (.limit 15) j := by
    rintro j hj ⟨-, frame, hanswer, hover⟩
    obtain rfl := Nat.lt_one_iff.1 hj
    cases hanswer
    cases hover
  obtain ⟨-, hcalls, -⟩ := locate_first_qualifying patient.asking ⟨"a.png", none⟩
  obtain ⟨-, hforever, hlimit, -⟩ := hcalls patient 4 hplays
  obtain ⟨hfound, hfourth⟩ := hforever 3 (by decide) _ hqualifies hrefused
  obtain ⟨htimedOut, hsecond⟩ := (hlimit 15).2.2.1 1 (by decide) hexpires hintime
    fun j hj ↦ hrefused j (hj.trans (by decide))
  exact ⟨hplays, hfound, hfourth, htimedOut, hsecond⟩

end Macropad.Screen
