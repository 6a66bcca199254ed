import Macropad.Proofs.Trigger.Polls
import Macropad.Trigger.Clipboard

/-!
# What a clipboard source sends

A tick of the clock finds the execution gate held or free. While it is held the clipboard is left
alone; otherwise a text that is read, is not blank and can be decoded is sent, unless the last text
read was the same (`record_concat_eq`).

What the source remembers is the last text that it has read, and not the last one that it has sent.
The two differ from the first undecodable text after a request up to the next request
(`lastText?_eq`, `exists_lastText?_eq`). So a text is not sent again while it stays on the
clipboard, but it is sent again if an undecodable one was read in between (`sent_again`), and
`sends_over_ticks` says that this is the only case.

A run on a timetable, with what happens to the gate between the polls, sends what its ticks send
(`requests_run`).
-/

set_option autoImplicit false

namespace Macropad.Trigger.Clipboard

open Polls

/-! ### Ticks -/

/-- What a tick of the clock finds. -/
structure Tick where
  /-- Whether the execution gate is held. -/
  held : Bool
  /-- What a read of the clipboard gives; `none` if it fails or there is no text. -/
  clipboard? : Option String
deriving Repr, DecidableEq

namespace Tick

/-- The text that is read at the tick, if there is one that is not blank. -/
def text? (tick : Tick) : Option String :=
  if tick.held then none else tick.clipboard?.filter fun text ↦ !Text.allBlank text.toList

/-- A text is read that is not blank and cannot be decoded. -/
def Undecodable (tick : Tick) : Prop :=
  ∃ text, tick.text? = some text ∧ Request.parse? text = none

theorem text?_eq_some_iff {tick : Tick} {text : String} :
    tick.text? = some text ↔
      tick.held = false ∧ tick.clipboard? = some text ∧ Text.allBlank text.toList = false := by
  obtain ⟨held, clipboard?⟩ := tick
  cases held <;> simp [text?, Option.filter_eq_some_iff]

end Tick

/-- The last text that was read at some ticks and was not blank. -/
def lastText? (ticks : List Tick) : Option String := (ticks.filterMap Tick.text?).getLast?

theorem lastText?_concat (before : List Tick) (tick : Tick) :
    lastText? (before ++ [tick]) = tick.text?.or (lastText? before) := by
  rw [lastText?, List.filterMap_append, List.getLast?_append]
  cases htext : tick.text? <;> simp [htext, lastText?]

/-! ### One tick -/

/-- What a tick lets the source see. -/
def Tick.sight (tick : Tick) : Sight :=
  if tick.held then .gateHeld
  else
    match tick.clipboard? with
    | some text => .text text
    | none => .noText

/-- The request that a tick sends, given the last text that was read. -/
def due? (last? : Option String) (tick : Tick) : Option Request :=
  tick.text?.bind fun text ↦ if last? = some text then none else Request.parse? text

theorem due?_eq_some_iff {last? : Option String} {tick : Tick} {request : Request} :
    due? last? tick = some request ↔
      ∃ text, tick.text? = some text ∧ last? ≠ some text ∧ Request.parse? text = some request := by
  rw [due?, Option.bind_eq_some_iff]
  refine exists_congr fun text ↦ and_congr_right fun _ ↦ ?_
  by_cases hsame : last? = some text <;> simp [hsame]

/-- What is remembered is the last text that was read; no text stands in for it at first. -/
theorem respond_sight (last? : Option String) (tick : Tick) :
    respond (last?.getD "") tick.sight = (due? last? tick, (tick.text?.or last?).getD "") := by
  obtain ⟨held, clipboard?⟩ := tick
  cases held with
  | true => rfl
  | false =>
    cases clipboard? with
    | none => rfl
    | some text =>
      cases hblank : Text.allBlank text.toList with
      | true =>
        have htext : (Tick.mk false (some text)).text? = none := by simp [Tick.text?, hblank]
        simp [Tick.sight, respond, isNews, hblank, due?, htext]
      | false =>
        have htext : (Tick.mk false (some text)).text? = some text :=
          Tick.text?_eq_some_iff.2 ⟨rfl, rfl, hblank⟩
        have hsame : text = last?.getD "" ↔ last? = some text := by
          cases last? with
          | none =>
            -- The empty text is blank.
            refine ⟨?_, nofun⟩
            rintro rfl
            cases hblank
          | some last => simp [eq_comm]
        by_cases hlast : last? = some text
        · simp [Tick.sight, respond, isNews, due?, htext, hlast]
        · simp [Tick.sight, respond, isNews, hblank, due?, htext, hlast, hsame]

namespace Scene

/-- The source when it starts. -/
def start : Scene := { reads := [] }

/-- The source still runs, and its receiver stays. -/
structure Open (scene : Scene) : Prop where
  receiver : scene.receiver = {}
  ended : scene.ended = false

/-- While the receiver stays, a request that is due is sent. -/
theorem see_eq {scene : Scene} (hopen : scene.Open) (sight : Sight) :
    scene.see sight = (((respond scene.last sight).1.map Event.request).toList,
      { scene with last := (respond scene.last sight).2 }) := by
  rw [see]
  obtain ⟨request?, last⟩ := respond scene.last sight
  cases request? with
  | none => rfl
  | some request =>
    simp only [send, hopen.receiver]
    rfl

/-- The scene when a tick comes. -/
def facing (scene : Scene) (tick : Tick) : Scene :=
  { scene with held := tick.held, reads := [tick.clipboard?] }

def meet (scene : Scene) (tick : Tick) : List (Event GateReport) × Scene :=
  (scene.facing tick).poll

/-- The scene in which a tick is seen. The clipboard is read if the gate is free. -/
def reading (scene : Scene) (tick : Tick) : Scene :=
  if tick.held then scene.facing tick
  else { scene.facing tick with reads := [], done := scene.done + 1 }

theorem meet_eq {scene : Scene} (hended : scene.ended = false) (tick : Tick) :
    scene.meet tick =
      ((if tick.held then [] else [.read scene.done]) ++ ((scene.reading tick).see tick.sight).1,
        ((scene.reading tick).see tick.sight).2) := by
  have hruns : ¬ (scene.facing tick).ended = true := by simp [facing, hended]
  rw [meet, poll, if_neg hruns]
  obtain ⟨held, clipboard?⟩ := tick
  cases held <;> cases clipboard? <;> rfl

theorem Open.reading {scene : Scene} (hopen : scene.Open) (tick : Tick) :
    (scene.reading tick).Open := by
  rw [Scene.reading]
  split <;> exact ⟨hopen.receiver, hopen.ended⟩

/-- A tick reads once if the gate is free, sends the request that is due, and remembers what it has
read. -/
theorem meet_due {scene : Scene} (hopen : scene.Open) {last? : Option String}
    (hlast : scene.last = last?.getD "") (tick : Tick) :
    scene.meet tick =
      ((if tick.held then [] else [.read scene.done]) ++
        ((due? last? tick).map Event.request).toList,
        { scene.reading tick with last := (tick.text?.or last?).getD "" }) := by
  have hreading : (scene.reading tick).last = last?.getD "" := by
    rw [← hlast, Scene.reading]
    split <;> rfl
  rw [meet_eq hopen.ended, see_eq (hopen.reading tick), hreading, respond_sight]

end Scene

/-! ### Ticks in a row -/

/-- The scene behind some ticks. -/
theorem after_meet (before : List Tick) :
    (after Scene.meet .start before).Open ∧
      (after Scene.meet .start before).last = (lastText? before).getD "" ∧
      (after Scene.meet .start before).done = before.countP (!·.held) := by
  induction before using List.reverseRecOn with
  | nil => exact ⟨⟨rfl, rfl⟩, rfl, rfl⟩
  | append_singleton before tick ih =>
    obtain ⟨hopen, hlast, hdone⟩ := ih
    rw [after_concat, Scene.meet_due hopen hlast, lastText?_concat, List.countP_append, ← hdone]
    refine ⟨⟨(hopen.reading tick).receiver, (hopen.reading tick).ended⟩, rfl, ?_⟩
    rw [Scene.reading]
    cases hheld : tick.held <;> simp [hheld, Scene.facing]

/-- The events of a tick behind other ones. -/
def eventsAt (before : List Tick) (tick : Tick) : List (Event GateReport) :=
  (if tick.held then [] else [.read (before.countP (!·.held))]) ++
    ((due? (lastText? before) tick).map Event.request).toList

theorem meet_after (before : List Tick) (tick : Tick) :
    ((after Scene.meet .start before).meet tick).1 = eventsAt before tick := by
  obtain ⟨hopen, hlast, hdone⟩ := after_meet before
  rw [Scene.meet_due hopen hlast, hdone, eventsAt]

/-- What one more tick adds to the record. -/
theorem record_concat_eq (before : List Tick) (tick : Tick) :
    record Scene.meet .start (before ++ [tick]) =
      record Scene.meet .start before ++ [(tick, eventsAt before tick)] := by
  rw [record_concat, meet_after]

theorem requests_eventsAt (before : List Tick) (tick : Tick) :
    requests (eventsAt before tick) = (due? (lastText? before) tick).toList := by
  rw [eventsAt]
  cases tick.held <;> cases due? (lastText? before) tick <;> rfl

theorem eventsAt_of_held (before : List Tick) {tick : Tick} (hheld : tick.held = true) :
    eventsAt before tick = [] := by
  have htext : tick.text? = none := by rw [Tick.text?, if_pos hheld]
  rw [eventsAt, if_pos hheld, due?, htext]
  rfl

/-- Ticks at which the gate is held make no difference to what comes behind them. -/
theorem eventsAt_waiting (before : List Tick) {waiting : List Tick}
    (hwaiting : ∀ other ∈ waiting, other.held = true) (tick : Tick) :
    eventsAt (before ++ waiting) tick = eventsAt before tick := by
  have hnone : waiting.filterMap Tick.text? = [] :=
    List.filterMap_eq_nil_iff.2 fun other hother ↦ by
      rw [Tick.text?, if_pos (hwaiting other hother)]
  have hcount : waiting.countP (!·.held) = 0 :=
    List.countP_eq_zero.2 fun other hother ↦ by simp [hwaiting other hother]
  rw [eventsAt, eventsAt, lastText?, List.filterMap_append, hnone, List.append_nil, ← lastText?,
    List.countP_append, hcount, Nat.add_zero]

/-- A tick that sends nothing and does not read an undecodable text leaves the last text. -/
theorem lastText?_concat_of_silent {before : List Tick} {tick : Tick}
    (hsilent : due? (lastText? before) tick = none) (hdecodable : ¬ tick.Undecodable) :
    lastText? (before ++ [tick]) = lastText? before := by
  rw [lastText?_concat]
  cases htext : tick.text? with
  | none => rfl
  | some text =>
    -- A text that could be sent and is not is the last one that was read.
    by_cases hsame : lastText? before = some text
    · rw [hsame, Option.some_or]
    · rw [due?, htext, Option.bind_some, if_neg hsame] at hsilent
      exact absurd ⟨text, htext, hsilent⟩ hdecodable

/-- The text that was sent last. -/
def lastSent? (polls : List (Tick × List (Event GateReport))) : Option String :=
  (lastSender? polls).bind Tick.text?

/-- Unless an undecodable text has been read since the last request, the last text that was read is
the one that was sent last. -/
theorem lastText?_eq {before : List Tick}
    (hdecodable : ∀ other ∈ sinceSending (record Scene.meet .start before), ¬ other.Undecodable) :
    lastText? before = lastSent? (record Scene.meet .start before) := by
  refine memory_eq rfl (fun before tick hsent ↦ ?_) (fun before tick hsilent ↦ ?_) before hdecodable
  · rw [meet_after, requests_eventsAt] at hsent
    cases htext : tick.text? with
    | none => exact absurd (by rw [due?, htext]; rfl) hsent
    | some text => rw [lastText?_concat, htext, Option.some_or]
  · rw [meet_after, requests_eventsAt, Option.toList_eq_nil_iff] at hsilent
    exact lastText?_concat_of_silent hsilent

/-- If an undecodable text has been read since the last request, the last text is undecodable. -/
theorem exists_lastText?_eq {before : List Tick}
    (hsome : ∃ other ∈ sinceSending (record Scene.meet .start before), other.Undecodable) :
    ∃ text, lastText? before = some text ∧ Request.parse? text = none := by
  induction before using List.reverseRecOn with
  | nil =>
    obtain ⟨other, hother, -⟩ := hsome
    cases hother
  | append_singleton before tick ih =>
    have hrequests := requests_eventsAt before tick
    rw [record_concat_eq] at hsome
    cases hdue : due? (lastText? before) tick with
    | some request =>
      rw [sinceSending_concat_of_sent tick (by rw [hrequests, hdue]; exact nofun)] at hsome
      obtain ⟨other, hother, -⟩ := hsome
      cases hother
    | none =>
      rw [sinceSending_concat_of_silent tick (by rw [hrequests, hdue]; rfl)] at hsome
      by_cases hundecodable : tick.Undecodable
      · obtain ⟨text, htext, hparse⟩ := hundecodable
        exact ⟨text, by rw [lastText?_concat, htext, Option.some_or], hparse⟩
      · rw [lastText?_concat_of_silent hdue hundecodable]
        obtain ⟨other, hother, hbad⟩ := hsome
        rcases List.mem_cons.1 hother with rfl | hother
        · exact absurd hbad hundecodable
        · exact ih ⟨other, hother, hbad⟩

/-- A text that can be decoded is not the last one if it is not the one that was sent last, or if an
undecodable text has been read since then. -/
theorem lastText?_ne_iff {before : List Tick} {text : String} {request : Request}
    (hparse : Request.parse? text = some request) :
    lastText? before ≠ some text ↔
      lastSent? (record Scene.meet .start before) ≠ some text ∨
        ∃ other ∈ sinceSending (record Scene.meet .start before), other.Undecodable := by
  by_cases hsome : ∃ other ∈ sinceSending (record Scene.meet .start before), other.Undecodable
  · obtain ⟨last, hlast, hbad⟩ := exists_lastText?_eq hsome
    refine ⟨fun _ ↦ .inr hsome, fun _ hsame ↦ ?_⟩
    obtain rfl := Option.some.inj (hlast.symm.trans hsame)
    cases hbad.symm.trans hparse
  · rw [lastText?_eq fun other hother hbad ↦ hsome ⟨other, hother, hbad⟩]
    exact ⟨.inl, fun h ↦ h.resolve_right hsome⟩

/-- A tick at which the gate is held neither reads nor sends, and makes no difference to the ticks
behind it. Any other tick reads the clipboard once, and sends a request at most once: it does so
when the text is not blank, can be decoded, and is not the one that was sent last; or is the one
that was sent last, and an undecodable text has been read since then. -/
theorem sends_over_ticks (before : List Tick) (tick : Tick) :
    let polls := record Scene.meet .start before
    ∃ events, record Scene.meet .start (before ++ [tick]) = polls ++ [(tick, events)] ∧
      (∀ waiting, (∀ other ∈ waiting, other.held = true) →
        record Scene.meet .start (before ++ waiting ++ [tick]) =
          record Scene.meet .start (before ++ waiting) ++ [(tick, events)]) ∧
      (tick.held = true → events = []) ∧
      (tick.held = false → ∃ request?,
        events = .read (before.countP (!·.held)) :: (request?.map Event.request).toList ∧
        ∀ request, request? = some request ↔
          ∃ text, tick.clipboard? = some text ∧ Text.allBlank text.toList = false ∧
            Request.parse? text = some request ∧
            (lastSent? polls ≠ some text ∨ ∃ other ∈ sinceSending polls, other.Undecodable)) := by
  intro polls
  refine ⟨eventsAt before tick, record_concat_eq before tick, fun waiting hwaiting ↦ ?_,
    eventsAt_of_held before, fun hfree ↦ ?_⟩
  · rw [record_concat_eq, eventsAt_waiting before hwaiting]
  · refine ⟨due? (lastText? before) tick, by rw [eventsAt, hfree]; rfl, fun request ↦ ?_⟩
    rw [due?_eq_some_iff]
    constructor
    · rintro ⟨text, htext, hnew, hparse⟩
      obtain ⟨-, hclipboard, hblank⟩ := Tick.text?_eq_some_iff.1 htext
      exact ⟨text, hclipboard, hblank, hparse, (lastText?_ne_iff hparse).1 hnew⟩
    · rintro ⟨text, hclipboard, hblank, hparse, hnew⟩
      exact ⟨text, Tick.text?_eq_some_iff.2 ⟨hfree, hclipboard, hblank⟩,
        (lastText?_ne_iff hparse).2 hnew, hparse⟩

/-- A text that stays the one sent last is sent once more behind an undecodable one. -/
theorem sent_again :
    record Scene.meet .start [⟨false, some "open"⟩, ⟨false, some "\x7b"⟩, ⟨false, some "open"⟩] =
      [(⟨false, some "open"⟩, [.read 0, .request (.command "open")]),
        (⟨false, some "\x7b"⟩, [.read 1]),
        (⟨false, some "open"⟩, [.read 2, .request (.command "open")])] := by
  decide +kernel

/-! ### Runs -/

namespace Scene

/-- What a poll of a run finds. -/
def tick (scene : Scene) : Tick := ⟨scene.held, scene.reads.head?.join⟩

/-- The scenes agree in what the source remembers. -/
structure Alike (scene other : Scene) : Prop where
  last : scene.last = other.last
  receiver : scene.receiver = other.receiver
  ended : scene.ended = other.ended

theorem Alike.see {scene other : Scene} (halike : scene.Alike other) (sight : Sight) :
    (scene.see sight).1 = (other.see sight).1 ∧
      (scene.see sight).2.Alike (other.see sight).2 := by
  simp only [Scene.see, halike.last]
  obtain ⟨request?, last⟩ := respond other.last sight
  cases request? with
  | none => exact ⟨rfl, rfl, halike.receiver, halike.ended⟩
  | some request =>
    simp only [send, halike.receiver]
    cases other.receiver.take? with
    | none => exact ⟨rfl, rfl, rfl, rfl⟩
    | some receiver => exact ⟨rfl, rfl, rfl, halike.ended⟩

/-- A poll of a run sees what its tick sees, in a scene that remembers the same. -/
theorem exists_reading {scene : Scene} (hended : scene.ended = false) :
    ∃ reading : Scene, reading.Alike scene ∧
      requests scene.poll.1 = requests (reading.see scene.tick.sight).1 ∧
      scene.poll.2 = (reading.see scene.tick.sight).2 := by
  have hruns : ¬ scene.ended = true := by simp [hended]
  rw [poll, if_neg hruns]
  obtain ⟨last, reads, done, held, receiver, ended⟩ := scene
  cases held with
  | true => exact ⟨_, ⟨rfl, rfl, rfl⟩, rfl, rfl⟩
  | false =>
    cases reads with
    | nil => exact ⟨_, ⟨rfl, rfl, rfl⟩, rfl, rfl⟩
    | cons text? rest =>
      refine ⟨⟨last, rest, done + 1, false, receiver, ended⟩, ⟨rfl, rfl, rfl⟩, ?_⟩
      cases text? <;> exact ⟨rfl, rfl⟩

theorem Alike.poll {scene other : Scene} (halike : scene.Alike other) :
    requests scene.poll.1 = requests (other.meet scene.tick).1 ∧
      scene.poll.2.Alike (other.meet scene.tick).2 := by
  cases hended : scene.ended with
  | true =>
    have hother : (other.facing scene.tick).ended = true := halike.ended.symm.trans hended
    rw [meet, Scene.poll, Scene.poll, if_pos hended, if_pos hother]
    exact ⟨rfl, halike.last, halike.receiver, halike.ended⟩
  | false =>
    obtain ⟨reading, hreading, hrequests, hafter⟩ := exists_reading hended
    have hother : reading.Alike (other.reading scene.tick) := by
      rw [Scene.reading]
      split <;> exact ⟨hreading.last.trans halike.last, hreading.receiver.trans halike.receiver,
        hreading.ended.trans halike.ended⟩
    obtain ⟨hevents, hnext⟩ := hother.see scene.tick.sight
    rw [hrequests, hafter, meet_eq (halike.ended.symm.trans hended), hevents]
    refine ⟨?_, hnext⟩
    cases scene.tick.held <;> rfl

end Scene

/-- A run of the source sends what the ticks of its polls send in a row. -/
theorem requests_run (scene : Scene) (timetable : Timetable GateAction) :
    requests ((scene.run timetable).1.map (·.2)) =
      requests ((record Scene.meet scene
        (found Scene.poll Scene.act Scene.tick timetable.moments scene)).flatMap (·.2)) := by
  refine requests_through Scene.Alike (fun _ _ ↦ Scene.Alike.poll) ?_ timetable.moments
    ⟨rfl, rfl, rfl⟩
  intro action scene other halike
  cases action <;> exact ⟨rfl, halike.last, halike.receiver, halike.ended⟩

end Macropad.Trigger.Clipboard
