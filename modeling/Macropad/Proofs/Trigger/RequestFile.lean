import Macropad.Proofs.Trigger.Polls
import Macropad.Trigger.RequestFile

/-!
# What a file source sends

A poll sees no file, or one with a signature and with contents. A file that is deleted after a
request needs no memory: what can be decoded is sent, and what cannot stays where it is. A file that
is kept is passed over while its signature is the one that is remembered, and this is the signature
of the last text that was read and was not blank (`after_meet`), whether it was sent or not.

So the last request decides only up to the next undecodable text (`lastSignature?_eq`). From there
on the file has to change in its length or in the second of its change before it is read again: a
text that was half written when it was first read, and is finished within the second, is never
sent (`passed_over`). `sends_over_polls` is the rule for all sequences of polls.

A run on a timetable, with what is written and removed between the polls, sends what its polls send
in a row (`requests_run`).
-/

set_option autoImplicit false

namespace Macropad.Trigger.RequestFile

open Polls Macropad.File

/-! ### Sights -/

namespace Sight

/-- The place where this is seen. -/
def place : Sight → Place
  | .absent => .vacant
  | .present signature contents => .file contents signature.changed

def signature? : Sight → Option Signature
  | .absent => none
  | .present signature _ => some signature

/-- Signature and text of a file that can be read and is not blank. -/
def filled? : Sight → Option (Signature × String)
  | .absent => none
  | .present signature contents =>
    (contents.text?.filter fun text ↦ !Text.allBlank text.toList).map fun text ↦ (signature, text)

/-- A file is there with this signature and a text that is not blank and decodes to the request. -/
def Holds (sight : Sight) (signature : Signature) (request : Request) : Prop :=
  ∃ contents text, sight = .present signature contents ∧ contents.text? = some text ∧
    Text.allBlank text.toList = false ∧ Request.parse? text = some request

/-- A file is there with a text that is not blank and cannot be decoded. -/
def Undecodable (sight : Sight) : Prop :=
  ∃ signature contents text, sight = .present signature contents ∧ contents.text? = some text ∧
    Text.allBlank text.toList = false ∧ Request.parse? text = none

theorem filled?_eq_some_iff {sight : Sight} {signature : Signature} {text : String} :
    sight.filled? = some (signature, text) ↔
      ∃ contents, sight = .present signature contents ∧ contents.text? = some text ∧
        Text.allBlank text.toList = false := by
  cases sight with
  | absent => simp [filled?]
  | present seen contents =>
    constructor
    · intro h
      obtain ⟨read, hread, hpair⟩ := Option.map_eq_some_iff.1 h
      obtain ⟨rfl, rfl⟩ := Prod.mk.inj hpair
      obtain ⟨htext, hblank⟩ := Option.filter_eq_some_iff.1 hread
      exact ⟨contents, rfl, htext, by simpa using hblank⟩
    · rintro ⟨_, hsight, htext, hblank⟩
      obtain ⟨rfl, rfl⟩ := Sight.present.inj hsight
      simp [filled?, htext, hblank]

theorem holds_iff {sight : Sight} {signature : Signature} {request : Request} :
    sight.Holds signature request ↔
      ∃ text, sight.filled? = some (signature, text) ∧ Request.parse? text = some request := by
  simp only [Holds, filled?_eq_some_iff]
  constructor
  · rintro ⟨contents, text, hsight, htext, hblank, hparse⟩
    exact ⟨text, ⟨contents, hsight, htext, hblank⟩, hparse⟩
  · rintro ⟨text, ⟨contents, hsight, htext, hblank⟩, hparse⟩
    exact ⟨contents, text, hsight, htext, hblank, hparse⟩

theorem undecodable_of_filled {sight : Sight} {signature : Signature} {text : String}
    (hfilled : sight.filled? = some (signature, text)) (hparse : Request.parse? text = none) :
    sight.Undecodable := by
  obtain ⟨contents, hsight, htext, hblank⟩ := filled?_eq_some_iff.1 hfilled
  exact ⟨signature, contents, text, hsight, htext, hblank, hparse⟩

theorem signature?_of_filled {sight : Sight} {signature : Signature} {text : String}
    (hfilled : sight.filled? = some (signature, text)) : sight.signature? = some signature := by
  obtain ⟨contents, rfl, -⟩ := filled?_eq_some_iff.1 hfilled
  rfl

end Sight

/-- The signature of the last file that could be read and was not blank. -/
def lastSignature? (sights : List Sight) : Option Signature :=
  (sights.filterMap Sight.filled?).getLast?.map (·.1)

theorem lastSignature?_concat (before : List Sight) (sight : Sight) :
    lastSignature? (before ++ [sight]) =
      (sight.filled?.map (·.1)).or (lastSignature? before) := by
  rw [lastSignature?, List.filterMap_append, List.getLast?_append]
  cases hfilled : sight.filled? <;> simp [hfilled, lastSignature?]

/-! ### One poll -/

/-- The request that a sight gives rise to when a signature is remembered. -/
def due? (deletes : Bool) (remembered? : Option Signature) (sight : Sight) : Option Request :=
  sight.filled?.bind fun (signature, text) ↦
    if deletes = false ∧ remembered? = some signature then none else Request.parse? text

theorem due?_eq_some_iff {deletes : Bool} {remembered? : Option Signature} {sight : Sight}
    {request : Request} :
    due? deletes remembered? sight = some request ↔
      ∃ signature, sight.Holds signature request ∧
        (deletes = false → remembered? ≠ some signature) := by
  simp only [due?, Option.bind_eq_some_iff, Sight.holds_iff]
  constructor
  · rintro ⟨⟨signature, text⟩, hfilled, hdue⟩
    split at hdue
    · cases hdue
    · rename_i hnew
      exact ⟨signature, ⟨text, hfilled, hdue⟩, fun hkept hsame ↦ hnew ⟨hkept, hsame⟩⟩
  · rintro ⟨signature, ⟨text, hfilled, hparse⟩, hnew⟩
    exact ⟨(signature, text), hfilled, by rw [if_neg fun h ↦ hnew h.1 h.2, hparse]⟩

namespace Scene

/-- The source when it starts. -/
def start (deletes : Bool) : Scene := { deletes }

/-- The source still runs, and its receiver stays. -/
structure Open (scene : Scene) : Prop where
  receiver : scene.receiver = {}
  ended : scene.ended = false

/-- A poll that sees this, with what it sees lying there. -/
def meet (scene : Scene) (sight : Sight) : List (Event ChangeReport) × Scene :=
  { scene with place := sight.place }.observe sight

/-- What is left of a sight when a request has been sent or not. -/
def leftOf (deletes : Bool) (sight : Sight) (request? : Option Request) : Place :=
  if deletes = true ∧ request?.isSome = true then .vacant else sight.place

theorem isUnchanged_iff {scene : Scene} {signature : Signature} :
    scene.isUnchanged signature = true ↔
      scene.deletes = false ∧ scene.remembered? = some signature := by
  simp [isUnchanged]

theorem observe_of_not_filled (scene : Scene) {sight : Sight} (hfilled : sight.filled? = none) :
    scene.observe sight = ([], scene) := by
  cases sight with
  | absent => exact ite_self _
  | present signature contents =>
    cases htext : contents.text? with
    | none => simp only [observe, htext, ite_self]
    | some text =>
      have hblank : Text.allBlank text.toList = true := by
        simpa [Sight.filled?, htext, Option.filter_eq_none_iff] using hfilled
      simp only [observe, htext, consider, if_pos hblank, ite_self]

theorem observe_of_filled {scene : Scene} (hended : scene.ended = false) {sight : Sight}
    {signature : Signature} {text : String} (hfilled : sight.filled? = some (signature, text)) :
    scene.observe sight =
      if scene.deletes = false ∧ scene.remembered? = some signature then ([], scene)
      else
        match Request.parse? text with
        | some request => scene.send signature request
        | none => ([], scene.settle signature) := by
  obtain ⟨contents, rfl, htext, hblank⟩ := Sight.filled?_eq_some_iff.1 hfilled
  have hruns : ¬ scene.ended = true := by simp [hended]
  have hfull : ¬ Text.allBlank text.toList = true := by simp [hblank]
  simp only [observe, if_neg hruns, htext, consider, if_neg hfull]
  by_cases hsame : scene.isUnchanged signature = true
  · exact (if_pos hsame).trans (if_pos (isUnchanged_iff.1 hsame)).symm
  · exact (if_neg hsame).trans (if_neg (mt isUnchanged_iff.2 hsame)).symm

/-- A poll sends the request that is due, deletes the file if it is to be deleted then, and
otherwise remembers the signature of a text that is not blank. -/
theorem meet_due {scene : Scene} (hopen : scene.Open) (sight : Sight) :
    scene.meet sight =
      (((due? scene.deletes scene.remembered? sight).map Event.request).toList,
        { scene with
          place := leftOf scene.deletes sight (due? scene.deletes scene.remembered? sight)
          remembered? :=
            if scene.deletes = true then scene.remembered?
            else (sight.filled?.map (·.1)).or scene.remembered? }) := by
  obtain ⟨deletes, place, remembered?, receiver, ended⟩ := scene
  obtain ⟨rfl, rfl⟩ := hopen
  rw [meet]
  cases hfilled : sight.filled? with
  | none =>
    rw [observe_of_not_filled _ hfilled, due?, hfilled]
    cases deletes <;> rfl
  | some read =>
    obtain ⟨signature, text⟩ := read
    rw [observe_of_filled rfl hfilled, due?, hfilled, Option.bind_some]
    simp only
    split
    · rename_i hsame
      obtain ⟨rfl, rfl⟩ := hsame
      rfl
    · cases Request.parse? text <;> cases deletes <;> rfl

end Scene

/-! ### Polls in a row -/

/-- The scene behind some polls. -/
theorem after_meet (deletes : Bool) (before : List Sight) :
    let scene := after Scene.meet (.start deletes) before
    scene.Open ∧ scene.deletes = deletes ∧
      scene.remembered? = if deletes = true then none else lastSignature? before := by
  induction before using List.reverseRecOn with
  | nil => exact ⟨⟨rfl, rfl⟩, rfl, by cases deletes <;> rfl⟩
  | append_singleton before sight ih =>
    obtain ⟨hopen, hdeletes, hremembered⟩ := ih
    rw [after_concat, Scene.meet_due hopen, hdeletes, hremembered, lastSignature?_concat]
    refine ⟨⟨hopen.receiver, hopen.ended⟩, rfl, ?_⟩
    cases deletes <;> rfl

/-- The request that one more poll sends. -/
def sentAt? (deletes : Bool) (before : List Sight) (sight : Sight) : Option Request :=
  due? deletes (if deletes = true then none else lastSignature? before) sight

theorem meet_after (deletes : Bool) (before : List Sight) (sight : Sight) :
    let met := (after Scene.meet (.start deletes) before).meet sight
    met.1 = ((sentAt? deletes before sight).map Event.request).toList ∧
      met.2.place = Scene.leftOf deletes sight (sentAt? deletes before sight) := by
  obtain ⟨hopen, hdeletes, hremembered⟩ := after_meet deletes before
  rw [Scene.meet_due hopen, hdeletes, hremembered, sentAt?]
  exact ⟨rfl, rfl⟩

theorem sentAt?_kept_eq_some_iff {before : List Sight} {sight : Sight} {request : Request} :
    sentAt? false before sight = some request ↔
      ∃ signature, sight.Holds signature request ∧ lastSignature? before ≠ some signature := by
  rw [sentAt?, due?_eq_some_iff]
  simp

theorem sentAt?_deleted_eq_some_iff {before : List Sight} {sight : Sight} {request : Request} :
    sentAt? true before sight = some request ↔
      ∃ signature, sight.Holds signature request := by
  rw [sentAt?, due?_eq_some_iff]
  simp

/-- A sight that is not sent, and could be decoded if there is a text, has no signature or the last
one. -/
theorem lastSignature?_concat_of_silent {before : List Sight} {sight : Sight}
    (hsilent : sentAt? false before sight = none) (hdecodable : ¬ sight.Undecodable) :
    lastSignature? (before ++ [sight]) = lastSignature? before := by
  rw [lastSignature?_concat]
  cases hfilled : sight.filled? with
  | none => rfl
  | some read =>
    obtain ⟨signature, text⟩ := read
    cases hparse : Request.parse? text with
    | none => exact absurd (Sight.undecodable_of_filled hfilled hparse) hdecodable
    | some request =>
      have hholds : sight.Holds signature request := Sight.holds_iff.2 ⟨text, hfilled, hparse⟩
      have hsame : lastSignature? before = some signature := by
        by_contra hnew
        cases hsilent.symm.trans (sentAt?_kept_eq_some_iff.2 ⟨signature, hholds, hnew⟩)
      exact hsame.symm

/-- The signature of the file that was sent last. -/
def sentSignature? (polls : List (Sight × List (Event ChangeReport))) : Option Signature :=
  (lastSender? polls).bind Sight.signature?

/-- Unless an undecodable text has been seen since the last request, the last signature is that of
the file that was sent last. -/
theorem lastSignature?_eq {before : List Sight}
    (hdecodable : ∀ other ∈ sinceSending (record Scene.meet (.start false) before),
      ¬ other.Undecodable) :
    lastSignature? before = sentSignature? (record Scene.meet (.start false) before) := by
  refine memory_eq rfl (fun before sight hsent ↦ ?_) (fun before sight hsilent ↦ ?_) before
    hdecodable
  · rw [(meet_after false before sight).1, requests_sending] at hsent
    obtain ⟨request, hrequest⟩ := Option.ne_none_iff_exists'.1 (mt Option.toList_eq_nil_iff.2 hsent)
    obtain ⟨signature, hholds, -⟩ := sentAt?_kept_eq_some_iff.1 hrequest
    obtain ⟨text, hfilled, -⟩ := Sight.holds_iff.1 hholds
    rw [lastSignature?_concat, hfilled, Sight.signature?_of_filled hfilled]
    rfl
  · rw [(meet_after false before sight).1, requests_sending, Option.toList_eq_nil_iff] at hsilent
    exact lastSignature?_concat_of_silent hsilent

/-- A file that is to be kept is left where it is, and one that is to be deleted is removed exactly
when it has been sent. Of the latter every text is sent that is not blank and can be decoded. Of the
former such a text is sent, once, when its signature differs from that of the last text that was
read and was not blank; and this is the one that was sent last, unless an undecodable text has been
seen since then. -/
theorem sends_over_polls (deletes : Bool) (before : List Sight) (sight : Sight) :
    let polls := record Scene.meet (.start deletes) before
    let left := (after Scene.meet (.start deletes) (before ++ [sight])).place
    ∃ request?,
      record Scene.meet (.start deletes) (before ++ [sight]) =
        polls ++ [(sight, (request?.map Event.request).toList)] ∧
      (deletes = true →
        (∀ request, request? = some request ↔ ∃ signature, sight.Holds signature request) ∧
        left = if request?.isSome then .vacant else sight.place) ∧
      (deletes = false →
        (∀ request, request? = some request ↔
          ∃ signature, sight.Holds signature request ∧ lastSignature? before ≠ some signature) ∧
        ((∀ other ∈ sinceSending polls, ¬ other.Undecodable) →
          lastSignature? before = sentSignature? polls) ∧
        left = sight.place) := by
  intro polls left
  obtain ⟨hevents, hplace⟩ := meet_after deletes before sight
  have hleft : left = Scene.leftOf deletes sight (sentAt? deletes before sight) := by
    rw [← hplace, ← after_concat]
  refine ⟨sentAt? deletes before sight, by rw [record_concat, hevents], ?_, ?_⟩
  · rintro rfl
    refine ⟨fun request ↦ sentAt?_deleted_eq_some_iff, hleft.trans ?_⟩
    simp only [Scene.leftOf, true_and]
  · rintro rfl
    exact ⟨fun request ↦ sentAt?_kept_eq_some_iff, lastSignature?_eq, hleft⟩

/-- A text that was half written when it was read is passed over when it is finished within the
second, although it can be decoded and nothing has been sent; and a file that has been sent is sent
again when it is as it was, if it was written only in part in between. -/
theorem passed_over :
    (Sight.present ⟨2, 1⟩ (.text "go")).Holds ⟨2, 1⟩ (.command "go") ∧
    sentSignature? (record Scene.meet (.start false) [.present ⟨2, 1⟩ (.text "\x7bx")]) = none ∧
    record Scene.meet (.start false)
        [.present ⟨2, 1⟩ (.text "\x7bx"), .present ⟨2, 1⟩ (.text "go")] =
      [(.present ⟨2, 1⟩ (.text "\x7bx"), []), (.present ⟨2, 1⟩ (.text "go"), [])] ∧
    record Scene.meet (.start false)
        [.present ⟨2, 1⟩ (.text "go"), .present ⟨1, 1⟩ (.text "\x7b"),
          .present ⟨2, 1⟩ (.text "go")] =
      [(.present ⟨2, 1⟩ (.text "go"), [.request (.command "go")]),
        (.present ⟨1, 1⟩ (.text "\x7b"), []),
        (.present ⟨2, 1⟩ (.text "go"), [.request (.command "go")])] := by
  refine ⟨⟨.text "go", "go", rfl, rfl, ?_, ?_⟩, ?_, ?_, ?_⟩
  all_goals decide +kernel

/-! ### Runs -/

namespace Scene

/-- The scenes agree in what the source remembers. -/
structure Alike (scene other : Scene) : Prop where
  deletes : scene.deletes = other.deletes
  remembered : scene.remembered? = other.remembered?
  receiver : scene.receiver = other.receiver
  ended : scene.ended = other.ended

theorem Alike.observe {scene other : Scene} (halike : scene.Alike other) (sight : Sight) :
    (scene.observe sight).1 = (other.observe sight).1 ∧
      (scene.observe sight).2.Alike (other.observe sight).2 := by
  obtain ⟨deletes, place, remembered?, receiver, ended⟩ := scene
  obtain ⟨deletes, elsewhere, remembered?, receiver, ended⟩ := other
  obtain ⟨rfl, rfl, rfl, rfl⟩ := halike
  cases ended with
  | true => exact ⟨rfl, rfl, rfl, rfl, rfl⟩
  | false =>
    cases hfilled : sight.filled? with
    | none =>
      rw [observe_of_not_filled _ hfilled, observe_of_not_filled _ hfilled]
      exact ⟨rfl, rfl, rfl, rfl, rfl⟩
    | some read =>
      rw [observe_of_filled rfl hfilled, observe_of_filled rfl hfilled]
      by_cases hsame : deletes = false ∧ remembered? = some read.1
      · rw [if_pos hsame, if_pos hsame]
        exact ⟨rfl, rfl, rfl, rfl, rfl⟩
      · rw [if_neg hsame, if_neg hsame]
        cases Request.parse? read.2 with
        | none => cases deletes <;> exact ⟨rfl, rfl, rfl, rfl, rfl⟩
        | some request =>
          simp only [send]
          cases receiver.take? <;> cases deletes <;> exact ⟨rfl, rfl, rfl, rfl, rfl⟩

theorem Alike.poll {scene other : Scene} (halike : scene.Alike other) :
    requests scene.poll.1 = requests (other.meet scene.place.sight).1 ∧
      scene.poll.2.Alike (other.meet scene.place.sight).2 := by
  have hmeets : scene.Alike { other with place := scene.place.sight.place } :=
    ⟨halike.deletes, halike.remembered, halike.receiver, halike.ended⟩
  obtain ⟨hevents, hnext⟩ := hmeets.observe scene.place.sight
  exact ⟨congrArg requests hevents, hnext⟩

end Scene

/-- A run of the source sends what its polls send in a row. -/
theorem requests_run (scene : Scene) (timetable : Timetable Change) :
    requests ((scene.run timetable).1.map (·.2)) =
      requests ((record Scene.meet scene
        (found Scene.poll Scene.act (·.place.sight) timetable.moments scene)).flatMap (·.2)) := by
  refine requests_through Scene.Alike (fun _ _ ↦ Scene.Alike.poll) ?_ timetable.moments
    ⟨rfl, rfl, rfl, rfl⟩
  intro action scene other halike
  exact ⟨rfl, halike.deletes, halike.remembered, halike.receiver, halike.ended⟩

end Macropad.Trigger.RequestFile
