import Macropad.Trigger.Receiver
import Macropad.Trigger.Timetable
import Mathlib.Data.List.Induction

/-!
# Polls in a row

A polling source takes what a poll finds, shows some events and goes into its next state. `record`
lists the polls of a row with what each of them found and showed, and `after` is the state behind
them; `record_concat` says what one more poll adds. From the record come the last poll that sent a
request (`lastSender?`) and the polls since then (`sinceSending`), which are what a source that
sends the same thing only once has to go by. `memory_eq` says when the memory of a source is that of
its last sender.

A source runs on a timetable, and around its polls other things happen. When these do not touch
what the source remembers, the requests of the run are those of its polls in a row
(`requests_through`).
-/

set_option autoImplicit false

namespace Macropad.Trigger

variable {σ τ α ρ μ : Type}

def Event.request? : Event ρ → Option Request
  | .request sent => some sent
  | .read _ | .step _ => none

def requests (events : List (Event ρ)) : List Request := events.filterMap Event.request?

theorem requests_sending (request? : Option Request) :
    requests ((request?.map Event.request).toList : List (Event ρ)) = request?.toList := by
  cases request? <;> rfl

namespace Polls

/-! ### The record of a row -/

section Record

variable (observe : σ → τ → List (Event ρ) × σ)

/-- The state after some polls, given by what they find. -/
def after (s : σ) (found : List τ) : σ := found.foldl (fun s x ↦ (observe s x).2) s

/-- What each poll finds, and the events that it shows. -/
def record : σ → List τ → List (τ × List (Event ρ))
  | _, [] => []
  | s, x :: rest => (x, (observe s x).1) :: record (observe s x).2 rest

theorem after_concat (s : σ) (before : List τ) (x : τ) :
    after observe s (before ++ [x]) = (observe (after observe s before) x).2 := by
  rw [after, List.foldl_append, List.foldl_cons, List.foldl_nil, after]

/-- One more poll adds what it shows in the state behind the others. -/
theorem record_concat (s : σ) (before : List τ) (x : τ) :
    record observe s (before ++ [x]) =
      record observe s before ++ [(x, (observe (after observe s before) x).1)] := by
  induction before generalizing s with
  | nil => rfl
  | cons first rest ih => exact congrArg _ (ih (observe s first).2)

end Record

/-! ### The last sender -/

/-- What was found by the last poll that sent a request. -/
def lastSender? (polls : List (τ × List (Event ρ))) : Option τ :=
  (polls.reverse.find? fun poll ↦ requests poll.2 ≠ []).map (·.1)

/-- What was found by the polls since the last one that sent a request, the latest first. -/
def sinceSending (polls : List (τ × List (Event ρ))) : List τ :=
  (polls.reverse.takeWhile fun poll ↦ requests poll.2 = []).map (·.1)

variable {polls : List (τ × List (Event ρ))} {events : List (Event ρ)}

theorem lastSender?_concat_of_sent (x : τ) (hsent : requests events ≠ []) :
    lastSender? (polls ++ [(x, events)]) = some x := by
  simp [lastSender?, hsent]

theorem lastSender?_concat_of_silent (x : τ) (hsilent : requests events = []) :
    lastSender? (polls ++ [(x, events)]) = lastSender? polls := by
  simp [lastSender?, hsilent]

theorem sinceSending_concat_of_sent (x : τ) (hsent : requests events ≠ []) :
    sinceSending (polls ++ [(x, events)]) = [] := by
  simp [sinceSending, hsent]

theorem sinceSending_concat_of_silent (x : τ) (hsilent : requests events = []) :
    sinceSending (polls ++ [(x, events)]) = x :: sinceSending polls := by
  simp [sinceSending, hsilent]

/-- What a source keeps in memory belongs to the poll that sent last, if a poll that sends puts its
own there, a poll that sends nothing leaves the memory alone unless it is an odd one, and no odd one
came since the last sender. -/
theorem memory_eq {observe : σ → τ → List (Event ρ) × σ} {s : σ} {memory : List τ → Option μ}
    {own : τ → Option μ} {Odd : τ → Prop} (hnil : memory [] = none)
    (hsent : ∀ before x, requests (observe (after observe s before) x).1 ≠ [] →
      memory (before ++ [x]) = own x)
    (hsilent : ∀ before x, requests (observe (after observe s before) x).1 = [] → ¬ Odd x →
      memory (before ++ [x]) = memory before)
    (before : List τ) (heven : ∀ x ∈ sinceSending (record observe s before), ¬ Odd x) :
    memory before = (lastSender? (record observe s before)).bind own := by
  induction before using List.reverseRecOn with
  | nil => exact hnil
  | append_singleton before x ih =>
    rw [record_concat] at heven ⊢
    by_cases hrequests : requests (observe (after observe s before) x).1 = []
    · rw [sinceSending_concat_of_silent x hrequests, List.forall_mem_cons] at heven
      rw [lastSender?_concat_of_silent x hrequests, hsilent before x hrequests heven.1,
        ih heven.2]
    · rw [lastSender?_concat_of_sent x hrequests, hsent before x hrequests, Option.bind_some]

/-! ### Runs on a timetable -/

/-- What the polls of a run find. -/
def found (poll : σ → List (Event ρ) × σ) (act : α → σ → List (Event ρ) × σ) (sight : σ → τ) :
    List (Nat × Moment α) → σ → List τ
  | [], _ => []
  | (_, .poll) :: rest, s => sight s :: found poll act sight rest (poll s).2
  | (_, .step action) :: rest, s => found poll act sight rest (act action s).2

/-- The requests of a run are those of its polls in a row, if a poll does in alike states what it
does after finding the same, and what happens around the polls keeps states alike. -/
theorem requests_through {poll : σ → List (Event ρ) × σ} {act : α → σ → List (Event ρ) × σ}
    {observe : σ → τ → List (Event ρ) × σ} {sight : σ → τ} (Alike : σ → σ → Prop)
    (hpoll : ∀ s t, Alike s t → requests (poll s).1 = requests (observe t (sight s)).1 ∧
      Alike (poll s).2 (observe t (sight s)).2)
    (hact : ∀ action s t, Alike s t → requests (act action s).1 = [] ∧ Alike (act action s).2 t)
    (moments : List (Nat × Moment α)) {s t : σ} (halike : Alike s t) :
    requests ((Timetable.through poll act moments s).1.map (·.2)) =
      requests ((record observe t (found poll act sight moments s)).flatMap (·.2)) := by
  have happend (one other : List (Event ρ)) :
      requests (one ++ other) = requests one ++ requests other := List.filterMap_append
  have htimed (time : Nat) (events : List (Event ρ)) :
      (events.map fun event ↦ (time, event)).map (·.2) = events := by
    rw [List.map_map]
    exact List.map_id events
  induction moments generalizing s t with
  | nil => rfl
  | cons moment rest ih =>
    obtain ⟨time, moment⟩ := moment
    cases moment with
    | poll =>
      obtain ⟨hrequests, hnext⟩ := hpoll s t halike
      simp only [Timetable.through, found, record, List.map_append, htimed, List.flatMap_cons,
        happend, hrequests, ih hnext]
    | step action =>
      obtain ⟨hrequests, hnext⟩ := hact action s t halike
      simp only [Timetable.through, found, List.map_append, htimed, happend, hrequests,
        List.nil_append, ih hnext]

end Polls

end Macropad.Trigger
