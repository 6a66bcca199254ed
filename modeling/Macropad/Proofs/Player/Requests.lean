import Macropad.Player.Desktop

/-!
# Sequences of requests

A request asks for a text: its own one, translated if it is verbose, or that of a stored command.
`answer_eq_error_iff` and `answer_eq_ok_iff` say when a request is refused, for which cause, and
what is performed otherwise. Neither depends on the session or on a collaborator.

`serve` answers a sequence of requests, each by the player that the ones before it have left. A
refused request is answered without a call and leaves the player as it is, so it can be taken out of
the sequence and nothing else changes (`serve_unrefused`).
-/

set_option autoImplicit false

namespace Macropad.Player

open Macropad.Engine Macropad.Input Macropad.Language Macropad.Screen Macropad.Setting

variable {σ ι : Type}

/-! ### One request -/

/-- The stored command that a request names. -/
def Request.name? : Request → Option String
  | .command name | .trigger (.command name) => some name
  | .program _ | .trigger (.execute _ _) => none

/-- The text that a request asks to run; there is none under a name without a stored command. -/
def Request.text? (config : Config) : Request → Option String
  | .program text => some text
  | .trigger (.execute text verbose) => some (if verbose then Phrasing.toShort text else text)
  | .command name | .trigger (.command name) => config.command? name

/-- A request without a text names no stored command, and every other one is decided by its text. -/
theorem answer_cases (player : Player σ ι) (devices : Devices σ ι) (request : Request) :
    (∃ name, request.name? = some name ∧ player.config.command? name = none ∧
        request.text? player.config = none ∧
        player.answer devices request = .error (.unknownCommand name)) ∨
      ∃ text, request.text? player.config = some text ∧
        (∀ name, request.name? = some name → player.config.command? name = some text) ∧
        player.answer devices request = player.runProgram devices text := by
  have hcommand (name : String) :
      (player.config.command? name = none ∧
        player.runCommand devices name = .error (.unknownCommand name)) ∨
      ∃ text, player.config.command? name = some text ∧
        player.runCommand devices name = player.runProgram devices text := by
    rw [runCommand]
    cases player.config.command? name with
    | none => exact .inl ⟨rfl, rfl⟩
    | some text => exact .inr ⟨text, rfl, rfl⟩
  match request with
  | .program text | .trigger (.execute text verbose) => exact .inr ⟨_, rfl, nofun, rfl⟩
  | .command name | .trigger (.command name) =>
    rcases hcommand name with ⟨hnone, hanswer⟩ | ⟨text, hsome, hanswer⟩
    · exact .inl ⟨name, rfl, hnone, hnone, hanswer⟩
    · refine .inr ⟨text, hsome, ?_, hanswer⟩
      rintro _ ⟨⟩
      exact hsome

theorem isValid_iff {verdict : Verdict} : verdict.isValid = true ↔ verdict = .valid := by
  cases verdict <;> simp [Verdict.isValid]

theorem runProgram_of_valid {player : Player σ ι} {text : String}
    (hvalid : player.config.verdict text = .valid) (devices : Devices σ ι) :
    player.runProgram devices text = .ok (player.perform devices (Program.parse text)) := by
  rw [runProgram]
  exact if_pos (isValid_iff.2 hvalid)

theorem runProgram_of_invalid {player : Player σ ι} {text : String}
    (hinvalid : player.config.verdict text ≠ .valid) (devices : Devices σ ι) :
    player.runProgram devices text = .error (.invalid (player.config.verdict text)) := by
  rw [runProgram]
  exact if_neg fun hvalid ↦ hinvalid (isValid_iff.1 hvalid)

section Answer

variable {player : Player σ ι} {devices : Devices σ ι} {request : Request}

/-- A request is refused exactly when the command that it names is not stored, or its text is not
valid. -/
theorem answer_eq_error_iff {refusal : Refusal} :
    player.answer devices request = .error refusal ↔
      (∃ name, request.name? = some name ∧ player.config.command? name = none ∧
        refusal = .unknownCommand name) ∨
      ∃ text, request.text? player.config = some text ∧ player.config.verdict text ≠ .valid ∧
        refusal = .invalid (player.config.verdict text) := by
  rcases answer_cases player devices request with
    ⟨name, hname, hstored, hnone, hanswer⟩ | ⟨text, htext, hstored, hanswer⟩
  · rw [hanswer, hname, hnone]
    constructor
    · rintro ⟨⟩
      exact .inl ⟨name, rfl, hstored, rfl⟩
    · rintro (⟨_, ⟨⟩, -, rfl⟩ | ⟨_, ⟨⟩, -⟩)
      rfl
  · rw [hanswer, htext]
    by_cases hvalid : player.config.verdict text = .valid
    · rw [runProgram_of_valid hvalid]
      refine ⟨nofun, ?_⟩
      rintro (⟨name, hname, hnone, -⟩ | ⟨_, ⟨⟩, hinvalid, -⟩)
      · cases hnone.symm.trans (hstored name hname)
      · exact absurd hvalid hinvalid
    · rw [runProgram_of_invalid hvalid]
      constructor
      · rintro ⟨⟩
        exact .inr ⟨text, rfl, hvalid, rfl⟩
      · rintro (⟨name, hname, hnone, -⟩ | ⟨_, ⟨⟩, -, rfl⟩)
        · cases hnone.symm.trans (hstored name hname)
        · rfl

/-- A request is answered exactly when it has a valid text, which is then performed. -/
theorem answer_eq_ok_iff {performance : Performance σ ι} :
    player.answer devices request = .ok performance ↔
      ∃ text, request.text? player.config = some text ∧ player.config.verdict text = .valid ∧
        performance = player.perform devices (Program.parse text) := by
  rcases answer_cases player devices request with
    ⟨name, -, -, hnone, hanswer⟩ | ⟨text, htext, -, hanswer⟩
  · rw [hanswer, hnone]
    exact ⟨nofun, fun ⟨_, htext, _⟩ ↦ absurd htext nofun⟩
  · rw [hanswer, htext]
    by_cases hvalid : player.config.verdict text = .valid
    · rw [runProgram_of_valid hvalid]
      constructor
      · rintro ⟨⟩
        exact ⟨text, rfl, hvalid, rfl⟩
      · rintro ⟨_, ⟨⟩, -, rfl⟩
        rfl
    · rw [runProgram_of_invalid hvalid]
      refine ⟨nofun, ?_⟩
      rintro ⟨_, ⟨⟩, hvalid', -⟩
      exact absurd hvalid' hvalid

theorem after_of_ok {performance : Performance σ ι}
    (hanswer : player.answer devices request = .ok performance) :
    player.after devices request = performance.player := by
  rw [after, hanswer]

theorem after_of_error {refusal : Refusal}
    (hanswer : player.answer devices request = .error refusal) :
    player.after devices request = player := by
  rw [after, hanswer]

/-- A request leaves the player as it is, or as a performance of a valid program leaves it. -/
theorem after_cases (player : Player σ ι) (devices : Devices σ ι) (request : Request) :
    player.after devices request = player ∨
      ∃ text, player.config.verdict text = .valid ∧
        player.after devices request = (player.perform devices (Program.parse text)).player := by
  cases hanswer : player.answer devices request with
  | error refusal => exact .inl (after_of_error hanswer)
  | ok performance =>
    obtain ⟨text, -, hvalid, rfl⟩ := answer_eq_ok_iff.1 hanswer
    exact .inr ⟨text, hvalid, after_of_ok hanswer⟩

end Answer

/-! ### Many requests -/

/-- The player after a number of requests. -/
def afterAll (player : Player σ ι) (devices : Devices σ ι) (requests : List Request) :
    Player σ ι :=
  requests.foldl (fun player request ↦ player.after devices request) player

/-- What every performance of a valid program keeps holds after any requests. -/
theorem afterAll_holds {devices : Devices σ ι} (holds : Player σ ι → Prop)
    (hperform : ∀ (player : Player σ ι) (text : String), holds player →
      player.config.verdict text = .valid →
      holds (player.perform devices (Program.parse text)).player)
    {player : Player σ ι} (hplayer : holds player) (requests : List Request) :
    holds (player.afterAll devices requests) := by
  induction requests generalizing player with
  | nil => exact hplayer
  | cons request rest ih =>
    have hafter : holds (player.after devices request) := by
      rcases after_cases player devices request with hsame | ⟨text, hvalid, hafter⟩
      · rw [hsame]
        exact hplayer
      · rw [hafter]
        exact hperform player text hplayer hvalid
    exact ih hafter

theorem config_afterAll (player : Player σ ι) (devices : Devices σ ι) (requests : List Request) :
    (player.afterAll devices requests).config = player.config :=
  afterAll_holds (fun later ↦ later.config = player.config) (fun _ _ hconfig _ ↦ hconfig) rfl
    requests

/-- What a request is answered, with what happened meanwhile. -/
structure Reply where
  result : Except Refusal (Except Halt Outcome)
  events : List Event

namespace Reply

def isAccepted (reply : Reply) : Bool := reply.result.toBool

/-- The run of the request came to no end. -/
def isHalted (reply : Reply) : Bool :=
  match reply.result with
  | .ok (.error _) => true
  | _ => false

end Reply

def reply (player : Player σ ι) (devices : Devices σ ι) (request : Request) : Reply :=
  match player.answer devices request with
  | .ok performance => ⟨.ok performance.ending, performance.events⟩
  | .error refusal => ⟨.error refusal, []⟩

/-- The replies to a number of requests, and the player that they leave. When a run comes to no end,
the requests behind it are not answered. -/
def serve (devices : Devices σ ι) : Player σ ι → List Request → List Reply × Player σ ι
  | player, [] => ([], player)
  | player, request :: rest =>
    if (player.reply devices request).isHalted then
      ([player.reply devices request], player.after devices request)
    else
      (player.reply devices request :: (serve devices (player.after devices request) rest).1,
        (serve devices (player.after devices request) rest).2)

/-- The requests without those that are refused when it is their turn. -/
def unrefused (devices : Devices σ ι) : Player σ ι → List Request → List Request
  | _, [] => []
  | player, request :: rest =>
    if (player.reply devices request).isHalted then request :: rest
    else if (player.reply devices request).isAccepted then
      request :: unrefused devices (player.after devices request) rest
    else unrefused devices (player.after devices request) rest

variable {player : Player σ ι} {devices : Devices σ ι}

theorem isAccepted_of_isHalted {reply : Reply} (hhalted : reply.isHalted = true) :
    reply.isAccepted = true := by
  obtain ⟨result, events⟩ := reply
  cases result with
  | ok ending => rfl
  | error refusal => cases hhalted

/-- A refused request is answered without a call and leaves the player as it is. -/
theorem reply_of_refused {request : Request}
    (hrefused : (player.reply devices request).isAccepted = false) :
    (player.reply devices request).events = [] ∧ player.after devices request = player := by
  cases hanswer : player.answer devices request with
  | ok performance =>
    simp only [reply, hanswer] at hrefused
    cases hrefused
  | error refusal =>
    refine ⟨?_, after_of_error hanswer⟩
    simp only [reply, hanswer]

/-- Without the refused requests, the others are answered as before and leave the same player. -/
theorem serve_unrefused (devices : Devices σ ι) (player : Player σ ι) (requests : List Request) :
    serve devices player (unrefused devices player requests) =
      ((serve devices player requests).1.filter (·.isAccepted),
        (serve devices player requests).2) := by
  induction requests generalizing player with
  | nil => rfl
  | cons request rest ih =>
    rw [unrefused, serve]
    by_cases hhalted : (player.reply devices request).isHalted = true
    · rw [if_pos hhalted, if_pos hhalted, serve, if_pos hhalted]
      simp only [List.filter_cons, isAccepted_of_isHalted hhalted, if_true, List.filter_nil]
    · rw [if_neg hhalted, if_neg hhalted]
      cases haccepted : (player.reply devices request).isAccepted with
      | true =>
        rw [if_pos rfl, serve, if_neg hhalted, ih]
        simp only [List.filter_cons, haccepted, if_true]
      | false =>
        rw [if_neg Bool.false_ne_true, (reply_of_refused haccepted).2, ih]
        simp only [List.filter_cons, haccepted, Bool.false_eq_true, if_false]

/-- Refused requests add nothing to what happens. -/
theorem events_serve (devices : Devices σ ι) (player : Player σ ι) (requests : List Request) :
    ((serve devices player requests).1.filter (·.isAccepted)).flatMap (·.events) =
      (serve devices player requests).1.flatMap (·.events) := by
  induction requests generalizing player with
  | nil => rfl
  | cons request rest ih =>
    rw [serve]
    by_cases hhalted : (player.reply devices request).isHalted = true
    · rw [if_pos hhalted]
      simp only [List.filter_cons, isAccepted_of_isHalted hhalted, if_true, List.filter_nil]
    · rw [if_neg hhalted]
      cases haccepted : (player.reply devices request).isAccepted with
      | true => simp only [List.filter_cons, haccepted, if_true, List.flatMap_cons, ih]
      | false =>
        simp only [List.filter_cons, haccepted, Bool.false_eq_true, if_false, List.flatMap_cons,
          (reply_of_refused haccepted).1, List.nil_append, ih]

/-- A request that is refused makes no call and leaves the player as it is. It is refused exactly
when the stored command that it names is absent or its text, translated if it is verbose, is not
valid; every other request is answered with its run, however that ends. So the refused requests of a
sequence can be taken out: the others are answered as before, with the same calls in the same order,
and the same player is left. -/
theorem refused_without_trace (devices : Devices σ ι) (player : Player σ ι) :
    (∀ request refusal, player.answer devices request = .error refusal →
        (player.reply devices request).events = [] ∧ player.after devices request = player) ∧
      (∀ request refusal, player.answer devices request = .error refusal ↔
        (∃ name, request.name? = some name ∧ player.config.command? name = none ∧
          refusal = .unknownCommand name) ∨
        ∃ text, request.text? player.config = some text ∧ player.config.verdict text ≠ .valid ∧
          refusal = .invalid (player.config.verdict text)) ∧
      (∀ request performance, player.answer devices request = .ok performance ↔
        ∃ text, request.text? player.config = some text ∧ player.config.verdict text = .valid ∧
          performance = player.perform devices (Program.parse text)) ∧
      ∀ requests,
        let served := serve devices player requests
        let kept := serve devices player (unrefused devices player requests)
        kept.1 = served.1.filter (·.isAccepted) ∧ kept.2 = served.2 ∧
          kept.1.flatMap (·.events) = served.1.flatMap (·.events) := by
  refine ⟨?_, fun _ _ ↦ answer_eq_error_iff, fun _ _ ↦ answer_eq_ok_iff, ?_⟩
  · intro request refusal hanswer
    refine reply_of_refused ?_
    simp only [reply, hanswer]
    rfl
  · intro requests served kept
    have hkept : kept = (served.1.filter (·.isAccepted), served.2) :=
      serve_unrefused devices player requests
    rw [hkept]
    exact ⟨rfl, rfl, events_serve devices player requests⟩

/-- A name without a stored command. -/
theorem refused_without_trace_of_absent :
    let player := Player.desktop {} true
    let devices := Devices.desktop true fun _ ↦ none
    player.answer devices (.command "lock") = .error (.unknownCommand "lock") ∧
      (player.reply devices (.command "lock")).events = [] ∧
      player.after devices (.command "lock") = player := by
  intro player devices
  have hanswer : player.answer devices (.command "lock") = .error (.unknownCommand "lock") := rfl
  exact ⟨hanswer, (refused_without_trace devices player).1 _ _ hanswer⟩

end Macropad.Player
