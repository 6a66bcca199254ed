import Macropad.Proofs.Engine.Reachable
import Macropad.Proofs.Player.Requests
import Macropad.Proofs.Screen.Matching

/-!
# The bounds of the settings

The settings of a player live in two places, the session and the poller, and programs change them
through one gate, at any depth of calls and in every request. `InBounds` gives the bounds, which are
those of the engine block. An accepted configuration starts a player within them, each change that
passes the gate stays within them, and searches change no setting (`keeps_inRange`); so they hold in
every state of every run (`InBounds.of_told`). `inBounds_of_visits` says so for a player that has
answered any requests.
-/

set_option autoImplicit false

namespace Macropad

open Macropad.Engine Macropad.Input Macropad.Language Macropad.Number Macropad.Screen
  Macropad.Setting

variable {μ σ ι : Type}

/-! ### The poller -/

namespace Screen.Polling

/-- The settings of a poller that is set up from the engine block. -/
def ofEngine (engine : EngineConfig) (memory : μ) : Polling μ where
  directory := engine.imageDirectory
  interval := engine.pollInterval
  threshold := engine.matchThreshold
  memory := memory

/-- Every setting of the poller lies in its range. -/
structure InRange (polling : Polling μ) : Prop where
  interval : (Tuning.pollInterval polling.interval).InRange
  threshold : (Tuning.threshold polling.threshold).InRange
  directory : (Tuning.imageDirectory polling.directory).InRange

/-- Searches change no setting, and a change in range leaves all settings in range. -/
theorem keeps_inRange (matcher : Matcher μ) : Keeps matcher.locator InRange where
  locate _ _ hpolling := ⟨hpolling.interval, hpolling.threshold, hpolling.directory⟩
  locateAll _ hpolling := ⟨hpolling.interval, hpolling.threshold, hpolling.directory⟩
  tune {change polling} hchange hpolling := by
    cases change with
    | pollInterval ms => exact ⟨hchange, hpolling.threshold, hpolling.directory⟩
    | threshold value => exact ⟨hpolling.interval, hchange, hpolling.directory⟩
    | imageDirectory directory => exact ⟨hpolling.interval, hpolling.threshold, hchange⟩

end Screen.Polling

namespace Player

/-! ### The bounds -/

/-- The settings that programs can change keep their bounds, and the pauses of compound actions are
the ones of the engine block. -/
structure InBounds (engine : EngineConfig) (session : Session) (polling : Polling μ) : Prop where
  maxCallDepth : 1 ≤ session.maxCallDepth.toNat
  interval : 1 ≤ polling.interval.toNat
  threshold : polling.threshold ≠ .nan ∧ Double.zero.le polling.threshold = true ∧
    polling.threshold.le .one = true
  directory : polling.directory ≠ ""
  timings : session.timings =
    ⟨engine.preDoubleClick, engine.doubleClickGap, engine.lastInstanceDelay, engine.dragHold⟩

theorem inBounds_iff {engine : EngineConfig} {session : Session} {polling : Polling μ} :
    InBounds engine session polling ↔
      session.maxCallDepth ≠ 0 ∧ polling.InRange ∧
        session.timings = (Session.ofEngine engine).timings := by
  have hword (n : UInt64) : 1 ≤ n.toNat ↔ n ≠ 0 :=
    Nat.one_le_iff_ne_zero.trans (not_congr (@UInt64.toNat_inj n 0))
  constructor
  · intro h
    exact ⟨(hword _).1 h.maxCallDepth,
      ⟨(hword _).1 h.interval, Bool.and_eq_true_iff.2 h.threshold.2, h.directory⟩, h.timings⟩
  · rintro ⟨hdepth, hpolling, htimings⟩
    have hthreshold : polling.threshold.isUnitInterval = true := hpolling.threshold
    refine ⟨(hword _).2 hdepth, (hword _).2 hpolling.interval, ⟨?_, ?_⟩, hpolling.directory,
      htimings⟩
    · intro hnan
      rw [hnan, Double.not_isUnitInterval_nan] at hthreshold
      cases hthreshold
    · exact Bool.and_eq_true_iff.1 hthreshold

theorem inBounds_ofConfig {config : Config} (hconfig : config.check = .ok ()) (memory : μ) :
    InBounds config.engine (.ofEngine config.engine) (Polling.ofEngine config.engine memory) := by
  have hengine := Config.inRange_of_check hconfig
  exact inBounds_iff.2 ⟨hengine.maxCallDepth,
    ⟨hengine.pollInterval, hengine.matchThreshold, hengine.imageDirectory⟩, rfl⟩

/-- Every state of a run that starts within the bounds lies within them. -/
theorem InBounds.of_told {engine : EngineConfig} {matcher : Matcher μ}
    {desk : Desk (Polling μ) ι} (hlocator : desk.locator = matcher.locator) {program : Program}
    {start s : State (Polling μ) ι} (hstart : InBounds engine start.session start.locator)
    (htold : Told desk program start s) : InBounds engine s.session s.locator := by
  obtain ⟨hdepth, hpolling, htimings⟩ := inBounds_iff.1 hstart
  refine inBounds_iff.2 ⟨?_, ?_, ?_⟩
  · rw [htold.session]
    exact maxCallDepth_sessionAfter_ne_zero hdepth s.events
  · exact htold.keeps (hlocator ▸ Polling.keeps_inRange matcher) hpolling
  · rw [htold.session, timings_sessionAfter, htimings]

/-! ### The states of requests -/

/-- The player passes through the state while it answers the request. -/
def Visits (player : Player σ ι) (devices : Devices σ ι) (request : Request)
    (s : State σ ι) : Prop :=
  ∃ text reached, request.text? player.config = some text ∧ player.config.verdict text = .valid ∧
    Machine.Reaches (player.desk devices)
      (.running [.program 0 1 (Program.parse text)]
        (.start player.session player.locator player.injector)) reached ∧
    reached.state = s

theorem Visits.told {player : Player σ ι} {devices : Devices σ ι} {request : Request}
    {s : State σ ι} (hvisits : player.Visits devices request s) :
    ∃ program, Told (player.desk devices) program
      (.start player.session player.locator player.injector) s := by
  obtain ⟨text, reached, -, -, hreaches, rfl⟩ := hvisits
  exact ⟨Program.parse text, (told_start ..).of_reaches hreaches⟩

/-- The last state that an answered request visits is the one that it leaves. -/
theorem exists_visits_of_answer {player : Player σ ι} {devices : Devices σ ι} {request : Request}
    {performance : Performance σ ι}
    (hanswer : player.answer devices request = .ok performance) :
    ∃ s, player.Visits devices request s ∧ performance.player.session = s.session ∧
      performance.player.locator = s.locator ∧ performance.player.injector = s.injector := by
  obtain ⟨text, htext, hvalid, rfl⟩ := answer_eq_ok_iff.1 hanswer
  refine ⟨_, ⟨text, _, htext, hvalid, Machine.reaches_ended _ _, rfl⟩, ?_⟩
  simp only [perform, execute_eq, state_ofResult]
  exact ⟨rfl, rfl, rfl⟩

/-- Whatever requests a player over an accepted configuration has answered or refused, its settings
keep their bounds, and they do so in every state that it visits while it answers the next one. -/
theorem inBounds_of_visits {config : Config} (hconfig : config.check = .ok ())
    (matcher : Matcher μ) (memory : μ) (fileText? : String → Option String)
    (injector : Injector ι) (injected : ι) (requests : List Request) :
    let devices : Devices (Polling μ) ι := ⟨fileText?, matcher.locator, injector⟩
    let player := (Player.ofConfig config (Polling.ofEngine config.engine memory)
      injected).afterAll devices requests
    InBounds config.engine player.session player.locator ∧
      ∀ request s, player.Visits devices request s →
        InBounds config.engine s.session s.locator := by
  intro devices player
  have hplayer : InBounds config.engine player.session player.locator := by
    refine afterAll_holds (fun later ↦ InBounds config.engine later.session later.locator) ?_
      (inBounds_ofConfig hconfig memory) requests
    intro later text hlater _
    exact hlater.of_told rfl (told_execute ..)
  refine ⟨hplayer, fun request s hvisits ↦ ?_⟩
  obtain ⟨program, htold⟩ := hvisits.told
  exact hplayer.of_told rfl htold

/-- Two requests, of which the first asks for a threshold that is no number and is refused, and the
state that a third one leaves. -/
theorem inBounds_of_visits_of_nan :
    let devices : Devices (Polling Display) Unit :=
      ⟨fun _ ↦ none, Matcher.ofDisplay.locator, .failing fun _ ↦ false⟩
    let player := (Player.ofConfig {} (Polling.ofEngine ({} : Config).engine .unavailable)
      ()).afterAll devices [.program "uMatchThreshold:nan", .program "uMaxCallDepth:3"]
    ({} : Config).check = .ok () ∧
      InBounds ({} : Config).engine player.session player.locator ∧
      ∃ s, player.Visits devices (.program "uPollInterval:7") s ∧ s.locator.interval = 7 ∧
        InBounds ({} : Config).engine s.session s.locator := by
  intro devices player
  obtain ⟨hplayer, hvisited⟩ := inBounds_of_visits Config.check_default Matcher.ofDisplay
    .unavailable (fun _ ↦ none) (.failing fun _ ↦ false) ()
    [.program "uMatchThreshold:nan", .program "uMaxCallDepth:3"]
  have hverdict : player.config.verdict "uPollInterval:7" = .valid := by
    rw [config_afterAll]
    decide +kernel
  have hanswer : player.answer devices (.program "uPollInterval:7") =
      .ok (player.perform devices (Program.parse "uPollInterval:7")) :=
    answer_eq_ok_iff.2 ⟨_, rfl, hverdict, rfl⟩
  obtain ⟨s, hvisits, -, hlocator, -⟩ := exists_visits_of_answer hanswer
  refine ⟨Config.check_default, hplayer, s, hvisits, ?_, hvisited _ s hvisits⟩
  have haction : Action.ofInstruction ⟨some 'u', "PollInterval:7", none⟩ =
      .update (.tuning (.pollInterval 7)) := by decide
  have hparse : Program.parse "uPollInterval:7" = [⟨some 'u', "PollInterval:7", none⟩] := by decide
  rw [← hlocator, hparse, perform, execute_single _ haction (fun _ ↦ nofun) rfl]
  rfl

end Player

end Macropad
