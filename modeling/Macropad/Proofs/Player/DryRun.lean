import Macropad.Proofs.Engine.Reachable
import Macropad.Proofs.Engine.ValidRuns
import Macropad.Proofs.Player.Requests
import Macropad.Proofs.Screen.FixedDisplay

/-!
# Dry runs

A dry run looks at the fixed display. Programs may set another directory, interval or threshold, but
no threshold that the best score does not reach, so the poller finds every image at once in each
state of each request (`overFixed_afterAll`, `foundAtOnce_of_mem`). Since the anchors of references
are in range, no click point overflows on the way, and the counts of a valid program are too small
for key text to be too long. With all searches answered, a valid program completes unless the cap on
depth stops it (`dryRun_of_valid`).
-/

set_option autoImplicit false

namespace Macropad

open Macropad.Engine Macropad.Input Macropad.Language Macropad.Screen Macropad.Setting

variable {ι : Type}

/-! ### Searches of a run -/

/-- Searches leave a poller over the fixed display as it is, and a threshold in range can be
reached. -/
theorem Screen.Poller.keeps_overFixed : Keeps Poller.locator Poller.OverFixed where
  locate {image poller} himage wait hpoller := by
    obtain ⟨place, -, hsearch⟩ := hpoller.locate himage wait
    change (poller.locate image wait).poller.OverFixed
    rw [hsearch]
    exact hpoller
  locateAll {image poller} himage hpoller := by
    obtain ⟨place, -, hsearch⟩ := hpoller.locateAll himage
    change (poller.locateAll image).poller.OverFixed
    rw [hsearch]
    exact hpoller
  tune {change poller} hchange hpoller := by
    cases change with
    | pollInterval | imageDirectory => exact ⟨hpoller.display, hpoller.threshold⟩
    | threshold value => exact ⟨hpoller.display, hchange⟩

namespace Engine

/-- If the event is a search, the poller finds the image in its first attempt, at the click point in
the fixed box, and answers with it. -/
def Event.FoundAtOnce (poller : Poller) : Event → Prop
  | .located image wait answer => ∃ place, image.clickPoint Display.fixedBox = .ok place ∧
      poller.locate image wait = ⟨.ok (.found place), 1, poller⟩ ∧ answer = .ok (.found place)
  | .locatedAll image answer => ∃ place, image.clickPoint Display.fixedBox = .ok place ∧
      poller.locateAll image = ⟨.ok [place], 1, poller⟩ ∧ answer = .ok [place]
  | _ => True

theorem Event.FoundAtOnce.succeeded {poller : Poller} {event : Event}
    (hfound : event.FoundAtOnce poller) : event.Succeeded := by
  cases event with
  | located image wait answer =>
    obtain ⟨place, -, -, hanswer⟩ := hfound
    exact ⟨place, hanswer⟩
  | locatedAll image answer =>
    obtain ⟨place, -, -, hanswer⟩ := hfound
    exact ⟨[place], hanswer⟩
  | _ => exact trivial

/-- An event in range that the moment justifies, when the poller is over the fixed display. -/
theorem Moment.Justifies.foundAtOnce {desk : Desk Poller ι}
    (hlocator : desk.locator = Poller.locator) {moment : Moment Poller ι} {event : Event}
    (hjustifies : moment.Justifies desk event)
    (hpoller : moment.locator.OverFixed) (hevent : event.InRange) :
    event.FoundAtOnce moment.locator := by
  cases event with
  | located image wait answer =>
    rw [Moment.Justifies, hlocator] at hjustifies
    obtain ⟨place, hplace, hsearch⟩ := hpoller.locate hevent wait
    refine ⟨place, hplace, hsearch, hjustifies.trans ?_⟩
    exact congrArg Poller.Search.result hsearch
  | locatedAll image answer =>
    rw [Moment.Justifies, hlocator] at hjustifies
    obtain ⟨place, hplace, hsearch⟩ := hpoller.locateAll hevent
    refine ⟨place, hplace, hsearch, hjustifies.trans ?_⟩
    exact congrArg Poller.Search.result hsearch
  | _ => exact trivial

/-- Every search of a run that starts over the fixed display finds its image at once. -/
theorem foundAtOnce_of_mem {desk : Desk Poller ι} (hlocator : desk.locator = Poller.locator)
    {program : Program} {session : Session} {poller : Poller} {injector : ι}
    (hpoller : poller.OverFixed) {before after : List Event} {event : Event}
    (hevents : (execute desk program session poller injector).state.events =
      before ++ event :: after) :
    event.FoundAtOnce ((Moment.start program poller injector).afterAll desk before).locator := by
  have htold := told_execute desk program session poller injector
  have hjustified := (execute_justified desk program session poller injector).1
  rw [hevents] at hjustified
  have hmoment := htold.keeps_before (hlocator ▸ Poller.keeps_overFixed) hpoller hevents
  have hrange : event.InRange :=
    htold.inRange event (hevents ▸ List.mem_append_right before List.mem_cons_self)
  exact hjustified.justifies.foundAtOnce hlocator hmoment hrange

end Engine

namespace Player

/-- The poller of a dry run stays over the fixed display, whatever requests are made. -/
theorem overFixed_afterAll {config : Config} (hconfig : config.check = .ok ())
    (fileText? : String → Option String) (requests : List Request) :
    ((Player.desktop config true).afterAll (.desktop true fileText?)
      requests).locator.OverFixed := by
  refine afterAll_holds (fun player ↦ Poller.OverFixed player.locator) ?_ ?_ requests
  · intro player text hplayer _
    exact (told_execute ..).keeps Poller.keeps_overFixed hplayer
  · exact ⟨rfl, (Config.inRange_of_check hconfig).matchThreshold⟩

/-- After any requests to a dry run over an accepted configuration, a valid program is answered with
a run that comes to its end: it completes, or it is stopped by the cap on depth. Every search in it
finds its image in the first attempt, whatever the program has set, and no reference that can be
read has a click point that overflows. -/
theorem dryRun_of_valid {config : Config} (hconfig : config.check = .ok ()) {text : String}
    (hvalid : config.verdict text = .valid) (fileText? : String → Option String)
    (requests : List Request) :
    let devices := Devices.desktop true fileText?
    let player := (Player.desktop config true).afterAll devices requests
    let first := Moment.start (Program.parse text) player.locator player.injector
    ∃ performance, player.answer devices (.program text) = .ok performance ∧
      (∃ result,
        Machine.Reaches (player.desk devices)
          (.running [.program 0 1 (Program.parse text)]
            (.start player.session player.locator player.injector)) (.ended result) ∧
        performance.ending = (Finished.ofResult result).ending) ∧
      ((∃ executed, performance.ending = .ok (.completed executed)) ∨
        ∃ position max name, performance.ending = .ok (.depthExceeded position max name)) ∧
      (∀ before event after, performance.events = before ++ event :: after →
        event.FoundAtOnce (first.afterAll (player.desk devices) before).locator) ∧
      ∀ argument image, ImageRef.parse argument = .ok image →
        ∃ place, image.clickPoint Display.fixedBox = .ok place := by
  intro devices player first
  have hpoller : player.locator.OverFixed := overFixed_afterAll hconfig fileText? requests
  have hkept : player.config = config := config_afterAll ..
  have haccepted : player.config.check = .ok () := hkept ▸ hconfig
  have hverdict : player.config.verdict text = .valid := hkept ▸ hvalid
  have hfound (before : List Event) (event : Event) (after : List Event)
      (hevents : (player.perform devices (Program.parse text)).events =
        before ++ event :: after) :
      event.FoundAtOnce (first.afterAll (player.desk devices) before).locator :=
    foundAtOnce_of_mem rfl hpoller hevents
  refine ⟨player.perform devices (Program.parse text),
    answer_eq_ok_iff.2 ⟨text, rfl, hverdict, rfl⟩, ⟨_, Machine.reaches_ended _ _, ?_⟩,
    execute_of_succeeded ?_ ?_, hfound, ?_⟩
  · rw [perform, execute_eq]
  · intro event hmem
    obtain ⟨before, after, hevents⟩ := List.append_of_mem hmem
    exact (hfound before event after hevents).succeeded
  · intro depth position i cap hmem
    obtain ⟨before, after, hevents⟩ := List.append_of_mem hmem
    exact (exists_block_of_valid haccepted hverdict rfl hevents).1.1.not_overlong
  · intro argument image hparse
    exact ImageRef.exists_clickPoint (ImageRef.inRange_of_parse hparse) Display.inCorner_fixedBox

/-- A program that asks for a threshold of one and then waits for an image, after a request that is
refused. -/
theorem dryRun_of_valid_of_wait :
    ({} : Config).check = .ok () ∧ ({} : Config).verdict "uMatchThreshold:1;ha.png<br>" = .valid ∧
      ∃ performance,
        ((Player.desktop {} true).afterAll (.desktop true fun _ ↦ none)
            [.command "lock"]).answer (.desktop true fun _ ↦ none)
            (.program "uMatchThreshold:1;ha.png<br>") = .ok performance ∧
          ∃ outcome, performance.ending = .ok outcome := by
  have hvalid : ({} : Config).verdict "uMatchThreshold:1;ha.png<br>" = .valid := by
    decide +kernel
  obtain ⟨performance, hanswer, -, hending, -⟩ :=
    dryRun_of_valid Config.check_default hvalid (fun _ ↦ none) [.command "lock"]
  refine ⟨Config.check_default, hvalid, performance, hanswer, ?_⟩
  rcases hending with ⟨_, hcompleted⟩ | ⟨_, _, _, hexceeded⟩
  · exact ⟨_, hcompleted⟩
  · exact ⟨_, hexceeded⟩

end Player

end Macropad
