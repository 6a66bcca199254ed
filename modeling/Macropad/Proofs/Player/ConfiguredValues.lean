import Macropad.Config.Loading
import Macropad.Proofs.Engine.Settings
import Macropad.Proofs.Player.Bounds

/-!
# The configured values as updates

A setting that programs can change has its value in the engine block, and the configuration shows
this value as a text under the key of the setting. A program may write key and text into an update.
For numbers the two gates agree: the text of an accepted value is read back as this value
(`parse_engineSetting`), and a player that is set up from the configuration is left as it was.

For the directory of images they do not. The engine block takes it as it stands and asks only that
it is not empty; an update trims it first. So a directory with a blank at an end is accepted there,
and here it is another directory, or refused when nothing else is left of it
(`blank_ends_not_kept`). `keeps_configured` says both.
-/

set_option autoImplicit false

namespace Macropad

open Macropad.Engine Macropad.Input Macropad.Language Macropad.Number Macropad.Screen
  Macropad.Setting

variable {μ ι : Type}

/-! ### Texts of numbers -/

namespace Number.Double

theorem mem_positional {digits : Nat} {exponent : Int} {c : Char}
    (hc : c ∈ positional digits exponent) : c.isDigit = true ∨ c = '.' := by
  have hshown : ∀ d ∈ Nat.toDigits 10 digits, d.isDigit = true := fun d hd ↦
    Nat.isDigit_of_mem_toDigits (by decide) (by decide) hd
  have hzeros (n : Nat) : ∀ d ∈ List.replicate n '0', d.isDigit = true := fun d hd ↦ by
    rw [List.eq_of_mem_replicate hd]
    decide
  rw [positional] at hc
  split at hc
  · rcases List.mem_append.1 hc with hc | hc
    · exact .inl (hshown c hc)
    · exact .inl (hzeros _ c hc)
  · -- Padded digits are parted by the point.
    have hpadded (n : Nat) : ∀ d ∈ List.replicate n '0' ++ Nat.toDigits 10 digits,
        d.isDigit = true := fun d hd ↦
      (List.mem_append.1 hd).elim (hzeros n d) (hshown d)
    rcases List.mem_append.1 hc with hc | hc
    · exact .inl (hpadded _ c (List.mem_of_mem_take hc))
    · rcases List.mem_cons.1 hc with rfl | hc
      · exact .inr rfl
      · exact .inl (hpadded _ c (List.mem_of_mem_drop hc))

/-- The text of a finite double has no blanks. -/
theorem not_blank_of_mem_text {negative : Bool} {units : Nat} {c : Char}
    (hc : c ∈ (finite negative units).text.toList) : Text.isBlank c = false := by
  have hmagnitude : ∀ d ∈ magnitudeText units, Text.isBlank d = false := by
    intro d hd
    rw [magnitudeText] at hd
    split at hd
    · rw [List.mem_singleton.1 hd]
      decide
    · generalize shortestDecimal units = decimal at hd
      rcases mem_positional hd with hdigit | rfl
      · exact Text.isBlank_of_isDigit hdigit
      · decide
  rw [text, String.toList_ofList] at hc
  cases negative with
  | false => exact hmagnitude c hc
  | true =>
    rcases List.mem_cons.1 hc with rfl | hc
    · decide
    · exact hmagnitude c hc

end Number.Double

/-- A whole number in decimal is trimmed already. -/
theorem Text.trim_toString (n : Nat) : Text.trim (toString n).toList = Nat.toDigits 10 n := by
  rw [Nat.toString_eq_repr, Nat.toList_repr]
  exact Text.trim_of_not_blank fun c hc ↦
    Text.isBlank_of_isDigit (Nat.isDigit_of_mem_toDigits (by decide) (by decide) hc)

/-! ### Values of the engine block -/

namespace Setting

/-- The update that sets the value of the engine block. -/
def EngineConfig.configured (engine : EngineConfig) : EngineKey → SettingUpdate
  | .commandDelay => .commandDelay engine.commandDelay
  | .pollInterval => .tuning (.pollInterval engine.pollInterval)
  | .matchThreshold => .tuning (.threshold engine.matchThreshold)
  | .imageStorageDirectory => .tuning (.imageDirectory engine.imageDirectory)
  | .maxCallDepth => .maxCallDepth engine.maxCallDepth

/-- An update is read from the trimmed text. -/
theorem SettingUpdate.parse_name (key : EngineKey) (value : String) :
    parse key.name value =
      match ofValue? (Text.trim value.toList) key with
      | some update => .ok update
      | none => .error (.invalidValue key (String.ofList (Text.trim value.toList))) := by
  cases hvalue : ofValue? (Text.trim value.toList) key <;>
    simp only [parse, EngineKey.ofName?_name, hvalue]

/-- The text of a value in range reads as the update that sets this value, if the double is read
back from its text and the directory has no blanks at its ends. -/
theorem parse_engineSetting {engine : EngineConfig} (hrange : engine.InRange) {key : EngineKey}
    (hshown : key = .matchThreshold →
      Double.read engine.matchThreshold.text.toList = some engine.matchThreshold)
    (htrimmed : key = .imageStorageDirectory →
      Text.trim engine.imageDirectory.toList = engine.imageDirectory.toList) :
    SettingUpdate.parse key.name (Config.engineSetting engine key) =
      .ok (engine.configured key) := by
  rw [SettingUpdate.parse_name]
  cases key with
  | commandDelay =>
    simp only [Config.engineSetting, Text.trim_toString, SettingUpdate.ofValue?,
      readWord64_toDigits, Option.map_some, EngineConfig.configured]
  | pollInterval =>
    have hne : engine.pollInterval ≠ 0 := hrange.pollInterval
    simp only [Config.engineSetting, Text.trim_toString, SettingUpdate.ofValue?,
      readWord64_toDigits, Option.filter_some, hne, ne_eq, not_false_eq_true, decide_true, if_true,
      Option.map_some, EngineConfig.configured]
  | matchThreshold =>
    have hunit : engine.matchThreshold.isUnitInterval = true := hrange.matchThreshold
    obtain ⟨negative, units, hfinite, -⟩ := Double.isUnitInterval_iff.1 hunit
    have htrim : Text.trim engine.matchThreshold.text.toList = engine.matchThreshold.text.toList :=
      Text.trim_of_not_blank fun c hc ↦ Double.not_blank_of_mem_text (hfinite ▸ hc)
    simp only [Config.engineSetting, htrim, SettingUpdate.ofValue?, hshown rfl, Option.filter_some,
      hunit, if_true, Option.map_some, EngineConfig.configured]
  | imageStorageDirectory =>
    have hne : engine.imageDirectory ≠ "" := hrange.imageDirectory
    have hnil : engine.imageDirectory.toList ≠ [] := mt String.toList_eq_nil_iff.1 hne
    simp only [Config.engineSetting, htrimmed rfl, SettingUpdate.ofValue?, hnil, if_false,
      String.ofList_toList, EngineConfig.configured]
  | maxCallDepth =>
    have hne : engine.maxCallDepth ≠ 0 := hrange.maxCallDepth
    simp only [Config.engineSetting, Text.trim_toString, SettingUpdate.ofValue?,
      readWord64_toDigits, Option.filter_some, hne, ne_eq, not_false_eq_true, decide_true, if_true,
      Option.map_some, EngineConfig.configured]

/-- An update of the directory sets the trimmed text, unless nothing is left of it. -/
theorem parse_directory (directory : String) :
    SettingUpdate.parse EngineKey.imageStorageDirectory.name directory =
      if Text.allBlank directory.toList = true then .error (.invalidValue .imageStorageDirectory "")
      else .ok (.tuning (.imageDirectory (String.ofList (Text.trim directory.toList)))) := by
  rw [SettingUpdate.parse_name, SettingUpdate.ofValue?]
  by_cases hblank : Text.allBlank directory.toList = true
  · simp only [Text.trim_eq_nil_iff.2 hblank, if_pos hblank, if_true]
  · simp only [Text.trim_eq_nil_iff, if_neg hblank]

end Setting

/-- A configuration is loaded from a text only if it passes its check. -/
theorem Config.check_of_load {text : String} {config : Config}
    (hload : Config.load text = .ok config) : config.check = .ok () := by
  rw [load, ofText] at hload
  cases hparse : parse? text with
  | none =>
    rw [hparse] at hload
    cases hload
  | some parsed =>
    simp only [hparse] at hload
    cases hcheck : parsed.check with
    | ok =>
      rw [hcheck] at hload
      obtain rfl := Except.ok.inj hload
      exact hcheck
    | error fault =>
      rw [hcheck] at hload
      cases hload

/-! ### Updates of a player -/

/-- The instruction that sets a setting. -/
def Language.Instruction.ofSetting (key value : String) : Instruction :=
  ⟨some 'u', key ++ ":" ++ value, none⟩

theorem Language.Instruction.setting?_ofSetting {key : String} (hkey : ':' ∉ key.toList)
    (value : String) :
    (ofSetting key value).setting? = (SettingUpdate.parse key value).toOption := by
  have hcut : Text.cutFirst ':' (key ++ ":" ++ value).toList = some (key.toList, value.toList) := by
    refine Text.cutFirst_eq_some_iff.2 ⟨?_, hkey⟩
    simp only [String.toList_append, List.append_assoc]
    rfl
  rw [setting?, if_pos (by rfl)]
  simp only [ofSetting, hcut, String.ofList_toList]

namespace Player

/-- The program of one accepted update completes, and it leaves the session and the locator as the
update says. -/
theorem perform_ofSetting (player : Player (Polling μ) ι) (devices : Devices (Polling μ) ι)
    {key value : String} (hkey : ':' ∉ key.toList) {update : SettingUpdate}
    (hupdate : SettingUpdate.parse key value = .ok update) :
    let performance := player.perform devices [.ofSetting key value]
    performance.ending = .ok (.completed 1) ∧
      performance.player = { player with
        session := (player.session.apply update).1
        locator := ((player.session.apply update).2.map fun change ↦
          (devices.locator.tune change player.locator).2).getD player.locator } := by
  have haction : Action.ofInstruction (.ofSetting key value) = .update update := by
    rw [ofInstruction_eq_update_iff, Instruction.setting?_ofSetting hkey, hupdate]
    rfl
  have hcall (name : String) : Action.update update ≠ .call name := by
    rintro ⟨⟩
  rw [perform, execute_single _ haction hcall rfl]
  cases update with
  | commandDelay | maxCallDepth => exact ⟨rfl, rfl⟩
  | tuning change => exact ⟨rfl, rfl⟩

/-- Setting what is configured changes nothing in a player that is set up so. -/
theorem apply_configured (engine : EngineConfig) (matcher : Matcher μ) (memory : μ)
    (key : EngineKey) :
    let session := Session.ofEngine engine
    let polling := Polling.ofEngine engine memory
    (session.apply (engine.configured key)).1 = session ∧
      ((session.apply (engine.configured key)).2.map fun change ↦
        (matcher.locator.tune change polling).2).getD polling = polling := by
  cases key <;> exact ⟨rfl, rfl⟩

theorem not_mem_name (key : EngineKey) : ':' ∉ key.name.toList := by
  cases key <;> decide

/-- Every setting of an accepted configuration is shown under its key. Its text, written into an
update, is accepted and leaves a player as it is that is set up from the configuration; for the
threshold this is so if the double is read back from its text. The exception is a directory of
images with a blank at an end. It is refused if it consists of blanks; otherwise the directory is
from then on the one without the blanks at its ends, and nothing else has changed. -/
theorem keeps_configured {config : Config} (hconfig : config.check = .ok ()) (key : EngineKey)
    (hshown : key = .matchThreshold →
      Double.read config.engine.matchThreshold.text.toList = some config.engine.matchThreshold)
    (matcher : Matcher μ) (memory : μ) (fileText? : String → Option String)
    (injector : Injector ι) (injected : ι) :
    let devices : Devices (Polling μ) ι := ⟨fileText?, matcher.locator, injector⟩
    let player := Player.ofConfig config (Polling.ofEngine config.engine memory) injected
    let directory := config.engine.imageDirectory.toList
    ∃ value, config.setting? key.name = some value ∧
      let performance := player.perform devices [.ofSetting key.name value]
      ((key = .imageStorageDirectory → Text.trim directory = directory) →
        SettingUpdate.parse key.name value = .ok (config.engine.configured key) ∧
        performance.ending = .ok (.completed 1) ∧ performance.player = player) ∧
      (key = .imageStorageDirectory → Text.trim directory ≠ directory →
        (Text.allBlank directory = true →
          SettingUpdate.parse key.name value = .error (.invalidValue key "")) ∧
        (Text.allBlank directory = false →
          let trimmed := String.ofList (Text.trim directory)
          SettingUpdate.parse key.name value = .ok (.tuning (.imageDirectory trimmed)) ∧
          performance.ending = .ok (.completed 1) ∧ performance.player ≠ player ∧
          performance.player =
            { player with locator := { player.locator with directory := trimmed } })) := by
  intro devices player directory
  refine ⟨Config.engineSetting config.engine key, ?_, ?_, ?_⟩
  · rw [Config.setting?, EngineKey.ofName?_name]
  · intro htrimmed
    have hupdate := parse_engineSetting (Config.inRange_of_check hconfig) hshown htrimmed
    obtain ⟨hending, hplayer⟩ := perform_ofSetting player devices (not_mem_name key) hupdate
    obtain ⟨hsession, hlocator⟩ := apply_configured config.engine matcher memory key
    refine ⟨hupdate, hending, hplayer.trans ?_⟩
    exact congrArg₂ (fun session locator ↦ { player with session := session, locator := locator })
      hsession hlocator
  · rintro rfl hblank
    have hparse := parse_directory config.engine.imageDirectory
    refine ⟨fun hall ↦ hparse.trans (if_pos hall), fun hall ↦ ?_⟩
    have hupdate := hparse.trans (if_neg (by rw [hall]; exact Bool.false_ne_true))
    obtain ⟨hending, hplayer⟩ := perform_ofSetting player devices (not_mem_name _) hupdate
    refine ⟨hupdate, hending, fun hsame ↦ hblank ?_, hplayer⟩
    have hdirectory : String.ofList (Text.trim directory) = config.engine.imageDirectory :=
      congrArg (·.locator.directory) (hplayer.symm.trans hsame)
    exact String.toList_ofList.symm.trans (congrArg String.toList hdirectory)

/-- The text of a configuration that names a directory of images. -/
def imagesIn (directory : String) : String :=
  "\x7b\"engine\":\x7b\"match_threshold\":0.7,\"image_directory\":\"" ++ directory ++ "\"\x7d\x7d"

/-- A threshold that is no sum of powers of two, and a blank inside the name of the directory. -/
theorem keeps_configured_of_threshold :
    ∃ config, Config.load (imagesIn "my shots") = .ok config ∧
      Double.read config.engine.matchThreshold.text.toList = some config.engine.matchThreshold ∧
      config.setting? "MatchThreshold" = some "0.7" ∧
      SettingUpdate.parse "MatchThreshold" "0.7" =
        .ok (.tuning (.threshold config.engine.matchThreshold)) ∧
      ((Player.ofConfig config (Polling.ofEngine config.engine Display.fixed) ()).perform
        ⟨fun _ ↦ none, Matcher.ofDisplay.locator, Injector.failing fun _ ↦ false⟩
        [.ofSetting "MatchThreshold" "0.7"]).player =
          Player.ofConfig config (Polling.ofEngine config.engine Display.fixed) () := by
  let config : Config :=
    { engine := { matchThreshold := .ofDecimal false 7 (-1), imageDirectory := "my shots" } }
  have hload : Config.load (imagesIn "my shots") = .ok config := by decide +kernel
  have hshown : Double.read config.engine.matchThreshold.text.toList =
      some config.engine.matchThreshold := by
    decide +kernel
  have hvalue : config.setting? "MatchThreshold" = some "0.7" := by decide +kernel
  obtain ⟨value, hsetting, hkept, -⟩ :=
    keeps_configured (Config.check_of_load hload) .matchThreshold (fun _ ↦ hshown)
      Matcher.ofDisplay Display.fixed (fun _ ↦ none) (.failing fun _ ↦ false) ()
  obtain rfl := Option.some.inj (hsetting.symm.trans hvalue)
  obtain ⟨hparse, -, hplayer⟩ := hkept nofun
  exact ⟨config, hload, hshown, hvalue, hparse, hplayer⟩

/-- A directory that consists of a blank is configured and refused as an update, and one that begins
with a blank becomes another one. -/
theorem blank_ends_not_kept :
    (∃ config, Config.load (imagesIn " ") = .ok config ∧
      config.setting? "ImageStorageDirectory" = some " " ∧
      SettingUpdate.parse "ImageStorageDirectory" " " =
        .error (.invalidValue .imageStorageDirectory "")) ∧
      ∃ config, Config.load (imagesIn " shots") = .ok config ∧
        config.setting? "ImageStorageDirectory" = some " shots" ∧
        (Polling.ofEngine config.engine Display.fixed).directory = " shots" ∧
        ((Player.ofConfig config (Polling.ofEngine config.engine Display.fixed) ()).perform
          ⟨fun _ ↦ none, Matcher.ofDisplay.locator, Injector.failing fun _ ↦ false⟩
          [.ofSetting "ImageStorageDirectory" " shots"]).player.locator.directory = "shots" := by
  let engine (directory : String) : EngineConfig :=
    { matchThreshold := .ofDecimal false 7 (-1), imageDirectory := directory }
  have hupdate : SettingUpdate.parse "ImageStorageDirectory" " shots" =
      .ok (.tuning (.imageDirectory "shots")) := by
    decide +kernel
  refine ⟨⟨{ engine := engine " " }, ?_, ?_, ?_⟩, { engine := engine " shots" }, ?_, rfl, rfl, ?_⟩
  · decide +kernel
  · rfl
  · decide +kernel
  · decide +kernel
  · rw [(perform_ofSetting _ _ (by decide) hupdate).2]
    rfl

end Player

end Macropad
