import Macropad.Config.Check
import Macropad.Proofs.Language.Checking

/-!
# Ranges of settings

A setting that programs can change has a range, and two gates lead to it: the text of an update and
the engine block of a configuration. What passes either gate lies in the range
(`SettingUpdate.inRange_of_parse`, `Config.inRange_of_check`), and the bounds of the engine block
are exactly the ranges (`Config.brokenBounds_eq_nil_iff`).
-/

set_option autoImplicit false

namespace Macropad.Setting

open Macropad.Number

def Tuning.InRange : Tuning → Prop
  | .pollInterval ms => ms ≠ 0
  | .threshold value => value.isUnitInterval = true
  | .imageDirectory directory => directory ≠ ""

def SettingUpdate.InRange : SettingUpdate → Prop
  | .commandDelay _ => True
  | .maxCallDepth depth => depth ≠ 0
  | .tuning change => change.InRange

/-- Every value of the engine block that a program can change lies in its range. -/
structure EngineConfig.InRange (engine : EngineConfig) : Prop where
  pollInterval : (Tuning.pollInterval engine.pollInterval).InRange
  matchThreshold : (Tuning.threshold engine.matchThreshold).InRange
  imageDirectory : (Tuning.imageDirectory engine.imageDirectory).InRange
  maxCallDepth : (SettingUpdate.maxCallDepth engine.maxCallDepth).InRange

namespace SettingUpdate

theorem inRange_of_ofValue? {value : List Char} {key : EngineKey} {update : SettingUpdate}
    (hvalue : ofValue? value key = some update) : update.InRange := by
  cases key with
  | commandDelay =>
    obtain ⟨ms, -, rfl⟩ := Option.map_eq_some_iff.1 hvalue
    exact trivial
  | pollInterval =>
    obtain ⟨ms, hms, rfl⟩ := Option.map_eq_some_iff.1 hvalue
    have hne : ms ≠ 0 := of_decide_eq_true (Option.filter_eq_some_iff.1 hms).2
    exact hne
  | matchThreshold =>
    obtain ⟨t, ht, rfl⟩ := Option.map_eq_some_iff.1 hvalue
    exact (Option.filter_eq_some_iff.1 ht).2
  | imageStorageDirectory =>
    simp only [ofValue?] at hvalue
    split at hvalue
    · cases hvalue
    · rename_i hne
      obtain rfl := Option.some.inj hvalue
      exact fun hempty ↦ hne (String.ofList_eq_empty_iff.1 hempty)
  | maxCallDepth =>
    obtain ⟨depth, hdepth, rfl⟩ := Option.map_eq_some_iff.1 hvalue
    have hne : depth ≠ 0 := of_decide_eq_true (Option.filter_eq_some_iff.1 hdepth).2
    exact hne

/-- An update that can be read lies in the range of its setting. -/
theorem inRange_of_parse {key value : String} {update : SettingUpdate}
    (hparse : parse key value = .ok update) : update.InRange := by
  unfold parse at hparse
  cases hkey : EngineKey.ofName? key with
  | none =>
    rw [hkey] at hparse
    cases hparse
  | some engineKey =>
    simp only [hkey] at hparse
    cases hvalue : ofValue? (Text.trim value.toList) engineKey with
    | none =>
      rw [hvalue] at hparse
      cases hparse
    | some update' =>
      rw [hvalue] at hparse
      obtain rfl := Except.ok.inj hparse
      exact inRange_of_ofValue? hvalue

end SettingUpdate

end Macropad.Setting

namespace Macropad.Config

open Macropad.Setting

/-- No bound of an engine block is broken exactly when its values lie in their ranges. -/
theorem brokenBounds_eq_nil_iff {engine : EngineConfig} :
    brokenBounds engine = [] ↔ engine.InRange := by
  have hthreshold : (Tuning.threshold engine.matchThreshold).InRange ↔
      Number.Double.zero.le engine.matchThreshold = true ∧
        engine.matchThreshold.le Number.Double.one = true :=
    Bool.and_eq_true_iff
  unfold brokenBounds
  simp only [List.append_eq_nil_iff, ite_eq_left_iff, ite_eq_right_iff, List.cons_ne_nil,
    imp_false, Decidable.not_not]
  constructor
  · rintro ⟨⟨⟨⟨hinterval, hzero⟩, hone⟩, hdirectory⟩, hdepth⟩
    exact ⟨hinterval, hthreshold.2 ⟨hzero, hone⟩, hdirectory, hdepth⟩
  · rintro ⟨hinterval, hunit, hdirectory, hdepth⟩
    obtain ⟨hzero, hone⟩ := hthreshold.1 hunit
    exact ⟨⟨⟨⟨hinterval, hzero⟩, hone⟩, hdirectory⟩, hdepth⟩

/-- The engine values of an accepted configuration lie in their ranges. -/
theorem inRange_of_check {config : Config} (hconfig : config.check = .ok ()) :
    config.engine.InRange :=
  brokenBounds_eq_nil_iff.1 (check_eq_ok_iff.1 hconfig).1

end Macropad.Config
