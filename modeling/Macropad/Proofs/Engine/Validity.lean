import Macropad.Engine.Run
import Macropad.Proofs.Language.Checking

/-!
# Arguments that pass their check

The check of an argument and the engine read it with partly different code. What passes the check
asks for an action (`ofOpcode?_of_checkArgument`), and this action is ready: the engine performs it
and does not pass over it.

One reading is left out. The check takes two runs of decimal digits around a colon for a place, in
any script and of any length; the engine reads those of ASCII digits below the limit of its
coordinates, and no others (`isSome_read_iff_isPlainPair`). `PlainSides` says that a drag has no
sides of the other kind.
-/

set_option autoImplicit false

namespace Macropad.Engine

open Macropad.Language Macropad.Number Macropad.Screen Macropad.Setting

variable {σ ι : Type}

/-! ### Places in digits -/

/-- A run of ASCII digits below the limit of coordinates. -/
def isPlainRun (s : List Char) : Bool := (readDigits s).any (· < signedLimit)

/-- Two such runs around a colon. -/
def isPlainPair (side : List Char) : Bool :=
  match Text.cutFirst ':' side with
  | some (x, y) => isPlainRun x && isPlainRun y
  | none => false

/-- No run of ten digits meets the blanks. -/
theorem decimalZeros_not_blank : ∀ first ∈ Text.decimalZeros, ∀ digit < 10,
    Text.isBlank (Char.ofNat (first + digit)) = false := by
  decide +kernel

theorem isBlank_of_isDecimalDigit {c : Char} (hc : Text.isDecimalDigit c = true) :
    Text.isBlank c = false := by
  obtain ⟨first, hfirst, hrange⟩ := List.any_eq_true.1 hc
  simp only [Bool.and_eq_true, decide_eq_true_eq] at hrange
  have hdigit := decimalZeros_not_blank first hfirst (c.toNat - first) (by omega)
  rwa [Nat.add_sub_cancel' hrange.1, Char.ofNat_toNat] at hdigit

/-- The engine reads a run of decimal digits as a coordinate exactly when it is plain. -/
theorem isSome_readSigned32_iff {s : List Char} (hs : Validation.isRun s = true) :
    (readSigned32 (Text.trim s)).isSome ↔ isPlainRun s = true := by
  obtain ⟨hne, hdigits⟩ := Bool.and_eq_true_iff.1 hs
  have hdigit : ∀ c ∈ s, Text.isDecimalDigit c = true := List.all_eq_true.1 hdigits
  rw [Text.trim_of_not_blank fun c hc ↦ isBlank_of_isDecimalDigit (hdigit c hc)]
  have hread : readSigned32 s = (readBounded (signedLimit - 1) s).map Int.ofNat := by
    unfold readSigned32
    split
    · exact absurd (hdigit '-' List.mem_cons_self) (by decide)
    · rfl
  have hplus : dropPlus s = s := by
    unfold dropPlus
    split
    · exact absurd (hdigit '+' List.mem_cons_self) (by decide)
    · rfl
  rw [hread, readBounded, hplus, isPlainRun]
  cases readDigits s with
  | none => simp
  | some n =>
    have hlimit : n ≤ signedLimit - 1 ↔ n < signedLimit := Nat.le_sub_one_iff_lt (by decide)
    simp only [Option.filter_some, hlimit, decide_eq_true_eq, Option.any_some]
    by_cases hn : n < signedLimit
    · simp [hn]
    · simp [hn]

/-- The engine reads a pair of decimal digits as a place exactly when it is plain. -/
theorem isSome_read_iff_isPlainPair {side : List Char}
    (hside : Validation.isCoordinatePair side = true) :
    (Point.read side).isSome ↔ isPlainPair side = true := by
  rw [Validation.isCoordinatePair] at hside
  rw [Point.read, isPlainPair]
  cases hcut : Text.cutFirst ':' side with
  | none =>
    rw [hcut] at hside
    cases hside
  | some parts =>
    obtain ⟨x, y⟩ := parts
    rw [hcut] at hside
    obtain ⟨hx, hy⟩ := Bool.and_eq_true_iff.1 hside
    simp only [Option.bind_eq_bind, Option.bind_some, Bool.and_eq_true,
      ← isSome_readSigned32_iff hx, ← isSome_readSigned32_iff hy]
    cases readSigned32 (Text.trim x) <;> cases readSigned32 (Text.trim y) <;> simp

/-! ### Actions -/

/-- The action is performed and not passed over. -/
def Action.Ready (desk : Desk σ ι) : Action → Prop
  | .skip => False
  | .switchWindows times => switchSize times ≤ textCapacity
  | .drag start finish => start.isSome ∧ finish.isSome
  | .call name => (desk.runnable? name).isSome
  | _ => True

/-- A drag whose sides, if they are pairs of decimal digits, are plain. -/
def PlainSides (argument : String) : Prop :=
  ∀ start finish, Text.cutFirst ',' argument.toList = some (start, finish) →
    ∀ side ∈ [start, finish], Validation.isCoordinatePair side = true → isPlainPair side = true

/-- A number of 32 bits is one of 64 bits. -/
theorem exists_readWord64_of_readWord32 {s : List Char} (hs : (readWord32 s).isSome) :
    ∃ n, readWord64 s = some n ∧ n.toNat < UInt32.size := by
  rw [readWord32, Option.isSome_map, readBounded] at hs
  obtain ⟨n, hn⟩ := Option.isSome_iff_exists.1 hs
  obtain ⟨hdigits, hbound⟩ := Option.filter_eq_some_iff.1 hn
  have hword : n ≤ UInt32.size - 1 := of_decide_eq_true hbound
  have hword64 : n ≤ UInt64.size - 1 := Nat.le_trans hword (by decide)
  refine ⟨UInt64.ofNat n, ?_, ?_⟩
  · rw [readWord64, readBounded, hdigits, Option.filter_some, decide_eq_true hword64, if_pos rfl,
      Option.map_some]
  · rw [UInt64.toNat_ofNat_of_lt' (Nat.lt_of_le_of_lt hword64 (by decide))]
    exact Nat.lt_of_le_of_lt hword (by decide)

/-- A side that passes its check can be used, unless it is a pair of other digits. -/
theorem isSome_endpoint? {side : List Char}
    (hside : (Validation.isCoordinatePair side || Validation.isImage (String.ofList side)) = true)
    (hplain : Validation.isCoordinatePair side = true → isPlainPair side = true) :
    (Action.endpoint? side).isSome := by
  rw [Action.endpoint?]
  cases hread : Point.read side with
  | some place => rfl
  | none =>
    rcases Bool.or_eq_true_iff.1 hside with hpair | himage
    · have hsome := (isSome_read_iff_isPlainPair hpair).2 (hplain hpair)
      rw [hread] at hsome
      cases hsome
    · rw [Validation.isImage] at himage
      cases hparse : ImageRef.parse (String.ofList side) with
      | ok image => rfl
      | error fault =>
        rw [hparse] at himage
        cases himage

theorem exists_of_map_eq_ok {ε α : Type} {result : Except ε α}
    (hresult : result.map (fun _ ↦ ()) = .ok ()) : ∃ a, result = .ok a := by
  cases result with
  | error fault => cases hresult
  | ok a => exact ⟨a, rfl⟩

section Argument

variable {surroundings : Surroundings} {argument : String}

theorem read_of_parse (hpoint : (Point.parse argument).map (fun _ ↦ ()) = .ok ()) :
    ∃ place, Point.read argument.toList = some place := by
  obtain ⟨place, hplace⟩ := exists_of_map_eq_ok hpoint
  rw [Point.parse] at hplace
  cases hread : Point.read argument.toList with
  | none =>
    rw [hread] at hplace
    cases hplace
  | some place => exact ⟨place, rfl⟩

/-- A count that passes its check can be used and has 32 bits. -/
theorem count?_of_check (hcount : (argument = "" || (readWord32 argument.toList).isSome) = true) :
    ∃ n, Action.count? argument = some n ∧ n < UInt32.size := by
  rw [Action.count?]
  split
  · exact ⟨1, rfl, by decide⟩
  · rename_i hne
    have hword : (readWord32 argument.toList).isSome := by
      rcases Bool.or_eq_true_iff.1 hcount with hempty | hword
      · exact absurd (of_decide_eq_true hempty) hne
      · exact hword
    obtain ⟨n, hn, hbound⟩ := exists_readWord64_of_readWord32 hword
    exact ⟨n.toNat, by rw [hn, Option.map_some], hbound⟩

/-- Key text for a count of 32 bits is not too long. -/
theorem switchSize_le_textCapacity {n : Nat} (hn : n < UInt32.size) :
    switchSize n ≤ textCapacity := by
  rw [UInt32.size] at hn
  rw [switchSize, textCapacity, UInt64.size]
  omega

theorem update?_of_check {code : Char}
    (hsetting : Validation.checkSetting surroundings code argument = .ok ()) :
    ∃ change, Action.update? argument = some (.update change) := by
  rw [Validation.checkSetting] at hsetting
  rw [Action.update?]
  cases hcut : Text.cutFirst ':' argument.toList with
  | none =>
    rw [hcut] at hsetting
    cases hsetting
  | some parts =>
    obtain ⟨key, value⟩ := parts
    rw [hcut] at hsetting
    cases key with
    | nil => cases hsetting
    | cons c key =>
      cases hparse : SettingUpdate.parse (String.ofList (c :: key)) (String.ofList value) with
      | ok change => exact ⟨change, by simp only [hparse]⟩
      | error e =>
        simp only [hparse, Validation.require] at hsetting
        cases hexists : surroundings.hasSetting (String.ofList (c :: key)) with
        | false =>
          rw [hexists] at hsetting
          cases hsetting
        | true =>
          rw [hexists] at hsetting
          cases hsetting

/-- A drag whose check passes has two sides, and those can be used that are plain. -/
theorem drag?_of_check (hsides : Validation.checkEndpoints argument = .ok ()) :
    ∃ start finish, Action.drag? argument = some (.drag start finish) ∧
      (PlainSides argument → start.isSome ∧ finish.isSome) := by
  rw [Validation.checkEndpoints] at hsides
  cases hcut : Text.cutFirst ',' argument.toList with
  | none =>
    rw [hcut] at hsides
    cases hsides
  | some parts =>
    obtain ⟨start, finish⟩ := parts
    simp only [hcut, Validation.require_eq_ok_iff, List.all_cons, List.all_nil, Bool.and_true,
      Bool.and_eq_true] at hsides
    refine ⟨Action.endpoint? start, Action.endpoint? finish, ?_, fun hplain ↦ ⟨?_, ?_⟩⟩
    · rw [Action.drag?, hcut, Option.map_some]
    · exact isSome_endpoint? hsides.1 (hplain start finish hcut start (by simp))
    · exact isSome_endpoint? hsides.2 (hplain start finish hcut finish (by simp))

/-- What passes the check asks for an action, and the action is ready. -/
theorem ofOpcode?_of_checkArgument {desk : Desk σ ι}
    (hcommands : desk.command? = surroundings.command?) {op : Opcode}
    (hargument : Validation.checkArgument surroundings op argument = .ok ()) :
    ∃ action, Action.ofOpcode? op argument = some action ∧
      ((op = .drag → PlainSides argument) → action.Ready desk) := by
  cases op with
  | startMenu | maximize | minimize | screenshot | copy | paste | selectAll =>
    exact ⟨_, rfl, fun _ ↦ trivial⟩
  | type =>
    rw [Action.ofOpcode?]
    cases Opcode.filePath? argument with
    | some path => exact ⟨.typeFile path, rfl, fun _ ↦ trivial⟩
    | none => exact ⟨.type argument, rfl, fun _ ↦ trivial⟩
  | leftClick | rightClick =>
    obtain ⟨place, hplace⟩ := read_of_parse hargument
    rw [Action.ofOpcode?, hplace]
    exact ⟨_, rfl, fun _ ↦ trivial⟩
  | sleep =>
    obtain ⟨ms, hms⟩ := Option.isSome_iff_exists.1 (Validation.require_eq_ok_iff.1 hargument)
    rw [Action.ofOpcode?, hms]
    exact ⟨.sleep ms, rfl, fun _ ↦ trivial⟩
  | updateSetting =>
    obtain ⟨change, hchange⟩ := update?_of_check hargument
    exact ⟨.update change, hchange, fun _ ↦ trivial⟩
  | runCommand =>
    refine ⟨.call argument, rfl, fun _ ↦ ?_⟩
    have hname := Validation.require_eq_ok_iff.1 hargument
    rwa [Surroundings.runnable?, ← hcommands] at hname
  | altTab =>
    obtain ⟨n, hn, hbound⟩ := count?_of_check (Validation.require_eq_ok_iff.1 hargument)
    rw [Action.ofOpcode?, hn]
    exact ⟨.switchWindows n, rfl, fun _ ↦ switchSize_le_textCapacity hbound⟩
  | tab =>
    obtain ⟨n, hn, -⟩ := count?_of_check (Validation.require_eq_ok_iff.1 hargument)
    rw [Action.ofOpcode?, hn]
    split
    · exact ⟨_, rfl, fun _ ↦ trivial⟩
    · exact ⟨.tabs n, rfl, fun _ ↦ trivial⟩
  | drag =>
    obtain ⟨start, finish, hdrag, hready⟩ := drag?_of_check hargument
    exact ⟨.drag start finish, hdrag, fun hplain ↦ hready (hplain rfl)⟩
  | findAndClick | doubleClickImage | findAndRightClick | doubleRightClickImage | waitForImage =>
    obtain ⟨image, himage⟩ := exists_of_map_eq_ok hargument
    rw [Action.ofOpcode?, Action.respond?, himage]
    exact ⟨_, rfl, fun _ ↦ trivial⟩
  | clickLastInstance =>
    obtain ⟨image, himage⟩ := exists_of_map_eq_ok hargument
    rw [Action.ofOpcode?, himage]
    exact ⟨_, rfl, fun _ ↦ trivial⟩
  | waitForImageWithTimeout =>
    obtain ⟨timed, htimed⟩ := exists_of_map_eq_ok hargument
    rw [Action.ofOpcode?, htimed]
    exact ⟨_, rfl, fun _ ↦ trivial⟩
  | loop => cases hargument

end Argument

end Macropad.Engine
