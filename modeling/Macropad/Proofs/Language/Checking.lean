import Macropad.Config.Check

/-!
# What a valid program satisfies

A program is valid when every instruction of it passes its check, each with as many instructions
behind it as there are (`validate_eq_valid_iff`). An instruction that passes has an opcode, whose
check its argument passes (`checkInstruction_eq_ok_iff`). The stored commands of an accepted
configuration are valid in the surroundings of the configuration itself
(`verdict_of_command?`).
-/

set_option autoImplicit false

namespace Macropad.Language

namespace Validation

theorem require_eq_ok_iff {condition : Bool} {fault : Fault} :
    require condition fault = .ok () ↔ condition = true := by
  cases condition <;> simp [require]

theorem checkInstruction_eq_ok_iff {surroundings : Surroundings} {i : Instruction}
    {remaining : Nat} :
    checkInstruction surroundings i remaining = .ok () ↔
      checkHeader i remaining = .ok () ∧
        ∃ op, i.opcode? = some op ∧ checkArgument surroundings op i.argument = .ok () := by
  rw [checkInstruction, Instruction.opcode?]
  cases checkHeader i remaining with
  | error fault => exact ⟨nofun, fun h ↦ absurd h.1 nofun⟩
  | ok _ =>
    cases i.code with
    | none => exact ⟨nofun, fun ⟨_, _, hop, _⟩ ↦ absurd hop nofun⟩
    | some code =>
      simp only [Option.bind_some, true_and]
      cases Opcode.ofCode? code with
      | none => exact ⟨nofun, fun ⟨_, hop, _⟩ ↦ absurd hop nofun⟩
      | some op =>
        refine ⟨fun hargument ↦ ⟨op, rfl, hargument⟩, ?_⟩
        rintro ⟨_, ⟨⟩, hargument⟩
        exact hargument

/-- A check from a position on passes when every instruction passes its own. -/
theorem checkFrom_eq_valid_iff {surroundings : Surroundings} {position : Nat}
    {program : Program} :
    checkFrom surroundings position program = .valid ↔
      ∀ k i, program[k]? = some i →
        checkInstruction surroundings i (program.length - k) = .ok () := by
  induction program generalizing position with
  | nil => exact ⟨fun _ _ _ ↦ nofun, fun _ ↦ rfl⟩
  | cons first rest ih =>
    have hcheck : checkFrom surroundings position (first :: rest) = .valid ↔
        checkInstruction surroundings first (rest.length + 1) = .ok () ∧
          checkFrom surroundings (position + 1) rest = .valid := by
      rw [checkFrom]
      cases checkInstruction surroundings first (rest.length + 1) with
      | error fault => exact ⟨nofun, fun h ↦ absurd h.1 nofun⟩
      | ok _ => exact ⟨fun h ↦ ⟨rfl, h⟩, fun h ↦ h.2⟩
    rw [hcheck, ih]
    constructor
    · rintro ⟨hfirst, hrest⟩ k i hi
      cases k with
      | zero =>
        obtain rfl := Option.some.inj hi
        exact hfirst
      | succ k =>
        rw [List.length_cons, Nat.add_sub_add_right]
        exact hrest k i hi
    · intro hall
      refine ⟨hall 0 first rfl, fun k i hi ↦ ?_⟩
      have hinstruction := hall (k + 1) i hi
      rwa [List.length_cons, Nat.add_sub_add_right] at hinstruction

end Validation

theorem Program.validate_eq_valid_iff {surroundings : Surroundings} {program : Program} :
    program.validate surroundings = .valid ↔
      ∀ k i, program[k]? = some i →
        Validation.checkInstruction surroundings i (program.length - k) = .ok () :=
  Validation.checkFrom_eq_valid_iff

end Macropad.Language

namespace Macropad.Config

open Macropad.Language

theorem check_eq_ok_iff {config : Config} :
    config.check = .ok () ↔ brokenBounds config.engine = [] ∧
      config.triggers.findIdx? hasBlankPath = none ∧ config.badCommand? = none := by
  rw [check]
  cases brokenBounds config.engine with
  | cons bound broken => exact ⟨nofun, fun h ↦ absurd h.1 nofun⟩
  | nil =>
    cases config.triggers.findIdx? hasBlankPath with
    | some index => exact ⟨nofun, fun h ↦ absurd h.2.1 nofun⟩
    | none =>
      cases config.badCommand? with
      | some bad => exact ⟨nofun, fun h ↦ absurd h.2.2 nofun⟩
      | none => exact ⟨fun _ ↦ ⟨rfl, rfl, rfl⟩, fun _ ↦ rfl⟩

/-- The configuration of defaults is accepted. -/
theorem check_default : ({} : Config).check = .ok () :=
  check_eq_ok_iff.2 ⟨by decide +kernel, rfl, rfl⟩

/-- Every stored command of an accepted configuration is valid. -/
theorem verdict_of_command? {config : Config} (hconfig : config.check = .ok ()) {name text : String}
    (hname : config.command? name = some text) : config.verdict text = .valid := by
  obtain ⟨-, -, hcommands⟩ := check_eq_ok_iff.1 hconfig
  obtain ⟨before, after, hentries, -⟩ := List.lookup_eq_some_iff.1 hname
  have hentry : (name, text) ∈ config.commands.entries := by
    rw [hentries]
    exact List.mem_append_right before List.mem_cons_self
  have hverdict := List.findSome?_eq_none_iff.1 hcommands (name, text) hentry
  simp only [ite_eq_left_iff, reduceCtorEq, imp_false, Bool.not_eq_true, Bool.not_eq_false]
    at hverdict
  cases hvalid : config.verdict text with
  | valid => rfl
  | invalid position fault =>
    rw [hvalid] at hverdict
    cases hverdict

end Macropad.Config
