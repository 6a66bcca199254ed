import Macropad.Language.Validation

/-!
# Checking programs one behind the other

The check of an instruction sees the instruction and how many follow up to the end of the program.
More of them matter in one case only: a block that ran past the end may fit now. Every other finding
stays (`checkInstruction_add`), and so the check of two programs, one behind the other, is the check
of the first one and then, if that finds nothing, the check of the second one with its positions
moved on (`checkFrom_append`).

`Program.validate_append` says what follows for verdicts. Programs that are valid are valid
together, the first fault of the second one is reported at its new position, and a fault of the
first one is reported where it was, unless it is a block that runs past the end.
-/

set_option autoImplicit false

namespace Macropad.Language

/-! ### Verdicts on parts of a program -/

namespace Verdict

/-- The verdict on two parts of a program in a row: the first fault counts. -/
def andThen : Verdict → Verdict → Verdict
  | .valid, next => next
  | .invalid position fault, _ => .invalid position fault

/-- The verdict on a program behind so many other instructions. -/
def behind (before : Nat) : Verdict → Verdict
  | .valid => .valid
  | .invalid position fault => .invalid (before + position) fault

/-- The fault is a block that runs past the end. -/
def RunsPastEnd (verdict : Verdict) : Prop :=
  ∃ position span, verdict = .invalid position (.loopPastEnd span)

end Verdict

namespace Validation

variable {surroundings : Surroundings} {i : Instruction} {remaining : Nat}

/-! ### One instruction -/

/-- A header is judged as before when more instructions follow, unless its block did not fit. -/
theorem checkHeader_add (i : Instruction) (remaining more : Nat) :
    checkHeader i (remaining + more) = checkHeader i remaining ∨
      ∃ span, checkHeader i remaining = .error (.loopPastEnd span) := by
  rw [checkHeader, checkHeader]
  split
  · exact .inl rfl
  · exact .inl rfl
  · exact .inl rfl
  · rename_i spec _
    by_cases hfits : spec.span ≤ remaining
    · have hmore : spec.span ≤ remaining + more := Nat.le_add_right_of_le hfits
      exact .inl (by rw [decide_eq_true hfits, decide_eq_true hmore])
    · cases i.code.isSome with
      | false => exact .inl rfl
      | true => exact .inr ⟨spec.span, by rw [decide_eq_false hfits]; rfl⟩

/-- An instruction is judged as before when more instructions follow, unless its block did not
fit. -/
theorem checkInstruction_add (more : Nat)
    (hfits : ∀ span, checkInstruction surroundings i remaining ≠ .error (.loopPastEnd span)) :
    checkInstruction surroundings i (remaining + more) =
      checkInstruction surroundings i remaining := by
  obtain hsame | ⟨span, hpast⟩ := checkHeader_add i remaining more
  · rw [checkInstruction, checkInstruction, hsame]
  · refine absurd ?_ (hfits span)
    rw [checkInstruction, hpast]
    rfl

/-! ### Several instructions -/

theorem checkFrom_add (before position : Nat) (program : Program) :
    checkFrom surroundings (before + position) program =
      (checkFrom surroundings position program).behind before := by
  induction program generalizing position with
  | nil => rfl
  | cons i rest ih =>
    rw [checkFrom, checkFrom]
    cases checkInstruction surroundings i (rest.length + 1) with
    | error fault => rfl
    | ok _ => exact ih (position + 1)

theorem checkFrom_append {position : Nat} {first second : Program}
    (hfits : ¬ (checkFrom surroundings position first).RunsPastEnd) :
    checkFrom surroundings position (first ++ second) =
      (checkFrom surroundings position first).andThen
        (checkFrom surroundings (first.length + position) second) := by
  induction first generalizing position with
  | nil => rw [List.nil_append, List.length_nil, Nat.zero_add]; rfl
  | cons i rest ih =>
    have hinstruction (span : Nat) :
        checkInstruction surroundings i (rest.length + 1) ≠ .error (.loopPastEnd span) := by
      intro hpast
      exact hfits ⟨position, span, by rw [checkFrom, hpast]⟩
    have hlength : (rest ++ second).length + 1 = rest.length + 1 + second.length := by
      rw [List.length_append, Nat.add_right_comm]
    rw [checkFrom] at hfits
    rw [List.cons_append, checkFrom, checkFrom, hlength,
      checkInstruction_add second.length hinstruction]
    cases hcheck : checkInstruction surroundings i (rest.length + 1) with
    | error fault => rfl
    | ok _ =>
      rw [hcheck] at hfits
      rw [List.length_cons, Nat.add_assoc, Nat.add_comm 1]
      exact ih hfits

end Validation

/-! ### Programs -/

variable {surroundings : Surroundings} {first second : Program}

theorem Program.validate_eq_andThen (hfits : ¬ (first.validate surroundings).RunsPastEnd) :
    Program.validate surroundings (first ++ second) =
      (first.validate surroundings).andThen
        ((second.validate surroundings).behind first.length) := by
  rw [validate, Validation.checkFrom_append hfits, Validation.checkFrom_add]
  rfl

/-- Programs may be checked one by one. Two valid ones are valid together, a fault of the second one
is reported behind the first one, and a fault of the first one, unless it is a block that runs past
the end, is reported as it is. -/
theorem Program.validate_append :
    (first.validate surroundings = .valid → second.validate surroundings = .valid →
      Program.validate surroundings (first ++ second) = .valid) ∧
    (∀ position fault, first.validate surroundings = .valid →
      second.validate surroundings = .invalid position fault →
      Program.validate surroundings (first ++ second) =
        .invalid (first.length + position) fault) ∧
    ∀ position fault, first.validate surroundings = .invalid position fault →
      (∀ span, fault ≠ .loopPastEnd span) →
      Program.validate surroundings (first ++ second) = .invalid position fault := by
  have hvalid (hfirst : first.validate surroundings = .valid) :
      Program.validate surroundings (first ++ second) =
        (second.validate surroundings).behind first.length := by
    rw [validate_eq_andThen (by rw [hfirst]; rintro ⟨_, _, ⟨⟩⟩), hfirst]
    rfl
  refine ⟨fun hfirst hsecond ↦ ?_, fun position fault hfirst hsecond ↦ ?_,
    fun position fault hfirst hfault ↦ ?_⟩
  · rw [hvalid hfirst, hsecond]
    rfl
  · rw [hvalid hfirst, hsecond]
    rfl
  · have hfits : ¬ (first.validate surroundings).RunsPastEnd := by
      rintro ⟨_, span, hpast⟩
      rw [hfirst] at hpast
      exact hfault span (Verdict.invalid.inj hpast).2
    rw [validate_eq_andThen hfits, hfirst]
    rfl

/-- A program whose second instruction is at fault, in front of a valid one and behind it. -/
theorem Program.validate_append_of_invalid :
    let surroundings : Surroundings := ⟨fun _ ↦ none, fun _ ↦ false⟩
    let valid := Program.parse "e"
    let invalid := Program.parse "x;[0]e"
    valid.validate surroundings = .valid ∧
      invalid.validate surroundings = .invalid 2 (.invalidLoop "0") ∧
      Program.validate surroundings (valid ++ valid) = .valid ∧
      Program.validate surroundings (valid ++ invalid) = .invalid 3 (.invalidLoop "0") ∧
      Program.validate surroundings (invalid ++ valid) = .invalid 2 (.invalidLoop "0") := by
  intro surroundings valid invalid
  have hvalid : valid.validate surroundings = .valid := by decide
  have hinvalid : invalid.validate surroundings = .invalid 2 (.invalidLoop "0") := by decide
  exact ⟨hvalid, hinvalid, validate_append.1 hvalid hvalid,
    validate_append.2.1 2 _ hvalid hinvalid, validate_append.2.2 2 _ hinvalid (fun _ ↦ nofun)⟩

/-- The block of the first program fits when the second one follows. -/
example :
    let surroundings : Surroundings := ⟨fun _ ↦ none, fun _ ↦ false⟩
    (Program.parse "[2:3]e").validate surroundings = .invalid 1 (.loopPastEnd 2) ∧
      Program.validate surroundings (Program.parse "[2:3]e" ++ Program.parse "x") = .valid := by
  decide

end Macropad.Language
