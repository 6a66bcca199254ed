import Macropad.Language.Validation
import Macropad.Proofs.Engine.Running
import Macropad.Proofs.Keys.Verbatim
import Macropad.Proofs.Language.Rendering

/-!
# Typing a text with a program

Behind the opcode for typing, the injection form of any text is the argument of a single
instruction: its semicolons all stand between braces (`closed_injected`), and it never has the form
of a path (`filePath?_injectionForm`). `type_verbatim` says what becomes of it: the program is
valid, its run makes one call, which carries the injection form, and this is key text for exactly
the strokes that type the text.
-/

set_option autoImplicit false

namespace Macropad.Engine

open Macropad.Input Macropad.Keys Macropad.Language Macropad.Screen Macropad.Setting

/-! ### The injection form as an argument -/

/-- The key text that types a text. -/
def injectionForm (t : String) : String := String.ofList (toInjectionForm t.toList)

/-- The instruction that types a text. -/
def typing (t : String) : Instruction := ⟨some 's', injectionForm t, none⟩

theorem not_mem_inBraces {c : Char} {name : List Char} (hname : c ∉ name) (hopen : c ≠ '{')
    (hclose : c ≠ '}') : c ∉ inBraces name := by
  simp [inBraces, hname, hopen, hclose]

/-- A unit in front of a text that is closed anywhere. -/
theorem closed_unit {unit : TextUnit} (hunit : unit.Scanned) {rest : List Char}
    (hrest : ∀ before, Segment.Closed before rest) (before : Option Char) :
    Segment.Closed before (unit.injected ++ rest) := by
  cases unit with
  | token name =>
    have hname : ';' ∉ name.toList := (controlName_plain name hunit).2.2.2
    exact Segment.closed_append (not_mem_inBraces hname (by decide) (by decide)) hrest before
  | newline => exact Segment.closed_append (by decide) hrest before
  | special c =>
    by_cases hc : c = ';'
    · subst hc
      exact Segment.closed_semicolon hrest before
    · have hbody : ';' ∉ [c] := by simpa using Ne.symm hc
      exact Segment.closed_append (not_mem_inBraces hbody (by decide) (by decide)) hrest before
  | plain c => exact Segment.closed_cons (ne_of_isSpecial hunit (by decide)) (hrest (some c)) before

theorem closed_injected {units : List TextUnit} (hunits : ∀ unit ∈ units, unit.Scanned)
    (before : Option Char) : Segment.Closed before (units.flatMap TextUnit.injected) := by
  induction units generalizing before with
  | nil => trivial
  | cons unit units ih =>
    obtain ⟨hunit, hunits⟩ := List.forall_mem_cons.1 hunits
    rw [List.flatMap_cons]
    exact closed_unit hunit (ih hunits) before

/-- The program that types a text is one instruction. -/
theorem parse_injectionForm (t : String) :
    Program.parse ("s" ++ injectionForm t) = [typing t] := by
  have htext : ("s" ++ injectionForm t).toList = 's' :: toInjectionForm t.toList := by
    simp only [injectionForm, String.toList_append, String.toList_ofList]
    rfl
  exact parse_of_closed htext (by decide) (by decide)
    (closed_injected TextUnit.scanned_of_mem_scan _)

/-- The injection form begins with no parenthesis. -/
theorem head?_injected {units : List TextUnit} (hunits : ∀ unit ∈ units, unit.Scanned) :
    (units.flatMap TextUnit.injected).head? ≠ some '(' := by
  cases units with
  | nil => exact nofun
  | cons unit units =>
    have hunit := (List.forall_mem_cons.1 hunits).1
    cases unit with
    | token | newline | special => exact fun h ↦ absurd (Option.some.inj h) (by decide)
    | plain c => exact fun h ↦ ne_of_isSpecial hunit (by decide) (Option.some.inj h)

theorem filePath?_injectionForm (t : String) : Opcode.filePath? (injectionForm t) = none := by
  have hhead : (toInjectionForm t.toList).head? ≠ some '(' :=
    head?_injected TextUnit.scanned_of_mem_scan
  rw [Opcode.filePath?, injectionForm, String.toList_ofList]
  split
  · rename_i rest htext
    exact absurd (congrArg List.head? htext) hhead
  · rfl

theorem validate_type (argument : String) (surroundings : Surroundings) :
    Program.validate surroundings [⟨some 's', argument, none⟩] = .valid := by
  have hopcode : Opcode.ofCode? 's' = some .type := Opcode.ofCode?_code .type
  simp only [Program.validate, Validation.checkFrom, Validation.checkInstruction,
    Validation.checkHeader, hopcode, Validation.checkArgument, Opcode.shape]
  rfl

/-! ### The run -/

section Run

variable {σ ι : Type} (desk : Desk σ ι) (session : Session) (locator : σ) (injector : ι)

/-- A single instruction that types key text makes one call. -/
theorem execute_type {i : Instruction} {keys : String}
    (haction : Action.ofInstruction i = .type keys) (hheader : i.header = none) :
    let run := execute desk [i] session locator injector
    run.ending = .ok (.completed 1) ∧
      run.state.events = [.began 0 1 i session.maxCallDepth,
        .injected (.text keys) (desk.injector.perform (.text keys) injector).1] := by
  rw [execute_single desk haction (fun _ ↦ nofun) hheader]
  exact ⟨rfl, rfl⟩

end Run

theorem ofInstruction_typing (t : String) :
    Action.ofInstruction (typing t) = .type (injectionForm t) := by
  have hopcode : (typing t).opcode? = some .type := Opcode.ofCode?_code .type
  refine ofInstruction_of_opcode hopcode ?_
  simp only [Action.ofOpcode?, typing, filePath?_injectionForm]

/-- Every text can be typed as it stands. The program that types its injection form is one
instruction, which is valid anywhere and makes a single call. This call carries key text that is
read as the strokes that type the text, and as no others; no modifier takes part in them. -/
theorem type_verbatim (t : String) :
    Program.parse ("s" ++ injectionForm t) = [typing t] ∧
      (∀ surroundings, Program.validate surroundings [typing t] = .valid) ∧
      (∀ (σ ι : Type) (desk : Desk σ ι) (session : Session) (locator : σ) (injector : ι),
        let run := execute desk [typing t] session locator injector
        let call := Operation.text (injectionForm t)
        run.ending = .ok (.completed 1) ∧
          run.state.events = [.began 0 1 (typing t) session.maxCallDepth,
            .injected call (desk.injector.perform call injector).1]) ∧
      ∃ strokes, parseKeys (injectionForm t).toList = .ok strokes ∧
        (∀ other, Verbatim t.toList other ↔ other = strokes) ∧
        ∀ stroke ∈ strokes, stroke.IsPlain := by
  have hstrokes : ∀ other, Verbatim t.toList other ↔
      other = strokesOf (TextUnit.scan t.toList) := fun _ ↦ verbatim_iff
  refine ⟨parse_injectionForm t, validate_type (injectionForm t), ?_,
    strokesOf (TextUnit.scan t.toList), ?_, hstrokes, ?_⟩
  · intro σ ι desk session locator injector
    exact execute_type desk session locator injector (ofInstruction_typing t) rfl
  · rw [injectionForm, String.toList_ofList, parseKeys_toInjectionForm]
  · exact Verbatim.isPlain ((hstrokes _).2 rfl)

end Macropad.Engine
