import Macropad.Number.Integer
import Macropad.Text.Cut

/-!
Loop headers. `[n]` repeats one instruction `n` times and `[k:n]` repeats a block of
`k` instructions, the one behind the header included. Both numbers are positive and
fit 32 bits, which their type says; any other bracket is kept as written so that it
can be reported.
-/

set_option autoImplicit false

namespace Macropad.Language

abbrev LoopNumber : Type := { n : Nat // 1 ≤ n ∧ n < UInt32.size }

namespace LoopNumber

def one : LoopNumber := ⟨1, by decide⟩

def read (s : List Char) : Option LoopNumber :=
  match Number.readBounded (UInt32.size - 1) s with
  | none => none
  | some n => if h : 1 ≤ n ∧ n < UInt32.size then some ⟨n, h⟩ else none

end LoopNumber

structure LoopSpec where
  count : LoopNumber
  span? : Option LoopNumber
deriving Repr, DecidableEq

namespace LoopSpec

/-- How many instructions the block takes. -/
def span (spec : LoopSpec) : Nat := (spec.span?.getD .one).val

def text (spec : LoopSpec) : String :=
  match spec.span? with
  | some span => "[" ++ toString span.val ++ ":" ++ toString spec.count.val ++ "]"
  | none => "[" ++ toString spec.count.val ++ "]"

theorem span_pos (spec : LoopSpec) : 1 ≤ spec.span := (spec.span?.getD .one).property.1

end LoopSpec

inductive LoopHeader
  | valid (spec : LoopSpec)
  /-- An opening bracket that is never closed. -/
  | unclosed
  | invalid (body : String)
deriving Repr, DecidableEq

/-- The header with this text between its brackets. -/
def LoopHeader.ofBody (body : List Char) : LoopHeader :=
  match Text.cutFirst ':' body with
  | some (span, count) =>
    match LoopNumber.read span, LoopNumber.read count with
    | some span, some count => .valid ⟨count, some span⟩
    | _, _ => .invalid (String.ofList body)
  | none =>
    match LoopNumber.read body with
    | some count => .valid ⟨count, none⟩
    | none => .invalid (String.ofList body)

end Macropad.Language
