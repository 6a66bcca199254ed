import Macropad.Language.Loop
import Macropad.Language.Opcode
import Macropad.Language.Segment

/-!
Programs. A program is a list of instructions, one for each segment of its text;
reading rejects nothing, so that every fault can be reported with its position.
-/

set_option autoImplicit false

namespace Macropad.Language

structure Instruction where
  /-- The opcode character; an empty segment and a header with nothing behind it have
  none. -/
  code : Option Char
  argument : String
  header : Option LoopHeader
deriving Repr, DecidableEq

abbrev Program : Type := List Instruction

namespace Instruction

def ofBody (header : Option LoopHeader) : List Char → Instruction
  | [] => ⟨none, "", header⟩
  | code :: argument => ⟨some code, String.ofList argument, header⟩

theorem header_ofBody (header : Option LoopHeader) (body : List Char) :
    (ofBody header body).header = header := by
  cases body <;> rfl

/-- An unclosed header leaves the bracket as the code and all that follows as the
argument. -/
def ofSegment (segment : List Char) : Instruction :=
  match segment with
  | '[' :: rest =>
    match Text.cutFirst ']' rest with
    | none => ⟨some '[', String.ofList rest, some .unclosed⟩
    | some (body, after) => ofBody (some (.ofBody body)) after
  | _ => ofBody none segment

/-- The loop that a well-formed header asks for. -/
def loop? (i : Instruction) : Option LoopSpec :=
  match i.header with
  | some (.valid spec) => some spec
  | _ => none

def opcode? (i : Instruction) : Option Opcode := i.code.bind Opcode.ofCode?

/-- How often the block that starts here runs. -/
def passes (i : Instruction) : Nat :=
  match i.loop? with
  | some spec => spec.count.val
  | none => 1

/-- How many instructions behind this one belong to its block. -/
def followers (i : Instruction) : Nat :=
  match i.loop? with
  | some spec => spec.span - 1
  | none => 0

end Instruction

def Program.parse (source : String) : Program :=
  (Segment.split source.toList).map Instruction.ofSegment

end Macropad.Language
