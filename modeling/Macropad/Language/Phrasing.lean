import Macropad.Language.Instruction

/-!
The two written forms of a program. The short form begins an instruction with the
character of its opcode, the verbose form with the phrase. Either form is turned into
the other segment by segment; loop headers, arguments and whatever begins with neither
a character nor a phrase stay as they are.
-/

set_option autoImplicit false

namespace Macropad.Language.Phrasing

/-- Changes what follows the loop header, if there is one. -/
def onBody (f : List Char → List Char) (segment : List Char) : List Char :=
  match Segment.cutLoopHeader segment with
  | some (header, body) => header ++ f body
  | none => f segment

def verboseBody : List Char → List Char
  | [] => []
  | code :: argument =>
    match Opcode.ofCode? code with
    | none | some .loop => code :: argument
    | some op => op.phrase.toList ++ argument

/-- The opcode with the longest phrase that the text begins with. -/
def longestPhrase (body : List Char) : Option Opcode :=
  (Opcode.instructionOpcodes.filter fun op ↦ op.phrase.toList.isPrefixOf body).foldl
    (fun best op ↦
      match best with
      | some b => if b.phrase.length ≤ op.phrase.length then some op else some b
      | none => some op)
    none

def shortBody (body : List Char) : List Char :=
  match longestPhrase body with
  | some op => op.code :: body.drop op.phrase.toList.length
  | none => body

def onSegments (f : List Char → List Char) (source : String) : String :=
  String.ofList (Segment.join ((Segment.split source.toList).map (onBody f)))

def toVerbose (source : String) : String := onSegments verboseBody source

def toShort (source : String) : String := onSegments shortBody source

end Macropad.Language.Phrasing
