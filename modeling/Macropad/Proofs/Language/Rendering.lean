import Macropad.Proofs.Language.Translation

/-!
# Programs and their text

Reading the text of a program loses nothing of it. The segments of a text, joined with semicolons,
are the text again, without a semicolon at its end; a semicolon between braces lies within a
segment, and no other one does.

What is written is read back. A `Clause` is an instruction as a writer has it in mind: an opcode, an
argument, and the loop that it may begin. The header of a loop is read back from the form in which
it is displayed (`LoopHeader.ofBody_body`), and an instruction from its segment (`ofSegment_write`).
`parse_lossless` puts the two together for texts and for programs of clauses.
-/

set_option autoImplicit false

namespace Macropad.Language

/-! ### Loop headers -/

theorem not_mem_toDigits {c : Char} (hc : c.isDigit = false) (n : Nat) :
    c ∉ Nat.toDigits 10 n := by
  intro hmem
  have hdigit := Nat.isDigit_of_mem_toDigits (by decide) (by decide) hmem
  cases hc.symm.trans hdigit

theorem LoopNumber.read_toDigits (n : LoopNumber) :
    LoopNumber.read (Nat.toDigits 10 n.val) = some n := by
  have hle : n.val ≤ UInt32.size - 1 := Nat.le_sub_one_of_lt n.property.2
  rw [LoopNumber.read, Number.readBounded_toDigits hle]
  exact dif_pos n.property

namespace LoopSpec

/-- What the displayed header has between its brackets. -/
def body (spec : LoopSpec) : List Char :=
  match spec.span? with
  | some span => Nat.toDigits 10 span.val ++ ':' :: Nat.toDigits 10 spec.count.val
  | none => Nat.toDigits 10 spec.count.val

theorem toList_text (spec : LoopSpec) : spec.text.toList = '[' :: spec.body ++ [']'] := by
  rw [text, body]
  cases spec.span? <;> simp

theorem not_mem_body (spec : LoopSpec) {c : Char} (hc : c.isDigit = false) (hcolon : c ≠ ':') :
    c ∉ spec.body := by
  rw [body]
  cases spec.span? with
  | none => exact not_mem_toDigits hc _
  | some span => simp [not_mem_toDigits hc, hcolon]

end LoopSpec

/-- A displayed header is read back. -/
theorem LoopHeader.ofBody_body (spec : LoopSpec) : LoopHeader.ofBody spec.body = .valid spec := by
  have hcolon : ∀ n, ':' ∉ Nat.toDigits 10 n := not_mem_toDigits (by decide)
  obtain ⟨count, span?⟩ := spec
  cases span? with
  | none =>
    have hcut : Text.cutFirst ':' (Nat.toDigits 10 count.val) = none :=
      Text.cutFirst_eq_none_iff.2 (hcolon count.val)
    simp only [LoopHeader.ofBody, LoopSpec.body, hcut, LoopNumber.read_toDigits]
  | some span =>
    have hcut : Text.cutFirst ':' (Nat.toDigits 10 span.val ++ ':' :: Nat.toDigits 10 count.val) =
        some (Nat.toDigits 10 span.val, Nat.toDigits 10 count.val) :=
      Text.cutFirst_eq_some_iff.2 ⟨rfl, hcolon span.val⟩
    simp only [LoopHeader.ofBody, LoopSpec.body, hcut, LoopNumber.read_toDigits]

/-! ### Instructions -/

namespace Instruction

theorem code_ofBody_eq_none_iff {header : Option LoopHeader} {body : List Char} :
    (ofBody header body).code = none ↔ body = [] := by
  cases body <;> simp [ofBody]

/-- A segment that does not begin with a bracket has no header. -/
theorem ofSegment_of_plain {segment : List Char} (hplain : ∀ rest, segment ≠ '[' :: rest) :
    ofSegment segment = ofBody none segment := by
  rw [ofSegment]
  exact hplain

theorem ofSegment_cons {code : Char} (hcode : code ≠ '[') (argument : List Char) :
    ofSegment (code :: argument) = ⟨some code, String.ofList argument, none⟩ :=
  ofSegment_of_plain fun _ hcons ↦ hcode (List.cons.inj hcons).1

/-- A header ends at the first closing bracket. -/
theorem ofSegment_header {body : List Char} (hbody : ']' ∉ body) (after : List Char) :
    ofSegment ('[' :: body ++ ']' :: after) = ofBody (some (.ofBody body)) after := by
  have hcut := Text.cutFirst_eq_some_iff.2 ⟨(rfl : _ = body ++ ']' :: after), hbody⟩
  rw [List.cons_append, ofSegment, hcut]

end Instruction

/-- A text that a semicolon does not part is one instruction. -/
theorem parse_of_closed {text : String} {code : Char} {argument : List Char}
    (htext : text.toList = code :: argument) (hbracket : code ≠ '[') (hsemicolon : code ≠ ';')
    (hargument : Segment.Closed (some code) argument) :
    Program.parse text = [⟨some code, String.ofList argument, none⟩] := by
  have hclosed : Segment.Closed none (code :: argument) :=
    Segment.closed_cons hsemicolon hargument none
  rw [Program.parse, htext, Segment.split_of_closed hclosed (List.cons_ne_nil _ _),
    List.map_singleton, Instruction.ofSegment_cons hbracket]

/-- An instruction as it is meant by who writes it. -/
structure Clause where
  /-- The loop that the instruction begins. -/
  loop? : Option LoopSpec
  opcode : Opcode
  argument : List Char
  opcode_ne_loop : opcode ≠ .loop
  /-- Each semicolon stands between an opening and a closing brace. -/
  argument_escaped : ∀ before after, argument = before ++ ';' :: after →
    before.getLast? = some '{' ∧ after.head? = some '}'

namespace Clause

/-- The displayed header, the character of the opcode, and the argument. -/
def write (clause : Clause) : List Char :=
  (clause.loop?.elim [] fun spec ↦ spec.text.toList) ++ clause.opcode.code :: clause.argument

def instruction (clause : Clause) : Instruction where
  code := some clause.opcode.code
  argument := String.ofList clause.argument
  header := clause.loop?.map .valid

/-- The instruction as one that can be written in several forms. -/
def sentence (clause : Clause) : Phrasing.Sentence where
  body? := clause.loop?.map LoopSpec.body
  opcode := clause.opcode
  argument := clause.argument
  body_plain := by
    intro body hbody
    obtain ⟨spec, -, rfl⟩ := Option.map_eq_some_iff.1 hbody
    exact ⟨spec.not_mem_body (by decide) (by decide), spec.not_mem_body (by decide) (by decide)⟩
  opcode_ne_loop := clause.opcode_ne_loop
  argument_escaped := clause.argument_escaped

theorem write_sentence (clause : Clause) : clause.sentence.write .short = clause.write := by
  have hbody : clause.sentence.body? = clause.loop?.map LoopSpec.body := rfl
  rw [write, Phrasing.Sentence.write, Phrasing.Sentence.header, hbody]
  cases clause.loop? with
  | none => rfl
  | some spec =>
    rw [Option.elim_some, LoopSpec.toList_text]
    rfl

theorem whole_write (clause : Clause) : Segment.Whole clause.write :=
  clause.write_sentence ▸ Phrasing.whole_write clause.sentence .short

/-- A written instruction is read back. -/
theorem ofSegment_write (clause : Clause) :
    Instruction.ofSegment clause.write = clause.instruction := by
  rw [write, instruction]
  cases clause.loop? with
  | none => exact Instruction.ofSegment_cons (Phrasing.code_ne clause.opcode_ne_loop).1 _
  | some spec =>
    have hbracket : ']' ∉ spec.body := spec.not_mem_body (by decide) (by decide)
    rw [Option.elim_some, LoopSpec.toList_text, List.append_assoc, List.singleton_append,
      Instruction.ofSegment_header hbracket, LoopHeader.ofBody_body]
    rfl

end Clause

/-! ### Whole texts -/

/-- Nothing of a text is lost in its segments: joined with semicolons they are the text without one
semicolon at its end, a semicolon within a segment stands between braces, and none between two
segments does. And a program of clauses is read back from the text in which each of them is written
as its displayed header, its character and its argument, with or without a semicolon at the end. -/
theorem parse_lossless (text : List Char) (first : Clause) (rest : List Clause)
    (trailing : Bool) :
    (Segment.join (Segment.split text) = Text.dropLastIf ';' text ∧
      (∀ segment ∈ Segment.split text, ∀ before after, segment = before ++ ';' :: after →
        before.getLast? = some '{' ∧ after.head? = some '}') ∧
      ∀ before after, Segment.split text = before ++ after → before ≠ [] → after ≠ [] →
        ¬((Segment.join before).getLast? = some '{' ∧
          (Segment.join after).head? = some '}')) ∧
    Program.parse (String.ofList (Segment.join ((first :: rest).map Clause.write) ++
        if trailing then [';'] else [])) =
      (first :: rest).map Clause.instruction := by
  have hparted := Segment.parted_split text
  refine ⟨⟨Segment.join_split text, ?_, ?_⟩, ?_⟩
  · intro segment hsegment before after hparts
    have hclosed := hparted.closed (by decide) segment hsegment
    have hescaped := Segment.closed_iff.1 hclosed before after hparts
    simpa [Segment.isEscaped] using hescaped
  · intro before after hsplit hbefore hafter
    rw [hsplit] at hparted
    have hseam := hparted.seam hbefore hafter
    simpa [Segment.isEscaped] using hseam
  · have hwhole : ∀ s ∈ (first :: rest).map Clause.write, Segment.Whole s := by
      intro s hs
      obtain ⟨clause, -, rfl⟩ := List.mem_map.1 hs
      exact clause.whole_write
    have hread : ∀ clause ∈ first :: rest,
        (Instruction.ofSegment ∘ Clause.write) clause = clause.instruction :=
      fun clause _ ↦ clause.ofSegment_write
    rw [Program.parse, String.toList_ofList,
      Segment.split_join hwhole (by simp) trailing, List.map_map, List.map_congr_left hread]

end Macropad.Language
