import Macropad.Language.Phrasing
import Macropad.Proofs.Language.Segments

/-!
# Two forms of one program

A program can be written in the short form, in the verbose form, or with each instruction in a form
of its own. `translate_written` says that all these texts are the same to the translation: turned
into either form, each gives the text that is written in this form throughout.

Three facts carry it. No phrase begins another one, so a phrase is recognized whatever argument
follows it (`longestPhrase_phrase`). Phrases and characters of opcodes begin differently, so what is
already in a form stays in it (`verboseBody_opening`, `shortBody_opening`). And a written
instruction is a whole segment, whose header is cut off again as it was written (`whole_write`,
`onBody_write`).
-/

set_option autoImplicit false

namespace Macropad.Language.Phrasing

/-! ### Written instructions -/

/-- The forms in which an instruction can be written. -/
inductive Form
  | short
  | verbose
deriving Repr, DecidableEq

/-- What stands for the opcode. -/
def Form.opening (form : Form) (op : Opcode) : List Char :=
  match form with
  | .short => [op.code]
  | .verbose => op.phrase.toList

/-- The parts of an instruction that can be written in both forms. -/
structure Sentence where
  /-- The text between the brackets of the loop header, if there is one. -/
  body? : Option (List Char)
  opcode : Opcode
  argument : List Char
  body_plain : ∀ body, body? = some body → ']' ∉ body ∧ ';' ∉ body
  opcode_ne_loop : opcode ≠ .loop
  /-- Each semicolon stands between an opening and a closing brace. -/
  argument_escaped : ∀ before after, argument = before ++ ';' :: after →
    before.getLast? = some '{' ∧ after.head? = some '}'

namespace Sentence

def header (sentence : Sentence) : List Char :=
  match sentence.body? with
  | none => []
  | some body => '[' :: body ++ [']']

/-- The instruction in a form. -/
def write (sentence : Sentence) (form : Form) : List Char :=
  sentence.header ++ (form.opening sentence.opcode ++ sentence.argument)

end Sentence

/-- A program whose instructions are each written in a form of their own. -/
def mixedText (sentences : List (Form × Sentence)) : List Char :=
  Segment.join (sentences.map fun entry ↦ entry.2.write entry.1)

/-- A program that is written in one form throughout. -/
def uniformText (form : Form) (sentences : List Sentence) : List Char :=
  mixedText (sentences.map fun sentence ↦ (form, sentence))

/-! ### How instructions begin -/

/-- A phrase begins with a character that is neither an opcode nor a bracket or brace, and holds no
semicolon. -/
theorem phrase_eq_cons {op : Opcode} (hop : op ≠ .loop) :
    ∃ c rest, op.phrase.toList = c :: rest ∧ Opcode.ofCode? c = none ∧ c ≠ '[' ∧ c ≠ '}' ∧
      ';' ∉ c :: rest := by
  cases op with
  | loop => exact absurd rfl hop
  | _ => exact ⟨_, _, rfl, by decide, by decide, by decide, by decide⟩

theorem code_ne {op : Opcode} (hop : op ≠ .loop) :
    op.code ≠ '[' ∧ op.code ≠ '}' ∧ op.code ≠ ';' := by
  cases op with
  | loop => exact absurd rfl hop
  | _ => decide

/-- What stands for an opcode begins with no bracket and no brace, and holds no semicolon. -/
theorem opening_eq_cons (form : Form) {op : Opcode} (hop : op ≠ .loop) :
    ∃ c rest, form.opening op = c :: rest ∧ c ≠ '[' ∧ c ≠ '}' ∧ ';' ∉ c :: rest := by
  cases form with
  | short =>
    obtain ⟨hbracket, hbrace, hsemicolon⟩ := code_ne hop
    exact ⟨op.code, [], rfl, hbracket, hbrace, by simpa using hsemicolon.symm⟩
  | verbose =>
    obtain ⟨c, rest, hphrase, -, hbracket, hbrace, hsemicolon⟩ := phrase_eq_cons hop
    exact ⟨c, rest, hphrase, hbracket, hbrace, hsemicolon⟩

/-- No phrase begins another one. -/
theorem eq_of_phrase_begins : ∀ op ∈ Opcode.instructionOpcodes,
    ∀ other ∈ Opcode.instructionOpcodes, other.phrase.toList <+: op.phrase.toList →
      other = op := by
  decide

theorem filter_eq_instructionOpcodes {op : Opcode} (hop : op ≠ .loop) :
    Opcode.instructionOpcodes.filter (· = op) = [op] := by
  cases op with
  | loop => exact absurd rfl hop
  | _ => decide

theorem mem_instructionOpcodes {op : Opcode} (hop : op ≠ .loop) :
    op ∈ Opcode.instructionOpcodes :=
  List.mem_filter.2 ⟨Opcode.mem_all op, decide_eq_true hop⟩

theorem ne_loop_of_mem {op : Opcode} (hop : op ∈ Opcode.instructionOpcodes) : op ≠ .loop :=
  of_decide_eq_true (List.mem_filter.1 hop).2

/-- A text begins with the phrase in front of it and with no other one. -/
theorem isPrefixOf_phrase_append {op other : Opcode} (hop : op ∈ Opcode.instructionOpcodes)
    (hother : other ∈ Opcode.instructionOpcodes) (argument : List Char) :
    other.phrase.toList.isPrefixOf (op.phrase.toList ++ argument) = decide (other = op) := by
  rw [Bool.eq_iff_iff, List.isPrefixOf_iff_prefix, decide_eq_true_iff]
  constructor
  · intro hbegins
    rcases List.prefix_or_prefix_of_prefix hbegins (List.prefix_append _ argument) with hle | hle
    · exact eq_of_phrase_begins op hop other hother hle
    · exact (eq_of_phrase_begins other hother op hop hle).symm
  · rintro rfl
    exact List.prefix_append _ argument

/-- The phrase in front of an argument is recognized. -/
theorem longestPhrase_phrase {op : Opcode} (hop : op ≠ .loop) (argument : List Char) :
    longestPhrase (op.phrase.toList ++ argument) = some op := by
  have hmem := mem_instructionOpcodes hop
  have hfilter : (Opcode.instructionOpcodes.filter fun other ↦
      other.phrase.toList.isPrefixOf (op.phrase.toList ++ argument)) = [op] := by
    rw [← filter_eq_instructionOpcodes hop]
    exact List.filter_congr fun other hother ↦ isPrefixOf_phrase_append hmem hother argument
  rw [longestPhrase, hfilter]
  rfl

/-- No phrase begins with the character of an opcode. -/
theorem longestPhrase_code (op : Opcode) (argument : List Char) :
    longestPhrase (op.code :: argument) = none := by
  have hfilter : (Opcode.instructionOpcodes.filter fun other ↦
      other.phrase.toList.isPrefixOf (op.code :: argument)) = [] := by
    refine List.filter_eq_nil_iff.2 fun other hother hbegins ↦ ?_
    obtain ⟨c, rest, hphrase, hcode, -⟩ := phrase_eq_cons (ne_loop_of_mem hother)
    rw [hphrase, List.isPrefixOf_iff_prefix, List.cons_prefix_cons] at hbegins
    rw [hbegins.1, Opcode.ofCode?_code] at hcode
    cases hcode
  rw [longestPhrase, hfilter]
  rfl

/-! ### Translating one instruction -/

/-- What follows the header has a verbose form, whichever form it is in. -/
theorem verboseBody_opening (form : Form) {op : Opcode} (hop : op ≠ .loop)
    (argument : List Char) :
    verboseBody (form.opening op ++ argument) = Form.verbose.opening op ++ argument := by
  cases form with
  | short =>
    have hcode := Opcode.ofCode?_code op
    simp only [Form.opening, List.cons_append, List.nil_append, verboseBody, hcode]
  | verbose =>
    obtain ⟨c, rest, hphrase, hcode, -⟩ := phrase_eq_cons hop
    simp only [Form.opening, hphrase, List.cons_append, verboseBody, hcode]

/-- What follows the header has a short form, whichever form it is in. -/
theorem shortBody_opening (form : Form) {op : Opcode} (hop : op ≠ .loop) (argument : List Char) :
    shortBody (form.opening op ++ argument) = Form.short.opening op ++ argument := by
  cases form with
  | short =>
    have hnone : longestPhrase (Form.short.opening op ++ argument) = none :=
      longestPhrase_code op argument
    rw [shortBody, hnone]
  | verbose =>
    have hsome : longestPhrase (Form.verbose.opening op ++ argument) = some op :=
      longestPhrase_phrase hop argument
    rw [shortBody, hsome]
    simp only [Form.opening, List.drop_left, List.singleton_append]

/-- A written instruction is a whole segment. -/
theorem whole_write (sentence : Sentence) (form : Form) :
    Segment.Whole (sentence.write form) := by
  obtain ⟨c, rest, hopening, -, hbrace, hsemicolon⟩ :=
    opening_eq_cons form sentence.opcode_ne_loop
  have hargument : ∀ before, Segment.Closed before sentence.argument := by
    refine Segment.Closed.behind (Segment.closed_iff.2 fun left right hparts ↦ ?_)
    obtain ⟨hopen, hclose⟩ := sentence.argument_escaped left right hparts
    simp [Segment.isEscaped, hopen, hclose]
  have hphrase : ∀ before, Segment.Closed before (form.opening sentence.opcode ++
      sentence.argument) :=
    Segment.closed_append (hopening ▸ hsemicolon) hargument
  rw [Sentence.write, Sentence.header]
  cases hbody : sentence.body? with
  | none =>
    refine ⟨hphrase none, ?_, ?_⟩
    · rw [hopening]
      exact List.cons_ne_nil _ _
    · rw [hopening]
      exact fun hhead ↦ hbrace (Option.some.inj hhead)
  | some body =>
    have hheader : ';' ∉ '[' :: body ++ [']'] := by
      simp [(sentence.body_plain body hbody).2]
    refine ⟨Segment.closed_append hheader hphrase none, List.cons_ne_nil _ _, ?_⟩
    exact fun hhead ↦ absurd (Option.some.inj hhead) (by decide)

theorem cutLoopHeader_of_plain {segment : List Char} (hplain : ∀ rest, segment ≠ '[' :: rest) :
    Segment.cutLoopHeader segment = none := by
  rw [Segment.cutLoopHeader]
  exact hplain

theorem cutLoopHeader_of_header {header : List Char} (hheader : ']' ∉ header) (body : List Char) :
    Segment.cutLoopHeader ('[' :: header ++ ']' :: body) =
      some ('[' :: header ++ [']'], body) := by
  have hclosing : ']' ∉ '[' :: header := by simp [hheader]
  have hfirst := Text.cutFirst_eq_some_iff.2
    ⟨(rfl : _ = '[' :: header ++ ']' :: body), hclosing⟩
  rw [List.cons_append] at hfirst
  rw [List.cons_append, Segment.cutLoopHeader, hfirst]

/-- A segment without a header is changed as a whole. -/
theorem onBody_of_plain (f : List Char → List Char) {segment : List Char}
    (hplain : ∀ rest, segment ≠ '[' :: rest) : onBody f segment = f segment := by
  rw [onBody, cutLoopHeader_of_plain hplain]

/-- A header that is closed stays, and what follows it is changed. -/
theorem onBody_of_header (f : List Char → List Char) {header : List Char} (hheader : ']' ∉ header)
    (body : List Char) :
    onBody f ('[' :: header ++ ']' :: body) = '[' :: header ++ ']' :: f body := by
  rw [onBody, cutLoopHeader_of_header hheader]
  exact List.append_assoc ('[' :: header) [']'] (f body)

/-- The header of a written instruction stays, and what follows it is changed. -/
theorem onBody_write (f : List Char → List Char) (sentence : Sentence) (form : Form) :
    onBody f (sentence.write form) =
      sentence.header ++ f (form.opening sentence.opcode ++ sentence.argument) := by
  rw [Sentence.write, Sentence.header]
  cases hbody : sentence.body? with
  | none =>
    obtain ⟨c, rest, hopening, hbracket, -⟩ := opening_eq_cons form sentence.opcode_ne_loop
    refine onBody_of_plain f fun tail hcons ↦ ?_
    rw [hopening] at hcons
    exact hbracket (List.cons.inj hcons).1
  | some body =>
    have hstays := onBody_of_header f (sentence.body_plain body hbody).1
    rw [List.append_assoc, List.singleton_append, hstays, List.append_assoc, List.singleton_append]

/-! ### Translating a program -/

/-- A change of what follows the headers that brings every instruction to one form does so with the
whole text. -/
theorem onSegments_mixedText {f : List Char → List Char} {target : Form}
    (hf : ∀ form op argument, op ≠ Opcode.loop →
      f (Form.opening form op ++ argument) = target.opening op ++ argument)
    {sentences : List (Form × Sentence)} (hne : sentences ≠ []) (trailing : Bool) :
    onSegments f (String.ofList (mixedText sentences ++ if trailing then [';'] else [])) =
      String.ofList (uniformText target (sentences.map (·.2))) := by
  have hwhole : ∀ s ∈ sentences.map fun entry ↦ entry.2.write entry.1, Segment.Whole s := by
    intro s hs
    obtain ⟨⟨form, sentence⟩, -, rfl⟩ := List.mem_map.1 hs
    exact whole_write sentence form
  have hsentence : ∀ entry ∈ sentences, (onBody f ∘ fun entry ↦ entry.2.write entry.1) entry =
      (((fun entry ↦ entry.2.write entry.1) ∘ fun s ↦ (target, s)) ∘ (·.2)) entry := by
    rintro ⟨form, sentence⟩ -
    rw [Function.comp_apply, onBody_write,
      hf form sentence.opcode sentence.argument sentence.opcode_ne_loop]
    rfl
  have hne_map : (sentences.map fun entry ↦ entry.2.write entry.1) ≠ [] := by
    simpa using hne
  rw [onSegments, String.toList_ofList, mixedText, Segment.split_join hwhole hne_map trailing,
    uniformText, mixedText, List.map_map, List.map_map, List.map_map,
    List.map_congr_left hsentence]

/-- A text in one form, turned into another one. -/
theorem onSegments_uniformText {f : List Char → List Char} {target : Form}
    (hf : ∀ form op argument, op ≠ Opcode.loop →
      f (Form.opening form op ++ argument) = target.opening op ++ argument)
    (form : Form) {sentences : List Sentence} (hne : sentences ≠ []) :
    onSegments f (String.ofList (uniformText form sentences)) =
      String.ofList (uniformText target sentences) := by
  have hmixed : (sentences.map fun sentence ↦ (form, sentence)) ≠ [] := by
    simpa using hne
  have hparts : (sentences.map fun sentence ↦ (form, sentence)).map (·.2) = sentences := by
    rw [List.map_map]
    exact List.map_id' sentences
  have htext := onSegments_mixedText hf hmixed false
  rwa [if_neg Bool.false_ne_true, List.append_nil, hparts] at htext

/-- A program whose instructions are each written in a form of their own, with or without a
semicolon at the end, turns into the text in one form throughout, without that semicolon. So each
form is turned into the other one and back without a change, and to turn a text into a form twice
is to do so once. -/
theorem translate_written (first : Form × Sentence) (rest : List (Form × Sentence))
    (trailing : Bool) :
    let text := String.ofList (mixedText (first :: rest) ++ if trailing then [';'] else [])
    let short := String.ofList (uniformText .short ((first :: rest).map (·.2)))
    let verbose := String.ofList (uniformText .verbose ((first :: rest).map (·.2)))
    toShort text = short ∧ toVerbose text = verbose ∧
      toShort (toVerbose short) = short ∧ toVerbose (toShort verbose) = verbose ∧
      toShort (toShort text) = toShort text ∧ toVerbose (toVerbose text) = toVerbose text := by
  have hshort : ∀ form op argument, op ≠ Opcode.loop →
      shortBody (Form.opening form op ++ argument) = Form.short.opening op ++ argument :=
    fun form _ argument hop ↦ shortBody_opening form hop argument
  have hverbose : ∀ form op argument, op ≠ Opcode.loop →
      verboseBody (Form.opening form op ++ argument) = Form.verbose.opening op ++ argument :=
    fun form _ argument hop ↦ verboseBody_opening form hop argument
  have hne : first :: rest ≠ [] := List.cons_ne_nil first rest
  have hsentences : (first :: rest).map (·.2) ≠ [] := by
    simp
  generalize (first :: rest) = entries at hne hsentences
  intro text short verbose
  have htext_short : toShort text = short := onSegments_mixedText hshort hne trailing
  have htext_verbose : toVerbose text = verbose := onSegments_mixedText hverbose hne trailing
  have hshort_short : toShort short = short := onSegments_uniformText hshort .short hsentences
  have hverbose_short : toShort verbose = short :=
    onSegments_uniformText hshort .verbose hsentences
  have hshort_verbose : toVerbose short = verbose :=
    onSegments_uniformText hverbose .short hsentences
  have hverbose_verbose : toVerbose verbose = verbose :=
    onSegments_uniformText hverbose .verbose hsentences
  refine ⟨htext_short, htext_verbose, ?_, ?_, ?_, ?_⟩
  · rw [hshort_verbose, hverbose_short]
  · rw [hverbose_short, hshort_verbose]
  · rw [htext_short, hshort_short]
  · rw [htext_verbose, hverbose_verbose]

end Macropad.Language.Phrasing
