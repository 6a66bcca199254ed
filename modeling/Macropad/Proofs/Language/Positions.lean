import Macropad.Language.Validation
import Macropad.Proofs.Language.Rendering

/-!
# Translation keeps the places of instructions

Turned into either form, a text has the same number of instructions, with the same loop headers,
and the instruction at a place of the one text is the instruction at that place of the other
(`translate_in_place`). This is so of all texts, whatever their opcodes and headers are. The reason
is that a translation exchanges no more than what stands for an opcode, which holds neither a
semicolon nor an opening brace and begins with no closing one, so that the new segment can stand in
place of the old one (`Segment.Replaces`, `replaces_onBody`).

There is one exception. An empty instruction at the end of a text is written as a semicolon behind
the last one, and the translated text has only one of the two. The empty instruction is then gone,
and with it the fault for which the text would be rejected (`empty_end_lost`).
-/

set_option autoImplicit false

namespace Macropad.Language

/-! ### Segments in place of others -/

namespace Segment

/-- The second text can stand in place of the first one as a segment or the end of one. -/
structure Replaces (s t : List Char) : Prop where
  closed (before : Option Char) (hs : Closed before s) : Closed before t
  eq_nil_iff : t = [] ↔ s = []
  isEscaped_front (before : Option Char) : isEscaped before t = isEscaped before s
  isEscaped_behind (before : Option Char) (after : List Char) :
    isEscaped (t.getLast?.or before) after = isEscaped (s.getLast?.or before) after

theorem Replaces.refl (s : List Char) : Replaces s s :=
  ⟨fun _ hs ↦ hs, Iff.rfl, fun _ ↦ rfl, fun _ _ ↦ rfl⟩

/-- The same text can stand in front of both. -/
theorem Replaces.behind {s t : List Char} (hreplaces : Replaces s t) (first : List Char) :
    Replaces (first ++ s) (first ++ t) := by
  have hfront (before : Option Char) :
      isEscaped before (first ++ t) = isEscaped before (first ++ s) := by
    cases first with
    | nil => exact hreplaces.isEscaped_front before
    | cons c first => rfl
  refine ⟨?_, ?_, hfront, ?_⟩
  · clear hfront
    induction first with
    | nil => exact hreplaces.closed
    | cons c first ih =>
      rintro before ⟨hc, hrest⟩
      refine ⟨fun hsemicolon ↦ ?_, ih (some c) hrest⟩
      have hescaped := hc hsemicolon
      cases first with
      | nil => exact (hreplaces.isEscaped_front before).trans hescaped
      | cons d first => exact hescaped
  · rw [List.append_eq_nil_iff, List.append_eq_nil_iff, hreplaces.eq_nil_iff]
  · intro before after
    rw [List.getLast?_append, List.getLast?_append, Option.or_assoc, Option.or_assoc]
    exact hreplaces.isEscaped_behind _ after

/-- Segments stay parted when others take their places. -/
theorem Parted.map {f : List Char → List Char} (hf : ∀ s, Replaces s (f s))
    {before : Option Char} {segments : List (List Char)} (hparted : Parted before segments) :
    Parted before (segments.map f) := by
  induction segments generalizing before with
  | nil => trivial
  | cons s segments ih =>
    cases segments with
    | nil => exact (hf s).closed before hparted
    | cons t segments =>
      obtain ⟨hs, hseam, hrest⟩ := hparted
      refine ⟨(hf s).closed before hs, ?_, ih hrest⟩
      rw [(hf t).isEscaped_front, (hf s).isEscaped_behind]
      exact hseam

/-- The text ends with an empty segment. -/
def EndsEmpty (source : List Char) : Prop := source = [';'] ∨ [';', ';'] <:+ source

instance (source : List Char) : Decidable (EndsEmpty source) :=
  inferInstanceAs (Decidable (source = [';'] ∨ [';', ';'] <:+ source))

theorem getLast?_split_iff {source : List Char} :
    (split source).getLast? = some [] ↔ EndsEmpty source := by
  constructor
  · intro hlast
    obtain ⟨init, hinit⟩ := List.getLast?_eq_some_iff.1 hlast
    have hjoin := join_split source
    rw [hinit] at hjoin
    by_cases hne : init = []
    · subst hne
      rw [Text.dropLastIf] at hjoin
      split at hjoin
      · rename_i hsemicolon
        obtain ⟨rest, rfl⟩ := List.getLast?_eq_some_iff.1 hsemicolon
        rw [List.dropLast_concat] at hjoin
        obtain rfl : rest = [] := hjoin.symm
        exact .inl rfl
      · obtain rfl : source = [] := hjoin.symm
        cases hinit
    · rw [join_concat hne, Text.dropLastIf] at hjoin
      split at hjoin
      · rename_i hsemicolon
        obtain ⟨rest, rfl⟩ := List.getLast?_eq_some_iff.1 hsemicolon
        rw [List.dropLast_concat] at hjoin
        exact .inr ⟨join init, by rw [← hjoin, List.append_assoc]; rfl⟩
      · rename_i hsemicolon
        rw [← hjoin] at hsemicolon
        exact absurd List.getLast?_concat hsemicolon
  · rintro (rfl | ⟨rest, rfl⟩)
    · rfl
    · refine getLast?_of_getLast?_join (parted_split _) ?_
      have hends : rest ++ [';', ';'] = (rest ++ [';']) ++ [';'] := by simp
      rw [join_split, hends, Text.dropLastIf, if_pos List.getLast?_concat, List.dropLast_concat]
      exact List.getLast?_concat

end Segment

namespace Phrasing

open Segment

/-! ### One segment -/

/-- The translation of what follows a header. -/
def Form.body : Form → List Char → List Char
  | .short => shortBody
  | .verbose => verboseBody

/-- The translation of a text. -/
def Form.translate : Form → String → String
  | .short => toShort
  | .verbose => toVerbose

theorem brace_not_mem_opening (form : Form) (op : Opcode) : '{' ∉ form.opening op := by
  cases form <;> cases op <;> decide

/-- One form of an opcode can stand in place of the other. -/
theorem replaces_opening {op : Opcode} (hop : op ≠ .loop) (form form' : Form)
    (argument : List Char) :
    Replaces (form.opening op ++ argument) (form'.opening op ++ argument) := by
  have hfront (f : Form) (before : Option Char) :
      isEscaped before (f.opening op ++ argument) = false := by
    obtain ⟨c, rest, hopening, -, hbrace, -⟩ := opening_eq_cons f hop
    rw [hopening]
    simp [isEscaped, hbrace]
  have hne (f : Form) : f.opening op ≠ [] := by
    obtain ⟨c, rest, hopening, -⟩ := opening_eq_cons f hop
    exact hopening ▸ List.cons_ne_nil c rest
  have hlast (f : Form) (before : Option Char) : (f.opening op).getLast?.or before ≠ some '{' := by
    rw [List.getLast?_eq_some_getLast (hne f), Option.some_or]
    exact fun hbrace ↦
      brace_not_mem_opening f op (Option.some.inj hbrace ▸ List.getLast_mem (hne f))
  refine ⟨?_, by simp [hne], fun before ↦ (hfront form' before).trans (hfront form before).symm, ?_⟩
  · intro before hclosed
    obtain ⟨c, rest, hopening, -, -, hsemicolon⟩ := opening_eq_cons form' hop
    have hargument := hclosed.of_append.alone (hlast form before)
    exact closed_append (hopening ▸ hsemicolon) hargument.behind before
  · intro before after
    rw [List.getLast?_append, List.getLast?_append, Option.or_assoc, Option.or_assoc]
    cases argument.getLast? with
    | some last => rfl
    | none => simp [isEscaped, hlast]

/-- What a fold keeps of a list is where it starts or one of the elements. -/
theorem eq_or_mem_of_foldl {α : Type} {keep : Option α → α → Option α}
    (hkeep : ∀ best a kept, keep best a = some kept → best = some kept ∨ kept = a) {list : List α}
    {start : Option α} {kept : α} (hfold : list.foldl keep start = some kept) :
    start = some kept ∨ kept ∈ list := by
  induction list generalizing start with
  | nil => exact .inl hfold
  | cons a list ih =>
    rcases ih hfold with hfirst | hlater
    · rcases hkeep start a kept hfirst with hstart | rfl
      · exact .inl hstart
      · exact .inr List.mem_cons_self
    · exact .inr (List.mem_cons_of_mem a hlater)

/-- The opcode whose phrase is recognized is an instruction's, and its phrase begins the text. -/
theorem longestPhrase_eq_some {body : List Char} {op : Opcode}
    (hphrase : longestPhrase body = some op) : op ≠ .loop ∧ op.phrase.toList <+: body := by
  rcases eq_or_mem_of_foldl (by grind) hphrase with hnone | hfound
  · cases hnone
  · obtain ⟨hop, hbegins⟩ := List.mem_filter.1 hfound
    exact ⟨ne_loop_of_mem hop, List.isPrefixOf_iff_prefix.1 hbegins⟩

/-- A translation leaves what it is given, or exchanges what stands for the opcode in front. -/
theorem body_cases (form : Form) (body : List Char) :
    form.body body = body ∨
      ∃ op argument written, op ≠ Opcode.loop ∧ body = Form.opening written op ++ argument ∧
        form.body body = form.opening op ++ argument := by
  cases form with
  | short =>
    cases hphrase : longestPhrase body with
    | none =>
      left
      rw [Form.body, shortBody, hphrase]
    | some op =>
      obtain ⟨hop, argument, rfl⟩ := longestPhrase_eq_some hphrase
      refine .inr ⟨op, argument, .verbose, hop, rfl, ?_⟩
      rw [Form.body, shortBody, hphrase]
      exact congrArg (op.code :: ·) List.drop_left
  | verbose =>
    cases body with
    | nil => exact .inl rfl
    | cons code argument =>
      simp only [Form.body, verboseBody]
      split
      · exact .inl rfl
      · exact .inl rfl
      · rename_i op hop hcode
        refine .inr ⟨op, argument, .short, hop, ?_, rfl⟩
        rw [Form.opening, Opcode.code_of_ofCode? hcode]
        rfl

/-- What follows a header can be translated in its place. -/
theorem replaces_body (form : Form) (body : List Char) : Replaces body (form.body body) := by
  rcases body_cases form body with hsame | ⟨op, argument, written, hop, hbody, htranslated⟩
  · rw [hsame]
    exact .refl body
  · rw [htranslated, hbody]
    exact replaces_opening hop written form argument

/-- A translation makes no header. -/
theorem body_plain (form : Form) {body : List Char} (hplain : ∀ rest, body ≠ '[' :: rest)
    (rest : List Char) : form.body body ≠ '[' :: rest := by
  rcases body_cases form body with hsame | ⟨op, argument, written, hop, -, htranslated⟩
  · rw [hsame]
    exact hplain rest
  · obtain ⟨c, tail, hopening, hbracket, -⟩ := opening_eq_cons form hop
    rw [htranslated, hopening]
    exact fun hcons ↦ hbracket (List.cons.inj hcons).1

/-- A segment has no header, one that is never closed, or one in front of a body. -/
theorem segment_cases (segment : List Char) :
    (∀ rest, segment ≠ '[' :: rest) ∨
      (∃ rest, segment = '[' :: rest ∧ ']' ∉ rest) ∨
      ∃ header body, segment = '[' :: header ++ ']' :: body ∧ ']' ∉ header := by
  by_cases hheader : ∃ rest, segment = '[' :: rest
  · obtain ⟨rest, rfl⟩ := hheader
    right
    cases hcut : Text.cutFirst ']' rest with
    | none => exact .inl ⟨rest, rfl, Text.cutFirst_eq_none_iff.1 hcut⟩
    | some parts =>
      obtain ⟨header, body⟩ := parts
      obtain ⟨rfl, hclosing⟩ := Text.cutFirst_eq_some_iff.1 hcut
      exact .inr ⟨header, body, rfl, hclosing⟩
  · exact .inl fun rest hrest ↦ hheader ⟨rest, hrest⟩

/-- A header that is never closed is all of its segment, and stays. -/
theorem onBody_of_unclosed (form : Form) {rest : List Char} (hrest : ']' ∉ rest) :
    onBody form.body ('[' :: rest) = '[' :: rest := by
  have hclosing : ']' ∉ '[' :: rest := by simp [hrest]
  have hcut : cutLoopHeader ('[' :: rest) = some ('[' :: rest, []) := by
    rw [cutLoopHeader, Text.cutFirst_eq_none_iff.2 hclosing]
  have hnothing : form.body [] = [] := (replaces_body form []).eq_nil_iff.2 rfl
  rw [onBody, hcut]
  exact (congrArg ('[' :: rest ++ ·) hnothing).trans (List.append_nil _)

/-- A segment can be translated in its place. -/
theorem replaces_onBody (form : Form) (segment : List Char) :
    Replaces segment (onBody form.body segment) := by
  rcases segment_cases segment with hplain | ⟨rest, rfl, hrest⟩ | ⟨header, body, rfl, hheader⟩
  · rw [onBody_of_plain form.body hplain]
    exact replaces_body form segment
  · rw [onBody_of_unclosed form hrest]
    exact .refl ('[' :: rest)
  · rw [onBody_of_header form.body hheader, List.append_cons, List.append_cons _ _ (form.body body)]
    exact (replaces_body form body).behind ('[' :: header ++ [']'])

/-- A translated segment has the loop header of the segment, and an opcode character if and only if
the segment has one. -/
theorem loop_onBody (form : Form) (segment : List Char) :
    let translated := onBody form.body segment
    (cutLoopHeader translated).map (·.1) = (cutLoopHeader segment).map (·.1) ∧
      (Instruction.ofSegment translated).header = (Instruction.ofSegment segment).header ∧
      ((Instruction.ofSegment translated).code = none ↔
        (Instruction.ofSegment segment).code = none) := by
  intro translated
  rcases segment_cases segment with hplain | ⟨rest, rfl, hrest⟩ | ⟨header, body, rfl, hheader⟩
  · have hbody : translated = form.body segment := onBody_of_plain form.body hplain
    have htranslated := body_plain form hplain
    rw [hbody, cutLoopHeader_of_plain htranslated, cutLoopHeader_of_plain hplain,
      Instruction.ofSegment_of_plain htranslated, Instruction.ofSegment_of_plain hplain,
      Instruction.header_ofBody, Instruction.header_ofBody, Instruction.code_ofBody_eq_none_iff,
      Instruction.code_ofBody_eq_none_iff]
    exact ⟨rfl, rfl, (replaces_body form segment).eq_nil_iff⟩
  · have hsame : translated = '[' :: rest := onBody_of_unclosed form hrest
    rw [hsame]
    exact ⟨rfl, rfl, Iff.rfl⟩
  · have hbody : translated = '[' :: header ++ ']' :: form.body body :=
      onBody_of_header form.body hheader body
    rw [hbody, cutLoopHeader_of_header hheader, cutLoopHeader_of_header hheader,
      Instruction.ofSegment_header hheader, Instruction.ofSegment_header hheader,
      Instruction.header_ofBody, Instruction.header_ofBody, Instruction.code_ofBody_eq_none_iff,
      Instruction.code_ofBody_eq_none_iff]
    exact ⟨rfl, rfl, (replaces_body form body).eq_nil_iff⟩

/-- Of what stands behind a loop header, its check asks only whether there is an opcode. -/
theorem checkHeader_congr {i i' : Instruction} (hheader : i'.header = i.header)
    (hcode : i'.code = none ↔ i.code = none) (remaining : Nat) :
    Validation.checkHeader i' remaining = Validation.checkHeader i remaining := by
  have hsome : i'.code.isSome = i.code.isSome := by
    rw [← Option.not_isNone, ← Option.not_isNone, Bool.not_inj_iff, Bool.eq_iff_iff,
      Option.isNone_iff_eq_none, Option.isNone_iff_eq_none]
    exact hcode
  rw [Validation.checkHeader, Validation.checkHeader, hheader, hsome]

/-! ### Whole texts -/

theorem toList_translate (form : Form) (source : String) :
    (form.translate source).toList =
      join ((split source.toList).map (onBody form.body)) := by
  cases form <;> exact String.toList_ofList

theorem split_translate (form : Form) (source : String) :
    ∃ kept,
      split source.toList = kept ++ (if EndsEmpty source.toList then [[]] else []) ∧
      split (form.translate source).toList = kept.map (onBody form.body) := by
  have hparted := (parted_split source.toList).map (replaces_onBody form)
  rw [toList_translate]
  by_cases hends : EndsEmpty source.toList
  · obtain ⟨kept, hkept⟩ := List.getLast?_eq_some_iff.1 (getLast?_split_iff.2 hends)
    have hnil : onBody form.body [] = [] := (replaces_onBody form []).eq_nil_iff.2 rfl
    rw [hkept, List.map_append, List.map_singleton, hnil] at hparted
    refine ⟨kept, by rw [if_pos hends, hkept], ?_⟩
    rw [hkept, List.map_append, List.map_singleton, hnil, split_join_concat_nil hparted]
  · refine ⟨split source.toList, by rw [if_neg hends, List.append_nil], ?_⟩
    refine split_join_of_getLast? hparted fun hlast ↦ hends (getLast?_split_iff.1 ?_)
    rw [List.getLast?_map] at hlast
    obtain ⟨last, hsegment, hempty⟩ := Option.map_eq_some_iff.1 hlast
    rw [hsegment, (replaces_onBody form last).eq_nil_iff.1 hempty]

/-- A translated text has the segments of the text, each translated in its place, but for an empty
one at the end of the text. A kept segment has the same loop header in both texts. The instruction
at its position has an opcode in both or in none, and its header is judged alike. -/
theorem translate_in_place (form : Form) (source : String) :
    let lost := if EndsEmpty source.toList then [[]] else []
    ∃ kept,
      split source.toList = kept ++ lost ∧
      split (form.translate source).toList = kept.map (onBody form.body) ∧
      (Program.parse source).length =
        (Program.parse (form.translate source)).length + lost.length ∧
      ∀ (position : Nat) (segment : List Char), kept[position]? = some segment →
        let translated := onBody form.body segment
        let i := Instruction.ofSegment segment
        let i' := Instruction.ofSegment translated
        (cutLoopHeader translated).map (·.1) = (cutLoopHeader segment).map (·.1) ∧
          (Program.parse source)[position]? = some i ∧
          (Program.parse (form.translate source))[position]? = some i' ∧
          i'.header = i.header ∧ (i'.code = none ↔ i.code = none) ∧
          ∀ remaining,
            Validation.checkHeader i' remaining = Validation.checkHeader i remaining := by
  intro lost
  obtain ⟨kept, hsource, htranslate⟩ := split_translate form source
  have hparse : Program.parse source = (kept ++ lost).map Instruction.ofSegment :=
    congrArg (List.map Instruction.ofSegment) hsource
  have hparse' : Program.parse (form.translate source) =
      (kept.map (onBody form.body)).map Instruction.ofSegment :=
    congrArg (List.map Instruction.ofSegment) htranslate
  refine ⟨kept, hsource, htranslate, ?_, ?_⟩
  · rw [hparse, hparse', List.length_map, List.length_map, List.length_map, List.length_append]
  · intro position segment hsegment translated i i'
    obtain ⟨hloop, hheader, hcode⟩ := loop_onBody form segment
    have hbefore : position < kept.length := (List.getElem?_eq_some_iff.1 hsegment).1
    refine ⟨hloop, ?_, ?_, hheader, hcode, checkHeader_congr hheader hcode⟩
    · rw [hparse, List.getElem?_map, List.getElem?_append_left hbefore, hsegment, Option.map_some]
    · rw [hparse', List.getElem?_map, List.getElem?_map, hsegment, Option.map_some, Option.map_some]

/-- An empty instruction at the end of a text is lost, and with it the fault of the program: the
text that ends so is invalid at the second position, and its translation is valid. -/
theorem empty_end_lost :
    let surroundings : Surroundings := ⟨fun _ ↦ none, fun _ ↦ false⟩
    (split "e;;".toList).length = 2 ∧ (split (toVerbose "e;;").toList).length = 1 ∧
      (split "Start Menu;;".toList).length = 2 ∧
      (split (toShort "Start Menu;;").toList).length = 1 ∧
      (Program.parse "e;;").validate surroundings = .invalid 2 .emptyInstruction ∧
      (Program.parse (toShort (toVerbose "e;;"))).validate surroundings = .valid := by
  decide

end Phrasing

end Macropad.Language
