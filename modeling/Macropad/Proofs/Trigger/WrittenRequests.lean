import Macropad.Proofs.Json.WrittenObjects
import Macropad.Trigger.Request

/-!
# The written form of requests

A request is written as an object whose fields say what is asked for, in any order, with any other
fields between them and blanks around the whole (`Request.Written`). `Request.parse_written` says
that it can be written and that every form of it is read back as this request.

What is read of an object depends on the fields of each name alone (`Record.unique?_of_only`,
`Record.field?_of_absent`), and these are the same for every order and for any company
(`filter_perm_of_ne`). Taking the tag out of the object leaves all other names as they are.
-/

set_option autoImplicit false

namespace Macropad

/-- Blanks are taken off around a text that neither begins nor ends with one. -/
theorem Text.trim_between {before s after init rest : List Char} {c d : Char}
    (hbefore : ∀ b ∈ before, isBlank b = true) (hafter : ∀ b ∈ after, isBlank b = true)
    (hfirst : s = c :: rest) (hc : isBlank c = false) (hlast : s = init ++ [d])
    (hd : isBlank d = false) : trim (before ++ s ++ after) = s := by
  have hleft : (before ++ s ++ after).dropWhile isBlank = s ++ after := by
    rw [List.append_assoc, List.dropWhile_append_of_pos hbefore, hfirst, List.cons_append,
      List.dropWhile_cons_of_neg (by simp [hc])]
  have hright : (s ++ after).reverse.dropWhile isBlank = s.reverse := by
    rw [List.reverse_append, List.dropWhile_append_of_pos (by simpa using hafter), hlast,
      List.reverse_concat, List.dropWhile_cons_of_neg (by simp [hd])]
  rw [trim, trimLeft, hleft, trimRight, hright, List.reverse_reverse]

namespace Json

/-! ### Fields by their names -/

/-- The fields of a name are the same in any order and among others. -/
theorem filter_perm_of_ne {fields own others : List Field} {name : String}
    (horder : fields.Perm (own ++ others)) (hothers : ∀ field ∈ others, field.1 ≠ name) :
    (fields.filter (·.1 = name)).Perm (own.filter (·.1 = name)) := by
  have hnone : others.filter (·.1 = name) = [] :=
    List.filter_eq_nil_iff.2 fun field hfield ↦ by simp [hothers field hfield]
  have hperm := horder.filter (·.1 = name)
  rwa [List.filter_append, hnone, List.append_nil] at hperm

theorem filter_filter_of_ne {fields : List Field} {name tag : String} (hne : name ≠ tag) :
    (fields.filter (·.1 ≠ tag)).filter (·.1 = name) = fields.filter (·.1 = name) := by
  rw [List.filter_filter]
  refine List.filter_congr fun field _ ↦ ?_
  by_cases hname : field.1 = name <;> simp [hname, hne]

/-! ### Contents -/

namespace Content.Denotes

variable {value : Value}

theorem string? {s : String} (hdenotes : (Content.text s).Denotes value) :
    value.string? = some s := by
  cases hdenotes with
  | text hparts => exact hparts

theorem bool? {b : Bool} (hdenotes : (Content.flag b).Denotes value) : value.bool? = some b := by
  cases hdenotes
  rfl

/-- The value of a content has no depth and is meaningful. -/
theorem plain {content : Content} (hdenotes : content.Denotes value) :
    value.depth = 0 ∧ value.isMeaningful = true := by
  cases hdenotes with
  | @text s parts hparts =>
    obtain ⟨text, htext, -⟩ := Option.map_eq_some_iff.1 hparts
    exact ⟨by simp only [Value.depth], by simp only [Value.isMeaningful, htext, Option.isSome_some]⟩
  | flag b => exact ⟨by simp only [Value.depth], by simp only [Value.isMeaningful]⟩

end Content.Denotes

/-! ### Records -/

/-- The entry of a record has the name and the content of the field. -/
structure IsEntry (field : Field) (entry : String × Value) : Prop where
  name : entry.1 = field.1
  content : field.2.Denotes entry.2

section Members

variable {fields : List Field} {members : List (StringToken × Value)}
  (hmembers : List.Forall₂ IsMember fields members)

include hmembers

theorem depthOfFields_eq_zero : Value.depthOfFields members = 0 := by
  induction hmembers with
  | nil => rw [Value.depthOfFields]
  | cons hmember _ ih => rw [Value.depthOfFields, hmember.content.plain.1, ih, Nat.max_self]

theorem fieldsAreMeaningful_eq_true : Value.fieldsAreMeaningful members = true := by
  induction hmembers with
  | nil => rw [Value.fieldsAreMeaningful]
  | cons hmember _ ih =>
    obtain ⟨text, htext, -⟩ := Option.map_eq_some_iff.1 hmember.name
    rw [Value.fieldsAreMeaningful, htext, hmember.content.plain.2, ih]
    rfl

theorem Record.exists_ofObject? :
    ∃ record, ofObject? members = some record ∧ List.Forall₂ IsEntry fields record := by
  induction hmembers with
  | nil => exact ⟨[], rfl, .nil⟩
  | @cons field member _ _ hmember _ ih =>
    obtain ⟨record, hrecord, hentries⟩ := ih
    obtain ⟨key, value⟩ := member
    have hname : key.string? = some field.1 := hmember.name
    refine ⟨(field.1, value) :: record, ?_, .cons ⟨rfl, hmember.content⟩ hentries⟩
    rw [ofObject?] at hrecord ⊢
    simp only [List.mapM_cons, hrecord, hname]
    rfl

end Members

namespace Record

variable {fields : List Field} {record : Record} {name : String} {content : Content}
  (hrecord : List.Forall₂ IsEntry fields record)

include hrecord

theorem filter_entries (name : String) :
    List.Forall₂ IsEntry (fields.filter (·.1 = name)) (record.filter (·.1 = name)) :=
  List.rel_filter (fun field entry hentry ↦ by simp [hentry.name]) hrecord

/-- A field that occurs once has its value. -/
theorem unique?_of_only (honly : (fields.filter (·.1 = name)).Perm [(name, content)]) :
    ∃ value, content.Denotes value ∧ record.unique? name = some (some value) := by
  have hentries := filter_entries hrecord name
  rw [List.perm_singleton.1 honly] at hentries
  obtain ⟨⟨entryName, value⟩, entries, hentry, hnil, hfilter⟩ :=
    List.forall₂_cons_left_iff.1 hentries
  obtain rfl := List.forall₂_nil_left_iff.1 hnil
  exact ⟨value, hentry.content, by rw [unique?, hfilter]⟩

theorem required?_eq_some {s : String}
    (honly : (fields.filter (·.1 = name)).Perm [(name, .text s)]) :
    record.required? name Value.string? = some s := by
  obtain ⟨value, hvalue, hunique⟩ := unique?_of_only hrecord honly
  rw [required?, hunique]
  exact hvalue.string?

theorem field?_eq_some {b default : Bool}
    (honly : (fields.filter (·.1 = name)).Perm [(name, .flag b)]) :
    record.field? name Value.bool? default = some b := by
  obtain ⟨value, hvalue, hunique⟩ := unique?_of_only hrecord honly
  rw [field?, hunique]
  exact hvalue.bool?

theorem field?_of_absent {default : Bool} (habsent : (fields.filter (·.1 = name)).Perm []) :
    record.field? name Value.bool? default = some default := by
  have hentries := filter_entries hrecord name
  rw [List.perm_nil.1 habsent] at hentries
  rw [field?, unique?, List.forall₂_nil_left_iff.1 hentries]

end Record

/-- An object is parted into its tag and the record of its other fields. -/
theorem exists_tagged? {fields : List Field} {members : List (StringToken × Value)}
    {tag kind : String} (hmembers : List.Forall₂ IsMember fields members)
    (htag : (fields.filter (·.1 = tag)).Perm [(tag, .text kind)]) :
    ∃ rest record, tagged? tag 0 (.object members) = some (kind, .object rest) ∧
      Record.ofObject? rest = some record ∧
      List.Forall₂ IsEntry (fields.filter (·.1 ≠ tag)) record := by
  have hdepth : (Value.object members).depth = 1 := by
    rw [Value.depth, depthOfFields_eq_zero hmembers]
  have hmeaningful : (Value.object members).isMeaningful = true := by
    rw [Value.isMeaningful, fieldsAreMeaningful_eq_true hmembers]
  have hplain : ¬ (nestingLimit < 0 + (Value.object members).depth ∨
      (Value.object members).isMeaningful = false) := by
    rw [hdepth, hmeaningful]
    decide
  obtain ⟨whole, hwhole, hall⟩ := Record.exists_ofObject? hmembers
  have hkind := Record.required?_eq_some hall htag
  let rest := members.filter fun member ↦ member.1.string? ≠ some tag
  have hrest : List.Forall₂ IsMember (fields.filter (·.1 ≠ tag)) rest :=
    List.rel_filter (fun field member hmember ↦ by simp [hmember.name]) hmembers
  obtain ⟨record, hrecord, hentries⟩ := Record.exists_ofObject? hrest
  refine ⟨rest, record, ?_, hrecord, hentries⟩
  rw [tagged?, if_neg hplain]
  simp only [hwhole, hkind, Option.bind_eq_bind, Option.bind_some]
  rfl

/-- Fields are written up to a closing brace. -/
theorem FieldsWritten.exists_concat {fields : List Field} {text : List Char}
    (hwritten : FieldsWritten fields text) : ∃ init, text = init ++ ['}'] := by
  induction hwritten with
  | @last field text gap _ _ => exact ⟨text ++ gap, by rw [List.append_assoc]⟩
  | @cons field fields text gap more _ _ _ ih =>
    obtain ⟨init, rfl⟩ := ih
    exact ⟨text ++ (gap ++ ',' :: init), by simp⟩

end Json

/-! ### Requests -/

namespace Trigger

open Json

namespace Request

/-- The fields that say what is asked for. A program in the short form may go without saying so. -/
inductive Fields : Request → List Field → Prop
  | execute (program : String) (verbose : Bool) :
    Fields (.execute program verbose)
      [("type", .text "execute"), ("macro", .text program), ("verbose", .flag verbose)]
  | short (program : String) :
    Fields (.execute program false) [("type", .text "execute"), ("macro", .text program)]
  | command (name : String) :
    Fields (.command name) [("type", .text "command"), ("name", .text name)]

/-- The names that mean something in a request of this kind. -/
def names : Request → List String
  | .execute _ _ => ["type", "macro", "verbose"]
  | .command _ => ["type", "name"]

/-- The ways to write a request: an object with its fields and others that mean nothing, in any
order, between blanks. -/
inductive Written (request : Request) : List Char → Prop
  | mk {own others fields : List Field} {before json after : List Char}
      (hown : request.Fields own) (hothers : ∀ field ∈ others, field.1 ∉ request.names)
      (horder : fields.Perm (own ++ others)) (hjson : ObjectWritten fields json)
      (hbefore : ∀ c ∈ before, Text.isBlank c = true)
      (hafter : ∀ c ∈ after, Text.isBlank c = true) :
    Written request (before ++ json ++ after)

variable {request : Request} {own others fields : List Field}
  {members : List (StringToken × Value)}

/-- The object is read as the request that its fields say. -/
theorem ofJson?_of_fields (hown : request.Fields own)
    (hothers : ∀ field ∈ others, field.1 ∉ request.names)
    (horder : fields.Perm (own ++ others))
    (hmembers : List.Forall₂ IsMember fields members) :
    ofJson? (.object members) = some request := by
  have hnamed (name : String) (hname : name ∈ request.names) :
      (fields.filter (·.1 = name)).Perm (own.filter (·.1 = name)) :=
    filter_perm_of_ne horder fun field hfield heq ↦ hothers field hfield (heq ▸ hname)
  have hrest (name : String) (hname : name ∈ request.names) (hne : name ≠ "type") :
      ((fields.filter (·.1 ≠ "type")).filter (·.1 = name)).Perm (own.filter (·.1 = name)) := by
    rw [filter_filter_of_ne hne]
    exact hnamed name hname
  cases hown with
  | execute program verbose =>
    obtain ⟨rest, record, htagged, hrecord, hentries⟩ :=
      exists_tagged? hmembers (hnamed "type" (by simp [names]))
    have hprogram : record.required? "macro" Value.string? = some program :=
      Record.required?_eq_some hentries (hrest "macro" (by simp [names]) (by decide))
    have hverbose : record.field? "verbose" Value.bool? false = some verbose :=
      Record.field?_eq_some hentries (hrest "verbose" (by simp [names]) (by decide))
    simp [ofJson?, htagged, Record.ofValue?, hrecord, hprogram, hverbose]
  | short program =>
    obtain ⟨rest, record, htagged, hrecord, hentries⟩ :=
      exists_tagged? hmembers (hnamed "type" (by simp [names]))
    have hprogram : record.required? "macro" Value.string? = some program :=
      Record.required?_eq_some hentries (hrest "macro" (by simp [names]) (by decide))
    have hverbose : record.field? "verbose" Value.bool? false = some false :=
      Record.field?_of_absent hentries (hrest "verbose" (by simp [names]) (by decide))
    simp [ofJson?, htagged, Record.ofValue?, hrecord, hprogram, hverbose]
  | command name =>
    obtain ⟨rest, record, htagged, hrecord, hentries⟩ :=
      exists_tagged? hmembers (hnamed "type" (by simp [names]))
    have hname : record.required? "name" Value.string? = some name :=
      Record.required?_eq_some hentries (hrest "name" (by simp [names]) (by decide))
    simp [ofJson?, htagged, Record.ofValue?, hrecord, hname]

/-- Every request can be written, and however it is written it is read back. -/
theorem parse_written (request : Request) :
    (∃ raw : String, request.Written raw.toList) ∧
      ∀ raw : String, request.Written raw.toList → parse? raw = some request := by
  constructor
  · obtain ⟨own, hown, hne⟩ : ∃ own, request.Fields own ∧ own ≠ [] := by
      cases request with
      | execute program verbose => exact ⟨_, .execute program verbose, List.cons_ne_nil _ _⟩
      | command name => exact ⟨_, .command name, List.cons_ne_nil _ _⟩
    obtain ⟨json, hjson⟩ := ObjectWritten.exists_written hne
    have horder : own.Perm (own ++ []) := by rw [List.append_nil]
    have hwritten : request.Written ([] ++ json ++ []) :=
      .mk hown (List.forall_mem_nil _) horder hjson (List.forall_mem_nil _) (List.forall_mem_nil _)
    exact ⟨String.ofList json, by simpa using hwritten⟩
  · intro raw hwritten
    generalize hraw : raw.toList = text at hwritten
    obtain ⟨hown, hothers, horder, hjson, hbefore, hafter⟩ := hwritten
    obtain ⟨members, hmembers, hparse⟩ := Value.parse_of_written hjson
    obtain ⟨hfields⟩ := hjson
    obtain ⟨init, rfl⟩ := hfields.exists_concat
    have hlast : '{' :: (init ++ ['}']) = ('{' :: init) ++ ['}'] := by rw [List.cons_append]
    rw [parse?, hraw, Text.trim_between hbefore hafter rfl (by decide) hlast (by decide)]
    simp only [hparse, Option.bind_some]
    exact ofJson?_of_fields hown hothers horder hmembers

/-- The tag may stand last, behind a field that means nothing and a program of a quote and a
character that is written as two units, with blanks of other kinds around the object. -/
theorem parse_written_of_tag_last :
    ∃ raw : String, raw = "\u00a0\x7b\"note\":\"\",\"macro\" : \"\\\"\\ud83d\\ude00\"," ++
        "\"type\":\"execute\"\x7d\n" ∧
      Written (.execute "\"😀" false) raw.toList ∧
      parse? raw = some (.execute "\"😀" false) := by
  have hnote : FieldWritten ("note", .text "") _ :=
    .mk isGap_nil (spells_self (by decide)) isGap_nil isGap_nil (.text (s := "") .nil)
  have hhigh : IsUnit (highSurrogate '😀') ['d', '8', '3', 'd'] :=
    .digits (a := (13, 'd')) (b := (8, '8')) (c := (3, '3')) (d := (13, 'd')) (by decide)
      (by decide) (by decide) (by decide)
  have hlow : IsUnit (lowSurrogate '😀') ['d', 'e', '0', '0'] :=
    .digits (a := (13, 'd')) (b := (14, 'e')) (c := (0, '0')) (d := (0, '0')) (by decide)
      (by decide) (by decide) (by decide)
  have hprogram : Spells "\"😀".toList _ :=
    .short (e := '"') (by decide) (.pair (by decide) hhigh hlow .nil)
  have hgap : IsGap [' '] := by simp [IsGap]
  have hmacro : FieldWritten ("macro", .text "\"😀") _ :=
    .mk isGap_nil (spells_self (by decide)) hgap hgap (.text hprogram)
  have htype : FieldWritten ("type", .text "execute") _ :=
    .mk isGap_nil (spells_self (by decide)) isGap_nil isGap_nil (.text (spells_self (by decide)))
  have hobject := ObjectWritten.mk
    (.cons hnote isGap_nil (.cons hmacro isGap_nil (.last htype isGap_nil)))
  have hothers : ∀ field ∈ [(("note", .text "") : Field)],
      field.1 ∉ names (.execute "\"😀" false) := by simp [names]
  have hwritten : Written (.execute "\"😀" false) (['\u00a0'] ++ _ ++ ['\n']) :=
    .mk (.short "\"😀") hothers (by decide) hobject (List.forall_mem_singleton.2 rfl)
      (List.forall_mem_singleton.2 rfl)
  exact ⟨_, rfl, hwritten, (parse_written _).2 _ hwritten⟩

end Request

end Trigger

end Macropad
