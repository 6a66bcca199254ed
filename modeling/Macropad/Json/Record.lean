import Macropad.Json.Value

/-!
Records in JSON: named fields in any order, none of the known ones twice, or an array
of the fields in their declared order with some missing at its end. Unknown names do
not matter.
-/

set_option autoImplicit false

namespace Macropad.Json

/-- Fields with the text of their names. -/
abbrev Record : Type := List (String × Value)

namespace Record

/-- An object whose names all have a text. -/
def ofObject? (fields : List (StringToken × Value)) : Option Record :=
  fields.mapM fun (key, value) ↦ (StringToken.string? key).map fun name ↦ (name, value)

/-- An array that is no longer than the list of names. -/
def ofArray? (names : List String) (items : List Value) : Option Record :=
  if items.length ≤ names.length then some (names.zip items) else none

def ofValue? (names : List String) : Value → Option Record
  | .object fields => ofObject? fields
  | .array items => ofArray? names items
  | _ => none

/-- The value of a known field, `none` inside when it is absent; a field that occurs
twice makes the record unreadable. -/
def unique? (record : Record) (name : String) : Option (Option Value) :=
  match record.filter (·.1 = name) with
  | [] => some none
  | [(_, value)] => some (some value)
  | _ => none

/-- A field read by `read`, or its default when it is absent. -/
def field? {α : Type} (record : Record) (name : String) (read : Value → Option α)
    (default : α) : Option α :=
  match record.unique? name with
  | none => none
  | some none => some default
  | some (some value) => read value

/-- A field that has to be there. -/
def required? {α : Type} (record : Record) (name : String) (read : Value → Option α) :
    Option α :=
  match record.unique? name with
  | some (some value) => read value
  | _ => none

end Record

/-- The arrays and objects around a value that is kept as a whole, itself included. -/
def nestingLimit : Nat := 127

/-- A value with a tag: an object with the tag among its fields, or an array that begins
with it. The value is kept as a whole before the tag is looked at, so all of it has to
be meaningful and not too deeply nested; `level` counts what lies around it. -/
def tagged? (tag : String) (level : Nat) (value : Value) : Option (String × Value) :=
  if nestingLimit < level + value.depth ∨ value.isMeaningful = false then none
  else
    match value with
    | .object fields => do
      let record ← Record.ofObject? fields
      let kind ← record.required? tag Value.string?
      return (kind, .object (fields.filter fun (key, _) ↦ StringToken.string? key ≠ some tag))
    | .array (first :: rest) => do
      let kind ← first.string?
      return (kind, .array rest)
    | _ => none

end Macropad.Json
