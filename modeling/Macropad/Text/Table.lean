/-!
Tables from names to texts, in the order of the names. Inserting a name again replaces
its text.
-/

set_option autoImplicit false

namespace Macropad.Text

structure Table where
  entries : List (String × String) := []
deriving Repr, DecidableEq

namespace Table

def get? (table : Table) (name : String) : Option String := table.entries.lookup name

def insertEntry (name text : String) : List (String × String) → List (String × String)
  | [] => [(name, text)]
  | (n, t) :: rest =>
    if n = name then (name, text) :: rest
    else if name < n then (name, text) :: (n, t) :: rest
    else (n, t) :: insertEntry name text rest

def insert (table : Table) (name text : String) : Table := ⟨insertEntry name text table.entries⟩

def ofList (entries : List (String × String)) : Table :=
  entries.foldl (fun table entry ↦ table.insert entry.1 entry.2) {}

end Table

end Macropad.Text
