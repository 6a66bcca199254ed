import Macropad.Keys.Stroke
import Macropad.Number.Integer

/-!
Names of keys in key text. A name is read in any case of its ASCII letters; some keys
have more than one name, and a function key is an `F` with a number from 1 to 24.
-/

set_option autoImplicit false

namespace Macropad.Keys

namespace Modifier

def ofChar? : Char → Option Modifier
  | '^' => some .control
  | '%' => some .alt
  | '+' => some .shift
  | _ => none

end Modifier

namespace NamedKey

def names : List (String × NamedKey) :=
  [("ENTER", .enter), ("UP", .up), ("DOWN", .down), ("LEFT", .left), ("RIGHT", .right),
    ("HOME", .home), ("END", .finish), ("PGUP", .pageUp), ("PGDN", .pageDown),
    ("INSERT", .insert), ("INS", .insert), ("DELETE", .delete), ("DEL", .delete), ("TAB", .tab),
    ("ESC", .escape), ("BACKSPACE", .backspace), ("BS", .backspace), ("BKSP", .backspace),
    ("BREAK", .pause), ("CAPSLOCK", .capsLock), ("CLEAR", .clear), ("NUMLOCK", .numLock),
    ("SCROLLLOCK", .scrollLock), ("PRTSC", .printScreen)]

def functionKey? : List Char → Option NamedKey
  | 'F' :: digits =>
    ((Number.readWord8 digits).filter fun n ↦ 1 ≤ n && n ≤ 24).map .function
  | _ => none

def ofName? (name : List Char) : Option NamedKey :=
  let upper := name.map Char.toUpper
  match names.lookup (String.ofList upper) with
  | some key => some key
  | none => functionKey? upper

end NamedKey

end Macropad.Keys
