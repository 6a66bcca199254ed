import Macropad.Screen.Anchor

/-!
References to images: a `.png` file with an optional anchor in angle brackets, and
the timed form that adds a comma and a limit in milliseconds.
-/

set_option autoImplicit false

namespace Macropad.Screen

open Macropad.Language

def imageExtension : String := ".png"

structure ImageRef where
  file : String
  anchor : Option Anchor
deriving Repr, DecidableEq

namespace ImageRef

/-- An image file has a name in front of its extension. -/
def isImageFile (file : List Char) : Bool :=
  imageExtension.toList.isSuffixOf file && file.length != imageExtension.toList.length

/-- The anchor is what follows the first `<`, without a `>` at its very end; it is
judged before the file name is. -/
def parse (argument : String) : Except Fault ImageRef :=
  match Text.cutFirst '<' argument.toList with
  | some (file, rest) => do
    let anchor ← Anchor.parse (String.ofList (Text.dropLastIf '>' rest))
    if isImageFile file then return ⟨String.ofList file, some anchor⟩
    else throw (.expectedImage argument)
  | none =>
    if isImageFile argument.toList then .ok ⟨argument, none⟩
    else .error (.expectedImage argument)

def clickPoint (image : ImageRef) (box : Box) : Except Overflow Point :=
  match image.anchor with
  | some anchor => anchor.resolve box
  | none => box.center

end ImageRef

/-- An image and how many milliseconds to wait for it. -/
structure TimedImage where
  image : ImageRef
  limit : UInt64
deriving Repr, DecidableEq

/-- The limit follows the last comma; it is judged before the image is. -/
def TimedImage.parse (argument : String) : Except Fault TimedImage :=
  match Text.cutLast ',' argument.toList with
  | none => .error (.expectedTimeout argument)
  | some (image, limit) =>
    match Number.readWord64 (Text.trim limit) with
    | none => .error (.expectedTimeout argument)
    | some ms => do return ⟨← ImageRef.parse (String.ofList image), ms⟩

end Macropad.Screen
