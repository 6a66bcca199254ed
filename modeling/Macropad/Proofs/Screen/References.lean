import Macropad.Proofs.Screen.WrittenForm

/-!
# Images that can be referred to

The offsets of an anchor are coordinates of the screen, which have 32 bits. `ImageRef.InRange` says
so of an image, and every reference that can be read, timed or not, names an image in range
(`ImageRef.inRange_of_parse`, `TimedImage.inRange_of_parse`).
-/

set_option autoImplicit false

namespace Macropad.Screen

open Macropad.Language Macropad.Number

/-- Both offsets of an anchor are 32-bit coordinates. -/
def Anchor.InRange : Anchor → Prop
  | .offset dx dy => dx < signedLimit ∧ dy < signedLimit
  | _ => True

def ImageRef.InRange (image : ImageRef) : Prop :=
  ∀ anchor, image.anchor = some anchor → anchor.InRange

theorem Anchor.Written.inRange {anchor : Anchor} {text : List Char}
    (hwritten : anchor.Written text) : anchor.InRange := by
  cases hwritten with
  | named hname =>
    cases anchor with
    | offset => cases hname
    | _ => exact trivial
  | offset hleft hdx hright hdy => exact ⟨hdx, hdy⟩

theorem ImageRef.Written.inRange {image : ImageRef} {text : List Char}
    (hwritten : image.Written text) : image.InRange := by
  cases hwritten with
  | plain => exact nofun
  | anchored hfile hanchor =>
    rintro _ ⟨⟩
    exact hanchor.inRange

theorem ImageRef.inRange_of_parse {argument : String} {image : ImageRef}
    (hparse : parse argument = .ok image) : image.InRange :=
  (written_of_parse hparse).elim Written.inRange Written.inRange

theorem TimedImage.inRange_of_parse {argument : String} {timed : TimedImage}
    (hparse : parse argument = .ok timed) : timed.image.InRange := by
  rw [parse] at hparse
  split at hparse
  · cases hparse
  · rename_i image limit hcut
    split at hparse
    · cases hparse
    · cases himage : ImageRef.parse (String.ofList image) with
      | error fault =>
        rw [himage] at hparse
        cases hparse
      | ok image' =>
        rw [himage] at hparse
        obtain rfl := Except.ok.inj hparse
        exact ImageRef.inRange_of_parse himage

end Macropad.Screen
