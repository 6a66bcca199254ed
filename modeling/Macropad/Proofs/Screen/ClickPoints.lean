import Macropad.Screen.Image

/-!
# Click points in 32 bits

The place to click is a corner or the middle of an edge of the box, a point at an offset from its
first corner, or its centre. `ImageRef.place` says which one in exact arithmetic.

On the way to it sums are computed that need more room than the place itself: the middle lines are
halves of the sum of both edges, they are computed for every anchor, and an offset is added to the
first corner. `ImageRef.clickPoint_eq_ok_iff` says of every box on the screen that the click point
is this place when the sums have room (`ImageRef.HasRoom`), and that one of them overflows when they
do not.
-/

set_option autoImplicit false

namespace Macropad.Screen

open Macropad.Number

/-! ### Checked sums -/

namespace Coordinate

/-- The number is a coordinate. -/
def Fits (n : Int) : Prop := -(signedLimit : Int) ≤ n ∧ n < signedLimit

theorem fits_of_nonneg {n : Int} (hlow : 0 ≤ n) (hhigh : n < signedLimit) : Fits n :=
  ⟨by omega, hhigh⟩

section

variable {α : Type} {cause : Overflow} {n : Int} {next : Int → Except Overflow α} {a : α}

/-- A computation goes on behind a number that fits, and with this number. -/
theorem checked_bind_eq_ok_iff : checked cause n >>= next = .ok a ↔ Fits n ∧ next n = .ok a := by
  rw [checked, Fits]
  split
  · rename_i hfits
    exact (and_iff_right hfits).symm
  · rename_i hfits
    exact ⟨nofun, fun h ↦ absurd h.1 hfits⟩

theorem pure_eq_ok_iff {b : α} : (pure b : Except Overflow α) = .ok a ↔ a = b :=
  ⟨fun h ↦ (Except.ok.inj h).symm, fun h ↦ h ▸ rfl⟩

end

end Coordinate

/-! ### The place to click -/

namespace Box

variable (box : Box)

def right : Int := box.topLeft.x + box.width

def bottom : Int := box.topLeft.y + box.height

/-- The sum of both edges, twice the middle line between them. -/
def across : Int := box.topLeft.x + box.right

def down : Int := box.topLeft.y + box.bottom

/-- Both corners are points of the screen, the first one above and to the left of the other. -/
structure OnScreen : Prop where
  left : 0 ≤ box.topLeft.x
  top : 0 ≤ box.topLeft.y
  width : 0 ≤ box.width
  height : 0 ≤ box.height
  right : box.right < signedLimit
  bottom : box.bottom < signedLimit

end Box

namespace Anchor

/-- The place that an anchor stands for. -/
def place (box : Box) : Anchor → Point
  | .topLeft => box.topLeft
  | .topMiddle => ⟨box.across.tdiv 2, box.topLeft.y⟩
  | .topRight => ⟨box.right, box.topLeft.y⟩
  | .middleLeft => ⟨box.topLeft.x, box.down.tdiv 2⟩
  | .middleRight => ⟨box.right, box.down.tdiv 2⟩
  | .bottomLeft => ⟨box.topLeft.x, box.bottom⟩
  | .bottomMiddle => ⟨box.across.tdiv 2, box.bottom⟩
  | .bottomRight => ⟨box.right, box.bottom⟩
  | .offset dx dy => ⟨box.topLeft.x + dx, box.topLeft.y + dy⟩

/-- The first corner moved by the offset, if there is one, is a place. -/
def OffsetFits (box : Box) : Anchor → Prop
  | .offset dx dy => Coordinate.Fits (box.topLeft.x + dx) ∧ Coordinate.Fits (box.topLeft.y + dy)
  | _ => True

end Anchor

namespace ImageRef

variable (image : ImageRef) (box : Box)

/-- The place to click, which is the centre of the box when there is no anchor. -/
def place : Point :=
  match image.anchor with
  | some anchor => anchor.place box
  | none => ⟨box.across.tdiv 2, box.down.tdiv 2⟩

/-- The sums of both edges are coordinates, and so are those with the offset. -/
structure HasRoom : Prop where
  across : Coordinate.Fits box.across
  down : Coordinate.Fits box.down
  offset : ∀ anchor, image.anchor = some anchor → anchor.OffsetFits box

end ImageRef

/-! ### When the sums fit -/

open Coordinate

theorem Anchor.resolve_eq_ok_iff {anchor : Anchor} {box : Box} {place : Point} :
    anchor.resolve box = .ok place ↔
      (Fits box.right ∧ Fits box.bottom ∧ Fits box.across ∧ Fits box.down ∧
        anchor.OffsetFits box) ∧ place = anchor.place box := by
  simp only [resolve, add, checked_bind_eq_ok_iff, and_assoc]
  cases anchor with
  | offset dx dy =>
    simp only [checked_bind_eq_ok_iff, pure_eq_ok_iff, OffsetFits, and_assoc]
    rfl
  | _ =>
    simp only [pure_eq_ok_iff, OffsetFits, true_and]
    rfl

theorem Box.center_eq_ok_iff {box : Box} {place : Point} :
    box.center = .ok place ↔
      (Fits (2 * box.topLeft.x) ∧ Fits box.across ∧ Fits (2 * box.topLeft.y) ∧ Fits box.down) ∧
      place = ⟨box.across.tdiv 2, box.down.tdiv 2⟩ := by
  have hacross : 2 * box.topLeft.x + box.width = box.across := by
    rw [across, right]
    omega
  have hdown : 2 * box.topLeft.y + box.height = box.down := by
    rw [down, bottom]
    omega
  simp only [center, add, twice, checked_bind_eq_ok_iff, pure_eq_ok_iff, hacross, hdown, and_assoc]

namespace Box.OnScreen

variable {box : Box} (hbox : box.OnScreen)

include hbox

theorem fits_corner : Fits box.right ∧ Fits box.bottom := by
  obtain ⟨hleft, htop, hwidth, hheight, hright, hbottom⟩ := hbox
  simp only [Fits, Box.right, Box.bottom] at *
  omega

/-- Twice the first corner lies before the sum of both edges. -/
theorem fits_twice (hacross : Fits box.across) (hdown : Fits box.down) :
    Fits (2 * box.topLeft.x) ∧ Fits (2 * box.topLeft.y) := by
  obtain ⟨hleft, htop, hwidth, hheight, -, -⟩ := hbox
  simp only [Fits, Box.across, Box.right, Box.down, Box.bottom] at *
  omega

end Box.OnScreen

namespace ImageRef

variable {image : ImageRef} {box : Box}

theorem hasRoom_iff_of_some {anchor : Anchor} (hanchor : image.anchor = some anchor) :
    image.HasRoom box ↔ Fits box.across ∧ Fits box.down ∧ anchor.OffsetFits box := by
  refine ⟨fun h ↦ ⟨h.across, h.down, h.offset anchor hanchor⟩, fun h ↦ ⟨h.1, h.2.1, ?_⟩⟩
  intro other hother
  obtain rfl := Option.some.inj (hanchor.symm.trans hother)
  exact h.2.2

theorem hasRoom_iff_of_none (hanchor : image.anchor = none) :
    image.HasRoom box ↔ Fits box.across ∧ Fits box.down := by
  refine ⟨fun h ↦ ⟨h.across, h.down⟩, fun h ↦ ⟨h.1, h.2, ?_⟩⟩
  intro anchor hsome
  exact absurd (hanchor.symm.trans hsome) nofun

/-- On the screen the sums of the edges are all that may have too little room, whether there is an
anchor or not. -/
theorem clickPoint_eq_ok_iff {place : Point} (hbox : box.OnScreen) :
    image.clickPoint box = .ok place ↔ image.HasRoom box ∧ place = image.place box := by
  rw [clickPoint, ImageRef.place]
  cases hanchor : image.anchor with
  | some anchor =>
    rw [hasRoom_iff_of_some hanchor]
    refine Anchor.resolve_eq_ok_iff.trans (and_congr_left' ?_)
    exact (and_iff_right hbox.fits_corner.1).trans (and_iff_right hbox.fits_corner.2)
  | none =>
    rw [hasRoom_iff_of_none hanchor]
    refine Box.center_eq_ok_iff.trans (and_congr_left' ?_)
    refine ⟨fun h ↦ ⟨h.2.1, h.2.2.2⟩, fun h ↦ ?_⟩
    have htwice := hbox.fits_twice h.1 h.2
    exact ⟨htwice.1, h.1, htwice.2, h.2⟩

end ImageRef

end Macropad.Screen
