import Macropad.Proofs.Screen.ClickPoints
import Macropad.Proofs.Screen.WrittenForm

/-!
# Where an anchor lies on its box

The short name of an anchor says a row and a column of the box. Each of them is an edge or the line
in the middle between two edges, and the place of the anchor lies on both
(`Anchor.exists_parts_of_name?`). A middle line is half of a sum, and half of an odd sum is rounded
toward zero, so that it is rounded up where coordinates are negative and down where they are not.
Either way the result is off by half a pixel at most (`Part.tdiv_two_near`), and no more than this
is used of it.

`Anchor.resolve_named` says of a box with any first corner, if the sums of its edges are
coordinates: the place of a named anchor lies in the box and where the name says, a larger box does
not move it back, and the centre has the column of the middle of the top edge and the row of the
middle of the left edge.
-/

set_option autoImplicit false

namespace Macropad.Screen

open Macropad.Number

/-! ### Parts of a stretch -/

/-- An end of a stretch or its middle. -/
inductive Part
  | near
  | middle
  | far
deriving Repr, DecidableEq

namespace Part

variable (part : Part) {low high : Int}

/-- The letter that stands for a row of the box. -/
def rowLetter : Part → Char
  | .near => 't'
  | .middle => 'm'
  | .far => 'b'

/-- The letter that stands for a column of the box. -/
def columnLetter : Part → Char
  | .near => 'l'
  | .middle => 'm'
  | .far => 'r'

/-- The number is this part of the stretch. In the middle it is as far from the one end as from the
other, up to one pixel. -/
def Marks (low high n : Int) : Part → Prop
  | .near => n = low
  | .middle => ((n - low) - (high - n)).natAbs ≤ 1
  | .far => n = high

/-- The number that is computed for this part of the stretch. -/
def along (low high : Int) : Part → Int
  | .near => low
  | .middle => (low + high).tdiv 2
  | .far => high

/-- Half of a number, rounded toward zero, is off by half of one at most. -/
theorem tdiv_two_near (n : Int) : -1 ≤ n - 2 * n.tdiv 2 ∧ n - 2 * n.tdiv 2 ≤ 1 := by
  have hsum := Int.mul_tdiv_add_tmod n 2
  have hhigh := Int.tmod_lt_of_pos n (b := 2) (by decide)
  have hlow := Int.lt_tmod_of_pos n (b := 2) (by decide)
  omega

theorem marks_along : part.Marks low high (part.along low high) := by
  cases part with
  | near => rfl
  | middle =>
    have hnear := tdiv_two_near (low + high)
    rw [Marks, along]
    omega
  | far => rfl

theorem along_between (hle : low ≤ high) :
    low ≤ part.along low high ∧ part.along low high ≤ high := by
  cases part with
  | near => exact ⟨Int.le_refl low, hle⟩
  | middle =>
    have hnear := tdiv_two_near (low + high)
    rw [along]
    omega
  | far => exact ⟨hle, Int.le_refl high⟩

theorem along_mono {high' : Int} (hle : high ≤ high') :
    part.along low high ≤ part.along low high' := by
  cases part with
  | near => exact Int.le_refl low
  | middle => exact Int.tdiv_le_tdiv (by decide) (Int.add_le_add_left hle low)
  | far => exact hle

end Part

/-! ### The places of named anchors -/

open Coordinate

namespace Box

variable (box : Box)

/-- The point lies in the box or on its edges. -/
structure Holds (place : Point) : Prop where
  left : box.topLeft.x ≤ place.x
  right : place.x ≤ box.right
  top : box.topLeft.y ≤ place.y
  bottom : place.y ≤ box.bottom

/-- All sums that are formed for a named anchor are coordinates. -/
structure SumsFit : Prop where
  right : Fits box.right
  bottom : Fits box.bottom
  across : Fits box.across
  down : Fits box.down

/-- The products that are formed for the centre are coordinates. -/
structure DoublesFit : Prop where
  x : Fits (2 * box.topLeft.x)
  y : Fits (2 * box.topLeft.y)

end Box

namespace Anchor

variable {anchor : Anchor} {name : List Char} {box : Box} {place : Point}

/-- The name of an anchor is made of a row and a column, and both say where its place is. -/
theorem exists_parts_of_name? (hname : anchor.name? = some name) :
    ∃ row column : Part, name = [row.rowLetter, column.columnLetter] ∧
      ∀ box, anchor.place box = ⟨column.along box.topLeft.x box.right,
        row.along box.topLeft.y box.bottom⟩ := by
  cases anchor with
  | topLeft => exact ⟨.near, .near, (Option.some.inj hname).symm, fun _ ↦ rfl⟩
  | topMiddle => exact ⟨.near, .middle, (Option.some.inj hname).symm, fun _ ↦ rfl⟩
  | topRight => exact ⟨.near, .far, (Option.some.inj hname).symm, fun _ ↦ rfl⟩
  | middleLeft => exact ⟨.middle, .near, (Option.some.inj hname).symm, fun _ ↦ rfl⟩
  | middleRight => exact ⟨.middle, .far, (Option.some.inj hname).symm, fun _ ↦ rfl⟩
  | bottomLeft => exact ⟨.far, .near, (Option.some.inj hname).symm, fun _ ↦ rfl⟩
  | bottomMiddle => exact ⟨.far, .middle, (Option.some.inj hname).symm, fun _ ↦ rfl⟩
  | bottomRight => exact ⟨.far, .far, (Option.some.inj hname).symm, fun _ ↦ rfl⟩
  | offset dx dy => cases hname

/-- A named anchor is resolved exactly when the sums fit. -/
theorem resolve_eq_ok_iff_of_name? (hname : anchor.name? = some name) :
    anchor.resolve box = .ok place ↔ box.SumsFit ∧ place = anchor.place box := by
  have hoffset : anchor.OffsetFits box := by
    cases anchor with
    | offset => cases hname
    | _ => trivial
  rw [resolve_eq_ok_iff]
  refine and_congr_left' ⟨fun h ↦ ⟨h.1, h.2.1, h.2.2.1, h.2.2.2.1⟩, fun h ↦ ?_⟩
  exact ⟨h.right, h.bottom, h.across, h.down, hoffset⟩

/-- On a box whose sums fit, a named anchor is resolved to a place of the box, on the row and the
column that its name says, and in no larger box with the same first corner to one before it. The
centre of the box, if its products fit as well, has the column of the middle of the top edge and the
row of the middle of the left edge. -/
theorem resolve_named (hwidth : 0 ≤ box.width) (hheight : 0 ≤ box.height) (hfits : box.SumsFit) :
    (∀ (anchor : Anchor) (name : List Char), anchor.name? = some name →
      ∃ (row column : Part) (place : Point), name = [row.rowLetter, column.columnLetter] ∧
        anchor.resolve box = .ok place ∧ box.Holds place ∧
        row.Marks box.topLeft.y box.bottom place.y ∧
        column.Marks box.topLeft.x box.right place.x ∧
        ∀ larger : Box, larger.topLeft = box.topLeft → box.width ≤ larger.width →
          box.height ≤ larger.height → larger.SumsFit →
          ∃ place', anchor.resolve larger = .ok place' ∧ place.x ≤ place'.x ∧ place.y ≤ place'.y) ∧
    (box.DoublesFit → ∃ top left,
      topMiddle.resolve box = .ok top ∧ middleLeft.resolve box = .ok left ∧
        box.center = .ok ⟨top.x, left.y⟩) := by
  constructor
  · intro anchor name hname
    obtain ⟨row, column, hletters, hplace⟩ := exists_parts_of_name? hname
    have hright : box.topLeft.x ≤ box.right := Int.le_add_of_nonneg_right hwidth
    have hbottom : box.topLeft.y ≤ box.bottom := Int.le_add_of_nonneg_right hheight
    have hcolumn := column.along_between hright
    have hrow := row.along_between hbottom
    refine ⟨row, column, _, hletters,
      (resolve_eq_ok_iff_of_name? hname).2 ⟨hfits, (hplace box).symm⟩,
      ⟨hcolumn.1, hcolumn.2, hrow.1, hrow.2⟩, row.marks_along, column.marks_along, ?_⟩
    intro larger hcorner hwider hhigher hlarger
    refine ⟨_, (resolve_eq_ok_iff_of_name? hname).2 ⟨hlarger, (hplace larger).symm⟩, ?_, ?_⟩
    · rw [hcorner]
      refine column.along_mono ?_
      rw [Box.right, Box.right, hcorner]
      exact Int.add_le_add_left hwider _
    · rw [hcorner]
      refine row.along_mono ?_
      rw [Box.bottom, Box.bottom, hcorner]
      exact Int.add_le_add_left hhigher _
  · intro hdoubles
    refine ⟨topMiddle.place box, middleLeft.place box,
      (resolve_eq_ok_iff_of_name? rfl).2 ⟨hfits, rfl⟩,
      (resolve_eq_ok_iff_of_name? rfl).2 ⟨hfits, rfl⟩, ?_⟩
    exact Box.center_eq_ok_iff.2 ⟨⟨hdoubles.x, hfits.across, hdoubles.y, hfits.down⟩, rfl⟩

/-- A box to the left of the origin and across it, with odd sums of its edges. -/
theorem resolve_named_of_negative :
    let box : Box := ⟨⟨-5, -4⟩, 3, 7⟩
    let wider : Box := ⟨⟨-5, -4⟩, 4, 7⟩
    (0 ≤ box.width ∧ 0 ≤ box.height ∧ box.SumsFit) ∧ wider.SumsFit ∧ box.DoublesFit ∧
      (∃ (row column : Part) (place place' : Point),
        ['t', 'm'] = [row.rowLetter, column.columnLetter] ∧
        topMiddle.resolve box = .ok place ∧ box.Holds place ∧ row.Marks (-4) 3 place.y ∧
        column.Marks (-5) (-2) place.x ∧
        topMiddle.resolve wider = .ok place' ∧ place.x ≤ place'.x) ∧
      ∃ top left, topMiddle.resolve box = .ok top ∧ middleLeft.resolve box = .ok left ∧
        box.center = .ok ⟨top.x, left.y⟩ := by
  intro box wider
  have hbox : box.SumsFit :=
    ⟨⟨by decide, by decide⟩, ⟨by decide, by decide⟩, ⟨by decide, by decide⟩, ⟨by decide, by decide⟩⟩
  have hwider : wider.SumsFit :=
    ⟨⟨by decide, by decide⟩, ⟨by decide, by decide⟩, ⟨by decide, by decide⟩, ⟨by decide, by decide⟩⟩
  have hdoubles : box.DoublesFit := ⟨⟨by decide, by decide⟩, ⟨by decide, by decide⟩⟩
  have hwidth : 0 ≤ box.width := by decide
  have hheight : 0 ≤ box.height := by decide
  obtain ⟨hnamed, hcenter⟩ := resolve_named hwidth hheight hbox
  obtain ⟨row, column, place, hletters, hplace, hholds, hrow, hcolumn, hlarger⟩ :=
    hnamed .topMiddle ['t', 'm'] rfl
  obtain ⟨place', hplace', hx, -⟩ := hlarger wider rfl (by decide) (by decide) hwider
  exact ⟨⟨hwidth, hheight, hbox⟩, hwider, hdoubles,
    ⟨row, column, place, place', hletters, hplace, hholds, hrow, hcolumn, hplace', hx⟩,
    hcenter hdoubles⟩

end Anchor

end Macropad.Screen
