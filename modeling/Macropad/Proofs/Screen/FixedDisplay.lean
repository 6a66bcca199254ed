import Macropad.Proofs.Screen.ClickPoints
import Macropad.Proofs.Screen.References
import Macropad.Screen.Polling

/-!
# The display of a dry run

The fixed display shows every image in the same small box in the corner of the screen, in every
attempt and with the best score there is. In such a box the anchor of an image in range has a click
point, since the sums on the way to it have room (`Box.InCorner.hasRoom`). So a poller over this
display finds every image in range at once, whatever its other settings are, as long as the
threshold asks for no more than the best score (`Poller.OverFixed.locate`,
`Poller.OverFixed.locateAll`), and a search leaves it as it is.
-/

set_option autoImplicit false

namespace Macropad.Screen

open Macropad.Number Macropad.Setting

/-! ### Click points in the corner -/

/-- A box in the corner of the screen. -/
structure Box.InCorner (box : Box) : Prop where
  topLeft : box.topLeft = ⟨0, 0⟩
  width : 0 ≤ box.width ∧ box.width < signedLimit
  height : 0 ≤ box.height ∧ box.height < signedLimit

namespace Box.InCorner

variable {box : Box} (hbox : box.InCorner)

include hbox

theorem right_eq : box.right = box.width := by
  rw [right, hbox.topLeft, Int.zero_add]

theorem bottom_eq : box.bottom = box.height := by
  rw [bottom, hbox.topLeft, Int.zero_add]

theorem onScreen : box.OnScreen where
  left := hbox.topLeft ▸ Int.le_refl 0
  top := hbox.topLeft ▸ Int.le_refl 0
  width := hbox.width.1
  height := hbox.height.1
  right := hbox.right_eq ▸ hbox.width.2
  bottom := hbox.bottom_eq ▸ hbox.height.2

/-- In the corner the sums have room, since all of them start at zero. -/
theorem hasRoom {image : ImageRef} (himage : image.InRange) : image.HasRoom box where
  across := by
    rw [across, hbox.right_eq, hbox.topLeft, Int.zero_add]
    exact Coordinate.fits_of_nonneg hbox.width.1 hbox.width.2
  down := by
    rw [down, hbox.bottom_eq, hbox.topLeft, Int.zero_add]
    exact Coordinate.fits_of_nonneg hbox.height.1 hbox.height.2
  offset anchor hanchor := by
    have hrange := himage anchor hanchor
    cases anchor with
    | offset dx dy =>
      simp only [Anchor.OffsetFits, hbox.topLeft, Int.zero_add]
      exact ⟨Coordinate.fits_of_nonneg (Int.natCast_nonneg dx) (Int.ofNat_lt.2 hrange.1),
        Coordinate.fits_of_nonneg (Int.natCast_nonneg dy) (Int.ofNat_lt.2 hrange.2)⟩
    | _ => trivial

end Box.InCorner

/-- An image whose anchor lies in the range has a click point in every box in the corner. -/
theorem ImageRef.exists_clickPoint {image : ImageRef} (himage : image.InRange) {box : Box}
    (hbox : box.InCorner) : ∃ place, image.clickPoint box = .ok place :=
  ⟨_, (clickPoint_eq_ok_iff hbox.onScreen).2 ⟨hbox.hasRoom himage, rfl⟩⟩

/-! ### Searches -/

/-- A poller over the fixed display, whose threshold can be reached. -/
structure Poller.OverFixed (poller : Poller) : Prop where
  display : poller.display = .fixed
  threshold : poller.threshold.isUnitInterval = true

namespace Display

/-- The box in which the fixed display shows an image. -/
def fixedBox : Box := ⟨⟨0, 0⟩, 2, 2⟩

theorem inCorner_fixedBox : fixedBox.InCorner := by
  constructor <;> decide

theorem frames_fixed (path : String) :
    (fixed.script path).frames = [⟨.seen [⟨fixedBox, .one⟩], 0⟩] :=
  rfl

/-- Attempts do not change what the fixed display shows. -/
theorem advance_fixed (path : String) (attempts : Nat) : fixed.advance path attempts = fixed :=
  rfl

end Display

namespace Poller.OverFixed

variable {poller : Poller} (hpoller : poller.OverFixed) {image : ImageRef}

include hpoller

theorem qualifies (box : Box) : Match.qualifies poller.threshold ⟨box, .one⟩ = true :=
  (Bool.and_eq_true_iff.1 hpoller.threshold).2

/-- The first attempt at one place is accepted. -/
theorem poll_best (path : String) (wait : Wait) :
    poll (Glimpse.best? poller.threshold) wait (poller.display.script path).frames =
      (.accepted ⟨Display.fixedBox, .one⟩, 1) := by
  have hbest : Glimpse.best? poller.threshold (.seen [⟨Display.fixedBox, .one⟩]) =
      some ⟨Display.fixedBox, .one⟩ :=
    Option.filter_eq_some_iff.2 ⟨rfl, hpoller.qualifies _⟩
  rw [hpoller.display, Display.frames_fixed, poll]
  simp only [hbest]

/-- The first attempt at all places is accepted. -/
theorem poll_qualifying (path : String) (wait : Wait) :
    poll (Glimpse.qualifying? poller.threshold) wait (poller.display.script path).frames =
      (.accepted [⟨Display.fixedBox, .one⟩], 1) := by
  have hqualifying : Glimpse.qualifying? poller.threshold (.seen [⟨Display.fixedBox, .one⟩]) =
      some [⟨Display.fixedBox, .one⟩] := by
    simp only [Glimpse.qualifying?, List.filter_cons, hpoller.qualifies, if_true, List.filter_nil]
  rw [hpoller.display, Display.frames_fixed, poll]
  simp only [hqualifying]

theorem advance (path : String) (attempts : Nat) :
    { poller with display := poller.display.advance path attempts } = poller := by
  rw [hpoller.display, Display.advance_fixed, ← hpoller.display]

/-- An image in range is found in the first attempt, at its click point in the corner. -/
theorem locate (himage : image.InRange) (wait : Wait) :
    ∃ place, image.clickPoint Display.fixedBox = .ok place ∧
      poller.locate image wait = ⟨.ok (.found place), 1, poller⟩ := by
  obtain ⟨place, hplace⟩ := ImageRef.exists_clickPoint himage Display.inCorner_fixedBox
  refine ⟨place, hplace, ?_⟩
  simp only [Poller.locate, search, hpoller.poll_best, hpoller.advance, hplace, orOverflow,
    Except.map]

/-- The first attempt shows the one place of an image in range. -/
theorem locateAll (himage : image.InRange) :
    ∃ place, image.clickPoint Display.fixedBox = .ok place ∧
      poller.locateAll image = ⟨.ok [place], 1, poller⟩ := by
  obtain ⟨place, hplace⟩ := ImageRef.exists_clickPoint himage Display.inCorner_fixedBox
  refine ⟨place, hplace, ?_⟩
  simp only [Poller.locateAll, search, hpoller.poll_qualifying, hpoller.advance, List.mapM_cons,
    List.mapM_nil, hplace]
  rfl

end Poller.OverFixed

end Macropad.Screen
