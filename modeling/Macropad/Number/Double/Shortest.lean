import Macropad.Number.Double

/-!
The shortest decimal text of a double. Among the decimals that read back to the
same double, those on the coarsest grid of powers of ten are taken, and of these
the nearest to the double. The text is positional, without an exponent and without
a point after a whole number.
-/

set_option autoImplicit false

namespace Macropad.Number.Double

/-- The numbers that round to a double, in quarters of a unit. The ends belong to
the interval when the significand is even. -/
structure RoundingInterval where
  low : Nat
  high : Nat
  closed : Bool

/-- Below a power of two the doubles lie half as far apart as above it. -/
def roundingInterval (units : Nat) : RoundingInterval :=
  let gap := spacing units
  let gapBelow := if units = Nat.pow 2 units.log2 ∧ 1 < gap then gap / 2 else gap
  { low := 4 * units - 2 * gapBelow
    high := 4 * units + 2 * gap
    closed := (units / gap) % 2 = 0 }

/-- Whether `num / den` quarters of a unit lie in the interval. -/
def RoundingInterval.holds (i : RoundingInterval) (num den : Nat) : Bool :=
  if i.closed then i.low * den ≤ num && num ≤ i.high * den
  else i.low * den < num && num < i.high * den

/-- The multiple of `10 ^ exponent` that reads back to the double, if there is one;
the nearer of two, and the upper one when both are equally near. -/
def onGrid? (units : Nat) (exponent : Int) : Option Nat :=
  let num := 4 * unitsPerOne * Nat.pow 10 exponent.toNat
  let den := Nat.pow 10 (-exponent).toNat
  let i := roundingInterval units
  let target := 4 * units * den
  let below := target / num
  let above := below + 1
  match i.holds (below * num) den, i.holds (above * num) den with
  | true, true => some (if target - below * num < above * num - target then below else above)
  | true, false => some below
  | false, true => some above
  | false, false => none

/-- Digits and exponent of the shortest decimal of a positive double. The largest
double is below `10 ^ 309`, and seventeen digits always suffice. -/
def shortestDecimal (units : Nat) : Nat × Int :=
  ((List.range 660).findSome? fun i : Nat ↦
    let exponent : Int := 308 - i
    (onGrid? units exponent).map fun digits ↦ (digits, exponent)).getD (0, 0)

/-- `digits * 10 ^ exponent` in positional notation. -/
def positional (digits : Nat) (exponent : Int) : List Char :=
  let shown := Nat.toDigits 10 digits
  if 0 ≤ exponent then shown ++ List.replicate exponent.toNat '0'
  else
    let places := (-exponent).toNat
    let padded := List.replicate (places + 1 - shown.length) '0' ++ shown
    padded.take (padded.length - places) ++ '.' :: padded.drop (padded.length - places)

def magnitudeText (units : Nat) : List Char :=
  if units = 0 then ['0']
  else
    let (digits, exponent) := shortestDecimal units
    positional digits exponent

def text : Double → String
  | .nan => "NaN"
  | .infinite negative => if negative then "-inf" else "inf"
  | .finite negative units =>
    String.ofList (if negative then '-' :: magnitudeText units else magnitudeText units)

end Macropad.Number.Double
