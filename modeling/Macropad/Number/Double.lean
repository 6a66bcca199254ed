/-!
Double-precision numbers, exactly. A finite double is a whole number of units, a
unit being `2 ^ -1074`, the least positive double; order, rounding and scaling are
then arithmetic on naturals. Every operation rounds once, to the nearest double,
and from the middle of two to the one with the even significand.
-/

set_option autoImplicit false

namespace Macropad.Number

inductive Double
  | finite (negative : Bool) (units : Nat)
  | infinite (negative : Bool)
  | nan
deriving Repr, DecidableEq

namespace Double

/-- How many units make one. -/
def unitsPerOne : Nat := Nat.pow 2 1074

/-- The least number of units that no finite double reaches. -/
def unitsLimit : Nat := Nat.pow 2 (1074 + 1024)

def zero : Double := .finite false 0

def one : Double := .finite false unitsPerOne

/-- Doubles with as many units as `units` lie this far apart. -/
def spacing (units : Nat) : Nat := Nat.pow 2 (units.log2 - 52)

/-- The representable number of units nearest to `num / den`. -/
def roundUnits (num den : Nat) : Nat :=
  let gap := spacing (num / den)
  let step := den * gap
  let below := num / step
  let twice := 2 * (num % step)
  if step < twice ∨ (twice = step ∧ below % 2 = 1) then (below + 1) * gap else below * gap

def ofUnits (negative : Bool) (units : Nat) : Double :=
  if units < unitsLimit then .finite negative units else .infinite negative

/-- The double nearest to `num / den`. -/
def ofRatio (negative : Bool) (num den : Nat) : Double :=
  ofUnits negative (roundUnits (num * unitsPerOne) den)

/-- The double nearest to `digits * 10 ^ exponent`. A magnitude of ten to the 310
or more is infinite and one below ten to the minus 330 is zero, so no larger power
of ten is formed. -/
def ofDecimal (negative : Bool) (digits : Nat) (exponent : Int) : Double :=
  if digits = 0 then .finite negative 0
  else
    let magnitude := (Nat.toDigits 10 digits).length + exponent
    if 310 < magnitude then .infinite negative
    else if magnitude < -330 then .finite negative 0
    else if 0 ≤ exponent then ofRatio negative (digits * Nat.pow 10 exponent.toNat) 1
    else ofRatio negative digits (Nat.pow 10 (-exponent).toNat)

/-- The signed count of units of a finite double. -/
def signedUnits (negative : Bool) (units : Nat) : Int :=
  if negative then -(units : Int) else units

/-- Order of values: both zeros are equal and `nan` compares with nothing. -/
def le : Double → Double → Bool
  | .nan, _ => false
  | _, .nan => false
  | .infinite true, _ => true
  | _, .infinite false => true
  | .infinite false, _ => false
  | _, .infinite true => false
  | .finite n a, .finite m b => decide (signedUnits n a ≤ signedUnits m b)

/-- The closed interval from zero to one. -/
def isUnitInterval (t : Double) : Bool := zero.le t && t.le one

theorem not_isUnitInterval_nan : isUnitInterval .nan = false := rfl

theorem isUnitInterval_iff {t : Double} :
    isUnitInterval t = true ↔
      ∃ negative units, t = .finite negative units ∧
        (units = 0 ∨ (negative = false ∧ units ≤ unitsPerOne)) := by
  have hone : one = .finite false unitsPerOne := rfl
  generalize unitsPerOne = limit at hone ⊢
  cases t with
  | nan => simp [isUnitInterval, le, zero]
  | infinite n => cases n <;> simp [isUnitInterval, le, zero, hone]
  | finite n u => cases n <;> grind [isUnitInterval, le, zero, signedUnits]

end Double

end Macropad.Number
