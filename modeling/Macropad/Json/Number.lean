import Macropad.Json.Token
import Macropad.Number.Double
import Macropad.Number.Integer

/-!
Values of JSON numbers. A whole number is one without point and exponent. A double
takes as many leading digits as fit 64 bits, rounds them, and scales the result by a
power of ten, rounding again; beyond ten to the 308 either way there is one more
division for each further 308 places, and a value past every double has no reading.
-/

set_option autoImplicit false

namespace Macropad.Json

open Macropad.Number

namespace Double

/-- The double nearest to ten to the `n`, in units. -/
def tenPower (n : Nat) : Nat :=
  Number.Double.roundUnits (Nat.pow 10 n * Number.Double.unitsPerOne) 1

def times (a b : Nat) : Nat := Number.Double.roundUnits (a * b) Number.Double.unitsPerOne

def quotient (a b : Nat) : Nat := Number.Double.roundUnits (a * Number.Double.unitsPerOne) b

def scaleDown (units places : Nat) : Nat :=
  if places ≤ 308 then quotient units (tenPower places)
  else if units = 0 then 0
  else scaleDown (quotient units (tenPower 308)) (places - 308)
termination_by places

def scaleUp? (units places : Nat) : Option Nat :=
  if places ≤ 308 then
    let scaled := times units (tenPower places)
    if scaled < Number.Double.unitsLimit then some scaled else none
  else if units = 0 then some 0
  else none

def scaled? (significand : Nat) (exponent : Int) : Option Nat :=
  let units := Number.Double.roundUnits (significand * Number.Double.unitsPerOne) 1
  if 0 ≤ exponent then scaleUp? units exponent.toNat
  else some (scaleDown units (-exponent).toNat)

end Double

namespace NumberToken

/-- Adds digits to a significand while it fits 64 bits; the rest is left over. -/
def accumulate (significand : Nat) : List Char → Nat × List Char
  | [] => (significand, [])
  | c :: rest =>
    let next := significand * 10 + (c.toNat - '0'.toNat)
    if next < UInt64.size then accumulate next rest else (significand, c :: rest)

def isWhole (n : NumberToken) : Bool := n.fraction?.isNone && n.exponent?.isNone

/-- A whole number without a sign that fits 64 bits. -/
def word64? (n : NumberToken) : Option UInt64 :=
  if n.isWhole && !n.negative then readWord64 n.whole else none

/-- Significand and exponent of the digits, before the written exponent is applied. -/
def significand (n : NumberToken) : Nat × Int :=
  let (front, dropped) := accumulate 0 n.whole
  match n.fraction? with
  | none => (front, dropped.length)
  | some fraction =>
    let (all, left) := accumulate front fraction
    (all, (dropped.length : Int) - (fraction.length - left.length : Nat))

/-- The exponents of a decimal are 32-bit numbers and stay at their end when they
would pass it. -/
def clampExponent (e : Int) : Int :=
  max (-(Number.signedLimit : Int)) (min (Number.signedLimit - 1) e)

def magnitude? (n : NumberToken) : Option Nat :=
  let (digits, places) := n.significand
  match n.exponent? with
  | none => Double.scaled? digits places
  | some (negative, exponent) =>
    let e := Nat.ofDigitChars 10 exponent 0
    if Number.signedLimit ≤ e then if digits = 0 ∨ negative then some 0 else none
    else Double.scaled? digits (clampExponent (if negative then places - e else places + e))

/-- The double that a number is read as; `none` when it is too large for one. -/
def double? (n : NumberToken) : Option Number.Double :=
  n.magnitude?.map fun units ↦ .finite n.negative units

end NumberToken

end Macropad.Json
