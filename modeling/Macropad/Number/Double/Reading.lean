import Macropad.Number.Double
import Macropad.Number.Integer

/-!
Reading a double from text: an optional sign, then `inf`, `infinity` or `nan` in
any case, or ASCII digits with at most one point and at least one digit, and an
optional exponent. The result is the double nearest to the written number.
-/

set_option autoImplicit false

namespace Macropad.Number.Double

/-- A leading sign, and whether it is a minus. -/
def cutSign : List Char → Bool × List Char
  | '-' :: rest => (true, rest)
  | '+' :: rest => (false, rest)
  | s => (false, s)

/-- The exponent part, which may be absent altogether. -/
def readExponent : List Char → Option Int
  | [] => some 0
  | c :: rest =>
    if c = 'e' ∨ c = 'E' then
      let (negative, digits) := cutSign rest
      (readDigits digits).map fun n ↦ if negative then -(n : Int) else n
    else none

/-- Digits, with the fraction digits that follow a point, and the rest. -/
def cutDecimal (s : List Char) : List Char × List Char × List Char :=
  let whole := s.takeWhile Char.isDigit
  match s.dropWhile Char.isDigit with
  | '.' :: rest => (whole, rest.takeWhile Char.isDigit, rest.dropWhile Char.isDigit)
  | rest => (whole, [], rest)

def readMagnitude (negative : Bool) (s : List Char) : Option Double :=
  let (whole, fraction, rest) := cutDecimal s
  if whole = [] ∧ fraction = [] then none
  else
    (readExponent rest).map fun exponent ↦
      ofDecimal negative (Nat.ofDigitChars 10 (whole ++ fraction) 0) (exponent - fraction.length)

def read (s : List Char) : Option Double :=
  let (negative, body) := cutSign s
  let word := body.map Char.toLower
  if word = "inf".toList ∨ word = "infinity".toList then some (.infinite negative)
  else if word = "nan".toList then some .nan
  else readMagnitude negative body

end Macropad.Number.Double
