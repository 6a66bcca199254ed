/-!
Reading bounded integers. The written form is an optional sign followed by one or
more ASCII digits and nothing else; a number out of range is refused. Leading
zeros and a plus sign change nothing. `readBounded_toDigits` says that the plain
decimal form of every number in range reads back.
-/

set_option autoImplicit false

namespace Macropad.Number

def readDigits (s : List Char) : Option Nat :=
  if s ≠ [] ∧ s.all Char.isDigit = true then some (Nat.ofDigitChars 10 s 0) else none

def dropPlus : List Char → List Char
  | '+' :: rest => rest
  | s => s

/-- A number of at most `limit`. -/
def readBounded (limit : Nat) (s : List Char) : Option Nat :=
  (readDigits (dropPlus s)).filter (· ≤ limit)

def readWord8 (s : List Char) : Option Nat := readBounded (UInt8.size - 1) s

def readWord32 (s : List Char) : Option UInt32 :=
  (readBounded (UInt32.size - 1) s).map UInt32.ofNat

def readWord64 (s : List Char) : Option UInt64 :=
  (readBounded (UInt64.size - 1) s).map UInt64.ofNat

/-- One more than the largest signed 32-bit integer. -/
def signedLimit : Nat := UInt32.size / 2

/-- A signed 32-bit integer; only here may a minus sign stand in front. -/
def readSigned32 : List Char → Option Int
  | '-' :: rest => ((readDigits rest).filter (· ≤ signedLimit)).map fun n ↦ -(n : Int)
  | s => (readBounded (signedLimit - 1) s).map Int.ofNat

theorem readDigits_toDigits (n : Nat) : readDigits (Nat.toDigits 10 n) = some n := by
  have hne : Nat.toDigits 10 n ≠ [] := Nat.toDigits_ne_nil
  have hall : (Nat.toDigits 10 n).all Char.isDigit = true :=
    List.all_eq_true.2 fun c hc ↦ Nat.isDigit_of_mem_toDigits (by decide) (by decide) hc
  simp [readDigits, hne, hall, Nat.ofDigitChars_ten_toDigits]

theorem dropPlus_of_all_isDigit {s : List Char} (h : s.all Char.isDigit = true) :
    dropPlus s = s := by
  unfold dropPlus
  split
  · simp [Char.isDigit] at h
  · rfl

theorem readBounded_toDigits {limit n : Nat} (h : n ≤ limit) :
    readBounded limit (Nat.toDigits 10 n) = some n := by
  have hall : (Nat.toDigits 10 n).all Char.isDigit = true :=
    List.all_eq_true.2 fun c hc ↦ Nat.isDigit_of_mem_toDigits (by decide) (by decide) hc
  simp [readBounded, dropPlus_of_all_isDigit hall, readDigits_toDigits, h]

theorem readWord64_toDigits (n : UInt64) : readWord64 (Nat.toDigits 10 n.toNat) = some n := by
  have h : n.toNat ≤ UInt64.size - 1 := Nat.le_sub_one_of_lt n.toNat_lt_size
  simp only [readWord64, readBounded_toDigits h, Option.map_some, UInt64.ofNat_toNat]

theorem readWord32_toDigits (n : UInt32) : readWord32 (Nat.toDigits 10 n.toNat) = some n := by
  have h : n.toNat ≤ UInt32.size - 1 := Nat.le_sub_one_of_lt n.toNat_lt_size
  simp only [readWord32, readBounded_toDigits h, Option.map_some, UInt32.ofNat_toNat]

end Macropad.Number
