import Macropad.Text.Cut

/-!
Tokens of JSON. A string token keeps its parts, since an escape may name half of a
surrogate pair, and a number token keeps its digits: what either stands for is a
question for whoever needs the value.
-/

set_option autoImplicit false

namespace Macropad.Json

inductive StringPart
  | char (c : Char)
  /-- A UTF-16 unit, given by four hexadecimal digits. -/
  | unit (code : Nat)
deriving Repr, DecidableEq

abbrev StringToken : Type := List StringPart

/-- A number as it is written. `exponent?` holds the sign and the digits. -/
structure NumberToken where
  negative : Bool
  whole : List Char
  fraction? : Option (List Char)
  exponent? : Option (Bool × List Char)
deriving Repr, DecidableEq

inductive Token
  | openObject
  | closeObject
  | openArray
  | closeArray
  | colon
  | comma
  | null
  | bool (b : Bool)
  | number (n : NumberToken)
  | string (s : StringToken)
deriving Repr, DecidableEq

namespace Token

def isSpace (c : Char) : Bool := c = ' ' || c = '\n' || c = '\t' || c = '\r'

def hexDigit? (c : Char) : Option Nat :=
  if '0' ≤ c ∧ c ≤ '9' then some (c.toNat - '0'.toNat)
  else if 'a' ≤ c ∧ c ≤ 'f' then some (c.toNat - 'a'.toNat + 10)
  else if 'A' ≤ c ∧ c ≤ 'F' then some (c.toNat - 'A'.toNat + 10)
  else none

/-- What a single character behind a backslash stands for. -/
def escaped? : Char → Option Char
  | '"' => some '"'
  | '\\' => some '\\'
  | '/' => some '/'
  | 'b' => some '\x08'
  | 'f' => some '\x0c'
  | 'n' => some '\n'
  | 'r' => some '\r'
  | 't' => some '\t'
  | _ => none

def unit? (a b c d : Char) : Option Nat := do
  let digits ← [a, b, c, d].mapM hexDigit?
  return digits.foldl (fun code digit ↦ code * 16 + digit) 0

/-- The parts of a string up to its closing quote, and what follows it. Control
characters have to be escaped. -/
def stringParts : List Char → Option (StringToken × List Char)
  | [] => none
  | '"' :: rest => some ([], rest)
  | '\\' :: 'u' :: a :: b :: c :: d :: rest => do
    let code ← unit? a b c d
    let (parts, after) ← stringParts rest
    return (.unit code :: parts, after)
  | '\\' :: e :: rest => do
    let c ← escaped? e
    let (parts, after) ← stringParts rest
    return (.char c :: parts, after)
  | c :: rest =>
    if c.toNat < 0x20 ∨ c = '\\' then none
    else do
      let (parts, after) ← stringParts rest
      return (.char c :: parts, after)

/-- A point and the digits that have to follow it. -/
def fractionPart : List Char → Option (Option (List Char) × List Char)
  | '.' :: rest =>
    match rest.takeWhile Char.isDigit with
    | [] => none
    | digits => some (some digits, rest.dropWhile Char.isDigit)
  | s => some (none, s)

def exponentPart (s : List Char) : Option (Option (Bool × List Char) × List Char) :=
  match s with
  | c :: rest =>
    if c = 'e' ∨ c = 'E' then
      let (negative, body) :=
        match rest with
        | '-' :: body => (true, body)
        | '+' :: body => (false, body)
        | body => (false, body)
      match body.takeWhile Char.isDigit with
      | [] => none
      | digits => some (some (negative, digits), body.dropWhile Char.isDigit)
    else some (none, s)
  | [] => some (none, [])

/-- The digits in front of the point; a zero stands alone. -/
def wholePart : List Char → Option (List Char × List Char)
  | '0' :: rest => some (['0'], rest)
  | s =>
    match s.takeWhile Char.isDigit with
    | [] => none
    | digits => some (digits, s.dropWhile Char.isDigit)

def numberToken (s : List Char) : Option (Token × List Char) := do
  let (negative, body) :=
    match s with
    | '-' :: body => (true, body)
    | body => (false, body)
  let (whole, s) ← wholePart body
  let (fraction?, s) ← fractionPart s
  let (exponent?, s) ← exponentPart s
  return (.number ⟨negative, whole, fraction?, exponent?⟩, s)

/-- The token at the front of a text that does not begin with a space. -/
def first (s : List Char) : Option (Token × List Char) :=
  match s with
  | '{' :: rest => some (.openObject, rest)
  | '}' :: rest => some (.closeObject, rest)
  | '[' :: rest => some (.openArray, rest)
  | ']' :: rest => some (.closeArray, rest)
  | ':' :: rest => some (.colon, rest)
  | ',' :: rest => some (.comma, rest)
  | '"' :: rest => (stringParts rest).map fun (parts, after) ↦ (.string parts, after)
  | 'n' :: 'u' :: 'l' :: 'l' :: rest => some (.null, rest)
  | 't' :: 'r' :: 'u' :: 'e' :: rest => some (.bool true, rest)
  | 'f' :: 'a' :: 'l' :: 's' :: 'e' :: rest => some (.bool false, rest)
  | s => numberToken s

/-- The tokens of a text; every step has to leave a shorter text. -/
def all (s : List Char) : Option (List Token) :=
  match s.dropWhile isSpace with
  | [] => some []
  | c :: rest =>
    match first (c :: rest) with
    | none => none
    | some (token, after) =>
      if _hlt : after.length < s.length then (all after).map (token :: ·) else none
termination_by s.length

end Token

end Macropad.Json
