import Macropad.Json.Number

/-!
JSON values. Objects keep their fields in order, repeated ones too. Reading a text is
strict: nothing may follow the value, and commas and colons stand exactly where they
separate.
-/

set_option autoImplicit false

namespace Macropad.Json

inductive Value
  | null
  | bool (b : Bool)
  | number (n : NumberToken)
  | string (s : StringToken)
  | array (items : List Value)
  | object (fields : List (StringToken × Value))
deriving Repr

namespace StringToken

def isHigh (code : Nat) : Bool := 0xD800 ≤ code && code < 0xDC00

def isLow (code : Nat) : Bool := 0xDC00 ≤ code && code < 0xE000

/-- The character that a pair of surrogates stands for. -/
def pairChar (high low : Nat) : Char :=
  Char.ofNat (0x10000 + (high - 0xD800) * 0x400 + (low - 0xDC00))

/-- The text of a string; half of a surrogate pair has none. -/
def text? : StringToken → Option (List Char)
  | [] => some []
  | .char c :: rest => (text? rest).map (c :: ·)
  | .unit high :: .unit low :: rest =>
    if isHigh high then
      if isLow low then (text? rest).map (pairChar high low :: ·) else none
    else if isLow high then none
    else (text? (.unit low :: rest)).map (Char.ofNat high :: ·)
  | .unit code :: rest =>
    if isHigh code || isLow code then none else (text? rest).map (Char.ofNat code :: ·)

def string? (s : StringToken) : Option String := (text? s).map String.ofList

end StringToken

namespace Value

mutual

/-- The value at the front of some tokens. -/
def ofTokens (fuel : Nat) (tokens : List Token) : Option (Value × List Token) :=
  match fuel, tokens with
  | _, .null :: rest => some (.null, rest)
  | _, .bool b :: rest => some (.bool b, rest)
  | _, .number n :: rest => some (.number n, rest)
  | _, .string s :: rest => some (.string s, rest)
  | _, .openArray :: .closeArray :: rest => some (.array [], rest)
  | _, .openObject :: .closeObject :: rest => some (.object [], rest)
  | fuel + 1, .openArray :: rest =>
    (itemsOfTokens fuel rest).map fun (items, after) ↦ (.array items, after)
  | fuel + 1, .openObject :: rest =>
    (fieldsOfTokens fuel rest).map fun (fields, after) ↦ (.object fields, after)
  | _, _ => none

/-- Items up to the closing bracket, at least one. -/
def itemsOfTokens (fuel : Nat) (tokens : List Token) : Option (List Value × List Token) :=
  match fuel with
  | 0 => none
  | fuel + 1 =>
    match ofTokens fuel tokens with
    | some (item, .closeArray :: rest) => some ([item], rest)
    | some (item, .comma :: rest) =>
      (itemsOfTokens fuel rest).map fun (items, after) ↦ (item :: items, after)
    | _ => none

/-- Fields up to the closing brace, at least one. -/
def fieldsOfTokens (fuel : Nat) (tokens : List Token) :
    Option (List (StringToken × Value) × List Token) :=
  match fuel, tokens with
  | fuel + 1, .string key :: .colon :: rest =>
    match ofTokens fuel rest with
    | some (value, .closeObject :: rest) => some ([(key, value)], rest)
    | some (value, .comma :: rest) =>
      (fieldsOfTokens fuel rest).map fun (fields, after) ↦ ((key, value) :: fields, after)
    | _ => none
  | _, _ => none

end

/-- The value that a text consists of. Two rounds for each token are enough. -/
def parse (text : List Char) : Option Value := do
  let tokens ← Token.all text
  match ofTokens (2 * tokens.length + 1) tokens with
  | some (value, []) => return value
  | _ => none

mutual

/-- How many arrays and objects lie within each other. -/
def depth : Value → Nat
  | .array items => depthOfItems items + 1
  | .object fields => depthOfFields fields + 1
  | _ => 0

def depthOfItems : List Value → Nat
  | [] => 0
  | item :: items => max item.depth (depthOfItems items)

def depthOfFields : List (StringToken × Value) → Nat
  | [] => 0
  | (_, value) :: fields => max value.depth (depthOfFields fields)

end

mutual

/-- Whether every string in the value has a text and every number a double. -/
def isMeaningful : Value → Bool
  | .number n => (n.double?).isSome
  | .string s => (StringToken.text? s).isSome
  | .array items => areMeaningful items
  | .object fields => fieldsAreMeaningful fields
  | _ => true

def areMeaningful : List Value → Bool
  | [] => true
  | item :: items => item.isMeaningful && areMeaningful items

def fieldsAreMeaningful : List (StringToken × Value) → Bool
  | [] => true
  | (key, value) :: fields =>
    (StringToken.text? key).isSome && value.isMeaningful && fieldsAreMeaningful fields

end

def string? : Value → Option String
  | .string s => StringToken.string? s
  | _ => none

def bool? : Value → Option Bool
  | .bool b => some b
  | _ => none

def word64? : Value → Option UInt64
  | .number n => n.word64?
  | _ => none

def double? : Value → Option Number.Double
  | .number n => n.double?
  | _ => none

/-- A value that may also be `null`. -/
def nullable? {α : Type} (read : Value → Option α) : Value → Option (Option α)
  | .null => some none
  | value => (read value).map some

end Value

end Macropad.Json
