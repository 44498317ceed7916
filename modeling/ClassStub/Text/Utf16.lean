/-!
# UTF-16 code units

Text as a sequence of 16-bit code units. A character below `U+10000` is one unit; any other is
a pair, a *high surrogate* followed by a *low surrogate*. `encode` cuts text into units and
`decode?` joins units to text; it refuses a surrogate that has no partner.
-/

namespace ClassStub.Utf16

/-- The unit opens a surrogate pair. -/
def isHigh (unit : UInt16) : Bool := 0xD800 ≤ unit.toNat && unit.toNat < 0xDC00

/-- The unit closes a surrogate pair. -/
def isLow (unit : UInt16) : Bool := 0xDC00 ≤ unit.toNat && unit.toNat < 0xE000

/-- The units of one character: itself, or its surrogate pair. -/
def encodeChar (c : Char) : List UInt16 :=
  if c.toNat < 0x10000 then
    [UInt16.ofNat c.toNat]
  else
    [UInt16.ofNat (0xD800 + (c.toNat - 0x10000) / 0x400),
      UInt16.ofNat (0xDC00 + (c.toNat - 0x10000) % 0x400)]

/-- The units of a text. -/
def encode (text : String) : List UInt16 := text.toList.flatMap encodeChar

/-- The character that a surrogate pair stands for. -/
def joinPair (high low : UInt16) : Char :=
  Char.ofNat (0x10000 + (high.toNat - 0xD800) * 0x400 + (low.toNat - 0xDC00))

/-- Reads units behind the characters `before`, which stand in reverse order. -/
def decodeOnto (before : List Char) : List UInt16 → Option (List Char)
  | [] => some before.reverse
  | unit :: rest =>
    if isHigh unit then
      match rest with
      | next :: rest =>
        if isLow next then decodeOnto (joinPair unit next :: before) rest else none
      | [] => none
    else if isLow unit then
      none
    else
      decodeOnto (Char.ofNat unit.toNat :: before) rest

/-- The text of a sequence of units, if every surrogate in it belongs to a pair. -/
def decode? (units : List UInt16) : Option String :=
  (decodeOnto [] units).map String.ofList

end ClassStub.Utf16
