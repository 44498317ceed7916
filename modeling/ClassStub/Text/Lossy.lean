import ClassStub.Bytes

/-!
# Bytes shown as a text

A string of bytes that should be UTF-8 but need not be, such as the name of a file. Where the bytes
are the encoding of a character, this character is shown; a replacement character stands for each
beginning of an encoding that does not go on as it should, and for each byte that begins none.
-/

namespace ClassStub

/-- The bytes of a text in UTF-8. -/
def utf8Bytes (text : String) : Bytes := text.toList.flatMap String.utf8EncodeChar

namespace Lossy

/-- The character that stands for bytes that encode none. -/
def replacement : Char := '\uFFFD'

/-- The byte can only go on with an encoding. -/
def isContinuation (byte : UInt8) : Bool := byte &&& 0xC0 == 0x80

/-- The second byte may follow the first one of an encoding of three bytes. Overlong encodings and
surrogates are ruled out. -/
def opensThree (first second : UInt8) : Bool :=
  isContinuation second && 0xE0 ≤ first && first ≤ 0xEF && (first != 0xE0 || 0xA0 ≤ second) &&
    (first != 0xED || second ≤ 0x9F)

/-- The second byte may follow the first one of an encoding of four bytes. Overlong encodings and
numbers beyond the last character are ruled out. -/
def opensFour (first second : UInt8) : Bool :=
  isContinuation second && 0xF0 ≤ first && first ≤ 0xF4 && (first != 0xF0 || 0x90 ≤ second) &&
    (first != 0xF4 || second ≤ 0x8F)

/-- The character whose number is made of the lowest bits of some bytes, six of each but the
first. -/
def assemble (mask : UInt8) (first : UInt8) (others : Bytes) : Char :=
  Char.ofNat (others.foldl (fun n byte => n * 64 + (byte &&& 0x3F).toNat) (first &&& mask).toNat)

/-- The characters shown for some bytes. -/
def characters : Bytes → List Char
  | [] => []
  | a :: [] => [if a < 0x80 then Char.ofNat a.toNat else replacement]
  | a :: b :: rest =>
    if a < 0x80 then
      Char.ofNat a.toNat :: characters (b :: rest)
    else if 0xC2 ≤ a && a ≤ 0xDF && isContinuation b then
      assemble 0x1F a [b] :: characters rest
    else if opensThree a b then
      match rest with
      | [] => [replacement]
      | c :: rest =>
        if isContinuation c then assemble 0x0F a [b, c] :: characters rest
        else replacement :: characters (c :: rest)
    else if opensFour a b then
      match rest with
      | [] => [replacement]
      | c :: [] => if isContinuation c then [replacement] else replacement :: characters [c]
      | c :: d :: rest =>
        if !isContinuation c then replacement :: characters (c :: d :: rest)
        else if isContinuation d then assemble 0x07 a [b, c, d] :: characters rest
        else replacement :: characters (d :: rest)
    else
      replacement :: characters (b :: rest)

end Lossy

/-- Bytes shown as a text. -/
def lossyText (bytes : Bytes) : String := String.ofList (Lossy.characters bytes)

end ClassStub
