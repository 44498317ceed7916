import ClassStub.FormatError

/-!
# Decoders

A decoder takes what it needs from the front of the bytes that are left and leaves the rest to
the next one. The input counts the bytes already taken, so that an error can say where it
happened; an input that ends too early is always reported at its end, whichever decoder ran out
of bytes.
-/

namespace ClassStub

/-- What a decoder works on: the bytes that are left, and how many were taken before them. -/
structure Input where
  offset : Nat
  rest : Bytes
  deriving DecidableEq, Inhabited

/-- Where the input ends, counted from its beginning. -/
def Input.endOffset (input : Input) : Nat := input.offset + input.rest.length

/-- Takes bytes from the front of the input to form a value, or fails. -/
abbrev Decoder (α : Type) := StateT Input (Except FormatError) α

namespace Decoder

variable {α : Type}

/-- The number of bytes taken so far. -/
def offset : Decoder Nat := fun input => .ok (input.offset, input)

/-- Fails if a look-up in a pool failed. -/
def ofPool (value : Except PoolError α) : Decoder α := fun input =>
  match value with
  | .ok a => .ok (a, input)
  | .error error => .error (.pool error)

/-- Takes a number of bytes. -/
def take (count : Nat) : Decoder Bytes := fun input =>
  let taken := input.rest.take count
  if taken.length = count then
    .ok (taken, ⟨input.offset + count, input.rest.drop count⟩)
  else
    .error (.unexpectedEnd input.endOffset)

/-- Takes a number of `width` bytes, most significant byte first. -/
def number (width : Nat) : Decoder Nat := ofBigEndian <$> take width

/-- Takes one byte. -/
def u8 : Decoder UInt8 := UInt8.ofNat <$> number 1

/-- Takes a 16-bit number. -/
def u16 : Decoder UInt16 := UInt16.ofNat <$> number 2

/-- Takes a 32-bit number. -/
def u32 : Decoder UInt32 := UInt32.ofNat <$> number 4

/-- Takes a 64-bit number. -/
def u64 : Decoder UInt64 := UInt64.ofNat <$> number 8

/-- Takes bytes behind their number, which is itself `width` bytes wide. -/
def sized (width : Nat) : Decoder Bytes := do take (← number width)

/-- Runs a decoder a number of times and lists the values. -/
def times (count : Nat) (decoder : Decoder α) : Decoder (List α) :=
  (List.replicate count ()).mapM fun _ => decoder

/-- Takes a 16-bit count and then that many values. -/
def counted (decoder : Decoder α) : Decoder (List α) := do times (← number 2) decoder

/-- Runs a decoder on a whole byte string; bytes that are left over are an error. -/
def runAll (slack : Nat → FormatError) (decoder : Decoder α) (bytes : Bytes) :
    Except FormatError α :=
  match decoder ⟨0, bytes⟩ with
  | .ok (a, input) => if input.rest.isEmpty then .ok a else .error (slack input.rest.length)
  | .error error => .error error

end Decoder

/-- The written form of a list of values: their number in sixteen bits, to which a larger number
is cut, and then each value. -/
def encodeCounted {α : Type} (encode : α → Bytes) (values : List α) : Bytes :=
  bigEndian 2 values.length ++ values.flatMap encode

end ClassStub
