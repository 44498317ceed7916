import ClassStub.Attribute

/-!
# Code payloads

The payload of a `Code` attribute: how much stack and how many local slots a method needs, its
instructions, its exception handlers and attributes of its own.
-/

namespace ClassStub

/-- A range of code with the place where an exception raised in it is handled. -/
structure ExceptionHandler where
  start : UInt16
  stop : UInt16
  handler : UInt16
  catchType : UInt16
  deriving DecidableEq, Inhabited

namespace ExceptionHandler

/-- The written form of a handler. -/
def encode (range : ExceptionHandler) : Bytes :=
  bigEndian 2 range.start.toNat ++ bigEndian 2 range.stop.toNat ++
    bigEndian 2 range.handler.toNat ++ bigEndian 2 range.catchType.toNat

/-- Reads a handler. -/
def decoder : Decoder ExceptionHandler := do
  let start ← Decoder.u16
  let stop ← Decoder.u16
  let handler ← Decoder.u16
  let catchType ← Decoder.u16
  return ⟨start, stop, handler, catchType⟩

end ExceptionHandler

/-- The payload of a `Code` attribute. -/
structure CodePayload where
  maxStack : UInt16
  maxLocals : UInt16
  code : Bytes
  handlers : List ExceptionHandler
  attributes : List Attribute
  deriving DecidableEq, Inhabited

namespace CodePayload

/-- The written form of a payload. -/
def encode (payload : CodePayload) : Bytes :=
  bigEndian 2 payload.maxStack.toNat ++ bigEndian 2 payload.maxLocals.toNat ++
    bigEndian 4 payload.code.length ++ payload.code ++
    encodeCounted ExceptionHandler.encode payload.handlers ++
    encodeCounted Attribute.encode payload.attributes

/-- Reads a payload. -/
def decoder : Decoder CodePayload := do
  let maxStack ← Decoder.u16
  let maxLocals ← Decoder.u16
  let code ← Decoder.sized 4
  let handlers ← Decoder.counted ExceptionHandler.decoder
  let attributes ← Decoder.counted Attribute.decoder
  return ⟨maxStack, maxLocals, code, handlers, attributes⟩

/-- Reads a payload, which must fill the bytes. -/
def decode (info : Bytes) : Except FormatError CodePayload :=
  decoder.runAll .codeSlack info

/-- The payload as an attribute. -/
def toAttribute (payload : CodePayload) (nameIndex : UInt16) : Attribute :=
  ⟨nameIndex, payload.encode⟩

end CodePayload

end ClassStub
