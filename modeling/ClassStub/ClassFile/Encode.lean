import ClassStub.ClassFile

/-!
# Encoding class files

The bytes of a class file. Every count takes sixteen bits and is cut to them, and so is the
length of a text; the length of an attribute's payload is cut to thirty-two.
-/

namespace ClassStub.ClassFile

/-- The parts of a class file that stand behind its constant pool. -/
def encodeBody (c : ClassFile) : Bytes :=
  bigEndian 2 c.access.bits.toNat ++ bigEndian 2 c.thisClass.toNat ++
    bigEndian 2 c.superClass.toNat ++
    (encodeCounted (fun index => bigEndian 2 index.toNat) c.interfaces ++
    (encodeCounted Member.encode c.fields ++
    (encodeCounted Member.encode c.methods ++ encodeCounted Attribute.encode c.attributes)))

/-- The bytes of a class file. -/
def encode (c : ClassFile) : Bytes :=
  bigEndian 4 c.magic.toNat ++ bigEndian 2 c.minorVersion.toNat ++
    bigEndian 2 c.majorVersion.toNat ++ (c.pool.encode ++ c.encodeBody)

end ClassStub.ClassFile
