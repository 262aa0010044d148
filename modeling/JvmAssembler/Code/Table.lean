import JvmAssembler.Pool.Basic

/-!
# Tables of a method

The entries that a class file keeps about the local variables and exception handlers of a method, with
offsets into its code and indices into the constant pool, and the attribute that holds the former.
-/

namespace JvmAssembler

open Binary (Bytes Word)

/-- A local variable, live in the `length` bytes from `start` on. -/
structure LocalRecord where
  start : UInt16
  length : UInt16
  name : Ref .utf8
  descriptor : Ref .utf8
  slot : UInt16
  deriving DecidableEq

/-- An exception handler at `handler` for the bytes from `start` up to but not including `stop`.
Without a class it catches everything. -/
structure CatchRecord where
  start : UInt16
  stop : UInt16
  handler : UInt16
  caught : Option (Ref .classRef)
  deriving DecidableEq

structure Attribute where
  name : Ref .utf8
  info : Bytes
  deriving DecidableEq

def LocalRecord.encode (r : LocalRecord) : Bytes :=
  Word.encode r.start ++ Word.encode r.length ++ Word.encode r.name ++ Word.encode r.descriptor ++
    Word.encode r.slot

theorem LocalRecord.length_encode (r : LocalRecord) : r.encode.length = 10 := by
  simp [encode, Word.length_encode, Word.size]

/-- The eight bytes of an exception handler, with index zero for no class. -/
def CatchRecord.encode (r : CatchRecord) : Bytes :=
  Word.encode r.start ++ Word.encode r.stop ++ Word.encode r.handler ++
    Word.encode (r.caught.elim 0 Ref.index)

theorem CatchRecord.length_encode (r : CatchRecord) : r.encode.length = 8 := by
  simp [encode, Word.length_encode, Word.size]

/-- The attribute's name, the length of its content in 32 bits, and its content. -/
def Attribute.encode (a : Attribute) : Bytes :=
  Word.encode a.name ++ Word.encode (UInt32.ofNat a.info.length) ++ a.info

def localTableName : String := "LocalVariableTable"

def localTableAttribute (table : List LocalRecord) : PoolM Attribute := do
  let name ← Pool.internUtf8 localTableName
  return ⟨name, Binary.encodeCounted LocalRecord.encode table⟩

end JvmAssembler
