import JvmAssembler.Binary.Word

/-!
# Instructions

An instruction is its opcode and operand bytes. Nothing here knows what an opcode does; what counts is
the number of bytes, which decides where the instructions after it stand.
-/

namespace JvmAssembler

open Binary (Bytes Word)

structure Instruction where
  opcode : UInt8
  operands : Bytes
  deriving DecidableEq

namespace Instruction

def width (i : Instruction) : Nat := 1 + i.operands.length

def encode (i : Instruction) : Bytes := i.opcode :: i.operands

theorem encode_eq (i : Instruction) : i.encode = i.opcode :: i.operands := rfl

theorem length_encode (i : Instruction) : i.encode.length = i.width := by
  rw [encode_eq, List.length_cons, width, Nat.add_comm]

def nop : Instruction := ⟨0x00, []⟩

/-- Push an `int`, in the shortest of three encodings. -/
def iconst (value : Int16) : Instruction :=
  if -1 ≤ value ∧ value ≤ 5 then ⟨(value + 3).toInt8.toUInt8, []⟩
  else if -128 ≤ value ∧ value ≤ 127 then ⟨0x10, [value.toInt8.toUInt8]⟩
  else ⟨0x11, Word.encode value.toUInt16⟩

/-- Push the constant at a pool index, with a wide index only where it is needed. -/
def ldc (index : UInt16) : Instruction :=
  if index ≤ 255 then ⟨0x12, [index.toUInt8]⟩ else ⟨0x13, Word.encode index⟩

def iload (slot : UInt8) : Instruction := ⟨0x15, [slot]⟩

def aload (slot : UInt8) : Instruction := ⟨0x19, [slot]⟩

def istore (slot : UInt8) : Instruction := ⟨0x36, [slot]⟩

def astore (slot : UInt8) : Instruction := ⟨0x3a, [slot]⟩

def iadd : Instruction := ⟨0x60, []⟩

def ireturn : Instruction := ⟨0xac, []⟩

def returnVoid : Instruction := ⟨0xb1, []⟩

def athrow : Instruction := ⟨0xbf, []⟩

end Instruction

end JvmAssembler
