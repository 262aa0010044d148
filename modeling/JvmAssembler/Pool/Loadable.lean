import JvmAssembler.Descriptor
import JvmAssembler.Pool.Basic

/-!
# Loadable constants

What an instruction can push onto the stack, and the constants that stand for it in a pool. Classes
and string objects need two constants, and if only the first of them fits it stays.
-/

namespace JvmAssembler

open Binary (Float32Bits Float64Bits)

/-- A value that an instruction can load from the pool. -/
inductive Loadable
  | string (text : String)
  | classOf (type : RefType)
  | integer (value : Int32)
  | float (value : Float32Bits)
  | long (value : Int64)
  | double (value : Float64Bits)
  deriving DecidableEq

namespace Pool

def internClassNamed (name : String) : PoolM (Ref .classRef) := do
  internClass (← internUtf8 name)

def internBinaryName (name : BinaryName) : PoolM (Ref .classRef) :=
  internClassNamed name.text

def internRefType (type : RefType) : PoolM (Ref .classRef) :=
  internClassNamed type.constantName

def internLoadable : Loadable → PoolM UInt16
  | .string text => do return (← internString (← internUtf8 text)).index
  | .classOf type => do return (← internRefType type).index
  | .integer value => intern (.integer value)
  | .float value => intern (.float value)
  | .long value => intern (.long value)
  | .double value => intern (.double value)

/-- Interns loadable values one after the other, and answers the index of the last. -/
def internAll (last : Option UInt16) : List Loadable → PoolM (Option UInt16)
  | [] => return last
  | value :: rest => do internAll (some (← internLoadable value)) rest

end Pool

end JvmAssembler
