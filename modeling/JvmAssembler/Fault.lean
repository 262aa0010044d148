import JvmAssembler.Constant.Text
import JvmAssembler.Handle

/-!
# Faults

Everything that can go wrong in this library, one constructor for each cause, and its wording.
-/

namespace JvmAssembler

open Binary (Bytes)

inductive Fault
  /-- The constant does not fit into the pool at the index it would have. -/
  | poolOverflow (constant : Constant) (index : UInt16)
  /-- The index is zero or past the end of the pool. -/
  | outOfRange (index : UInt16)
  /-- The index is the second one of a `long` or `double`. -/
  | unusableSlot (index : UInt16)
  /-- The constant at the index is of another kind than expected. -/
  | wrongKind (index : UInt16) (expected found : Tag)
  | endOfInput
  | unknownTag (byte : UInt8)
  | malformedUtf8 (bytes : Bytes)
  /-- The input does not start like a class file. -/
  | badMagic (magic : UInt32)
  /-- A string takes more bytes than its length field can say. -/
  | utf8TooLong (size : Nat)
  | fileNotFound
  /-- The handle names no instruction of the body. -/
  | deadHandle (handle : Handle)
  /-- The instruction cannot go while these holders point at it. -/
  | stillHeld (handle : Handle) (holders : List HolderId)
  /-- The holder does not point at the instruction. -/
  | notHeld (holder : HolderId) (handle : Handle)
  | unknownHolder (holder : HolderId)
  | invertedRange (start stop : Handle)
  /-- The offset into the code does not fit into 16 bits. -/
  | codeTooLong (offset : Nat)
  /-- The slot is not one that a local variable can have. -/
  | badSlot (slot : Int)
  deriving DecidableEq

namespace Fault

open Text

/-- The wording of a fault of input or output. -/
def ioMessage (details : String) : String :=
  Term.apply "IoError" details

def message : Fault → String
  | .poolOverflow constant index =>
    Term.record "ConstantPoolOverflow"
      [("constant", constant.render), ("offset", toString index.toNat)]
  | .outOfRange index => Term.apply "ConstantOutOfRange" (renderIndex index)
  | .unusableSlot index => Term.apply "UnusableConstantSlot" (renderIndex index)
  | .wrongKind index expected found =>
    Term.record "BadConstantKind"
      [("index", renderIndex index), ("expected", expected.name), ("found", found.name)]
  | .endOfInput =>
    ioMessage (Term.record "Error"
      [("kind", "UnexpectedEof"), ("message", Quoted.quote "failed to fill whole buffer")])
  | .unknownTag byte => Term.apply "UnknownConstantTag" (toString byte.toNat)
  | .malformedUtf8 bytes =>
    Term.apply "MalformedUtf8" (Term.list (bytes.map fun b => toString b.toNat))
  | .badMagic magic => Term.apply "BadMagic" (toString magic.toNat)
  | .utf8TooLong size =>
    ioMessage (Term.record "Custom"
      [("kind", "InvalidInput"),
        ("error", Quoted.quote ("Utf8 constant is " ++ toString size ++ " bytes long"))])
  | .fileNotFound =>
    ioMessage (Term.record "Os"
      [("code", "2"), ("kind", "NotFound"),
        ("message", Quoted.quote "No such file or directory")])
  | .deadHandle handle => Term.apply "DeletedHandle" handle.render
  | .stillHeld handle holders =>
    Term.record "TargetLost"
      [("handle", handle.render), ("targeters", Term.list (holders.map HolderId.render))]
  | .notHeld holder handle =>
    Term.record "UntrackedTarget" [("targeter", holder.render), ("target", handle.render)]
  | .unknownHolder holder => Term.apply "UnknownTargeter" holder.render
  | .invertedRange start stop =>
    Term.record "InvertedRange" [("start", start.render), ("end", stop.render)]
  | .codeTooLong offset =>
    Term.apply "MethodCodeOverflow" (Term.apply "Offset" (toString offset))
  | .badSlot slot => Term.apply "InvalidIndex" (toString slot)

end Fault

end JvmAssembler
