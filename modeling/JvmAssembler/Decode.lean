import JvmAssembler.Fault

/-!
# Reading bytes

A reader takes bytes off the front of its input, or fails and takes nothing that anyone can see.
-/

namespace JvmAssembler

open Binary (Bytes Word)

abbrev Decode (α : Type) := StateT Bytes (Except Fault) α

namespace Decode

/-- What was read and what is left, or the end of the input. -/
def ofOption {α : Type} (read : Bytes → Option (α × Bytes)) : Decode α := fun input =>
  match read input with
  | some result => .ok result
  | none => .error .endOfInput

def word {α : Type} [Word α] : Decode α := ofOption Word.decode?

def bytes (n : Nat) : Decode Bytes := ofOption (Binary.splitFirst? n)

end Decode

end JvmAssembler
