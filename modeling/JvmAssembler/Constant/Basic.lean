import JvmAssembler.Binary.Float

/-!
# Constants

The constants that method bodies and their debug information need. Some refer to strings: in a pool
by the index of another constant, and once the references have been followed, by the strings
themselves. `Entry` is a constant with references of any type; `Constant` and `Value` are those two.
-/

namespace JvmAssembler

open Binary (Float32Bits Float64Bits)

inductive Tag
  | utf8
  | integer
  | float
  | long
  | double
  | classRef
  | stringRef
  | nameAndType
  deriving DecidableEq, Hashable

/-- The byte that marks a constant of the kind. -/
def Tag.toByte : Tag → UInt8
  | .utf8 => 1
  | .integer => 3
  | .float => 4
  | .long => 5
  | .double => 6
  | .classRef => 7
  | .stringRef => 8
  | .nameAndType => 12

def Tag.ofByte? : UInt8 → Option Tag
  | 1 => some .utf8
  | 3 => some .integer
  | 4 => some .float
  | 5 => some .long
  | 6 => some .double
  | 7 => some .classRef
  | 8 => some .stringRef
  | 12 => some .nameAndType
  | _ => none

/-- A constant whose references are of type `ρ`. Floating-point constants are their bits. -/
inductive Entry (ρ : Type)
  | utf8 (text : String)
  | integer (value : Int32)
  | float (value : Float32Bits)
  | long (value : Int64)
  | double (value : Float64Bits)
  | classRef (name : ρ)
  | stringRef (text : ρ)
  | nameAndType (name descriptor : ρ)
  deriving DecidableEq, Hashable

namespace Entry

variable {ρ σ : Type}

def tag : Entry ρ → Tag
  | .utf8 _ => .utf8
  | .integer _ => .integer
  | .float _ => .float
  | .long _ => .long
  | .double _ => .double
  | .classRef _ => .classRef
  | .stringRef _ => .stringRef
  | .nameAndType _ _ => .nameAndType

/-- The number of pool indices that a constant takes: eight-byte numbers take two, of which the
second is unusable. -/
def slots : Entry ρ → Nat
  | .long _ | .double _ => 2
  | _ => 1

theorem slots_pos (c : Entry ρ) : 0 < c.slots := by
  cases c <;> exact Nat.succ_pos _

/-- Equality in which floating-point constants are compared as numbers. -/
def ieeeEq [DecidableEq ρ] : Entry ρ → Entry ρ → Bool
  | .float x, .float y => x.ieeeEq y
  | .double x, .double y => x.ieeeEq y
  | c, d => c = d

/-- Follows every reference, in order. -/
def follow {m : Type → Type} [Monad m] (step : ρ → m σ) : Entry ρ → m (Entry σ)
  | .utf8 text => return .utf8 text
  | .integer value => return .integer value
  | .float value => return .float value
  | .long value => return .long value
  | .double value => return .double value
  | .classRef name => return .classRef (← step name)
  | .stringRef text => return .stringRef (← step text)
  | .nameAndType name descriptor => return .nameAndType (← step name) (← step descriptor)

end Entry

/-- The index of a constant that should be of kind `target`. Nothing checks that it is, until the
reference is followed. -/
structure Ref (target : Tag) where
  index : UInt16
  deriving DecidableEq, Hashable

instance {target : Tag} : Binary.Word (Ref target) :=
  ⟨2, fun r => r.index.toNat, fun n => ⟨UInt16.ofNat n⟩⟩

abbrev Constant := Entry (Ref .utf8)

abbrev Value := Entry String

end JvmAssembler
