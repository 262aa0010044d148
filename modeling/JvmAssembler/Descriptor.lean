import JvmAssembler.Name

/-!
# Types and their descriptors

The types of variables and fields, the descriptors that class files spell them with, and the number
of local variable slots that a value of each takes.
-/

namespace JvmAssembler

inductive BaseType
  | byte
  | char
  | double
  | float
  | int
  | long
  | short
  | boolean
  deriving DecidableEq

/-- The types of references. An array type has one dimension more than `extraDimensions`. This number has
no bound, and agrees with a machine word for every type whose descriptor fits into memory: there is a
character for each dimension in that. -/
inductive RefType
  | object (name : BinaryName)
  | objectArray (name : BinaryName) (extraDimensions : Nat)
  | baseArray (element : BaseType) (extraDimensions : Nat)
  deriving DecidableEq

inductive FieldType
  | base (type : BaseType)
  | ref (type : RefType)
  deriving DecidableEq

def BaseType.letter : BaseType → Char
  | .byte => 'B'
  | .char => 'C'
  | .double => 'D'
  | .float => 'F'
  | .int => 'I'
  | .long => 'J'
  | .short => 'S'
  | .boolean => 'Z'

def BaseType.slots : BaseType → Nat
  | .double | .long => 2
  | _ => 1

def BinaryName.descriptorChars (name : BinaryName) : List Char :=
  'L' :: name.text.toList ++ [';']

def arrayDescriptor (extraDimensions : Nat) (element : List Char) : List Char :=
  List.replicate (extraDimensions + 1) '[' ++ element

namespace RefType

def descriptorChars : RefType → List Char
  | .object name => name.descriptorChars
  | .objectArray name extra => arrayDescriptor extra name.descriptorChars
  | .baseArray element extra => arrayDescriptor extra [element.letter]

def descriptor (type : RefType) : String :=
  String.ofList type.descriptorChars

/-- What a class constant calls the type: the plain name of a class, the descriptor of an array. -/
def constantName : RefType → String
  | .object name => name.text
  | type => type.descriptor

end RefType

namespace FieldType

def array : FieldType → FieldType
  | .base element => .ref (.baseArray element 0)
  | .ref (.object name) => .ref (.objectArray name 0)
  | .ref (.objectArray name extra) => .ref (.objectArray name (extra + 1))
  | .ref (.baseArray element extra) => .ref (.baseArray element (extra + 1))

def descriptor : FieldType → String
  | .base type => String.ofList [type.letter]
  | .ref type => type.descriptor

theorem toList_descriptor_array (type : FieldType) :
    type.array.descriptor.toList = '[' :: type.descriptor.toList := by
  rcases type with type | ⟨name⟩ | ⟨name, extra⟩ | ⟨element, extra⟩ <;>
    simp [array, descriptor, RefType.descriptor, RefType.descriptorChars, arrayDescriptor,
      List.replicate_succ]

def slots : FieldType → Nat
  | .base type => type.slots
  | .ref _ => 1

end FieldType

end JvmAssembler
