/-!
# Names

Unqualified names are those of methods, fields and local variables; binary names are those of classes
and interfaces, unqualified names separated by slashes. Both exist only in checked form.
-/

namespace JvmAssembler

inductive NameError
  | illegalCharacter (text : String)
  | empty
  | emptyBinary
  deriving DecidableEq

def NameError.message : NameError → String
  | .illegalCharacter text => "Unqualified name '" ++ text ++ "' contains an illegal character"
  | .empty => "Unqualified name is empty"
  | .emptyBinary => "Binary name is empty"

def isReserved (c : Char) : Bool :=
  c == '.' || c == ';' || c == '[' || c == '/'

namespace UnqualifiedName

/-- What is wrong with an unqualified name, if anything. -/
def fault? (text : List Char) : Option NameError :=
  if text.any isReserved then some (.illegalCharacter (String.ofList text))
  else if text.isEmpty then some .empty
  else none

end UnqualifiedName

namespace BinaryName

/-- What is wrong with a binary name, if anything: the fault of its first bad segment. -/
def fault? (text : List Char) : Option NameError :=
  if text.isEmpty then some .emptyBinary
  else (text.splitOn '/').findSome? UnqualifiedName.fault?

end BinaryName

structure UnqualifiedName where
  text : String
  fault?_text : UnqualifiedName.fault? text.toList = none
  deriving DecidableEq

structure BinaryName where
  text : String
  fault?_text : BinaryName.fault? text.toList = none
  deriving DecidableEq

def UnqualifiedName.ofString (text : String) : Except NameError UnqualifiedName :=
  match h : UnqualifiedName.fault? text.toList with
  | none => .ok ⟨text, h⟩
  | some error => .error error

namespace BinaryName

def ofString (text : String) : Except NameError BinaryName :=
  match h : BinaryName.fault? text.toList with
  | none => .ok ⟨text, h⟩
  | some error => .error error

def exception : BinaryName := ⟨"java/lang/Exception", by decide⟩

def object : BinaryName := ⟨"java/lang/Object", by decide⟩

def runtimeException : BinaryName := ⟨"java/lang/RuntimeException", by decide⟩

def string : BinaryName := ⟨"java/lang/String", by decide⟩

def throwable : BinaryName := ⟨"java/lang/Throwable", by decide⟩

end BinaryName

end JvmAssembler
