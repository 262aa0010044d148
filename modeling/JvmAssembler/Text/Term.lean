/-!
# Terms

How structured values are written for people: a constructor before its argument in parentheses or its
named fields in braces, and a list between brackets.
-/

namespace JvmAssembler.Text.Term

def apply (constructor argument : String) : String :=
  constructor ++ "(" ++ argument ++ ")"

def record (constructor : String) (fields : List (String × String)) : String :=
  let items := fields.map fun (name, value) => name ++ ": " ++ value
  constructor ++ " \x7b " ++ ", ".intercalate items ++ " \x7d"

def list (items : List String) : String :=
  "[" ++ ", ".intercalate items ++ "]"

end JvmAssembler.Text.Term
