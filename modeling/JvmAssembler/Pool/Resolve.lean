import JvmAssembler.Pool.Basic

/-!
# Following references

A constant may refer to an index that holds nothing yet, or a constant of the wrong kind. Following
a reference finds that out, and `check` follows all of them.
-/

namespace JvmAssembler.Pool

def utf8At (pool : Pool) (r : Ref .utf8) : Except Fault String := do
  match ← pool.get r.index with
  | .utf8 text => return text
  | c => throw (.wrongKind r.index .utf8 c.tag)

def classNameAt (pool : Pool) (r : Ref .classRef) : Except Fault String := do
  match ← pool.get r.index with
  | .classRef name => pool.utf8At name
  | c => throw (.wrongKind r.index .classRef c.tag)

def resolve (pool : Pool) (c : Constant) : Except Fault Value :=
  c.follow pool.utf8At

/-- Checks that the references of a constant lead to strings. -/
def checkConstant (pool : Pool) : Constant → Except Fault Unit
  | .classRef r | .stringRef r => discard (pool.getOfKind r.index .utf8)
  | .nameAndType name descriptor => do
    discard (pool.getOfKind name.index .utf8)
    discard (pool.getOfKind descriptor.index .utf8)
  | .utf8 _ | .integer _ | .float _ | .long _ | .double _ => return ()

def check (pool : Pool) : Except Fault Unit :=
  pool.toList.forM fun (_, c) => pool.checkConstant c

end JvmAssembler.Pool
