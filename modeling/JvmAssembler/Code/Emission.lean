import JvmAssembler.Code.CatchRange
import JvmAssembler.Code.LocalVar

/-!
# Emitting a method

Table entries are emitted into a constant pool. On the way there may be something to tell the user;
such notices are collected, and stay when the emission fails.
-/

namespace JvmAssembler

/-- Something worth telling the user that is no failure. -/
inductive Notice
  /-- A local variable was resolved while positions were stale. -/
  | stalePositions (name : UnqualifiedName)

def Notice.message : Notice → String
  | .stalePositions name =>
    "Resolving local " ++ name.text ++ " against stale instruction positions"

/-- Where a method is emitted to: the constant pool, and the notices so far. -/
structure Emission where
  pool : Pool
  notices : List Notice

/-- Computations that emit parts of a method, and keep what they have emitted when they fail. -/
abbrev EmitM := EStateM Fault Emission

def EmitM.onPool {α : Type} (act : PoolM α) : EmitM α := fun e =>
  match act e.pool with
  | .ok result pool => .ok result { e with pool }
  | .error fault pool => .error fault { e with pool }

def EmitM.notify (notice : Notice) : EmitM Unit :=
  modify fun e => { e with notices := e.notices ++ [notice] }

/-- The table entry of a variable, with a notice if positions are stale. -/
def LocalVar.emit (v : LocalVar) (b : Body) : EmitM LocalRecord := do
  if b.stale then EmitM.notify (.stalePositions v.name)
  EmitM.onPool (v.record b)

def CatchRange.emit (r : CatchRange) (b : Body) : EmitM CatchRecord :=
  EmitM.onPool (r.record b)

end JvmAssembler
