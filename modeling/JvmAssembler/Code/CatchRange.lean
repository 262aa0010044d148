import JvmAssembler.Code.Body
import JvmAssembler.Code.Table
import JvmAssembler.Pool.Loadable

/-!
# Exception handlers

The part of a method body whose exceptions are caught, and the instruction that handles them. The
range is registered at the three instructions that describe it, so every change goes through the body.
-/

namespace JvmAssembler

/-- A range of instructions, from `first` to `last` inclusive, whose exceptions of the class `caught`
(of any class, without one) are handled at `handler`. -/
structure CatchRange where
  id : HolderId
  first : Handle
  last : Handle
  handler : Handle
  caught : Option BinaryName
  deriving DecidableEq

namespace CatchRange

def held (r : CatchRange) : List Handle := [r.first, r.last, r.handler]

def holds (r : CatchRange) (h : Handle) : Bool := h ∈ r.held

/-! ### Editing -/

def setFirst (first : Handle) (r : CatchRange) : BodyM CatchRange := do
  Body.rebind r.id (some r.first) (some first)
  return { r with first }

def setLast (last : Handle) (r : CatchRange) : BodyM CatchRange := do
  Body.rebind r.id (some r.last) (some last)
  return { r with last }

def setHandler (handler : Handle) (r : CatchRange) : BodyM CatchRange := do
  Body.rebind r.id (some r.handler) (some handler)
  return { r with handler }

def setCaught (caught : Option BinaryName) (r : CatchRange) : BodyM CatchRange :=
  return { r with caught }

def create (first last handler : Handle) (caught : Option BinaryName) : BodyM CatchRange := do
  let held := [first, last, handler]
  Body.requireLive held
  let id ← Body.freshHolder
  held.forM fun h => Body.rebind id none (some h)
  return { id, first, last, handler, caught }

/-- Gives up all three instructions, after which the range is of no use. -/
def release (r : CatchRange) : BodyM Unit :=
  r.held.forM fun h => Body.rebind r.id (some h) none

def substitute (old new : Handle) (r : CatchRange) : BodyM CatchRange := do
  if !r.holds old then throw (.notHeld r.id old)
  let r ← if r.first = old then r.setFirst new else pure r
  let r ← if r.last = old then r.setLast new else pure r
  if r.handler = old then r.setHandler new else pure r

/-! ### Resolving -/

def record (r : CatchRange) (b : Body) : PoolM CatchRecord := do
  let start ← ofExcept (b.position r.first)
  let stop ← ofExcept ((· + ·) <$> b.position r.last <*> b.width r.last)
  if stop ≤ start then throw (.invertedRange r.first r.last)
  let caught ← r.caught.mapM Pool.internBinaryName
  let start ← ofExcept (codeOffset start)
  let stop ← ofExcept (codeOffset stop)
  let handler ← ofExcept (b.position r.handler >>= codeOffset)
  return { start, stop, handler, caught }

end CatchRange

end JvmAssembler
