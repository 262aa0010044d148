import JvmAssembler.Code.CatchRange
import JvmAssembler.Proofs.Atomic

/-!
# How a handler's entry is made

Resolving an exception handler takes three steps. The first tells where its range lies, the second
interns the class that is caught, and the third writes the offsets down in 16 bits. Only the second
touches the pool, but the third may still fail.
-/

namespace JvmAssembler

namespace CatchRange

/-- The offset of the first byte of the range, and that of the first byte past it. -/
def span (r : CatchRange) (b : Body) : Except Fault (Nat × Nat) := do
  let start ← b.position r.first
  let stop ← (· + ·) <$> b.position r.last <*> b.width r.last
  if stop ≤ start then throw (.invertedRange r.first r.last)
  return (start, stop)

def offsets (r : CatchRange) (b : Body) (start stop : Nat) :
    Except Fault (UInt16 × UInt16 × UInt16) := do
  let start ← codeOffset start
  let stop ← codeOffset stop
  let handler ← b.position r.handler >>= codeOffset
  return (start, stop, handler)

theorem record_eq (r : CatchRange) (b : Body) : r.record b = do
    let (start, stop) ← ofExcept (r.span b)
    let caught ← r.caught.mapM Pool.internBinaryName
    let (start, stop, handler) ← ofExcept (r.offsets b start stop)
    return { start, stop, handler, caught } := by
  rw [record, span]
  simp only [offsets, ofExcept_bind, bind_assoc]
  refine bind_congr fun start => bind_congr fun stop => ?_
  split <;> rfl

end CatchRange

end JvmAssembler
