import JvmAssembler.Code.Body
import JvmAssembler.Code.Table
import JvmAssembler.Descriptor

/-!
# Local variables

A local variable of a method body, whose scope is given by the instructions that it starts and stops
at. A variable that lacks either is in scope everywhere. The variable is registered at both, so every
change of scope goes through the body.
-/

namespace JvmAssembler

/-- A local variable. Its scope goes from `start` up to but not including `stop`, or including it if it
is the last instruction. -/
structure LocalVar where
  id : HolderId
  slot : UInt16
  name : UnqualifiedName
  type : FieldType
  start : Option Handle
  stop : Option Handle
  deriving DecidableEq

def maxLocalSlot : Nat := 32767

def checkSlot (slot : Int) : Except Fault UInt16 :=
  if 0 ≤ slot ∧ slot ≤ maxLocalSlot then .ok (UInt16.ofNat slot.toNat) else .error (.badSlot slot)

namespace LocalVar

/-- The part of a variable by which it is compared: its slot and scope, but neither its name nor its
type. -/
structure Key where
  slot : UInt16
  start : Option Handle
  stop : Option Handle
  deriving DecidableEq, Hashable

def key (v : LocalVar) : Key := ⟨v.slot, v.start, v.stop⟩

def same (v w : LocalVar) : Bool := v.key = w.key

instance : Hashable LocalVar := ⟨fun v => hash v.key⟩

def width (v : LocalVar) : Nat := v.type.slots

def held (v : LocalVar) : List Handle := v.start.toList ++ v.stop.toList

def holds (v : LocalVar) (h : Handle) : Bool := h ∈ v.held

/-! ### Editing -/

def setStart (start : Option Handle) (v : LocalVar) : BodyM LocalVar := do
  Body.rebind v.id v.start start
  return { v with start }

def setStop (stop : Option Handle) (v : LocalVar) : BodyM LocalVar := do
  Body.rebind v.id v.stop stop
  return { v with stop }

def setSlot (slot : Int) (v : LocalVar) : BodyM LocalVar := do
  return { v with slot := ← ofExcept (checkSlot slot) }

def setName (name : UnqualifiedName) (v : LocalVar) : BodyM LocalVar :=
  return { v with name }

def setType (type : FieldType) (v : LocalVar) : BodyM LocalVar :=
  return { v with type }

def create (slot : Int) (name : UnqualifiedName) (type : FieldType) (start stop : Option Handle) :
    BodyM LocalVar := do
  let slot ← ofExcept (checkSlot slot)
  Body.requireLive (start.toList ++ stop.toList)
  let id ← Body.freshHolder
  let v : LocalVar := { id, slot, name, type, start := none, stop := none }
  setStop stop (← v.setStart start)

def duplicate (v : LocalVar) : BodyM LocalVar :=
  create v.slot.toNat v.name v.type v.start v.stop

def release (v : LocalVar) : BodyM LocalVar := do
  setStop none (← v.setStart none)

/-- Points at `new` wherever the variable points at `old`. -/
def substitute (old new : Handle) (v : LocalVar) : BodyM LocalVar := do
  if !v.holds old then throw (.notHeld v.id old)
  let v ← if v.start = some old then v.setStart (some new) else pure v
  if v.stop = some old then v.setStop (some new) else pure v

/-! ### Resolving -/

def extent (v : LocalVar) (b : Body) : Except Fault (UInt16 × UInt16) :=
  match v.start, v.stop with
  | some start, some stop => do
    let first ← b.position start
    let last ← b.position stop
    let past ← if (b.next? stop).isNone then (last + ·) <$> b.width stop else pure last
    if past < first then throw (.invertedRange start stop)
    return (← codeOffset first, ← codeOffset (past - first))
  | _, _ => return (0, 0)

def record (v : LocalVar) (b : Body) : PoolM LocalRecord := do
  let (start, length) ← ofExcept (v.extent b)
  let name ← Pool.internUtf8 v.name.text
  let descriptor ← Pool.internUtf8 v.type.descriptor
  return { start, length, name, descriptor, slot := v.slot }

end LocalVar

end JvmAssembler
