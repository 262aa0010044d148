import JvmAssembler.Code.Method
import JvmAssembler.Pool.Codec

/-!
# Workbenches

A constant pool and a method side by side, with local variables and exception handlers that point into
the method's body but are not the method's own. The method cannot point those elsewhere.
-/

namespace JvmAssembler

/-- Whether a variable or handler is the method's own. -/
inductive Place
  | attached
  | loose
  deriving DecidableEq

/-- A pool, a method, what else points into the method, and the notices so far. -/
structure Workbench where
  pool : Pool
  method : Method
  looseLocals : List LocalVar
  looseCatches : List CatchRange
  notices : List Notice

/-- Computations on a workbench, which keep what they have done when they fail. -/
abbrev WorkM := EStateM Fault Workbench

namespace Workbench

def empty : Workbench := ⟨∅, ∅, [], [], []⟩

instance : EmptyCollection Workbench := ⟨empty⟩

def onPool {α : Type} (act : PoolM α) : WorkM α := fun w =>
  match act w.pool with
  | .ok result pool => .ok result { w with pool }
  | .error fault pool => .error fault { w with pool }

def onMethod {α : Type} (act : MethodM α) : WorkM α := fun w =>
  match act w.method with
  | .ok result method => .ok result { w with method }
  | .error fault method => .error fault { w with method }

def onBody {α : Type} (act : BodyM α) : WorkM α := onMethod (Method.onBody act)

def emit {α : Type} (act : EmitM α) : WorkM α := fun w =>
  match act ⟨w.pool, w.notices⟩ with
  | .ok result e => .ok result { w with pool := e.pool, notices := e.notices }
  | .error fault e => .error fault { w with pool := e.pool, notices := e.notices }

def takeNotices (w : Workbench) : List Notice × Workbench := (w.notices, { w with notices := [] })

/-- Replaces the pool by one that is read from bytes, and answers how many bytes are left. -/
def readPool (bytes : Binary.Bytes) : WorkM Nat := do
  let (pool, rest) ← ofExcept (Pool.decode bytes)
  modify fun w => { w with pool }
  return rest.length

def rereadPool : WorkM Unit := do
  discard (readPool (← ofExcept (← get).pool.encode))

/-! ### Local variables -/

def localIn? (w : Workbench) (place : Place) (t : HolderId) : Option LocalVar :=
  match place with
  | .attached => w.method.local? t
  | .loose => w.looseLocals.find? (·.id = t)

/-- The local variable with an identity: the method's own, or else a loose one. -/
def local? (w : Workbench) (t : HolderId) : Option LocalVar :=
  (w.localIn? .attached t).or (w.localIn? .loose t)

def getLocalIn (place : Place) (t : HolderId) : WorkM LocalVar := do
  match (← get).localIn? place t with
  | some v => return v
  | none => throw (.unknownHolder t)

def getLocal (t : HolderId) : WorkM LocalVar := do
  match (← get).local? t with
  | some v => return v
  | none => throw (.unknownHolder t)

def keepLocal (act : BodyM LocalVar) : WorkM HolderId := do
  let v ← onBody act
  modify fun w => { w with looseLocals := w.looseLocals ++ [v] }
  return v.id

def addLocal (place : Place) (slot : Int) (name : UnqualifiedName) (type : FieldType)
    (start stop : Option Handle) : WorkM HolderId :=
  match place with
  | .attached => onMethod (Method.addLocal slot name type start stop)
  | .loose => keepLocal (LocalVar.create slot name type start stop)

def duplicateLocal (place : Place) (t : HolderId) : WorkM HolderId := do
  keepLocal (← getLocalIn place t).duplicate

def editLocal (place : Place) (t : HolderId) (edit : LocalVar → BodyM LocalVar) : WorkM Unit := do
  match place with
  | .attached => onMethod (Method.editLocal t edit)
  | .loose =>
    let changed ← onBody (edit (← getLocalIn .loose t))
    modify fun w =>
      { w with looseLocals := w.looseLocals.map fun v => if v.id = t then changed else v }

def resolveLocal (t : HolderId) : WorkM LocalRecord := do
  let v ← getLocal t
  emit (v.emit (← get).method.body)

/-! ### Exception handlers -/

def looseCatch? (w : Workbench) (t : HolderId) : Option CatchRange :=
  w.looseCatches.find? (·.id = t)

/-- The exception handler with an identity: the method's own, or else a loose one. -/
def catch? (w : Workbench) (t : HolderId) : Option CatchRange :=
  (w.method.catch? t).or (w.looseCatch? t)

def addCatch (place : Place) (first last handler : Handle) (caught : Option BinaryName) :
    WorkM HolderId := do
  match place with
  | .attached => onMethod (Method.addCatch first last handler caught)
  | .loose =>
    let r ← onBody (CatchRange.create first last handler caught)
    modify fun w => { w with looseCatches := w.looseCatches ++ [r] }
    return r.id

def getLooseCatch (t : HolderId) : WorkM CatchRange := do
  match (← get).looseCatch? t with
  | some r => return r
  | none => throw (.unknownHolder t)

def editLooseCatch (t : HolderId) (edit : CatchRange → BodyM CatchRange) : WorkM Unit := do
  let changed ← onBody (edit (← getLooseCatch t))
  modify fun w =>
    { w with looseCatches := w.looseCatches.map fun s => if s.id = t then changed else s }

def dropLooseCatch (t : HolderId) : WorkM Unit := do
  let r ← getLooseCatch t
  modify fun w => { w with looseCatches := w.looseCatches.filter (·.id ≠ t) }
  onBody r.release

def resolveCatch (t : HolderId) : WorkM CatchRecord := do
  match (← get).catch? t with
  | some r => emit (r.emit (← get).method.body)
  | none => throw (.unknownHolder t)

end Workbench

end JvmAssembler
