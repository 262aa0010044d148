import JvmAssembler.Code.Emission

/-!
# Methods

A method's body with the local variables and exception handlers that point into it. Knowing them, a
method can point them elsewhere when an instruction goes.
-/

namespace JvmAssembler

/-- A method under construction. Variables and handlers are in order of creation, which is the order of
their identities. -/
structure Method where
  body : Body
  locals : List LocalVar
  catches : List CatchRange

/-- Computations that edit a method, and keep what they have done when they fail. -/
abbrev MethodM := EStateM Fault Method

namespace Method

def empty : Method := ⟨∅, [], []⟩

instance : EmptyCollection Method := ⟨empty⟩

def onBody {α : Type} (act : BodyM α) : MethodM α := fun m =>
  match act m.body with
  | .ok result body => .ok result { m with body }
  | .error fault body => .error fault { m with body }

/-! ### Variables and handlers -/

def local? (m : Method) (t : HolderId) : Option LocalVar := m.locals.find? (·.id = t)

def catch? (m : Method) (t : HolderId) : Option CatchRange := m.catches.find? (·.id = t)

def owns (m : Method) (t : HolderId) : Bool := (m.local? t).isSome || (m.catch? t).isSome

def addLocal (slot : Int) (name : UnqualifiedName) (type : FieldType)
    (start stop : Option Handle) : MethodM HolderId := do
  let v ← onBody (LocalVar.create slot name type start stop)
  modify fun m => { m with locals := m.locals ++ [v] }
  return v.id

def editLocal (t : HolderId) (edit : LocalVar → BodyM LocalVar) : MethodM Unit := do
  match (← get).local? t with
  | none => throw (.unknownHolder t)
  | some v =>
    let changed ← onBody (edit v)
    modify fun m => { m with locals := m.locals.map fun w => if w.id = t then changed else w }

/-- Takes a local variable out of the method, and answers it without its scope. -/
def removeLocal (t : HolderId) : MethodM LocalVar := do
  match (← get).local? t with
  | none => throw (.unknownHolder t)
  | some v =>
    modify fun m => { m with locals := m.locals.filter (·.id ≠ t) }
    onBody v.release

def addCatch (first last handler : Handle) (caught : Option BinaryName) : MethodM HolderId := do
  let r ← onBody (CatchRange.create first last handler caught)
  modify fun m => { m with catches := m.catches ++ [r] }
  return r.id

def editCatch (t : HolderId) (edit : CatchRange → BodyM CatchRange) : MethodM Unit := do
  match (← get).catch? t with
  | none => throw (.unknownHolder t)
  | some r =>
    let changed ← onBody (edit r)
    modify fun m => { m with catches := m.catches.map fun s => if s.id = t then changed else s }

def removeCatch (t : HolderId) : MethodM Unit := do
  match (← get).catch? t with
  | none => throw (.unknownHolder t)
  | some r =>
    modify fun m => { m with catches := m.catches.filter (·.id ≠ t) }
    onBody r.release

/-! ### Rerouting -/

def substitute (old new : Handle) (t : HolderId) : MethodM Unit := do
  if ((← get).local? t).isSome then editLocal t (LocalVar.substitute old new)
  else editCatch t (CatchRange.substitute old new)

/-- Points everything at `new` that points at `old`, or nothing if some of it is not the method's. -/
def reroute (old new : Handle) : MethodM Unit := do
  let m ← get
  if !m.body.contains new then throw (.deadHandle new)
  let holders := m.body.holders old
  match holders.find? (!m.owns ·) with
  | some t => throw (.unknownHolder t)
  | none => holders.forM (substitute old new)

/-- Removes an instruction, after pointing everything that points at it at its successor, or at its
predecessor if it is the last. -/
def removeInstruction (h : Handle) : MethodM Instruction := do
  let b := (← get).body
  if b.isHeld h then
    if let some neighbour := (b.next? h).or (b.prev? h) then reroute h neighbour
  onBody (Body.erase h)

/-! ### Resolving -/

/-- The table entries of the local variables by slot, and by creation within a slot. -/
def localTable (m : Method) : EmitM (List LocalRecord) := do
  let records ← m.locals.mapM (·.emit m.body)
  return records.mergeSort fun r s => r.slot ≤ s.slot

def localAttribute (m : Method) : EmitM Attribute := do
  EmitM.onPool (localTableAttribute (← m.localTable))

/-- The table entries of the exception handlers in order of creation, in which they are tried. -/
def catchTable (m : Method) : EmitM (List CatchRecord) :=
  m.catches.mapM (·.emit m.body)

def localSlots (m : Method) : UInt16 :=
  UInt16.ofNat ((m.locals.map fun v => v.slot.toNat + v.width).foldl max 0)

end Method

end JvmAssembler
