import JvmAssembler.Handle

/-!
# Chains

A sequence whose elements keep a handle for life. Elements stand in an array indexed by their handles
and are linked both ways in sequence order, so that adding, moving and removing next to a known
element takes constant time. A removed element leaves an empty place behind, and its handle is never
given out again.

Operations that are given handles answer the first of them that is dead, that is, names no element.
-/

namespace JvmAssembler

structure Node (α : Type) where
  value : α
  prev : Option Handle
  next : Option Handle

structure Chain (α : Type) where
  nodes : Array (Option (Node α))
  first : Option Handle
  last : Option Handle
  size : Nat

namespace Chain

variable {α : Type}

def empty : Chain α := ⟨#[], none, none, 0⟩

instance : EmptyCollection (Chain α) := ⟨empty⟩

/-! ### Reading -/

def node? (c : Chain α) (h : Handle) : Option (Node α) :=
  c.nodes[h.id]?.join

/-- The element that a handle names, or the handle if it is dead. -/
def node (c : Chain α) (h : Handle) : Except Handle (Node α) :=
  match c.node? h with
  | some node => .ok node
  | none => .error h

def contains (c : Chain α) (h : Handle) : Bool :=
  (c.node? h).isSome

def next? (c : Chain α) (h : Handle) : Option Handle :=
  (c.node? h).bind Node.next

def prev? (c : Chain α) (h : Handle) : Option Handle :=
  (c.node? h).bind Node.prev

/-- At most `fuel` elements, from a given one on and following `step`. -/
def walk (c : Chain α) (step : Node α → Option Handle) :
    (fuel : Nat) → Option Handle → List (Handle × α)
  | 0, _ => []
  | _, none => []
  | fuel + 1, some h =>
    match c.node? h with
    | some node => (h, node.value) :: c.walk step fuel (step node)
    | none => []

def toList (c : Chain α) : List (Handle × α) :=
  c.walk Node.next c.nodes.size c.first

def toListBack (c : Chain α) : List (Handle × α) :=
  c.walk Node.prev c.nodes.size c.last

/-! ### Linking -/

def modifyNode (c : Chain α) (h : Handle) (change : Node α → Node α) : Chain α :=
  { c with nodes := c.nodes.modify h.id (Option.map change) }

/-- Lets `next` follow `h`, or come first if there is no `h`. -/
def setNext (c : Chain α) (h next : Option Handle) : Chain α :=
  match h with
  | none => { c with first := next }
  | some h => c.modifyNode h fun node => { node with next }

/-- Lets `prev` precede `h`, or come last if there is no `h`. -/
def setPrev (c : Chain α) (h prev : Option Handle) : Chain α :=
  match h with
  | none => { c with last := prev }
  | some h => c.modifyNode h fun node => { node with prev }

/-- Puts an unlinked element between two neighbours. -/
def link (c : Chain α) (h : Handle) (prev next : Option Handle) : Chain α :=
  let c := c.modifyNode h fun node => { node with prev, next }
  (c.setNext prev (some h)).setPrev next (some h)

/-- Joins the neighbours of an element to each other. -/
def unlink (c : Chain α) (h : Handle) (node : Node α) : Chain α :=
  let c := c.modifyNode h fun node => { node with prev := none, next := none }
  (c.setNext node.prev node.next).setPrev node.next node.prev

def alloc (c : Chain α) (x : α) : Handle × Chain α :=
  (⟨c.nodes.size⟩, { c with nodes := c.nodes.push (some ⟨x, none, none⟩), size := c.size + 1 })

/-! ### Editing -/

def append (c : Chain α) (x : α) : Handle × Chain α :=
  let last := c.last
  let (h, c) := c.alloc x
  (h, c.link h last none)

def insertBefore (c : Chain α) (h : Handle) (x : α) : Except Handle (Handle × Chain α) := do
  let node ← c.node h
  let (added, c) := c.alloc x
  return (added, c.link added node.prev (some h))

def insertAfter (c : Chain α) (h : Handle) (x : α) : Except Handle (Handle × Chain α) := do
  let node ← c.node h
  let (added, c) := c.alloc x
  return (added, c.link added (some h) node.next)

/-- Moves an element right after another, or to the front; one that is to follow itself stays. -/
def moveAfter (c : Chain α) (h : Handle) (after : Option Handle) : Except Handle (Chain α) := do
  let node ← c.node h
  if after = some h then return c
  if let some after := after then discard (c.node after)
  let c := c.unlink h node
  let next :=
    match after with
    | some after => c.next? after
    | none => c.first
  return c.link h after next

def modify (c : Chain α) (h : Handle) (change : α → α) : Except Handle (α × Chain α) := do
  let node ← c.node h
  return (node.value, c.modifyNode h fun node => { node with value := change node.value })

def erase (c : Chain α) (h : Handle) : Except Handle (α × Chain α) := do
  let node ← c.node h
  let c := c.unlink h node
  return (node.value, { c with nodes := c.nodes.setIfInBounds h.id none, size := c.size - 1 })

end Chain

end JvmAssembler
