import JvmAssembler.Chain
import JvmAssembler.Code.Instruction
import JvmAssembler.Code.Registry
import JvmAssembler.Fault

/-!
# Method bodies

The instructions of a method in code order, each under a handle that it keeps while others come, go
and move around it, together with the registrations of everything that points at them. Positions in
bytes are computed by `layOut` and stand until an edit makes them stale.
-/

namespace JvmAssembler

open Binary (Bytes)

/-- An instruction and the offset of its first byte, as last laid out. -/
structure Line where
  instruction : Instruction
  position : Nat

/-- The instructions of a method and what points at them. -/
structure Body where
  lines : Chain Line
  registry : Registry
  nextHolder : Nat
  /-- Whether an edit since the last layout may have shifted an instruction. -/
  stale : Bool

/-- Computations that edit a body, and keep what they have done when they fail. -/
abbrev BodyM := EStateM Fault Body

namespace Body

def empty : Body := ⟨∅, ∅, 0, false⟩

instance : EmptyCollection Body := ⟨empty⟩

/-! ### Reading -/

def contains (b : Body) (h : Handle) : Bool := b.lines.contains h

def next? (b : Body) (h : Handle) : Option Handle := b.lines.next? h

def prev? (b : Body) (h : Handle) : Option Handle := b.lines.prev? h

def line (b : Body) (h : Handle) : Except Fault Line :=
  match b.lines.node? h with
  | some node => .ok node.value
  | none => .error (.deadHandle h)

def instruction (b : Body) (h : Handle) : Except Fault Instruction := Line.instruction <$> b.line h

def position (b : Body) (h : Handle) : Except Fault Nat := Line.position <$> b.line h

def width (b : Body) (h : Handle) : Except Fault Nat := Instruction.width <$> b.instruction h

def toList (b : Body) : List (Handle × Instruction) :=
  b.lines.toList.map fun (h, line) => (h, line.instruction)

def bytecode (b : Body) : Bytes := b.toList.flatMap fun (_, i) => i.encode

def holders (b : Body) (h : Handle) : List HolderId := b.registry.holders h

def isHeld (b : Body) (h : Handle) : Bool := b.registry.isHeld h

/-! ### Editing -/

/-- Changes the chain of lines, which makes positions stale. -/
def edit {α : Type} (change : Chain Line → Except Handle (α × Chain Line)) : BodyM α := fun b =>
  match change b.lines with
  | .ok (result, lines) => .ok result { b with lines, stale := true }
  | .error h => .error (.deadHandle h) b

def append (i : Instruction) : BodyM Handle := edit fun lines => .ok (lines.append ⟨i, 0⟩)

def insertBefore (h : Handle) (i : Instruction) : BodyM Handle :=
  edit fun lines => lines.insertBefore h ⟨i, 0⟩

def insertAfter (h : Handle) (i : Instruction) : BodyM Handle :=
  edit fun lines => lines.insertAfter h ⟨i, 0⟩

/-- Moves an instruction right after another, or to the front. Whatever points at it follows. -/
def moveAfter (h : Handle) (after : Option Handle) : BodyM Unit := fun b =>
  match b.lines.moveAfter h after with
  | .ok lines => .ok () { b with lines, stale := b.stale || after ≠ some h }
  | .error dead => .error (.deadHandle dead) b

/-- Replaces an instruction, and answers the old one. Positions go stale if the two differ in
width. -/
def replace (h : Handle) (i : Instruction) : BodyM Instruction := fun b =>
  match b.lines.modify h fun line => { line with instruction := i } with
  | .ok (old, lines) =>
    .ok old.instruction { b with lines, stale := b.stale || old.instruction.width ≠ i.width }
  | .error dead => .error (.deadHandle dead) b

/-- Removes an instruction that nothing points at, and answers it. -/
def erase (h : Handle) : BodyM Instruction := do
  let b ← get
  if b.contains h && b.isHeld h then throw (.stillHeld h (b.holders h))
  let line ← edit fun lines => lines.erase h
  return line.instruction

/-- Sets the position of every line in a sequence of lines that starts at `offset`, and answers the
offset of its end. -/
def place (lines : Chain Line) (offset : Nat) : List (Handle × Line) → Nat × Chain Line
  | [] => (offset, lines)
  | (h, line) :: rest =>
    let lines := lines.modifyNode h fun node =>
      { node with value := { node.value with position := offset } }
    place lines (offset + line.instruction.width) rest

/-- Computes the position of every instruction, and answers the length of the code. -/
def layOut : BodyM Nat := fun b =>
  let (length, lines) := place b.lines 0 b.lines.toList
  .ok length { b with lines, stale := false }

/-! ### Registering -/

def freshHolder : BodyM HolderId := fun b =>
  .ok ⟨b.nextHolder⟩ { b with nextHolder := b.nextHolder + 1 }

def requireLive (handles : List Handle) : BodyM Unit := do
  let b ← get
  match handles.find? (!b.contains ·) with
  | some dead => throw (.deadHandle dead)
  | none => return ()

/-- Moves one registration of a holder from `old` to `new`; one that was not there is only added, and
with no `new` it is only given up. -/
def rebind (t : HolderId) (old new : Option Handle) : BodyM Unit := do
  requireLive new.toList
  modify fun b =>
    let registry := old.elim b.registry (b.registry.lower · t)
    { b with registry := new.elim registry (registry.raise · t) }

end Body

def codeOffset (offset : Nat) : Except Fault UInt16 :=
  if offset ≤ 65535 then .ok (UInt16.ofNat offset) else .error (.codeTooLong offset)

end JvmAssembler
