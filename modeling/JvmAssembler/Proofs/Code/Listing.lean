import JvmAssembler.Code.Body
import JvmAssembler.Proofs.Chain.Rows
import JvmAssembler.Proofs.Session

/-!
# Listings

The calls that a method body answers, and a second machine that answers them: a listing keeps its
instructions in a plain list of rows and finds everything by looking through it. It has neither links
nor positions, so what each call means can be read off its definition.
-/

namespace JvmAssembler

/-- The calls that edit a body's instructions or read their layout, and leave its registrations
alone. -/
inductive Edit
  | append (i : Instruction)
  | insertBefore (h : Handle) (i : Instruction)
  | insertAfter (h : Handle) (i : Instruction)
  | moveAfter (h : Handle) (after : Option Handle)
  | replace (h : Handle) (i : Instruction)
  | erase (h : Handle)
  | freshHolder
  | layOut

/-- The calls on a body. -/
inductive Call
  | edit (e : Edit)
  | rebind (t : HolderId) (old new : Option Handle)

/-- What a call answers when it succeeds. -/
inductive Reply
  | done
  | handle (h : Handle)
  | instruction (i : Instruction)
  | holder (t : HolderId)
  | length (n : Nat)
  deriving DecidableEq

def Body.perform : Edit → BodyM Reply
  | .append i => .handle <$> append i
  | .insertBefore h i => .handle <$> insertBefore h i
  | .insertAfter h i => .handle <$> insertAfter h i
  | .moveAfter h after => (fun _ => .done) <$> moveAfter h after
  | .replace h i => .instruction <$> replace h i
  | .erase h => .instruction <$> erase h
  | .freshHolder => .holder <$> freshHolder
  | .layOut => .length <$> layOut

def Body.call : Call → BodyM Reply
  | .edit e => perform e
  | .rebind t old new => (fun _ => .done) <$> rebind t old new

/-- A body as its users see it: instructions in order under their handles, the number of handles given
out so far, and the registrations. -/
structure Listing where
  rows : Rows Instruction
  issued : Nat
  registry : Registry
  nextHolder : Nat

namespace Listing

def empty : Listing := ⟨[], 0, ∅, 0⟩

instance : EmptyCollection Listing := ⟨empty⟩

def handles (l : Listing) : List Handle := l.rows.map Prod.fst

def find (l : Listing) (h : Handle) : Except Fault Instruction :=
  match l.rows.value? h with
  | some i => .ok i
  | none => .error (.deadHandle h)

/-- The listing with other rows, one of which has the next handle. -/
def extend (l : Listing) (rows : Rows Instruction) : Listing :=
  { l with rows, issued := l.issued + 1 }

/-- What an edit answers and what it makes of the listing. -/
def edited (l : Listing) : Edit → Except Fault (Reply × Listing)
  | .append i => return (.handle ⟨l.issued⟩, l.extend (l.rows ++ [(⟨l.issued⟩, i)]))
  | .insertBefore h i => do
    let _ ← l.find h
    return (.handle ⟨l.issued⟩, l.extend (l.rows.insertBefore h (⟨l.issued⟩, i)))
  | .insertAfter h i => do
    let _ ← l.find h
    return (.handle ⟨l.issued⟩, l.extend (l.rows.insertAfter h (⟨l.issued⟩, i)))
  | .moveAfter h after => do
    let i ← l.find h
    match after with
    | none => return (.done, { l with rows := (h, i) :: l.rows.erase h })
    | some target =>
      let _ ← l.find target
      if target = h then return (.done, l)
      return (.done, { l with rows := (l.rows.erase h).insertAfter target (h, i) })
  | .replace h i => do
    let old ← l.find h
    return (.instruction old, { l with rows := l.rows.replace h i })
  | .erase h => do
    let i ← l.find h
    if l.registry.isHeld h then throw (.stillHeld h (l.registry.holders h))
    return (.instruction i, { l with rows := l.rows.erase h })
  | .freshHolder => return (.holder ⟨l.nextHolder⟩, { l with nextHolder := l.nextHolder + 1 })
  | .layOut => return (.length (l.rows.map (·.2.width)).sum, l)

/-- What a call answers and what it makes of the listing. -/
def answer (l : Listing) : Call → Except Fault (Reply × Listing)
  | .edit e => l.edited e
  | .rebind t old new => do
    if let some h := new then let _ ← l.find h
    let registry := old.elim l.registry (l.registry.lower · t)
    return (.done, { l with registry := new.elim registry (registry.raise · t) })

/-- Makes a call on a listing. One that fails changes nothing. -/
def call (call : Call) : EStateM Fault Listing Reply := fun l =>
  match l.answer call with
  | .ok (reply, l) => .ok reply l
  | .error fault => .error fault l

end Listing

end JvmAssembler
