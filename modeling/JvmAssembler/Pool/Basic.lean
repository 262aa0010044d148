import JvmAssembler.Fault
import JvmAssembler.SlotSeq
import Std.Data.ExtHashMap

/-!
# Constant pools

A pool only grows: a constant keeps the index it was given. Indices start at 1, every constant takes
as many of them as it has slots, and the largest that can be in use is 65534. Interning a constant
that the pool already has answers its first index and changes nothing.
-/

namespace JvmAssembler

/-- A constant pool: its constants by index, and the first index of each. -/
structure Pool where
  constants : SlotSeq Constant Entry.slots
  firstIndex : Std.ExtHashMap Constant UInt16

/-- Computations that may extend a pool, and keep what they have added when they fail. -/
abbrev PoolM := EStateM Fault Pool

namespace Pool

def empty : Pool := ⟨.startingAt 1, ∅⟩

instance : EmptyCollection Pool := ⟨empty⟩

def next (pool : Pool) : Nat := pool.constants.next

def size (pool : Pool) : Nat := pool.constants.size

def toList (pool : Pool) : List (UInt16 × Constant) :=
  pool.constants.toList.map fun (offset, c) => (UInt16.ofNat offset, c)

def render (pool : Pool) : String := pool.constants.render Constant.render

/-- The pool with one constant more, for which there has to be room. -/
def add (pool : Pool) (c : Constant) : Pool :=
  let index := UInt16.ofNat pool.next
  ⟨pool.constants.push c, pool.firstIndex.insertIfNew c index⟩

theorem next_add {pool : Pool} {c : Constant} (hfits : pool.next + c.slots ≤ 65535) :
    (pool.add c).next = pool.next + c.slots := by
  have hroom : pool.next + c.slots ≤ SlotSeq.maxOffset := Nat.le_trans hfits (by decide)
  rw [next, add, SlotSeq.push_of_room hroom]
  rfl

theorem toNat_ofNat_of_le {n : Nat} (hn : n ≤ 65535) : (UInt16.ofNat n).toNat = n := by
  rw [UInt16.toNat_ofNat']
  exact Nat.mod_eq_of_lt (by omega)

/-- Adds a constant at the end, whether or not the pool has it, unless its slots would pass the last
index. -/
def append (c : Constant) : PoolM UInt16 := fun pool =>
  let index := UInt16.ofNat pool.next
  if index.toNat + c.slots ≤ 65535 then .ok index (pool.add c)
  else .error (.poolOverflow c index) pool

/-- The first index of a constant, added at the end if the pool lacks it. -/
def intern (c : Constant) : PoolM UInt16 := do
  match (← get).firstIndex[c]? with
  | some index => return index
  | none => append c

def internUtf8 (text : String) : PoolM (Ref .utf8) :=
  Ref.mk <$> intern (.utf8 text)

def internClass (name : Ref .utf8) : PoolM (Ref .classRef) :=
  Ref.mk <$> intern (.classRef name)

def internString (text : Ref .utf8) : PoolM (Ref .stringRef) :=
  Ref.mk <$> intern (.stringRef text)

def internNameAndType (name descriptor : Ref .utf8) : PoolM (Ref .nameAndType) :=
  Ref.mk <$> intern (.nameAndType name descriptor)

def get (pool : Pool) (index : UInt16) : Except Fault Constant :=
  if index = 0 then .error (.outOfRange index)
  else
    match pool.constants.lookup index.toNat with
    | .found _ c => .ok c
    | .inside _ => .error (.unusableSlot index)
    | .beyond =>
      if index.toNat < pool.next then .error (.unusableSlot index) else .error (.outOfRange index)
    | .before => .error (.outOfRange index)

/-- The constant at an index, which has to be of an expected kind. -/
def getOfKind (pool : Pool) (index : UInt16) (expected : Tag) : Except Fault Constant := do
  let c ← pool.get index
  if c.tag = expected then return c else throw (.wrongKind index expected c.tag)

end Pool

end JvmAssembler
