import JvmAssembler.Text.Term

/-!
# Sequences addressed by slot

A sequence whose elements take one or more slots each. An element's offset is the start of the
sequence plus the slots of the elements before it, and elements are looked up by offset: by halving
the range of candidates, since offsets ascend. Offsets are machine words, of 64 bits: there is no
sequence that ends behind the largest of them.
-/

namespace JvmAssembler

/-- Elements with their offsets, in order, and the offset of the next element to come. -/
structure SlotSeq (α : Type) (slots : α → Nat) where
  entries : Array (Nat × α)
  next : Nat

inductive Lookup (α : Type)
  /-- The element with this index starts there. -/
  | found (index : Nat) (element : α)
  /-- The offset is inside the element with this index, which is not the last. -/
  | inside (index : Nat)
  /-- The offset is before the first element. -/
  | before
  /-- The offset is past the start of the last element, or there are no elements. -/
  | beyond
  deriving DecidableEq

namespace SlotSeq

variable {α : Type} {slots : α → Nat}

/-- No elements, the first of which will be at `start`. -/
def startingAt (start : Nat) : SlotSeq α slots := ⟨#[], start⟩

def size (s : SlotSeq α slots) : Nat := s.entries.size

def maxOffset : Nat := 18446744073709551615

/-- Adds an element at the end, at offset `s.next`, to a sequence that has room for it. One that has
none stays as it is. -/
def push (s : SlotSeq α slots) (x : α) : SlotSeq α slots :=
  if s.next + slots x ≤ maxOffset then ⟨s.entries.push (s.next, x), s.next + slots x⟩ else s

/-- Adds an element at the end. That the sequence would then end behind the largest offset is an
error, and no sequence comes of it. -/
def push? (s : SlotSeq α slots) (x : α) : Option (SlotSeq α slots) :=
  if s.next + slots x ≤ maxOffset then some (s.push x) else none

theorem push_of_room {s : SlotSeq α slots} {x : α} (hroom : s.next + slots x ≤ maxOffset) :
    s.push x = ⟨s.entries.push (s.next, x), s.next + slots x⟩ := if_pos hroom

theorem push?_eq_some_iff {s t : SlotSeq α slots} {x : α} :
    s.push? x = some t ↔ s.next + slots x ≤ maxOffset ∧ s.push x = t := by
  rw [push?, Option.ite_none_right_eq_some, Option.some.injEq]

def toList (s : SlotSeq α slots) : List (Nat × α) := s.entries.toList

/-- The least index in `low..high` whose element's offset is not below `offset`, or `high` if there
is none, given that offsets ascend. -/
def search (entries : Array (Nat × α)) (offset low high : Nat) : Nat :=
  if low < high then
    let middle := low + (high - low) / 2
    match entries[middle]? with
    | some (start, _) =>
      if start < offset then search entries offset (middle + 1) high
      else search entries offset low middle
    | none => high
  else low
termination_by high - low

def lookup (s : SlotSeq α slots) (offset : Nat) : Lookup α :=
  let i := search s.entries offset 0 s.entries.size
  match s.entries[i]? with
  | none => .beyond
  | some (start, x) =>
    if start = offset then .found i x
    else if i = 0 then .before
    else .inside (i - 1)

/-- The text `[#OFFSET = ELEMENT, ...]`. -/
def render (text : α → String) (s : SlotSeq α slots) : String :=
  Text.Term.list (s.toList.map fun (offset, x) => "#" ++ toString offset ++ " = " ++ text x)

end SlotSeq

end JvmAssembler
