import JvmAssembler.Constant.Codec
import JvmAssembler.Pool.Resolve

/-!
# The bytes of pools

A pool is written as the index that its next constant would get, in 16 bits, and then its constants.
Reading takes constants until the indices below that count are used up; it keeps duplicates, of which
the first is the one that interning answers.
-/

namespace JvmAssembler.Pool

open Binary (Bytes Word)

/-- The bytes of a pool, well-formed or not. -/
def encode (pool : Pool) : Except Fault Bytes := do
  let constants ← pool.toList.mapM fun (_, c) => c.encode
  return Word.encode (UInt16.ofNat pool.next) ++ constants.flatten

/-- The bytes of a pool whose references all lead to strings. -/
def emit (pool : Pool) : Except Fault Bytes := do
  pool.check
  pool.encode

section Counted

variable {c : Constant} {pool pool' : Pool} {index count : UInt16} (hlt : pool.next < count.toNat)
  (h : append c pool = .ok index pool')
include hlt h

/-- A constant at an index below the count is added where it fits. -/
theorem fits_of_append : pool.next + c.slots ≤ 65535 ∧ pool' = pool.add c := by
  have hindex : pool.next ≤ 65535 := Nat.le_of_lt_succ (Nat.lt_trans hlt count.toNat_lt)
  dsimp only [append] at h
  split at h
  next hfits =>
    cases h
    exact ⟨toNat_ofNat_of_le hindex ▸ hfits, rfl⟩
  · cases h

theorem next_lt_of_append : pool.next < pool'.next := by
  obtain ⟨hfits, rfl⟩ := fits_of_append hlt h
  rw [next_add hfits]
  exact Nat.lt_add_of_pos_right c.slots_pos

end Counted

/-- Reads constants onto a pool until the indices below `count` are used up. -/
def decodeOnto (count : UInt16) (pool : Pool) (input : Bytes) : Except Fault (Pool × Bytes) :=
  if hlt : pool.next < count.toNat then
    match Constant.decode input with
    | .error fault => .error fault
    | .ok (c, rest) =>
      match h : append c pool with
      | .error fault _ => .error fault
      | .ok _ pool' =>
        have := next_lt_of_append hlt h
        decodeOnto count pool' rest
  else .ok (pool, input)
termination_by count.toNat - pool.next

def decode : Decode Pool := do
  let count : UInt16 ← Decode.word
  decodeOnto count empty

end JvmAssembler.Pool
