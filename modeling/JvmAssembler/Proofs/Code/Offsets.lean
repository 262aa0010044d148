import JvmAssembler.Proofs.Code.Order
import JvmAssembler.Proofs.Code.Positions

/-!
# Offsets

With positions up to date an instruction lies behind all bytes of the instructions before it. No
instruction is without bytes, so that offsets are in code order, and between two of them there is nothing
but the code of the instructions between.
-/

namespace JvmAssembler

namespace Rows

theorem byteLength_append (xs ys : Rows Instruction) :
    (xs ++ ys).byteLength = xs.byteLength + ys.byteLength := by
  simp [byteLength]

theorem length_le_byteLength (rows : Rows Instruction) : rows.length ≤ rows.byteLength := by
  induction rows with
  | nil => exact Nat.le_refl 0
  | cons row rows ih =>
    have hwidth : row.2.width = 1 + row.2.operands.length := rfl
    change rows.length + 1 ≤ row.2.width + byteLength rows
    omega

end Rows

theorem mem_drop_take_iff {xs : List Handle} {x : Handle} {i j : Nat} (hnd : xs.Nodup) :
    x ∈ (xs.take j).drop i ↔ x ∈ xs ∧ i ≤ xs.idxOf x ∧ xs.idxOf x < j := by
  constructor
  · intro hx
    obtain ⟨n, hn, rfl⟩ := List.mem_iff_getElem.mp hx
    rw [List.length_drop, List.length_take] at hn
    rw [List.getElem_drop, List.getElem_take, hnd.idxOf_getElem]
    exact ⟨List.getElem_mem _, by omega, by omega⟩
  · rintro ⟨hx, hi, hj⟩
    have hlt := List.idxOf_lt_length_iff.mpr hx
    refine List.mem_iff_getElem.mpr ⟨xs.idxOf x - i, ?_, ?_⟩
    · rw [List.length_drop, List.length_take]
      omega
    · simp only [List.getElem_drop, List.getElem_take, Nat.add_sub_cancel' hi]
      exact List.getElem_idxOf hlt

namespace Body

variable {b : Body} {l : Listing} {h : Handle} {i j : Nat}

/-- The instructions from one place in the order up to another. -/
def stretch (b : Body) (i j : Nat) : Rows Instruction := (b.toList.take j).drop i

/-- The number of bytes of the instructions up to a place in the order. -/
def offset (b : Body) (i : Nat) : Nat := Rows.byteLength (b.toList.take i)

theorem take_append_stretch (hij : i ≤ j) : b.toList.take i ++ b.stretch i j = b.toList.take j := by
  have hsplit := List.take_append_drop i (b.toList.take j)
  rwa [List.take_take, Nat.min_eq_left hij] at hsplit

theorem offset_add_stretch (hij : i ≤ j) :
    b.offset i + (b.stretch i j).byteLength = b.offset j := by
  rw [offset, offset, ← take_append_stretch hij, Rows.byteLength_append]

theorem length_order (b : Body) : b.order.length = b.toList.length := List.length_map _

theorem offset_lt (hij : i < j) (hj : j ≤ b.order.length) : b.offset i < b.offset j := by
  have hlength : (b.stretch i j).length = j - i := by
    rw [length_order] at hj
    rw [stretch, List.length_drop, List.length_take, Nat.min_eq_left hj]
  have hbytes := Rows.length_le_byteLength (b.stretch i j)
  have hsum := b.offset_add_stretch (Nat.le_of_lt hij)
  omega

theorem offset_lt_iff (hi : i ≤ b.order.length) (hj : j ≤ b.order.length) :
    b.offset i < b.offset j ↔ i < j := by
  refine ⟨fun hlt => ?_, fun hij => offset_lt hij hj⟩
  by_contra hle
  rcases Nat.lt_or_eq_of_le (Nat.le_of_not_lt hle) with hji | rfl
  · exact Nat.lt_asymm hlt (offset_lt hji hi)
  · exact Nat.lt_irrefl _ hlt

/-- Between two offsets there is the code of the instructions between. -/
theorem slice_bytecode (hij : i ≤ j) :
    (b.bytecode.drop (b.offset i)).take (b.stretch i j).byteLength =
      (b.stretch i j).flatMap fun row => row.2.opcode :: row.2.operands := by
  have hsplit : b.toList = b.toList.take i ++ (b.stretch i j ++ b.toList.drop j) := by
    rw [← List.append_assoc, take_append_stretch hij, List.take_append_drop]
  have hslice := Rows.slice_flatMap_encode (b.toList.take i) (b.stretch i j) (b.toList.drop j)
  rw [← hsplit] at hslice
  simpa only [bytecode, offset, Instruction.encode_eq] using hslice

theorem Shows.mem_stretch_iff (hs : b.Shows l) :
    h ∈ (b.stretch i j).map Prod.fst ↔ b.contains h ∧ i ≤ b.rank h ∧ b.rank h < j := by
  rw [stretch, List.map_drop, List.map_take, ← hs.mem_order_iff]
  exact mem_drop_take_iff hs.nodup_order

/-- With positions up to date an instruction starts at the offset of its rank, and ends where the next
one starts. -/
theorem LaidOut.position_eq (hb : b.LaidOut) (hs : b.Shows l) (hh : b.contains h) :
    ∃ n, b.width h = .ok n ∧ b.position h = .ok (b.offset (b.rank h)) ∧
      b.offset (b.rank h) + n = b.offset (b.rank h + 1) := by
  obtain ⟨before, i, after, hlist, -, hwidth, hposition, -⟩ := hb.at_live h hh
  have horder : b.order = before.map Prod.fst ++ h :: after.map Prod.fst := by
    rw [order, hlist, List.map_append]
    rfl
  have hrank : b.rank h = before.length := by
    rw [(hs.rank_split horder).2, List.length_map]
  have hbefore : b.toList.take before.length = before := by rw [hlist, List.take_left]
  have hnext : b.toList.take (before.length + 1) = before ++ [(h, i)] := by
    rw [hlist, List.append_cons]
    exact List.take_left' (List.length_append ..)
  refine ⟨i.width, hwidth, ?_, ?_⟩
  · rw [hposition, hrank, offset, hbefore]
  · rw [hrank, offset, offset, hbefore, hnext, Rows.byteLength_append]
    simp [Rows.byteLength]

end Body

end JvmAssembler
