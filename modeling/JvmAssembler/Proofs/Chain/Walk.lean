import JvmAssembler.Proofs.Chain.Editing
import Mathlib.Data.List.Induction
import Mathlib.Data.List.Nodup
import Mathlib.Data.List.Perm.Subperm

/-!
# Walking a chain

A walk from either end comes to an end by itself and visits every row once, and the neighbours of an
element are those of its row.
-/

namespace JvmAssembler.Chain

open Rows

variable {α : Type} {c : Chain α} {n : Nat} {rows : Rows α}

theorem walk_none (c : Chain α) (step : Node α → Option Handle) (fuel : Nat) :
    c.walk step fuel none = [] := by
  cases fuel <;> rfl

theorem walk_some {h : Handle} {node : Node α} (hnode : c.node? h = some node)
    (step : Node α → Option Handle) (fuel : Nat) :
    c.walk step (fuel + 1) (some h) = (h, node.value) :: c.walk step fuel (step node) := by
  rw [walk, hnode]

/-- However much fuel there is beyond the number of rows, a walk along `next` yields the rows. -/
theorem Segment.walk_next {before : Option Handle} (hseg : c.Segment before rows none) {fuel : Nat}
    (hfuel : rows.length ≤ fuel) : c.walk Node.next fuel (leading rows) = rows := by
  induction rows generalizing before fuel with
  | nil => exact walk_none ..
  | cons row rows ih =>
    obtain ⟨hnode, hrest⟩ := hseg
    obtain ⟨fuel, rfl⟩ : ∃ m, fuel = m + 1 := ⟨fuel - 1, by simp at hfuel; omega⟩
    rw [Option.or_none] at hnode
    rw [leading_cons, walk_some hnode, ih hrest (by simpa using hfuel)]

/-- However much fuel there is beyond the number of rows, a walk along `prev` yields the rows from
the last to the first. -/
theorem Segment.walk_prev {after : Option Handle} (hseg : c.Segment none rows after) {fuel : Nat}
    (hfuel : rows.length ≤ fuel) : c.walk Node.prev fuel (trailing rows) = rows.reverse := by
  induction rows using List.reverseRecOn generalizing after fuel with
  | nil => exact walk_none ..
  | append_singleton rows row ih =>
    obtain ⟨hfront, hnode, -⟩ := (segment_append ..).mp hseg
    obtain ⟨fuel, rfl⟩ : ∃ m, fuel = m + 1 := ⟨fuel - 1, by simp at hfuel; omega⟩
    rw [Option.or_none] at hnode
    rw [trailing_concat, walk_some hnode, ih hfront (by simpa using hfuel), List.reverse_concat]

theorem Holds.length_le (hc : c.Holds n rows) : rows.length ≤ c.nodes.size := by
  have hbelow : (rows.map Prod.fst).map Handle.id ⊆ List.range n := by
    intro i hi
    obtain ⟨h, hh, rfl⟩ := List.mem_map.mp hi
    exact List.mem_range.mpr (hc.id_lt hh)
  have hnd : ((rows.map Prod.fst).map Handle.id).Nodup :=
    hc.nodup.map fun _ _ hid => congrArg Handle.mk hid
  have hlen := (hnd.subperm hbelow).length_le
  simpa [hc.issued_eq] using hlen

theorem Holds.toList_eq (hc : c.Holds n rows) : c.toList = rows := by
  rw [toList, hc.first_eq, hc.segment.walk_next hc.length_le]

theorem Holds.toListBack_eq (hc : c.Holds n rows) : c.toListBack = rows.reverse := by
  rw [toListBack, hc.last_eq, hc.segment.walk_prev hc.length_le]

/-! ### Neighbours -/

theorem Holds.next?_eq_some_iff (hc : c.Holds n rows) {h k : Handle} :
    c.next? h = some k ↔ ∃ xs ys, rows.map Prod.fst = xs ++ h :: k :: ys := by
  by_cases hh : h ∈ rows.map Prod.fst
  · obtain ⟨xs, x, ys, rfl, hx, hy⟩ := exists_split hc.nodup hh
    rw [next?, hc.node?_eq, List.map_append, List.map_cons]
    constructor
    · intro hk
      obtain ⟨row, rest, rfl⟩ : ∃ row rest, ys = row :: rest := by
        rcases ys with _ | ⟨row, rest⟩
        · cases hk
        · exact ⟨row, rest, rfl⟩
      obtain rfl : row.1 = k := Option.some.inj hk
      exact ⟨xs.map Prod.fst, rest.map Prod.fst, rfl⟩
    · intro hexists
      obtain ⟨us, vs, hsplit⟩ := hexists
      obtain ⟨-, -, hys⟩ := (List.append_cons_inj_of_notMem hx hy).mp hsplit
      rcases ys with _ | ⟨row, rest⟩
      · cases hys
      · exact congrArg some (List.cons.inj hys).1
  · have hnone : c.node? h = none := by simpa [contains] using mt (hc.contains_iff h).mp hh
    refine iff_of_false (by simp [next?, hnone]) ?_
    intro hexists
    obtain ⟨xs, ys, hsplit⟩ := hexists
    exact hh (by simp [hsplit])

theorem Holds.prev?_eq_some_iff (hc : c.Holds n rows) {h k : Handle} :
    c.prev? h = some k ↔ ∃ xs ys, rows.map Prod.fst = xs ++ k :: h :: ys := by
  by_cases hh : h ∈ rows.map Prod.fst
  · obtain ⟨xs, x, ys, rfl, hx, hy⟩ := exists_split hc.nodup hh
    rw [prev?, hc.node?_eq, List.map_append, List.map_cons]
    constructor
    · intro hk
      obtain ⟨row, hrow, rfl⟩ := Option.map_eq_some_iff.mp hk
      obtain ⟨init, rfl⟩ := List.getLast?_eq_some_iff.mp hrow
      exact ⟨init.map Prod.fst, ys.map Prod.fst, by simp⟩
    · intro hexists
      obtain ⟨us, vs, hsplit⟩ := hexists
      rw [List.append_cons us] at hsplit
      obtain ⟨hxs, -, -⟩ := (List.append_cons_inj_of_notMem hx hy).mp hsplit
      have hlast := congrArg List.getLast? hxs
      rw [List.getLast?_map, List.getLast?_concat] at hlast
      exact hlast
  · have hnone : c.node? h = none := by simpa [contains] using mt (hc.contains_iff h).mp hh
    refine iff_of_false (by simp [prev?, hnone]) ?_
    intro hexists
    obtain ⟨xs, ys, hsplit⟩ := hexists
    exact hh (by simp [hsplit])

end JvmAssembler.Chain
