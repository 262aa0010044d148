import JvmAssembler.Code.Body
import JvmAssembler.Proofs.Chain.Walk
import Mathlib.Algebra.BigOperators.Group.List.Basic
import Mathlib.Algebra.Order.Ring.Nat

/-!
# Laying out

Placing lines gives each of them the offset at which the lines before it end, and touches nothing but
their positions.
-/

namespace JvmAssembler.Body

open Rows

/-- The lines with the positions that they have in code that starts at `offset`. -/
def placed (offset : Nat) : Rows Line → Rows Line
  | [] => []
  | (h, line) :: rest =>
    (h, { line with position := offset }) :: placed (offset + line.instruction.width) rest

def totalWidth (lines : Rows Line) : Nat := (lines.map (·.2.instruction.width)).sum

theorem place_holds {c : Chain Line} {n : Nat} {xs ys : Rows Line} (hc : c.Holds n (xs ++ ys))
    (offset : Nat) :
    (place c offset ys).1 = offset + totalWidth ys ∧
      (place c offset ys).2.Holds n (xs ++ placed offset ys) := by
  induction ys generalizing c xs offset with
  | nil => exact ⟨rfl, hc⟩
  | cons row ys ih =>
    have hplaced := hc.modifyNode fun line => { line with position := offset }
    rw [List.append_cons] at hplaced
    obtain ⟨hlength, hd⟩ := ih hplaced (offset + row.2.instruction.width)
    rw [List.append_assoc] at hd
    refine ⟨?_, hd⟩
    rw [place, hlength, totalWidth, totalWidth, List.map_cons, List.sum_cons, Nat.add_assoc]

theorem layOut_of_holds {b : Body} {n : Nat} {lines : Rows Line} (hb : b.lines.Holds n lines) :
    ∃ d, layOut b = .ok (totalWidth lines) { b with lines := d, stale := false } ∧
      d.Holds n (placed 0 lines) := by
  rw [← List.nil_append lines] at hb
  obtain ⟨hlength, hd⟩ := place_holds hb 0
  refine ⟨_, ?_, hd⟩
  rw [layOut, hb.toList_eq, List.nil_append, ← Nat.zero_add (totalWidth lines), ← hlength]

end JvmAssembler.Body
