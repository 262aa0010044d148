import JvmAssembler.Handle
import Std.Data.ExtTreeMap

/-!
# Registrations

Which holders point at which instructions, and how often: a holder may point at the same instruction
twice, and has to let go of it twice. An instruction that nothing points at has no entry.
-/

namespace JvmAssembler

/-- The number of times that a holder points at a handle, where it is not zero. -/
structure Registry where
  counts : Std.ExtTreeMap Handle (Std.ExtTreeMap HolderId Nat)

namespace Registry

def empty : Registry := ⟨∅⟩

instance : EmptyCollection Registry := ⟨empty⟩

def isHeld (r : Registry) (h : Handle) : Bool := r.counts.contains h

def isHeldBy (r : Registry) (h : Handle) (t : HolderId) : Bool :=
  r.counts[h]?.any (·.contains t)

def count (r : Registry) (h : Handle) (t : HolderId) : Nat :=
  (r.counts[h]?.bind (·[t]?)).getD 0

def holders (r : Registry) (h : Handle) : List HolderId :=
  r.counts[h]?.elim [] (·.keys)

/-- The handles that something points at, in order of creation, with what does. -/
def toList (r : Registry) : List (Handle × List HolderId) :=
  r.counts.toList.map fun (h, counts) => (h, counts.keys)

def raise (r : Registry) (h : Handle) (t : HolderId) : Registry :=
  ⟨r.counts.alter h fun held? =>
    some ((held?.getD ∅).alter t fun count? => some (count?.getD 0 + 1))⟩

/-- Counts one registration less, if there is one. -/
def lower (r : Registry) (h : Handle) (t : HolderId) : Registry :=
  ⟨r.counts.alter h fun held? => held?.bind fun held =>
    let held := held.alter t fun count? =>
      count?.bind fun count => if count ≤ 1 then none else some (count - 1)
    if held.isEmpty then none else some held⟩

/-! ### Counting -/

theorem count_empty (h : Handle) (t : HolderId) : (∅ : Registry).count h t = 0 := by
  have : (∅ : Registry).counts = ∅ := rfl
  simp [count, this]

theorem count_raise (r : Registry) (h k : Handle) (t u : HolderId) :
    (r.raise h t).count k u = r.count k u + if h = k ∧ t = u then 1 else 0 := by
  unfold raise count
  rw [Std.ExtTreeMap.getElem?_alter]
  by_cases hk : h = k
  · subst hk
    cases r.counts[h]? <;> by_cases hu : t = u <;> simp [Std.ExtTreeMap.getElem?_alter, hu]
  · have hk' : compare h k ≠ .eq := fun e => hk (Std.LawfulEqOrd.eq_of_compare e)
    simp [hk, hk']

theorem count_lower (r : Registry) (h k : Handle) (t u : HolderId) :
    (r.lower h t).count k u = r.count k u - if h = k ∧ t = u then 1 else 0 := by
  unfold lower count
  rw [Std.ExtTreeMap.getElem?_alter]
  by_cases hk : h = k
  · subst hk
    simp only [Std.ReflOrd.compare_self]
    cases r.counts[h]? with
    | none => simp
    | some held =>
      simp only [Option.bind_some]
      have key : ∀ v, (held.alter t fun count? =>
          count?.bind fun count => if count ≤ 1 then none else some (count - 1))[v]?.getD 0
          = held[v]?.getD 0 - if t = v then 1 else 0 := by
        intro v
        rw [Std.ExtTreeMap.getElem?_alter]
        by_cases hv : t = v
        · subst hv
          cases held[t]? with
          | none => simp
          | some n => by_cases hn : n ≤ 1 <;> simp [hn]
        · have hv' : compare t v ≠ .eq := fun e => hv (Std.LawfulEqOrd.eq_of_compare e)
          simp [hv, hv']
      generalize held.alter t _ = lowered at key ⊢
      by_cases he : lowered.isEmpty
      · simpa [he, Std.ExtTreeMap.isEmpty_iff.mp he] using key u
      · simpa [he] using key u
  · have hk' : compare h k ≠ .eq := fun e => hk (Std.LawfulEqOrd.eq_of_compare e)
    simp [hk, hk']

end Registry

end JvmAssembler
