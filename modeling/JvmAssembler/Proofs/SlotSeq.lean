import JvmAssembler.SlotSeq
import Mathlib.Data.List.Basic

/-!
# Looking up by slot

Halving the range of candidates finds the place at which the offsets of a sequence reach a given
one, as long as they ascend. What stands there decides the look-up.
-/

namespace JvmAssembler.SlotSeq

variable {α : Type} {slots : α → Nat} {entries : Array (Nat × α)} {offset low high i : Nat}
  {x : α}

def Ascending (entries : Array (Nat × α)) : Prop :=
  ∀ (i j : Nat) (p q : Nat × α), i < j → entries[i]? = some p → entries[j]? = some q → p.1 < q.1

theorem ascending_of_pairwise (h : entries.toList.Pairwise fun p q => p.1 < q.1) :
    Ascending entries := by
  intro i j p q hij hp hq
  rw [← Array.getElem?_toList, List.getElem?_eq_some_iff] at hp hq
  obtain ⟨hi, rfl⟩ := hp
  obtain ⟨hj, rfl⟩ := hq
  exact List.pairwise_iff_getElem.mp h i j hi hj hij

/-- `i` is the place in front of which all offsets are below `offset`, and behind which none is. -/
structure Splits (entries : Array (Nat × α)) (offset i : Nat) : Prop where
  le_size : i ≤ entries.size
  below : ∀ j p, j < i → entries[j]? = some p → p.1 < offset
  above : ∀ j p, i ≤ j → entries[j]? = some p → offset ≤ p.1

/-- The range that is left has the place in it all the time. -/
theorem search_splits (hsorted : Ascending entries) (hhigh : high ≤ entries.size)
    (hle : low ≤ high) (hbelow : ∀ j p, j < low → entries[j]? = some p → p.1 < offset)
    (habove : ∀ j p, high ≤ j → entries[j]? = some p → offset ≤ p.1) :
    Splits entries offset (search entries offset low high) := by
  fun_induction search entries offset low high with
  | case1 low high hlt middle start x hentry hstart ih =>
    refine ih hhigh (by omega) (fun j p hj hp => ?_) habove
    by_cases hmiddle : j = middle
    · subst hmiddle
      rw [hentry] at hp
      cases hp
      exact hstart
    · have := hsorted j middle p (start, x) (by omega) hp hentry
      dsimp only at this
      omega
  | case2 low high hlt middle start x hentry hstart ih =>
    refine ih (by omega) (by omega) hbelow fun j p hj hp => ?_
    by_cases hmiddle : j = middle
    · subst hmiddle
      rw [hentry] at hp
      cases hp
      omega
    · have := hsorted middle j (start, x) p (by omega) hentry hp
      dsimp only at this
      omega
  | case3 low high hlt middle hentry =>
    rw [Array.getElem?_eq_none_iff] at hentry
    omega
  | case4 low high hlt =>
    obtain rfl : low = high := by omega
    exact ⟨hhigh, hbelow, habove⟩

theorem search_eq (hsorted : Ascending entries) :
    Splits entries offset (search entries offset 0 entries.size) := by
  refine search_splits hsorted (Nat.le_refl _) (Nat.zero_le _) (fun j p hj => ?_)
    fun j p hj hp => ?_
  · omega
  · rw [Array.getElem?_eq_none (by omega)] at hp
    cases hp

theorem lookup_of_mem {s : SlotSeq α slots} (hsorted : Ascending s.entries)
    (hi : s.entries[i]? = some (offset, x)) : s.lookup offset = .found i x := by
  have hsplits : Splits s.entries offset _ := search_eq hsorted
  have hplace : search s.entries offset 0 s.entries.size = i := by
    rcases Nat.lt_trichotomy (search s.entries offset 0 s.entries.size) i with hlt | heq | hgt
    · have hsize : search s.entries offset 0 s.entries.size < s.entries.size :=
        Nat.lt_trans hlt (Array.getElem?_eq_some_iff.mp hi).1
      have hentry := Array.getElem?_eq_getElem hsize
      have hle := hsplits.above _ _ (Nat.le_refl _) hentry
      have hlt' := hsorted _ i _ _ hlt hentry hi
      dsimp only at hlt'
      omega
    · exact heq
    · have := hsplits.below i _ hgt hi
      dsimp only at this
      omega
  rw [lookup, hplace, hi]
  exact if_pos rfl

theorem getElem?_of_lookup {s : SlotSeq α slots} (h : s.lookup offset = .found i x) :
    s.entries[i]? = some (offset, x) := by
  rw [lookup] at h
  split at h
  · cases h
  next start y hentry =>
    split at h
    next heq =>
      cases h
      rw [hentry, heq]
    · split at h <;> cases h

/-- An offset at which no element starts is below that of the element at the place it was cut at. -/
theorem lt_of_search {s : SlotSeq α slots} (hsorted : Ascending s.entries) {p : Nat × α}
    (hp : s.entries[search s.entries offset 0 s.entries.size]? = some p) (hne : p.1 ≠ offset) :
    offset < p.1 := by
  have hsplits : Splits s.entries offset _ := search_eq hsorted
  have hle := hsplits.above _ p (Nat.le_refl _) hp
  omega

/-- Inside an element is in front of the next one. -/
theorem lookup_inside {s : SlotSeq α slots} (hsorted : Ascending s.entries)
    (h : s.lookup offset = .inside i) : ∃ p ∈ s.toList, offset < p.1 := by
  rw [lookup] at h
  split at h
  · cases h
  next start y hentry =>
    split at h
    · cases h
    next hne =>
      exact ⟨(start, y), List.mem_of_getElem? (Array.getElem?_toList ▸ hentry),
        lt_of_search hsorted hentry hne⟩

theorem lookup_before {s : SlotSeq α slots} (hsorted : Ascending s.entries)
    (h : s.lookup offset = .before) : ∃ p, s.toList.head? = some p ∧ offset < p.1 := by
  rw [lookup] at h
  split at h
  · cases h
  next start y hentry =>
    split at h
    · cases h
    next hne =>
      split at h
      next hzero =>
        refine ⟨(start, y), ?_, lt_of_search hsorted hentry hne⟩
        rw [hzero] at hentry
        rw [toList, List.head?_eq_getElem?, Array.getElem?_toList, hentry]
      · cases h

end JvmAssembler.SlotSeq
