import JvmAssembler.Proofs.Code.Refinement

/-!
# Places in code order

An instruction's rank is the number of instructions before it. Ranks tell instructions apart, neighbours
are one rank apart, and removing an instruction moves the ones behind it down by one rank.
-/

namespace JvmAssembler

open Rows

namespace Body

variable {b b' : Body} {l : Listing} {h k x : Handle} {us vs : List Handle}

def order (b : Body) : List Handle := b.toList.map Prod.fst

/-- The number of instructions before the one under a handle. -/
def rank (b : Body) (h : Handle) : Nat := b.order.idxOf h

theorem Shows.order_eq (hs : b.Shows l) : b.order = l.handles := by
  rw [order, hs.reads.toList_eq, Listing.handles]

theorem Shows.nodup_order (hs : b.Shows l) : b.order.Nodup := hs.order_eq ▸ hs.reads.nodup

theorem Shows.mem_order_iff (hs : b.Shows l) (h : Handle) : h ∈ b.order ↔ b.contains h := by
  rw [hs.order_eq, hs.contains_iff]

theorem Shows.rank_lt (hs : b.Shows l) (hh : b.contains h) : b.rank h < b.order.length :=
  List.idxOf_lt_length_iff.mpr ((hs.mem_order_iff h).mpr hh)

theorem Shows.rank_inj (hs : b.Shows l) (hh : b.contains h) : b.rank h = b.rank k ↔ h = k :=
  List.idxOf_inj ((hs.mem_order_iff h).mpr hh)

/-- Where the order is cut at an instruction, its rank is the number of instructions before it. -/
theorem Shows.rank_split (hs : b.Shows l) (horder : b.order = us ++ h :: vs) :
    h ∉ us ++ vs ∧ b.rank h = us.length := by
  have hnd := hs.nodup_order
  rw [horder, List.nodup_middle, List.nodup_cons] at hnd
  have hu : h ∉ us := fun hu => hnd.1 (List.mem_append_left vs hu)
  refine ⟨hnd.1, ?_⟩
  rw [rank, horder, List.idxOf_append_of_notMem hu, List.idxOf_cons_self, Nat.add_zero]

/-! ### Neighbours -/

theorem Shows.rank_next (hs : b.Shows l) (hk : b.next? h = some k) :
    b.contains h ∧ b.contains k ∧ b.rank k = b.rank h + 1 := by
  obtain ⟨us, vs, hsplit⟩ := (hs.reads.next?_eq_some_iff h k).mp hk
  rw [← hs.order_eq] at hsplit
  have hnext : b.order = (us ++ [h]) ++ k :: vs := by rw [hsplit, List.append_cons]
  obtain ⟨-, hrank⟩ := hs.rank_split hsplit
  obtain ⟨-, hrank'⟩ := hs.rank_split hnext
  refine ⟨(hs.mem_order_iff h).mp (by simp [hsplit]), (hs.mem_order_iff k).mp (by simp [hsplit]), ?_⟩
  rw [hrank, hrank', List.length_append, List.length_singleton]

theorem Shows.next?_iff_prev? (hs : b.Shows l) : b.prev? h = some k ↔ b.next? k = some h := by
  rw [hs.reads.prev?_eq_some_iff, hs.reads.next?_eq_some_iff]

/-- Only the last instruction has no successor. -/
theorem Shows.next?_eq_none_iff (hs : b.Shows l) (hh : b.contains h) :
    b.next? h = none ↔ b.rank h + 1 = b.order.length := by
  constructor
  · intro hnone
    obtain ⟨us, vs, hsplit⟩ := List.append_of_mem ((hs.mem_order_iff h).mpr hh)
    rcases vs with _ | ⟨k, vs⟩
    · rw [(hs.rank_split hsplit).2, hsplit, List.length_append, List.length_singleton]
    · rw [hs.order_eq] at hsplit
      rw [(hs.reads.next?_eq_some_iff h k).mpr ⟨us, vs, hsplit⟩] at hnone
      cases hnone
  · intro hlast
    cases hnext : b.next? h with
    | none => rfl
    | some k =>
      obtain ⟨-, hk, hrank⟩ := hs.rank_next hnext
      have hlt := hs.rank_lt hk
      omega

/-- The neighbour of an instruction is right behind it, unless it is the last one. -/
theorem Shows.rank_neighbour (hs : b.Shows l) (hx : b.contains x)
    (hk : (b.next? x).or (b.prev? x) = some k) :
    b.contains k ∧ (b.rank x + 1 < b.order.length ∧ b.rank k = b.rank x + 1 ∨
      b.rank x + 1 = b.order.length ∧ b.rank k + 1 = b.rank x) := by
  rcases Option.or_eq_some_iff.mp hk with hnext | ⟨hnone, hprev⟩
  · obtain ⟨-, hlive, hrank⟩ := hs.rank_next hnext
    have hlt := hs.rank_lt hlive
    exact ⟨hlive, .inl ⟨by omega, hrank⟩⟩
  · obtain ⟨hlive, -, hrank⟩ := hs.rank_next (hs.next?_iff_prev?.mp hprev)
    exact ⟨hlive, .inr ⟨(hs.next?_eq_none_iff hx).mp hnone, hrank.symm⟩⟩

/-- What stands in for an instruction that goes: the one behind it, or the one before it if it is the
last. -/
def heir (b : Body) (x : Handle) : Handle :=
  ((b.order[b.rank x + 1]?).or b.order[b.rank x - 1]?).getD x

theorem Shows.getElem?_rank (hs : b.Shows l) (hk : b.contains k) : b.order[b.rank k]? = some k :=
  List.getElem?_eq_some_iff.mpr ⟨hs.rank_lt hk, List.getElem_idxOf _⟩

theorem Shows.heir_eq (hs : b.Shows l) (hx : b.contains x)
    (hk : (b.next? x).or (b.prev? x) = some k) : b.heir x = k := by
  obtain ⟨hlive, ⟨-, hrank⟩ | ⟨hlast, hrank⟩⟩ := hs.rank_neighbour hx hk
  · rw [heir, ← hrank, hs.getElem?_rank hlive]
    rfl
  · have hnone : b.order[b.rank x + 1]? = none := List.getElem?_eq_none (Nat.le_of_eq hlast.symm)
    rw [heir, hnone, ← hrank, Nat.add_sub_cancel, hs.getElem?_rank hlive]
    rfl

/-- Only an instruction on its own has no neighbour. -/
theorem Shows.neighbour_eq_none_iff (hs : b.Shows l) (hx : b.contains x) :
    (b.next? x).or (b.prev? x) = none ↔ b.order = [x] := by
  rw [Option.or_eq_none_iff, hs.next?_eq_none_iff hx]
  have hlt := hs.rank_lt hx
  constructor
  · rintro ⟨hlast, hprev⟩
    obtain ⟨us, vs, hsplit⟩ := List.append_of_mem ((hs.mem_order_iff x).mpr hx)
    have hrank := (hs.rank_split hsplit).2
    rw [hrank, hsplit, List.length_append, List.length_cons] at hlast
    obtain rfl := List.length_eq_zero_iff.mp (by omega : vs.length = 0)
    rcases List.eq_nil_or_concat us with rfl | ⟨us, k, rfl⟩
    · exact hsplit
    · rw [hs.order_eq, List.concat_eq_append, List.append_assoc] at hsplit
      rw [(hs.reads.prev?_eq_some_iff x k).mpr ⟨us, [], hsplit⟩] at hprev
      cases hprev
  · intro horder
    have hsplit : b.order = [] ++ x :: [] := horder
    have hrank := (hs.rank_split hsplit).2
    refine ⟨by rw [hrank, horder]; rfl, ?_⟩
    cases hprev : b.prev? x with
    | none => rfl
    | some k =>
      obtain ⟨-, -, hbefore⟩ := hs.rank_next (hs.next?_iff_prev?.mp hprev)
      rw [hrank] at hbefore
      exact absurd hbefore (by simp)

/-! ### Removing an instruction -/

/-- `b'` has the instructions of `b` but for the one under `x`, in the same order. -/
structure Lacks (x : Handle) (b b' : Body) : Prop where
  live : b.contains x
  contains_iff : ∀ h, b'.contains h ↔ b.contains h ∧ h ≠ x
  length_eq : b'.order.length + 1 = b.order.length
  rank_eq : ∀ h, b.contains h → h ≠ x →
    b.rank h < b.rank x ∧ b'.rank h = b.rank h ∨ b.rank x < b.rank h ∧ b'.rank h + 1 = b.rank h

theorem lacks_of_split {l' : Listing} (hs : b.Shows l) (hs' : b'.Shows l')
    (horder : b.order = us ++ x :: vs) (horder' : b'.order = us ++ vs) : Lacks x b b' := by
  obtain ⟨hx, hrank⟩ := hs.rank_split horder
  constructor
  case live => exact (hs.mem_order_iff x).mp (by simp [horder])
  case contains_iff =>
    intro h
    rw [← hs'.mem_order_iff, ← hs.mem_order_iff, horder, horder', List.mem_append, List.mem_append,
      List.mem_cons]
    constructor
    · intro hh
      exact ⟨hh.imp_right .inr, fun heq => hx (heq ▸ List.mem_append.mpr hh)⟩
    · rintro ⟨hh | heq | hh, hne⟩
      · exact .inl hh
      · exact absurd heq hne
      · exact .inr hh
  case length_eq => simp [horder, horder', Nat.add_assoc]
  case rank_eq =>
    intro h hh hne
    rw [hrank, rank, rank, horder, horder']
    by_cases hmem : h ∈ us
    · rw [List.idxOf_append_of_mem hmem, List.idxOf_append_of_mem hmem]
      exact .inl ⟨List.idxOf_lt_length_iff.mpr hmem, rfl⟩
    · rw [List.idxOf_append_of_notMem hmem, List.idxOf_append_of_notMem hmem,
        List.idxOf_cons_ne _ (Ne.symm hne)]
      exact .inr ⟨by omega, by omega⟩

theorem Shows.erase_row (hs : b.Shows l) {i : Instruction} (hok : Body.erase x b = .ok i b') :
    l.find x = .ok i ∧ ∃ l', l'.rows = l.rows.erase x ∧ b'.Shows l' := by
  obtain ⟨l', hedited, hs'⟩ := hs.edited_of_ok (e := .erase x) (map_of_ok _ hok)
  obtain ⟨j, hfind, hrest⟩ := ok_of_bind hedited
  split at hrest
  · cases hrest
  · cases hrest
    exact ⟨hfind, _, rfl, hs'⟩

theorem Shows.erase_lacks (hs : b.Shows l) {i : Instruction}
    (hok : Body.erase x b = .ok i b') :
    Lacks x b b' ∧ ∃ l', b'.Shows l' := by
  obtain ⟨hfind, l', hrows', hs'⟩ := hs.erase_row hok
  refine ⟨?_, l', hs'⟩
  have hmem : x ∈ l.rows.map Prod.fst := by
    by_contra hdead
    rw [Listing.find_dead hdead] at hfind
    cases hfind
  obtain ⟨xs, j, ys, hrows, hx, hy⟩ := exists_split hs.reads.nodup hmem
  have horder : b.order = xs.map Prod.fst ++ x :: ys.map Prod.fst := by
    rw [hs.order_eq, Listing.handles, hrows, List.map_append]
    rfl
  have horder' : b'.order = xs.map Prod.fst ++ ys.map Prod.fst := by
    rw [hs'.order_eq, Listing.handles, hrows', hrows, erase_split hx hy, List.map_append]
  exact lacks_of_split hs hs' horder horder'

end Body

end JvmAssembler
