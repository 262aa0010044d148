import JvmAssembler.Pool.Basic
import JvmAssembler.Proofs.Atomic
import Mathlib.Data.List.Induction

/-!
# The layout of pools

A pool is determined by its constants in order: each stands where the slots of those before it end,
and the table of first indices is what adding them one by one makes of it. Everything about such a
pool can be computed from the list.
-/

namespace JvmAssembler

variable {c d : Constant} {cs ds : List Constant} {n : Nat} {p q : Nat × Constant}

/-! ### Placing constants -/

/-- Constants with their offsets, the first at `n` and each of the others where the one before it
ends. -/
def placedFrom : (n : Nat) → List Constant → List (Nat × Constant)
  | _, [] => []
  | n, c :: cs => (n, c) :: placedFrom (n + c.slots) cs

def slotsOf (cs : List Constant) : Nat := (cs.map Entry.slots).sum

@[simp] theorem slotsOf_nil : slotsOf [] = 0 := rfl

@[simp] theorem slotsOf_cons (c : Constant) (cs : List Constant) :
    slotsOf (c :: cs) = c.slots + slotsOf cs := rfl

@[simp] theorem slotsOf_append (cs ds : List Constant) :
    slotsOf (cs ++ ds) = slotsOf cs + slotsOf ds := by
  simp [slotsOf]

theorem slotsOf_replicate (n : Nat) (c : Constant) : slotsOf (List.replicate n c) = n * c.slots := by
  rw [slotsOf, List.map_replicate, List.sum_replicate_nat]

theorem placedFrom_append (n : Nat) (cs ds : List Constant) :
    placedFrom n (cs ++ ds) = placedFrom n cs ++ placedFrom (n + slotsOf cs) ds := by
  induction cs generalizing n with
  | nil => rfl
  | cons c cs ih =>
    rw [List.cons_append, placedFrom, placedFrom, ih, slotsOf_cons, List.cons_append,
      Nat.add_assoc]

theorem map_snd_placedFrom (n : Nat) (cs : List Constant) : (placedFrom n cs).map Prod.snd = cs := by
  induction cs generalizing n with
  | nil => rfl
  | cons c cs ih => rw [placedFrom, List.map_cons, ih]

theorem mem_iff_mem_placedFrom (n : Nat) : c ∈ cs ↔ ∃ i, (i, c) ∈ placedFrom n cs := by
  conv_lhs => rw [← map_snd_placedFrom n cs, List.mem_map]
  simp

theorem sum_slots_placedFrom (n : Nat) (cs : List Constant) :
    ((placedFrom n cs).map fun p => p.2.slots).sum = slotsOf cs := by
  conv_rhs => rw [slotsOf, ← map_snd_placedFrom n cs, List.map_map]
  rfl

theorem bounds_of_mem_placedFrom (hp : p ∈ placedFrom n cs) :
    n ≤ p.1 ∧ p.1 + p.2.slots ≤ n + slotsOf cs := by
  induction cs generalizing n with
  | nil => cases hp
  | cons c cs ih =>
    rw [slotsOf_cons]
    rcases List.mem_cons.mp hp with rfl | hp
    · dsimp only
      omega
    · have hbounds := ih hp
      omega

theorem pairwise_ends_placedFrom (n : Nat) (cs : List Constant) :
    (placedFrom n cs).Pairwise fun p q => p.1 + p.2.slots ≤ q.1 := by
  induction cs generalizing n with
  | nil => exact List.Pairwise.nil
  | cons c cs ih =>
    exact List.Pairwise.cons (fun q hq => (bounds_of_mem_placedFrom hq).1) (ih _)

theorem pairwise_placedFrom (n : Nat) (cs : List Constant) :
    (placedFrom n cs).Pairwise fun p q => p.1 < q.1 := by
  refine (pairwise_ends_placedFrom n cs).imp fun {p q} hends => ?_
  have hpos := p.2.slots_pos
  omega

/-- Between where the placing starts and where it ends, every offset is one of a placed constant's. -/
theorem exists_mem_placedFrom {i : Nat} (hn : n ≤ i) (hi : i < n + slotsOf cs) :
    ∃ p ∈ placedFrom n cs, p.1 ≤ i ∧ i < p.1 + p.2.slots := by
  induction cs generalizing n with
  | nil =>
    rw [slotsOf_nil] at hi
    omega
  | cons c cs ih =>
    by_cases hc : i < n + c.slots
    · exact ⟨(n, c), List.mem_cons_self, hn, hc⟩
    · rw [slotsOf_cons] at hi
      obtain ⟨p, hp, hbounds⟩ := ih (Nat.le_of_not_lt hc) (by omega)
      exact ⟨p, List.mem_cons_of_mem _ hp, hbounds⟩

theorem not_mem_inside {i : Nat} (hp : p ∈ placedFrom n cs) (hlow : p.1 < i)
    (hhigh : i < p.1 + p.2.slots) (d : Constant) : (i, d) ∉ placedFrom n cs := by
  intro hmem
  have hends := pairwise_ends_placedFrom n cs
  rcases List.mem_iff_getElem.mp hp with ⟨j, hj, rfl⟩
  rcases List.mem_iff_getElem.mp hmem with ⟨k, hk, heq⟩
  have hk' : (placedFrom n cs)[k].1 = i := congrArg Prod.fst heq
  have hpos := (placedFrom n cs)[k].2.slots_pos
  rcases Nat.lt_trichotomy j k with hjk | rfl | hkj
  · have hle := List.pairwise_iff_getElem.mp hends j k hj hk hjk
    omega
  · omega
  · have hle := List.pairwise_iff_getElem.mp hends k j hk hj hkj
    omega

theorem placedFrom_step {xs ys : List (Nat × Constant)}
    (h : placedFrom n cs = xs ++ p :: q :: ys) : q.1 = p.1 + p.2.slots := by
  induction cs generalizing n xs with
  | nil => simp [placedFrom] at h
  | cons c cs ih =>
    rw [placedFrom] at h
    cases xs with
    | cons x xs => exact ih (List.cons.inj h).2
    | nil =>
      obtain ⟨rfl, htail⟩ := List.cons.inj h
      cases cs with
      | nil => cases htail
      | cons d cs =>
        obtain ⟨rfl, -⟩ := List.cons.inj htail
        rfl

/-- The first occurrence of a constant is the one at the least offset. -/
theorem least_of_find? (hp : ((placedFrom n cs).find? fun p => p.2 = c) = some p) :
    p ∈ placedFrom n cs ∧ p.2 = c ∧ ∀ q ∈ placedFrom n cs, q.2 = c → p.1 ≤ q.1 := by
  obtain ⟨hc, before, after, heq, hbefore⟩ := List.find?_eq_some_iff_append.mp hp
  refine ⟨List.mem_of_find?_eq_some hp, of_decide_eq_true hc, fun q hq hqc => ?_⟩
  have hsorted := pairwise_placedFrom n cs
  rw [heq] at hq hsorted
  rcases List.mem_append.mp hq with hq | hq
  · exact absurd hqc (by simpa using hbefore q hq)
  rcases List.mem_cons.mp hq with rfl | hq
  · exact Nat.le_refl _
  · have htail := (List.pairwise_append.mp hsorted).2.1
    exact Nat.le_of_lt ((List.pairwise_cons.mp htail).1 q hq)

theorem exists_find? (hmem : (n, c) ∈ placedFrom 1 cs) :
    ∃ p, ((placedFrom 1 cs).find? fun p => p.2 = c) = some p := by
  rw [← Option.isSome_iff_exists, List.find?_isSome]
  exact ⟨(n, c), hmem, by simp⟩

namespace Pool

/-! ### Pools of given constants -/

/-- The pool to which the given constants have been added in order. -/
def ofConstants (cs : List Constant) : Pool := cs.foldl add ∅

theorem ofConstants_concat (cs : List Constant) (c : Constant) :
    ofConstants (cs ++ [c]) = (ofConstants cs).add c := by
  rw [ofConstants, List.foldl_append]
  rfl

theorem toList_add {pool : Pool} (hfits : pool.next + c.slots ≤ 65535) :
    (pool.add c).constants.toList = pool.constants.toList ++ [(pool.next, c)] := by
  have hroom : pool.next + c.slots ≤ SlotSeq.maxOffset := Nat.le_trans hfits (by decide)
  rw [add, SlotSeq.push_of_room hroom]
  exact Array.toList_push

theorem next_ofConstants (hcs : 1 + slotsOf cs ≤ 65535) : (ofConstants cs).next = 1 + slotsOf cs := by
  induction cs using List.reverseRecOn with
  | nil => rfl
  | append_singleton cs c ih =>
    rw [slotsOf_append, slotsOf_cons, slotsOf_nil] at hcs ⊢
    have hnext := ih (by omega)
    rw [ofConstants_concat, next_add (by omega), hnext]
    omega

theorem room_of_concat (hcs : 1 + slotsOf (cs ++ [c]) ≤ 65535) : 1 + slotsOf cs ≤ 65535 ∧
    (ofConstants cs).next = 1 + slotsOf cs ∧ (ofConstants cs).next + c.slots ≤ 65535 := by
  rw [slotsOf_append, slotsOf_cons, slotsOf_nil] at hcs
  have hinit : 1 + slotsOf cs ≤ 65535 := by omega
  have hnext := next_ofConstants hinit
  exact ⟨hinit, hnext, by omega⟩

theorem toList_ofConstants (hcs : 1 + slotsOf cs ≤ 65535) :
    (ofConstants cs).constants.toList = placedFrom 1 cs := by
  induction cs using List.reverseRecOn with
  | nil => rfl
  | append_singleton cs c ih =>
    obtain ⟨hinit, hnext, hfits⟩ := room_of_concat hcs
    rw [ofConstants_concat, toList_add hfits, ih hinit, hnext, placedFrom_append]
    rfl

theorem firstIndex_ofConstants (hcs : 1 + slotsOf cs ≤ 65535) (c : Constant) :
    (ofConstants cs).firstIndex[c]? =
      ((placedFrom 1 cs).find? fun p => p.2 = c).map fun p => UInt16.ofNat p.1 := by
  induction cs using List.reverseRecOn with
  | nil => exact Std.ExtHashMap.getElem?_empty
  | append_singleton cs d ih =>
    obtain ⟨hinit, hnext, -⟩ := room_of_concat hcs
    replace ih := ih hinit
    rw [ofConstants_concat, placedFrom_append, List.find?_append, ← hnext, add,
      Std.ExtHashMap.getElem?_insertIfNew]
    by_cases hd : d = c
    · subst hd
      cases hfind : (placedFrom 1 cs).find? fun p => p.2 = d with
      | none =>
        have hnew : d ∉ (ofConstants cs).firstIndex := by
          rw [Std.ExtHashMap.mem_iff_isSome_getElem?, ih, hfind]
          exact Bool.false_ne_true
        rw [if_pos ⟨BEq.rfl, hnew⟩]
        simp [placedFrom]
      | some p =>
        have hold : d ∈ (ofConstants cs).firstIndex := by
          rw [Std.ExtHashMap.mem_iff_isSome_getElem?, ih, hfind]
          rfl
        rw [if_neg fun hc => hc.2 hold, ih, hfind]
        rfl
    · rw [if_neg (by simp [hd]), ih]
      simp [placedFrom, hd]

/-- A pool that has some constants, in an order that indices of 16 bits can number. -/
def Built (pool : Pool) (cs : List Constant) : Prop := pool = ofConstants cs ∧ 1 + slotsOf cs ≤ 65535

theorem built_empty : Built ∅ [] := ⟨rfl, by decide⟩

variable {pool : Pool}

theorem Built.next_eq (h : pool.Built cs) : pool.next = 1 + slotsOf cs := by
  rw [h.1, next_ofConstants h.2]

theorem Built.next_le (h : pool.Built cs) : pool.next ≤ 65535 := h.next_eq ▸ h.2

theorem Built.toList_eq (h : pool.Built cs) : pool.constants.toList = placedFrom 1 cs := by
  rw [h.1, toList_ofConstants h.2]

theorem Built.map_snd_toList (h : pool.Built cs) : pool.toList.map Prod.snd = cs := by
  rw [Pool.toList, List.map_map, h.toList_eq]
  exact map_snd_placedFrom 1 cs

/-- A constant has a first index if it is in the pool. -/
theorem Built.mem_firstIndex_iff (h : pool.Built cs) : c ∈ pool.firstIndex ↔ c ∈ cs := by
  rw [Std.ExtHashMap.mem_iff_isSome_getElem?, h.1, firstIndex_ofConstants h.2, Option.isSome_map,
    List.find?_isSome, mem_iff_mem_placedFrom 1]
  simp

theorem append_of_fits (hfits : pool.next + c.slots ≤ 65535) :
    append c pool = .ok (UInt16.ofNat pool.next) (pool.add c) := by
  rw [append, toNat_ofNat_of_le (Nat.le_of_add_right_le hfits)]
  exact if_pos hfits

/-- The index that is looked at is the next one, not one that was cut off. -/
theorem append_of_full (hnext : pool.next ≤ 65535) (hfull : 65535 < pool.next + c.slots) :
    append c pool = .error (.poolOverflow c (UInt16.ofNat pool.next)) pool := by
  rw [append, toNat_ofNat_of_le hnext]
  exact if_neg (Nat.not_le.mpr hfull)

theorem Built.append (h : pool.Built cs) (c : Constant) :
    Atomically (append c) pool fun _ pool' => pool'.Built (cs ++ [c]) := by
  by_cases hfits : pool.next + c.slots ≤ 65535
  · refine .inr ⟨_, _, append_of_fits hfits, ?_, ?_⟩
    · rw [ofConstants_concat, h.1]
    · rw [slotsOf_append, slotsOf_cons, slotsOf_nil]
      have hnext := h.next_eq
      omega
  · exact .inl ⟨_, append_of_full h.next_le (Nat.lt_of_not_le hfits)⟩

theorem intern_of_some {i : UInt16} (hi : pool.firstIndex[c]? = some i) :
    intern c pool = .ok i pool := by
  rw [intern, bind_of_ok (get_apply pool), hi]
  rfl

theorem intern_of_none (hnone : pool.firstIndex[c]? = none) : intern c pool = Pool.append c pool := by
  rw [intern, bind_of_ok (get_apply pool), hnone]

/-- Where there is room for a constant it is interned, and takes up no more than that. -/
theorem intern_of_room (hroom : pool.next + c.slots ≤ 65535) :
    Surely (intern c) pool fun _ pool' => pool'.next ≤ pool.next + c.slots := by
  cases hentry : pool.firstIndex[c]? with
  | some i => exact ⟨i, pool, intern_of_some hentry, Nat.le_add_right ..⟩
  | none =>
    exact ⟨_, _, (intern_of_none hentry).trans (append_of_fits hroom), (next_add hroom).le⟩

theorem internUtf8_of_room (text : String) (hroom : pool.next + 1 ≤ 65535) :
    Surely (internUtf8 text) pool fun _ pool' => pool'.next ≤ pool.next + 1 :=
  Surely.map (intern_of_room hroom)

theorem Built.firstIndex_eq_none_iff (h : pool.Built cs) : pool.firstIndex[c]? = none ↔ c ∉ cs := by
  rw [← h.mem_firstIndex_iff, Std.ExtHashMap.mem_iff_isSome_getElem?, Option.not_isSome_iff_eq_none]

theorem Built.intern_new (h : pool.Built cs) (hnew : c ∉ cs)
    (hfits : 1 + slotsOf cs + c.slots ≤ 65535) :
    intern c pool = .ok (UInt16.ofNat (1 + slotsOf cs)) (ofConstants (cs ++ [c])) := by
  rw [intern_of_none (h.firstIndex_eq_none_iff.mpr hnew),
    append_of_fits (by rw [h.next_eq]; exact hfits), h.next_eq, ofConstants_concat, h.1]

theorem intern_ofConstants (hnew : c ∉ cs) (hfits : 1 + slotsOf cs + c.slots ≤ 65535) :
    intern c (ofConstants cs) = .ok (UInt16.ofNat (1 + slotsOf cs)) (ofConstants (cs ++ [c])) :=
  Built.intern_new ⟨rfl, by omega⟩ hnew hfits

end Pool

end JvmAssembler
