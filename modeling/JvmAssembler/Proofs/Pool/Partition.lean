import JvmAssembler.Proofs.Emission

/-!
# What indices stand for

The indices of 16 bits fall into three: those at which a constant starts, the second ones of constants
that take two, and those that the pool does not use, which are zero and all from the next one on. Looking
up an index tells which of these it is. Where the last constant takes two indices, the second of them is
found out by the next index instead of by what follows, and is no different from any other.
-/

namespace JvmAssembler

theorem Entry.slots_cases {ρ : Type} (c : Entry ρ) :
    (c.tag = .long ∨ c.tag = .double) ∧ c.slots = 2 ∨
      ¬(c.tag = .long ∨ c.tag = .double) ∧ c.slots = 1 := by
  cases c <;> simp [tag, slots]

namespace Pool

variable {cs : List Constant} {pool : Pool} {i : UInt16}

def Stores (pool : Pool) (i : UInt16) (c : Constant) : Prop :=
  (i.toNat, c) ∈ pool.constants.toList

/-- The index is the second one of a `long` or `double`. -/
def SecondSlot (pool : Pool) (i : UInt16) : Prop :=
  ∃ n c, (n, c) ∈ pool.constants.toList ∧ (c.tag = .long ∨ c.tag = .double) ∧ i.toNat = n + 1

/-- The index is zero, or no constant has reached it yet. -/
def Unused (pool : Pool) (i : UInt16) : Prop := i = 0 ∨ pool.next ≤ i.toNat

/-- Every index is in just one of three states, looking it up tells which, and the listing of the pool
goes through those at which something is found in ascending order. -/
structure Partitions (pool : Pool) : Prop where
  get_eq_ok_iff : ∀ i c, pool.get i = .ok c ↔ pool.Stores i c
  get_eq_unusable_iff : ∀ i, pool.get i = .error (.unusableSlot i) ↔ pool.SecondSlot i
  get_eq_outOfRange_iff : ∀ i, pool.get i = .error (.outOfRange i) ↔ pool.Unused i
  covers : ∀ i, (∃ c, pool.Stores i c) ∨ pool.SecondSlot i ∨ pool.Unused i
  not_second_of_stores : ∀ i c, pool.Stores i c → ¬pool.SecondSlot i
  not_unused_of_stores : ∀ i c, pool.Stores i c → ¬pool.Unused i
  not_unused_of_second : ∀ i, pool.SecondSlot i → ¬pool.Unused i
  mem_toList_iff : ∀ i c, (i, c) ∈ pool.toList ↔ pool.get i = .ok c
  pairwise_toList : pool.toList.Pairwise fun p q => p.1 < q.1

theorem Built.get_eq_ok_iff_stores (h : pool.Built cs) {c : Constant} :
    pool.get i = .ok c ↔ pool.Stores i c := by
  rw [h.get_eq_ok_iff, Stores, h.toList_eq]

theorem Built.get_eq_unusable_iff_second (h : pool.Built cs) :
    pool.get i = .error (.unusableSlot i) ↔ pool.SecondSlot i := by
  rw [h.get_eq_unusable_iff, SecondSlot, h.toList_eq]
  constructor
  · rintro ⟨⟨n, c⟩, hmem, hlow, hhigh⟩
    dsimp only at hlow hhigh
    rcases c.slots_cases with ⟨hwide, hslots⟩ | ⟨-, hslots⟩
    · exact ⟨n, c, hmem, hwide, by omega⟩
    · omega
  · rintro ⟨n, c, hmem, hwide, hi⟩
    rcases c.slots_cases with ⟨-, hslots⟩ | ⟨hnarrow, -⟩
    · refine ⟨(n, c), hmem, ?_, ?_⟩
      · dsimp only
        omega
      · dsimp only
        omega
    · exact absurd hwide hnarrow

theorem Built.partitions (h : pool.Built cs) : pool.Partitions := by
  constructor
  case get_eq_ok_iff => exact fun _ _ => h.get_eq_ok_iff_stores
  case get_eq_unusable_iff => exact fun _ => h.get_eq_unusable_iff_second
  case get_eq_outOfRange_iff => exact fun _ => h.get_eq_outOfRange_iff
  case covers =>
    intro i
    by_cases hunused : pool.Unused i
    · exact .inr (.inr hunused)
    rw [Unused, not_or, Nat.not_le] at hunused
    rcases h.get_of_lt_next hunused.1 hunused.2 with ⟨c, hc⟩ | hsecond
    · exact .inl ⟨c, h.get_eq_ok_iff_stores.mp hc⟩
    · exact .inr (.inl (h.get_eq_unusable_iff_second.mp hsecond))
  case not_second_of_stores =>
    intro i c hstores hsecond
    have hget := h.get_eq_ok_iff_stores.mpr hstores
    rw [h.get_eq_unusable_iff_second.mpr hsecond] at hget
    cases hget
  case not_unused_of_stores =>
    intro i c hstores hunused
    have hget := h.get_eq_ok_iff_stores.mpr hstores
    rw [h.get_eq_outOfRange_iff.mpr hunused] at hget
    cases hget
  case not_unused_of_second =>
    intro i hsecond hunused
    have hget := h.get_eq_unusable_iff_second.mpr hsecond
    rw [h.get_eq_outOfRange_iff.mpr hunused] at hget
    cases hget
  case mem_toList_iff => exact fun _ _ => h.mem_toList_iff
  case pairwise_toList => exact h.pairwise_toList

end Pool

namespace Emission

/-- Whatever has been emitted into a pool, looking up an index finds a constant just if one starts there,
calls the index unusable just if it is the second one of a `long` or `double`, and out of range just if
it is zero or the next index or one behind that. -/
theorem session_partitions {start : Pool} (hstart : Pool.Origin start) (notices : List Notice)
    (tasks : List Task) : (performAll perform tasks ⟨start, notices⟩).2.pool.Partitions := by
  obtain ⟨cs, hcs⟩ := hstart.built
  obtain ⟨ds, hds⟩ := (performAll_extends tasks (e := ⟨start, notices⟩) hcs.extends).built
  exact hds.partitions

/-- The second index of a number is unusable, be it followed by a text or the last of all. -/
theorem session_partitions_of_two_long :
    let tasks : List Task :=
      [.request (.loadable (.long 7)), .request (.utf8 "a"), .request (.loadable (.long 8))]
    let pool := (performAll perform tasks ⟨∅, []⟩).2.pool
    Pool.Origin ∅ ∧ pool.get 0 = .error (.outOfRange 0) ∧ pool.get 1 = .ok (.long 7) ∧
      pool.get 2 = .error (.unusableSlot 2) ∧ pool.get 3 = .ok (.utf8 "a") ∧
      pool.get 5 = .error (.unusableSlot 5) ∧ pool.get 6 = .error (.outOfRange 6) := by
  intro tasks pool
  have hpool : pool.Built [.long 7, .utf8 "a", .long 8] := by
    have hlong : perform (.request (.loadable (.long 7))) ⟨∅, []⟩ =
        .ok (.index 1) ⟨Pool.ofConstants [.long 7], []⟩ :=
      map_of_ok _ (EmitM.onPool_of_ok (Pool.built_empty.intern_new (by decide) (by decide)))
    have htext : perform (.request (.utf8 "a")) ⟨Pool.ofConstants [.long 7], []⟩ =
        .ok (.index 3) ⟨Pool.ofConstants [.long 7, .utf8 "a"], []⟩ :=
      map_of_ok _ (EmitM.onPool_of_ok
        (map_of_ok _ (map_of_ok _ (Pool.intern_ofConstants (by decide) (by decide)))))
    have hlast : perform (.request (.loadable (.long 8)))
          ⟨Pool.ofConstants [.long 7, .utf8 "a"], []⟩ =
        .ok (.index 4) ⟨Pool.ofConstants [.long 7, .utf8 "a", .long 8], []⟩ :=
      map_of_ok _ (EmitM.onPool_of_ok (Pool.intern_ofConstants (by decide) (by decide)))
    refine ⟨?_, by decide⟩
    show (performAll perform tasks ⟨∅, []⟩).2.pool = _
    rw [performAll_cons, outcome_of_ok hlong, performAll_cons, outcome_of_ok htext, performAll_cons,
      outcome_of_ok hlast]
    rfl
  have hlist : pool.constants.toList = [(1, .long 7), (3, .utf8 "a"), (4, .long 8)] := hpool.toList_eq
  have hnext : pool.next = 6 := hpool.next_eq
  have hstores {n : Nat} {c : Constant} (hmem : (n, c) ∈ [(1, .long 7), (3, .utf8 "a"), (4, .long 8)]) :
      (n, c) ∈ pool.constants.toList := hlist ▸ hmem
  have hparts := session_partitions .empty [] tasks
  exact ⟨.empty, (hparts.get_eq_outOfRange_iff 0).mpr (.inl rfl),
    (hparts.get_eq_ok_iff 1 _).mpr (hstores (by decide)),
    (hparts.get_eq_unusable_iff 2).mpr ⟨1, .long 7, hstores (by decide), .inl rfl, rfl⟩,
    (hparts.get_eq_ok_iff 3 _).mpr (hstores (by decide)),
    (hparts.get_eq_unusable_iff 5).mpr ⟨4, .long 8, hstores (by decide), .inl rfl, rfl⟩,
    (hparts.get_eq_outOfRange_iff 6).mpr (.inr (Nat.le_of_eq hnext))⟩

end Emission

end JvmAssembler
