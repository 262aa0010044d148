import JvmAssembler.Proofs.Pool.Growth

/-!
# The declared count

Reading a pool goes on while the next index is below the count that the pool starts with. So every
constant starts below the count and the indices below it are all used up, but nothing looks at where the
last constant ends: if it takes two slots and starts at the last of these indices, then its second slot
lies outside of them, and the pool is written with a count that is larger by one. Every other pool
ends where its count says.
-/

namespace JvmAssembler

open Binary (Bytes Word)

theorem Entry.slots_le {ρ : Type} (c : Entry ρ) : c.slots ≤ 2 := by
  cases c <;> simp [slots]

namespace Pool

variable {c : Constant} {cs : List Constant} {pool pool' : Pool} {limit : UInt16} {count : Nat} {input rest : Bytes}

def Below (count : Nat) (pool : Pool) : Prop := ∀ p ∈ pool.constants.toList, p.1 < count

theorem Below.add (h : pool.Below count) (hlt : pool.next < count)
    (hfits : pool.next + c.slots ≤ 65535) : (pool.add c).Below count := by
  intro p hp
  rw [toList_add hfits, List.mem_append, List.mem_singleton] at hp
  rcases hp with hp | rfl
  · exact h p hp
  · exact hlt

/-- Reading ends when the indices below the count are used up, and adds no constant after that. -/
theorem Below.decodeOnto (h : pool.Below limit.toNat)
    (hok : Pool.decodeOnto limit pool input = .ok (pool', rest)) :
    pool'.Below limit.toNat ∧ limit.toNat ≤ pool'.next := by
  fun_induction Pool.decodeOnto limit pool input with
  | case1 => cases hok
  | case2 => cases hok
  | case3 pool input hlt c bytes _ i pool₁ happend _ ih =>
    obtain ⟨hfits, rfl⟩ := fits_of_append hlt happend
    exact ih (h.add hlt hfits) hok
  | case4 pool input hend =>
    cases hok
    exact ⟨h, Nat.le_of_not_lt hend⟩

/-- The last index below the count is the first of two that a constant takes. -/
def Overruns (pool : Pool) (count : Nat) : Prop :=
  ∃ (i : UInt16) (c : Constant), i.toNat + 1 = count ∧ pool.get i = .ok c ∧ c.slots = 2

/-- Where all constants start below the count, only one that starts right before it can end behind it. -/
theorem Built.overruns_of_lt (h : pool.Built cs) (hbelow : pool.Below count) (hcount : 1 ≤ count)
    (hlt : count < pool.next) : pool.next = count + 1 ∧ pool.Overruns count := by
  have hcovered {n : Nat} (hn : 1 ≤ n) (hnext : n < pool.next) :
      ∃ p ∈ placedFrom 1 cs, p.1 < count ∧ p.1 ≤ n ∧ n < p.1 + p.2.slots := by
    obtain ⟨p, hp, hbounds⟩ := exists_mem_placedFrom hn (h.next_eq ▸ hnext)
    exact ⟨p, hp, hbelow p (h.toList_eq ▸ hp), hbounds⟩
  obtain ⟨p, hp, hstart, -, hend⟩ := hcovered hcount hlt
  have hslots := p.2.slots_le
  constructor
  · have hnot : ¬count + 1 < pool.next := by
      intro hbehind
      obtain ⟨q, -, hstart', -, hend'⟩ := hcovered (Nat.le_add_left 1 count) hbehind
      have hslots' := q.2.slots_le
      omega
    omega
  · have hindex := h.toNat_index hp
    refine ⟨UInt16.ofNat p.1, p.2, by omega, h.get_eq_ok_iff.mpr ?_, by omega⟩
    rwa [hindex]

theorem Built.lt_next_of_overruns (h : pool.Built cs) (hover : pool.Overruns count) :
    count < pool.next := by
  obtain ⟨i, c, hi, hget, hslots⟩ := hover
  have hend := (bounds_of_mem_placedFrom (h.get_eq_ok_iff.mp hget)).2
  have hnext := h.next_eq
  dsimp only at hend
  omega

/-- A pool ends at the count or, just if its last constant overruns that, one index later. -/
theorem Built.next_iff (h : pool.Built cs) (hbelow : pool.Below count) (hcount : 1 ≤ count)
    (hend : count ≤ pool.next) :
    (pool.next = count ↔ ¬pool.Overruns count) ∧ (pool.next = count + 1 ↔ pool.Overruns count) := by
  rcases Nat.lt_or_eq_of_le hend with hlt | heq
  case inl =>
    -- The constant that overruns the count takes the one index behind it, and no other does.
    obtain ⟨hnext, hover⟩ := h.overruns_of_lt hbelow hcount hlt
    exact ⟨iff_of_false (Nat.ne_of_gt hlt) (not_not_intro hover), iff_of_true hnext hover⟩
  case inr =>
    have hover : ¬pool.Overruns count := fun hover =>
      Nat.ne_of_lt (h.lt_next_of_overruns hover) heq
    have hnot : pool.next ≠ count + 1 := heq ▸ Nat.ne_of_lt (Nat.lt_succ_self count)
    exact ⟨iff_of_true heq.symm hover, iff_of_false hnot hover⟩

theorem exists_encode_eq {output : Bytes} (hok : pool.encode = .ok output) :
    ∃ tail, pool.encode = .ok (Word.encode (UInt16.ofNat pool.next) ++ tail) := by
  obtain ⟨pieces, hpieces, -⟩ := ok_of_bind hok
  exact ⟨pieces.flatten, by rw [encode, hpieces]; rfl⟩

/-- A pool that has been read uses up the indices below the count that it was read with. It ends there, and
is written with the same count, unless a constant of two slots is at the last of these indices. Then it
ends one index later, and the count that is written is larger by one. -/
theorem decode_fills_count (h : decode input = .ok (pool, rest)) :
    ∃ (count : UInt16) (body : Bytes), input = Word.encode count ++ body ∧
      (∀ i : UInt16, i ≠ 0 → i < count →
        (∃ c, pool.get i = .ok c) ∨ pool.get i = .error (.unusableSlot i)) ∧
      (1 ≤ count.toNat →
        (pool.next = count.toNat ↔ ¬pool.Overruns count.toNat) ∧
        (pool.next = count.toNat + 1 ↔ pool.Overruns count.toNat) ∧
        ∃ (written : UInt16) (tail : Bytes), pool.encode = .ok (Word.encode written ++ tail) ∧
          written.toNat = pool.next ∧ (written = count ↔ ¬pool.Overruns count.toNat)) := by
  obtain ⟨cs, _, _, _, hbuilt, hspelled, -⟩ := spelled_of_decode h
  obtain ⟨output, houtput, -⟩ := hbuilt.encode_spelled hspelled
  obtain ⟨tail, htail⟩ := exists_encode_eq houtput
  obtain ⟨count, body, hcount, hbody⟩ := Decode.bind_eq_ok_iff.mp h
  have hempty : (∅ : Pool).Below count.toNat := by
    intro p hp
    cases hp
  obtain ⟨hbelow, hend⟩ := hempty.decodeOnto hbody
  refine ⟨count, body, Decode.word_eq_ok_iff.mp hcount, fun i hne hlt => ?_, fun hpos => ?_⟩
  · exact hbuilt.get_of_lt_next hne (Nat.lt_of_lt_of_le (UInt16.lt_iff_toNat_lt.mp hlt) hend)
  · have hnext : (UInt16.ofNat pool.next).toNat = pool.next := hbuilt.laid.toNat_next
    obtain ⟨hsame, hlarger⟩ := hbuilt.next_iff hbelow hpos hend
    refine ⟨hsame, hlarger, UInt16.ofNat pool.next, tail, htail, hnext, ?_⟩
    rw [← hsame, ← UInt16.toNat_inj, hnext]

theorem decode_overrunning : decode [0, 2, 5, 0, 0, 0, 0, 0, 0, 0, 9] =
    .ok (ofConstants [.long 9], []) := by
  have hcount : Word.decode? [0, 2, 5, 0, 0, 0, 0, 0, 0, 0, 9] =
      some ((2 : UInt16), [5, 0, 0, 0, 0, 0, 0, 0, 9]) := by rfl
  have hlong : Constant.decode [5, 0, 0, 0, 0, 0, 0, 0, 9] = .ok (.long 9, []) := by rfl
  have hfirst : append (.long 9) ∅ = .ok 1 (ofConstants [.long 9]) := append_of_fits (by decide)
  rw [decode_eq, hcount]
  dsimp only
  rw [decodeOnto_of_lt (by decide) hlong hfirst, Pool.decodeOnto, dif_neg (by decide)]

/-- Its second slot is the one index that was not counted, and is counted when the pool is written. -/
theorem decode_fills_count_overrunning :
    let bytes : Bytes := [0, 2, 5, 0, 0, 0, 0, 0, 0, 0, 9]
    let pool := ofConstants [.long 9]
    decode bytes = .ok (pool, []) ∧ pool.next = 3 ∧ pool.Overruns 2 ∧
      pool.encode = .ok [0, 3, 5, 0, 0, 0, 0, 0, 0, 0, 9] := by
  intro bytes pool
  have hbuilt : pool.Built [.long 9] := ⟨rfl, by decide⟩
  have hnext : pool.next = 3 := hbuilt.next_eq
  have hbytes : bytes = Word.encode (2 : UInt16) ++ [5, 0, 0, 0, 0, 0, 0, 0, 9] := rfl
  obtain ⟨count, body, hinput, -, hends⟩ := decode_fills_count decode_overrunning
  have hsplit := List.append_inj (hbytes.symm.trans hinput)
    (by rw [Word.length_encode, Word.length_encode])
  obtain rfl : 2 = count := Word.encode_injective hsplit.1
  obtain ⟨-, hlarger, -⟩ := hends (by decide)
  refine ⟨decode_overrunning, hnext, hlarger.mp hnext, ?_⟩
  rw [hbuilt.encode_eq]
  rfl

/-- Not every pool ends where its count says. -/
theorem exists_overrun :
    ¬∀ (count : UInt16) (body rest : Bytes) (pool : Pool), 1 ≤ count.toNat →
      decode (Word.encode count ++ body) = .ok (pool, rest) → pool.next = count.toNat := by
  intro hends
  have hnext := hends 2 [5, 0, 0, 0, 0, 0, 0, 0, 9] [] _ (by decide) decode_overrunning
  rw [next_ofConstants (by decide)] at hnext
  exact absurd hnext (by decide)

end Pool

end JvmAssembler
