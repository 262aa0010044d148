import JvmAssembler.Pool.Resolve
import JvmAssembler.Proofs.Pool.Requests
import JvmAssembler.Proofs.SlotSeq

/-!
# Pools grow

A pool extends another one when it has the same constants and then perhaps more. What has been found
in a pool, by index or by constant, is found in every pool that extends it, and so a request that
has been granted once is granted again with the same index, and for nothing.
-/

namespace JvmAssembler

/-- References that can be followed one way can be followed the same way wherever all that is known
of them still holds. -/
theorem Entry.follow_mono {ρ σ ε : Type} {step step' : ρ → Except ε σ}
    (h : ∀ r s, step r = .ok s → step' r = .ok s) {c : Entry ρ} {v : Entry σ}
    (hv : c.follow step = .ok v) : c.follow step' = .ok v := by
  cases c with
  | utf8 text => exact hv
  | integer value => exact hv
  | float value => exact hv
  | long value => exact hv
  | double value => exact hv
  | classRef name =>
    obtain ⟨s, hs, hv⟩ := ok_of_bind hv
    rw [follow, h name s hs]
    exact hv
  | stringRef text =>
    obtain ⟨s, hs, hv⟩ := ok_of_bind hv
    rw [follow, h text s hs]
    exact hv
  | nameAndType name descriptor =>
    obtain ⟨s, hs, hv⟩ := ok_of_bind hv
    obtain ⟨t, ht, hv⟩ := ok_of_bind hv
    rw [follow, h name s hs]
    change (step' descriptor >>= fun t => _) = _
    rw [h descriptor t ht]
    exact hv

namespace Pool

variable {c : Constant} {cs ds : List Constant} {pool pool' pool'' : Pool} {i : UInt16}

/-! ### Looking up -/

theorem Built.ascending (h : pool.Built cs) : SlotSeq.Ascending pool.constants.entries := by
  apply SlotSeq.ascending_of_pairwise
  rw [← SlotSeq.toList, h.toList_eq]
  exact pairwise_placedFrom 1 cs

theorem ne_zero_of_get (hget : pool.get i = .ok c) : i ≠ 0 := by
  rintro rfl
  cases hget

/-- A constant is at the index at which it was placed, and nothing else is at any index. -/
theorem Built.get_eq_ok_iff (h : pool.Built cs) :
    pool.get i = .ok c ↔ (i.toNat, c) ∈ placedFrom 1 cs := by
  have hlookup : (∃ j, pool.constants.lookup i.toNat = .found j c) ↔
      (i.toNat, c) ∈ placedFrom 1 cs := by
    rw [← h.toList_eq, SlotSeq.toList, List.mem_iff_getElem?]
    constructor
    · rintro ⟨j, hj⟩
      exact ⟨j, by rw [Array.getElem?_toList, SlotSeq.getElem?_of_lookup hj]⟩
    · rintro ⟨j, hj⟩
      rw [Array.getElem?_toList] at hj
      exact ⟨j, SlotSeq.lookup_of_mem h.ascending hj⟩
  rw [← hlookup, get]
  constructor
  · intro hget
    split at hget
    · cases hget
    · split at hget
      next j d hfound =>
        cases hget
        exact ⟨j, hfound⟩
      · cases hget
      · split at hget <;> cases hget
      · cases hget
  · rintro ⟨j, hfound⟩
    have hne : i ≠ 0 := by
      rintro rfl
      have hbounds := bounds_of_mem_placedFrom (hlookup.mp ⟨j, hfound⟩)
      simp at hbounds
    rw [if_neg hne, hfound]

theorem Built.mem_toList_iff (h : pool.Built cs) : (i, c) ∈ pool.toList ↔ pool.get i = .ok c := by
  rw [h.get_eq_ok_iff, Pool.toList, h.toList_eq, List.mem_map]
  constructor
  · rintro ⟨p, hp, heq⟩
    cases heq
    rwa [h.toNat_index hp]
  · intro hmem
    exact ⟨(i.toNat, c), hmem, by simp⟩

theorem Built.pairwise_toList (h : pool.Built cs) : pool.toList.Pairwise fun p q => p.1 < q.1 := by
  rw [Pool.toList, h.toList_eq, List.pairwise_map]
  refine (pairwise_placedFrom 1 cs).imp_of_mem fun {p q} hp hq hlt => ?_
  rwa [UInt16.lt_iff_toNat_lt, h.toNat_index hp, h.toNat_index hq]

theorem Built.get_of_firstIndex (h : pool.Built cs) (hi : pool.firstIndex[c]? = some i) :
    pool.get i = .ok c :=
  h.get_eq_ok_iff.mpr ((h.first_iff c i).mp hi).1

theorem utf8At_eq_ok_iff {r : Ref .utf8} {text : String} :
    pool.utf8At r = .ok text ↔ pool.get r.index = .ok (.utf8 text) := by
  rw [utf8At]
  cases hget : pool.get r.index with
  | error fault => simp [bind, Except.bind]
  | ok c => cases c <;> simp [bind, Except.bind, pure, Except.pure, throw, throwThe, MonadExceptOf.throw]

/-- The unusable indices are the second slots of constants, that of the last one included, although
nothing has been placed behind it yet. -/
theorem Built.get_eq_unusable_iff (h : pool.Built cs) : pool.get i = .error (.unusableSlot i) ↔
    ∃ p ∈ placedFrom 1 cs, p.1 < i.toNat ∧ i.toNat < p.1 + p.2.slots := by
  constructor
  · intro hget
    have hbounds : 1 ≤ i.toNat ∧ i.toNat < 1 + slotsOf cs := by
      rw [Pool.get] at hget
      split at hget
      · cases hget
      next hne =>
        have hpos : 1 ≤ i.toNat :=
          Nat.pos_of_ne_zero fun hzero => hne (UInt16.toNat_inj.mp hzero)
        refine ⟨hpos, ?_⟩
        split at hget
        · cases hget
        next hinside =>
          obtain ⟨q, hq, hlt⟩ := SlotSeq.lookup_inside h.ascending hinside
          rw [h.toList_eq] at hq
          have hend := (bounds_of_mem_placedFrom hq).2
          omega
        · split at hget
          next hlt => exact h.next_eq ▸ hlt
          · cases hget
        · cases hget
    obtain ⟨⟨n, c⟩, hp, hle, hlt⟩ := exists_mem_placedFrom hbounds.1 hbounds.2
    refine ⟨(n, c), hp, Nat.lt_of_le_of_ne hle fun heq => ?_, hlt⟩
    subst heq
    rw [h.get_eq_ok_iff.mpr hp] at hget
    cases hget
  · rintro ⟨p, hp, hlow, hhigh⟩
    have hbounds := bounds_of_mem_placedFrom hp
    have hne : i ≠ 0 := by
      rintro rfl
      exact Nat.not_lt_zero _ hlow
    rw [Pool.get, if_neg hne]
    cases hlookup : pool.constants.lookup i.toNat with
    | found j c =>
      have hentry := SlotSeq.getElem?_of_lookup hlookup
      rw [← Array.getElem?_toList] at hentry
      have hmem := List.mem_of_getElem? hentry
      rw [← SlotSeq.toList, h.toList_eq] at hmem
      exact absurd hmem (not_mem_inside hp hlow hhigh c)
    | inside j => rfl
    | beyond =>
      have hnext := h.next_eq
      exact if_pos (by omega)
    | before =>
      obtain ⟨q, hq, hlt⟩ := SlotSeq.lookup_before h.ascending hlookup
      rw [h.toList_eq] at hq
      have hfirst := h.laid.head q (by rw [h.toList_eq, hq])
      omega

/-- Below the next index there are constants and their second slots. -/
theorem Built.get_of_lt_next (h : pool.Built cs) (hne : i ≠ 0) (hlt : i.toNat < pool.next) :
    (∃ c, pool.get i = .ok c) ∨ pool.get i = .error (.unusableSlot i) := by
  have hpos : 1 ≤ i.toNat := Nat.pos_of_ne_zero fun hzero => hne (UInt16.toNat_inj.mp hzero)
  obtain ⟨⟨n, c⟩, hp, hlow, hhigh⟩ := exists_mem_placedFrom hpos (h.next_eq ▸ hlt)
  rcases Nat.lt_or_eq_of_le hlow with hinside | rfl
  · exact .inr (h.get_eq_unusable_iff.mpr ⟨(n, c), hp, hinside, hhigh⟩)
  · exact .inl ⟨c, h.get_eq_ok_iff.mpr hp⟩

/-- From the next index on there is nothing yet, and at index zero there never is. -/
theorem Built.get_eq_outOfRange_iff (h : pool.Built cs) :
    pool.get i = .error (.outOfRange i) ↔ i = 0 ∨ pool.next ≤ i.toNat := by
  constructor
  · intro hget
    by_contra hinside
    rw [not_or, Nat.not_le] at hinside
    rcases h.get_of_lt_next hinside.1 hinside.2 with ⟨c, hc⟩ | hunusable
    · rw [hc] at hget
      cases hget
    · rw [hunusable] at hget
      cases hget
  · rintro (rfl | hend)
    · rfl
    have hbounds {n : Nat} {c : Constant} (hmem : (n, c) ∈ pool.constants.toList) :
        n < pool.next := by
      rw [h.toList_eq] at hmem
      have hle := (bounds_of_mem_placedFrom hmem).2
      have hpos := c.slots_pos
      have hnext := h.next_eq
      dsimp only at hle
      omega
    rw [Pool.get]
    split
    · rfl
    cases hlookup : pool.constants.lookup i.toNat with
    | found j c =>
      have hentry := SlotSeq.getElem?_of_lookup hlookup
      rw [← Array.getElem?_toList] at hentry
      exact absurd (hbounds (List.mem_of_getElem? hentry)) (Nat.not_lt.mpr hend)
    | inside j =>
      obtain ⟨q, hq, hlt⟩ := SlotSeq.lookup_inside h.ascending hlookup
      have hq' := hbounds hq
      omega
    | beyond => exact if_neg (Nat.not_lt.mpr hend)
    | before => rfl

/-! ### Extending -/

theorem Built.unique (h : pool.Built cs) (h' : pool.Built ds) : cs = ds := by
  rw [← map_snd_placedFrom 1 cs, ← h.toList_eq, h'.toList_eq, map_snd_placedFrom]

/-- The second pool has the constants of the first, and then perhaps more. -/
def Extends (pool pool' : Pool) : Prop := ∃ cs ds, pool.Built cs ∧ pool'.Built (cs ++ ds)

theorem Built.extends (h : pool.Built cs) : Extends pool pool :=
  ⟨cs, [], h, by rwa [List.append_nil]⟩

theorem Extends.trans (h : Extends pool pool') (h' : Extends pool' pool'') :
    Extends pool pool'' := by
  obtain ⟨cs, ds, hcs, hds⟩ := h
  obtain ⟨es, fs, hes, hfs⟩ := h'
  obtain rfl := hes.unique hds
  exact ⟨cs, ds ++ fs, hcs, by rwa [← List.append_assoc]⟩

theorem Extends.built (h : Extends pool pool') : ∃ cs, pool'.Built cs := by
  obtain ⟨cs, ds, -, hds⟩ := h
  exact ⟨cs ++ ds, hds⟩

theorem Extends.right (h : Extends pool pool') : Extends pool' pool' := by
  obtain ⟨cs, hcs⟩ := h.built
  exact hcs.extends

theorem Extends.get (h : Extends pool pool') (hget : pool.get i = .ok c) : pool'.get i = .ok c := by
  obtain ⟨cs, ds, hcs, hds⟩ := h
  rw [hcs.get_eq_ok_iff] at hget
  rw [hds.get_eq_ok_iff, placedFrom_append]
  exact List.mem_append_left _ hget

theorem Extends.firstIndex (h : Extends pool pool') (hi : pool.firstIndex[c]? = some i) :
    pool'.firstIndex[c]? = some i := by
  obtain ⟨cs, ds, hcs, hds⟩ := h
  rw [hcs.1, firstIndex_ofConstants hcs.2, Option.map_eq_some_iff] at hi
  obtain ⟨p, hp, rfl⟩ := hi
  rw [hds.1, firstIndex_ofConstants hds.2, placedFrom_append, List.find?_append, hp]
  rfl

theorem Extends.utf8At (h : Extends pool pool') {r : Ref .utf8} {text : String}
    (htext : pool.utf8At r = .ok text) : pool'.utf8At r = .ok text := by
  obtain ⟨c, hget, htext⟩ := ok_of_bind htext
  rw [Pool.utf8At, h.get hget]
  exact htext

theorem Extends.unusable (h : Extends pool pool') (hget : pool.get i = .error (.unusableSlot i)) :
    pool'.get i = .error (.unusableSlot i) := by
  obtain ⟨cs, ds, hcs, hds⟩ := h
  rw [hcs.get_eq_unusable_iff] at hget
  obtain ⟨p, hp, hinside⟩ := hget
  rw [hds.get_eq_unusable_iff, placedFrom_append]
  exact ⟨p, List.mem_append_left _ hp, hinside⟩

/-- What can be found out about the constants of the first pool holds of the second as well. -/
structure Retains (pool pool' : Pool) : Prop where
  prefix_toList : pool.constants.toList <+: pool'.constants.toList
  get : ∀ i c, pool.get i = .ok c → pool'.get i = .ok c
  unusable : ∀ i, pool.get i = .error (.unusableSlot i) → pool'.get i = .error (.unusableSlot i)
  getOfKind : ∀ i tag c, pool.getOfKind i tag = .ok c → pool'.getOfKind i tag = .ok c
  utf8At : ∀ r text, pool.utf8At r = .ok text → pool'.utf8At r = .ok text
  classNameAt : ∀ r name, pool.classNameAt r = .ok name → pool'.classNameAt r = .ok name
  resolve : ∀ c v, pool.resolve c = .ok v → pool'.resolve c = .ok v

theorem Extends.classNameAt (h : Extends pool pool') {r : Ref .classRef} {name : String}
    (hname : pool.classNameAt r = .ok name) : pool'.classNameAt r = .ok name := by
  obtain ⟨c, hget, hname⟩ := ok_of_bind hname
  rw [Pool.classNameAt, h.get hget]
  cases c with
  | classRef text => exact h.utf8At hname
  | _ => cases hname

theorem Extends.retains (h : Extends pool pool') : Retains pool pool' where
  prefix_toList := by
    obtain ⟨cs, ds, hcs, hds⟩ := h
    rw [hcs.toList_eq, hds.toList_eq, placedFrom_append]
    exact List.prefix_append _ _
  get _ _ := h.get
  unusable _ := h.unusable
  getOfKind i tag c hget := by
    obtain ⟨d, hd, htag⟩ := ok_of_bind hget
    rw [Pool.getOfKind, h.get hd]
    exact htag
  utf8At _ _ := h.utf8At
  classNameAt _ _ := h.classNameAt
  resolve _ _ := Entry.follow_mono fun _ _ => h.utf8At

theorem intern_extends (c : Constant) (start : Pool) : Preserves (Extends start) (intern c) := by
  intro pool h
  obtain ⟨cs, ds, hcs, hds⟩ := h
  rcases hds.intern c with hsame | ⟨-, hbuilt⟩
  · rw [hsame]
    exact ⟨cs, ds, hcs, hds⟩
  · exact ⟨cs, ds ++ [c], hcs, by rwa [← List.append_assoc]⟩

/-- Whatever is asked of a pool, it keeps what it has. -/
theorem performAll_extends (requests : List Request) (h : Extends pool pool) :
    Extends pool (performAll perform requests pool).2 :=
  performAll_preserves (P := Extends pool)
    (fun r => perform_preserves (fun c => intern_extends c pool) r) requests h

end Pool

end JvmAssembler
