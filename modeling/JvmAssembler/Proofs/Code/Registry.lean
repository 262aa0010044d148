import JvmAssembler.Code.Registry

/-!
# Tight registrations

Registrations are tight when nothing is kept that counts nothing. What points at a handle can then be
read off the counts alone, and raising and lowering keep them tight.
-/

namespace JvmAssembler.Registry

variable {r : Registry} {h k : Handle} {t u : HolderId}

/-- No entry is empty and no count is zero. -/
def Tight (r : Registry) : Prop :=
  ∀ (h : Handle) (held : Std.ExtTreeMap HolderId Nat), r.counts[h]? = some held →
    held ≠ ∅ ∧ ∀ (t : HolderId) (n : Nat), held[t]? = some n → n ≠ 0

theorem tight_empty : (∅ : Registry).Tight := by
  intro h held hheld
  have hempty : (∅ : Registry).counts = ∅ := rfl
  simp [hempty] at hheld

theorem Tight.raise (hr : r.Tight) (h : Handle) (t : HolderId) : (r.raise h t).Tight := by
  intro k held hheld
  rw [Registry.raise, Std.ExtTreeMap.getElem?_alter] at hheld
  split at hheld
  · obtain rfl := Option.some.inj hheld
    constructor
    · apply Std.ExtTreeMap.ne_empty_of_mem (a := t)
      simp
    · intro u n hn
      rw [Std.ExtTreeMap.getElem?_alter] at hn
      split at hn
      · have hn := Option.some.inj hn
        omega
      · cases hentry : r.counts[h]? with
        | none => simp [hentry] at hn
        | some before =>
          rw [hentry] at hn
          exact (hr h before hentry).2 u n hn
  · exact hr k held hheld

theorem Tight.lower (hr : r.Tight) (h : Handle) (t : HolderId) : (r.lower h t).Tight := by
  intro k held hheld
  rw [Registry.lower, Std.ExtTreeMap.getElem?_alter] at hheld
  split at hheld
  · obtain ⟨before, hentry, hheld⟩ := Option.bind_eq_some_iff.mp hheld
    dsimp only at hheld
    split at hheld
    · cases hheld
    case isFalse hne =>
      obtain rfl := Option.some.inj hheld
      refine ⟨by simpa using hne, fun u n hn => ?_⟩
      rw [Std.ExtTreeMap.getElem?_alter] at hn
      split at hn
      · obtain ⟨m, -, hm⟩ := Option.bind_eq_some_iff.mp hn
        split at hm
        · cases hm
        · have hm := Option.some.inj hm
          omega
      · exact (hr h before hentry).2 u n hn
  · exact hr k held hheld

/-! ### Entries -/

theorem isHeld_eq (r : Registry) (h : Handle) : r.isHeld h = r.counts[h]?.isSome :=
  Std.ExtTreeMap.contains_eq_isSome_getElem?

theorem isHeld_iff_exists_entry : r.isHeld h ↔ ∃ held, r.counts[h]? = some held := by
  rw [isHeld_eq, Option.isSome_iff_exists]

theorem isHeld_eq_false_iff : r.isHeld h = false ↔ r.counts[h]? = none := by
  rw [isHeld_eq, Option.isSome_eq_false_iff, Option.isNone_iff_eq_none]

/-! ### Reading off counts -/

theorem Tight.isSome_iff {held : Std.ExtTreeMap HolderId Nat} (hr : r.Tight)
    (hheld : r.counts[h]? = some held) : held[t]?.isSome ↔ r.count h t ≠ 0 := by
  rw [count, hheld, Option.bind_some]
  cases hn : held[t]? with
  | none => simp
  | some n => simpa using (hr h held hheld).2 t n hn

theorem Tight.isHeldBy_iff (hr : r.Tight) : r.isHeldBy h t ↔ r.count h t ≠ 0 := by
  cases hheld : r.counts[h]? with
  | none => simp [isHeldBy, count, hheld]
  | some held =>
    rw [← hr.isSome_iff hheld, isHeldBy, hheld, Option.any_some,
      Std.ExtTreeMap.contains_eq_isSome_getElem?]

theorem Tight.mem_holders_iff (hr : r.Tight) : t ∈ r.holders h ↔ r.count h t ≠ 0 := by
  cases hheld : r.counts[h]? with
  | none => simp [holders, count, hheld]
  | some held =>
    rw [← hr.isSome_iff hheld, holders, hheld, Option.elim_some, Std.ExtTreeMap.mem_keys,
      Std.ExtTreeMap.mem_iff_isSome_getElem?]

theorem Tight.isHeld_iff (hr : r.Tight) : r.isHeld h ↔ ∃ t, r.count h t ≠ 0 := by
  cases hheld : r.counts[h]? with
  | none => simp [isHeld_eq, count, hheld]
  | some held =>
    have hlive : r.isHeld h := isHeld_iff_exists_entry.mpr ⟨held, hheld⟩
    obtain ⟨t, ht⟩ : ∃ t, held.contains t := by
      refine Classical.byContradiction fun hnone => (hr h held hheld).1 ?_
      refine Std.ExtTreeMap.eq_empty_iff_forall_contains.mpr fun t => ?_
      exact Bool.eq_false_iff.mpr fun ht => hnone ⟨t, ht⟩
    rw [Std.ExtTreeMap.contains_eq_isSome_getElem?, hr.isSome_iff hheld] at ht
    exact iff_of_true hlive ⟨t, ht⟩

theorem Tight.isHeld_iff_exists_holder (hr : r.Tight) : r.isHeld h ↔ ∃ t, t ∈ r.holders h := by
  simp only [hr.mem_holders_iff]
  exact hr.isHeld_iff

theorem pairwise_holders (r : Registry) (h : Handle) :
    (r.holders h).Pairwise fun t u => t.id < u.id := by
  cases hheld : r.counts[h]? with
  | none => simp [holders, hheld]
  | some held =>
    rw [holders, hheld, Option.elim_some]
    exact held.ordered_keys.imp fun hlt => Nat.compare_eq_lt.mp hlt

theorem nodup_holders (r : Registry) (h : Handle) : (r.holders h).Nodup :=
  (r.pairwise_holders h).imp fun hlt heq => Nat.ne_of_lt hlt (congrArg HolderId.id heq)

/-- Of the holders at a handle, the first that is found is the oldest. -/
theorem find?_holders_eq_some_iff {p : HolderId → Bool} :
    (r.holders h).find? p = some t ↔
      t ∈ r.holders h ∧ p t ∧ ∀ u ∈ r.holders h, p u → t.id ≤ u.id := by
  have hfirst {u : HolderId} (hu : (r.holders h).find? p = some u) :
      ∀ v ∈ r.holders h, p v → u.id ≤ v.id := by
    obtain ⟨-, before, after, hsplit, hbefore⟩ := List.find?_eq_some_iff_append.mp hu
    have hordered := r.pairwise_holders h
    rw [hsplit] at hordered ⊢
    have hafter := (List.pairwise_cons.mp (List.pairwise_append.mp hordered).2.1).1
    intro v hv hpv
    rcases List.mem_append.mp hv with hv | hv
    · have hnot := hbefore v hv
      rw [hpv] at hnot
      cases hnot
    · rcases List.mem_cons.mp hv with rfl | hv
      · exact Nat.le_refl _
      · exact Nat.le_of_lt (hafter v hv)
  constructor
  · intro hfind
    exact ⟨List.mem_of_find?_eq_some hfind, List.find?_some hfind, hfirst hfind⟩
  · rintro ⟨ht, hpt, hleast⟩
    obtain ⟨u, hu⟩ : ∃ u, (r.holders h).find? p = some u := by
      rw [← Option.isSome_iff_exists, List.find?_isSome]
      exact ⟨t, ht, hpt⟩
    have hle := hleast u (List.mem_of_find?_eq_some hu) (List.find?_some hu)
    have hid : u.id = t.id := Nat.le_antisymm (hfirst hu t ht hpt) hle
    rw [hu, show u = t from congrArg HolderId.mk hid]

/-! ### Comparing -/

theorem Tight.getElem?_eq {held : Std.ExtTreeMap HolderId Nat} (hr : r.Tight)
    (hheld : r.counts[h]? = some held) (t : HolderId) :
    held[t]? = if r.count h t = 0 then none else some (r.count h t) := by
  have hcount : r.count h t = held[t]?.getD 0 := by rw [count, hheld, Option.bind_some]
  cases hn : held[t]? with
  | none =>
    rw [hcount, hn]
    rfl
  | some n => rw [hcount, hn, Option.getD_some, if_neg ((hr h held hheld).2 t n hn)]

theorem Tight.entry_eq {s : Registry} (hr : r.Tight) (hs : s.Tight)
    (hcount : ∀ t, r.count h t = s.count h t) : r.counts[h]? = s.counts[h]? := by
  have hheld : r.isHeld h = s.isHeld h := by
    rw [Bool.eq_iff_iff, hr.isHeld_iff, hs.isHeld_iff]
    simp only [hcount]
  rw [isHeld_eq, isHeld_eq] at hheld
  cases hentry : r.counts[h]? with
  | none =>
    rw [hentry, Option.isSome_none] at hheld
    rw [Option.isNone_iff_eq_none.mp (Option.isSome_eq_false_iff.mp hheld.symm)]
  | some held =>
    rw [hentry, Option.isSome_some] at hheld
    obtain ⟨held', hentry'⟩ := Option.isSome_iff_exists.mp hheld.symm
    rw [hentry']
    refine congrArg some (Std.ExtTreeMap.ext_getElem? fun t => ?_)
    rw [hr.getElem?_eq hentry, hs.getElem?_eq hentry', hcount]

theorem Tight.ext {s : Registry} (hr : r.Tight) (hs : s.Tight)
    (hcount : ∀ h t, r.count h t = s.count h t) : r = s := by
  have hcounts : r.counts = s.counts :=
    Std.ExtTreeMap.ext_getElem? fun h => hr.entry_eq hs (hcount h)
  cases r
  cases s
  cases hcounts
  rfl

end JvmAssembler.Registry
