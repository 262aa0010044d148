import JvmAssembler.Proofs.WellFormed

/-!
# References that lead nowhere

Checking a pool, following a single constant and asking for the name of a class are three ways of going
through references. They agree: a check fails with the fault of the first constant, by index, that
cannot be followed, and a class has the name that following it leads to, or else no name for the same
reason. This holds of all pools, wherever their references lead.
-/

namespace JvmAssembler

/-- In an ascending list the elements before another one are those with a smaller key. -/
theorem mem_before_iff {α : Type} {before after : List (UInt16 × α)} {x y : UInt16 × α}
    (h : (before ++ x :: after).Pairwise fun p q => p.1 < q.1) :
    y ∈ before ↔ y ∈ before ++ x :: after ∧ y.1 < x.1 := by
  obtain ⟨-, htail, hbefore⟩ := List.pairwise_append.mp h
  constructor
  · intro hy
    exact ⟨List.mem_append_left _ hy, hbefore y hy x List.mem_cons_self⟩
  · rintro ⟨hy, hlt⟩
    rcases List.mem_append.mp hy with hy | hy
    · exact hy
    rcases List.mem_cons.mp hy with rfl | hy
    · exact absurd hlt (UInt16.lt_irrefl _)
    · exact absurd hlt (UInt16.lt_asymm ((List.pairwise_cons.mp htail).1 y hy))

namespace Pool

variable {cs : List Constant} {pool : Pool} {i : UInt16} {r : Ref .utf8} {name : String}
  {fault : Fault}

/-! ### Checking -/

/-- The constant at this index fails to be followed, with this fault, and none at a smaller index does. -/
structure FirstLost (pool : Pool) (i : UInt16) (c : Constant) (fault : Fault) : Prop where
  get_eq : pool.get i = .ok c
  resolve_eq : pool.resolve c = .error fault
  resolve_before : ∀ j d, j < i → pool.get j = .ok d → ∃ v, pool.resolve d = .ok v

theorem Built.check_eq_error_iff (h : pool.Built cs) :
    pool.check = .error fault ↔ ∃ i c, pool.FirstLost i c fault := by
  have hsorted := h.pairwise_toList
  rw [check_eq, forM_eq_error_iff]
  constructor
  · rintro ⟨before, ⟨i, c⟩, after, heq, hc, hbefore⟩
    rw [heq] at hsorted
    refine ⟨i, c, ?_, discard_eq_error_iff.mp hc, fun j d hlt hd => ?_⟩
    · rw [← h.mem_toList_iff, heq]
      exact List.mem_append_right _ List.mem_cons_self
    · rw [← h.mem_toList_iff, heq] at hd
      exact discard_eq_ok_iff.mp (hbefore _ ((mem_before_iff hsorted).mpr ⟨hd, hlt⟩))
  · rintro ⟨i, c, hfirst⟩
    obtain ⟨before, after, heq⟩ := List.append_of_mem (h.mem_toList_iff.mpr hfirst.get_eq)
    rw [heq] at hsorted
    refine ⟨before, (i, c), after, heq, discard_eq_error_iff.mpr hfirst.resolve_eq, fun p hp => ?_⟩
    obtain ⟨hmem, hlt⟩ := (mem_before_iff hsorted).mp hp
    rw [← heq] at hmem
    exact discard_eq_ok_iff.mpr (hfirst.resolve_before p.1 p.2 hlt (h.mem_toList_iff.mp hmem))

theorem Built.check_eq_ok_iff_resolve (h : pool.Built cs) :
    pool.check = .ok () ↔ ∀ i c, pool.get i = .ok c → ∃ v, pool.resolve c = .ok v := by
  simp only [check_eq, forM_eq_ok_iff, discard_eq_ok_iff, Prod.forall, h.mem_toList_iff]

/-! ### Names of classes -/

theorem resolve_classRef (pool : Pool) (r : Ref .utf8) :
    pool.resolve (.classRef r) = Entry.classRef <$> pool.utf8At r := by
  rw [resolve, Entry.follow]
  cases pool.utf8At r <;> rfl

theorem classNameAt_of_get (hget : pool.get i = .ok (.classRef r)) :
    pool.classNameAt ⟨i⟩ = pool.utf8At r := by
  rw [classNameAt, hget]
  rfl

theorem classNameAt_eq_ok_iff : pool.classNameAt ⟨i⟩ = .ok name ↔
    ∃ r, pool.get i = .ok (.classRef r) ∧ pool.resolve (.classRef r) = .ok (.classRef name) := by
  constructor
  · intro hname
    obtain ⟨c, hget, hname⟩ := ok_of_bind hname
    cases c with
    | classRef r =>
      replace hname : pool.utf8At r = .ok name := hname
      exact ⟨r, hget, by rw [resolve_classRef, hname]; rfl⟩
    | _ => cases hname
  · rintro ⟨r, hget, hresolve⟩
    rw [classNameAt_of_get hget]
    obtain ⟨text, htext, heq⟩ := ok_of_bind hresolve
    cases heq
    exact htext

theorem classNameAt_eq_error_iff (hget : pool.get i = .ok (.classRef r)) :
    pool.classNameAt ⟨i⟩ = .error fault ↔ pool.resolve (.classRef r) = .error fault := by
  rw [classNameAt_of_get hget, resolve_classRef]
  cases pool.utf8At r with
  | error fault' => simp
  | ok text => simp

end Pool

namespace Emission

/-- Whatever has been emitted into a pool and wherever its references lead, a check fails just as following
the first of its constants fails that cannot be followed, and succeeds if there is none. The name of a
class is what following it leads to, and where that fails it fails in the same way. -/
theorem session_reports_first_lost {start : Pool} (hstart : Pool.Origin start) (notices : List Notice)
    (tasks : List Task) :
    let pool := (performAll perform tasks ⟨start, notices⟩).2.pool
    (∀ fault, pool.check = .error fault ↔ ∃ i c, pool.FirstLost i c fault) ∧
      (pool.check = .ok () ↔ ∀ i c, pool.get i = .ok c → ∃ v, pool.resolve c = .ok v) ∧
      (∀ i name, pool.classNameAt ⟨i⟩ = .ok name ↔
        ∃ r, pool.get i = .ok (.classRef r) ∧ pool.resolve (.classRef r) = .ok (.classRef name)) ∧
      ∀ i r fault, pool.get i = .ok (.classRef r) →
        (pool.classNameAt ⟨i⟩ = .error fault ↔ pool.resolve (.classRef r) = .error fault) := by
  intro pool
  obtain ⟨cs, hcs⟩ := hstart.built
  obtain ⟨ds, hds⟩ := (performAll_extends tasks (e := ⟨start, notices⟩) hcs.extends).built
  exact ⟨fun _ => hds.check_eq_error_iff, hds.check_eq_ok_iff_resolve,
    fun _ _ => Pool.classNameAt_eq_ok_iff, fun _ _ _ => Pool.classNameAt_eq_error_iff⟩

/-- A class whose name is said to be at the second index of a number, and then one whose name is said to be
that class. -/
theorem session_reports_first_lost_of_two :
    let start := Pool.ofConstants [.utf8 "A", .classRef ⟨1⟩]
    let tasks : List Task :=
      [.request (.loadable (.long 7)), .request (.classRef ⟨4⟩), .request (.classRef ⟨5⟩)]
    let pool := (performAll perform tasks ⟨start, []⟩).2.pool
    Pool.Origin start ∧ pool.check = .error (.unusableSlot 4) ∧ pool.classNameAt ⟨2⟩ = .ok "A" ∧
      pool.classNameAt ⟨5⟩ = .error (.unusableSlot 4) ∧
      pool.classNameAt ⟨6⟩ = .error (.wrongKind 5 .utf8 .classRef) := by
  intro start tasks pool
  have hstart : start.Built [.utf8 "A", .classRef ⟨1⟩] := ⟨rfl, by decide⟩
  have hread : start.encode = .ok [0, 3, 1, 0, 1, 65, 7, 0, 1] := by
    rw [hstart.encode_eq]
    rfl
  have horigin := hstart.origin hread
  have hpool : pool.Built [.utf8 "A", .classRef ⟨1⟩, .long 7, .classRef ⟨4⟩, .classRef ⟨5⟩] := by
    have hlong : perform (.request (.loadable (.long 7))) ⟨start, []⟩ =
        .ok (.index 3) ⟨Pool.ofConstants [.utf8 "A", .classRef ⟨1⟩, .long 7], []⟩ :=
      map_of_ok _ (EmitM.onPool_of_ok (hstart.intern_new (by decide) (by decide)))
    have hclass : perform (.request (.classRef ⟨4⟩))
          ⟨Pool.ofConstants [.utf8 "A", .classRef ⟨1⟩, .long 7], []⟩ =
        .ok (.index 5) ⟨Pool.ofConstants [.utf8 "A", .classRef ⟨1⟩, .long 7, .classRef ⟨4⟩], []⟩ :=
      map_of_ok _ (EmitM.onPool_of_ok
        (map_of_ok _ (map_of_ok _ (Pool.intern_ofConstants (by decide) (by decide)))))
    have hlast : perform (.request (.classRef ⟨5⟩))
          ⟨Pool.ofConstants [.utf8 "A", .classRef ⟨1⟩, .long 7, .classRef ⟨4⟩], []⟩ =
        .ok (.index 6)
          ⟨Pool.ofConstants [.utf8 "A", .classRef ⟨1⟩, .long 7, .classRef ⟨4⟩, .classRef ⟨5⟩], []⟩ :=
      map_of_ok _ (EmitM.onPool_of_ok
        (map_of_ok _ (map_of_ok _ (Pool.intern_ofConstants (by decide) (by decide)))))
    refine ⟨?_, by decide⟩
    show (performAll perform tasks ⟨start, []⟩).2.pool = _
    rw [performAll_cons, outcome_of_ok hlong, performAll_cons, outcome_of_ok hclass, performAll_cons,
      outcome_of_ok hlast]
    rfl
  have hname : pool.utf8At ⟨1⟩ = .ok "A" :=
    Pool.utf8At_eq_ok_iff.mpr (hpool.get_eq_ok_iff.mpr (by simp [placedFrom]))
  have htwo : pool.get 2 = .ok (.classRef ⟨1⟩) :=
    hpool.get_eq_ok_iff.mpr (by simp [placedFrom, Entry.slots])
  have hfive : pool.get 5 = .ok (.classRef ⟨4⟩) :=
    hpool.get_eq_ok_iff.mpr (by simp [placedFrom, Entry.slots])
  have hsix : pool.get 6 = .ok (.classRef ⟨5⟩) :=
    hpool.get_eq_ok_iff.mpr (by simp [placedFrom, Entry.slots])
  have hsecond : pool.get 4 = .error (.unusableSlot 4) :=
    hpool.get_eq_unusable_iff.mpr ⟨(3, .long 7), by simp [placedFrom, Entry.slots], by decide, by decide⟩
  have hlost : pool.resolve (.classRef ⟨4⟩) = .error (.unusableSlot 4) := by
    rw [Pool.resolve_classRef, Pool.utf8At, hsecond]
    rfl
  have hfirst : pool.FirstLost 5 (.classRef ⟨4⟩) (.unusableSlot 4) := by
    refine ⟨hfive, hlost, fun j d hlt hd => ?_⟩
    rw [hpool.get_eq_ok_iff] at hd
    have hbelow : j.toNat < 5 := UInt16.lt_iff_toNat_lt.mp hlt
    simp only [placedFrom, Entry.slots, List.mem_cons, Prod.mk.injEq, List.not_mem_nil] at hd
    rcases hd with ⟨-, rfl⟩ | ⟨-, rfl⟩ | ⟨-, rfl⟩ | ⟨heq, -⟩ | ⟨heq, -⟩ | hnone
    · exact ⟨.utf8 "A", rfl⟩
    · exact ⟨.classRef "A", by rw [Pool.resolve_classRef, hname]; rfl⟩
    · exact ⟨.long 7, rfl⟩
    · omega
    · omega
    · cases hnone
  obtain ⟨hcheck, -, hok, herror⟩ := session_reports_first_lost horigin [] tasks
  refine ⟨horigin, (hcheck _).mpr ⟨5, _, hfirst⟩, (hok 2 "A").mpr ⟨⟨1⟩, htwo, ?_⟩,
    (herror 5 _ _ hfive).mpr hlost, (herror 6 _ _ hsix).mpr ?_⟩
  · rw [Pool.resolve_classRef, hname]
    rfl
  · rw [Pool.resolve_classRef, Pool.utf8At, hfive]
    rfl

end Emission

end JvmAssembler
