import Mathlib.Data.List.Forall2
import JvmAssembler.Proofs.Code.Roll
import JvmAssembler.Proofs.Emission
import JvmAssembler.Proofs.Pool.Loadable

/-!
# The tables of a method

What stands in a table that a method emits. Its entries describe the variables or handlers that the
method has, one each. Indices into the pool are answered one entry after the other and are read off in
the end, when other entries have been emitted since: they still lead to what they were answered for,
because the pool has only grown.
-/

namespace JvmAssembler

/-! ### Stable order -/

/-- The second list is the first one by ascending keys, where elements with the same key keep their
order. -/
structure OrderedBy {τ : Type} (key : τ → UInt16) (xs ys : List τ) : Prop where
  perm : ys.Perm xs
  ascending : ys.Pairwise fun x y => key x ≤ key y
  stable : ∀ k, (ys.filter fun x => key x = k) = xs.filter fun x => key x = k

section OrderedBy

variable {τ υ : Type} {key : τ → UInt16} {key' : υ → UInt16}

theorem decide_le_trans (x y z : τ) (hxy : decide (key x ≤ key y)) (hyz : decide (key y ≤ key z)) :
    decide (key x ≤ key z) :=
  decide_eq_true (UInt16.le_trans (of_decide_eq_true hxy) (of_decide_eq_true hyz))

theorem decide_le_total (x y : τ) : decide (key x ≤ key y) || decide (key y ≤ key x) := by
  rw [Bool.or_eq_true, decide_eq_true_eq, decide_eq_true_eq]
  exact UInt16.le_total _ _

theorem orderedBy_mergeSort (xs : List τ) :
    OrderedBy key xs (xs.mergeSort fun x y => key x ≤ key y) where
  perm := List.mergeSort_perm _ _
  ascending := by
    refine (List.pairwise_mergeSort decide_le_trans decide_le_total xs).imp fun hle => ?_
    exact of_decide_eq_true hle
  stable k := by
    -- What has this key is in order already, so sorting leaves it as a sublist, and no other.
    have hkey : (xs.filter fun x => key x = k).Pairwise fun x y => decide (key x ≤ key y) := by
      refine List.pairwise_filter.mpr (List.pairwise_of_forall fun x y hx hy => decide_eq_true ?_)
      rw [of_decide_eq_true hx, of_decide_eq_true hy]
      exact UInt16.le_refl k
    have hsub := (List.sublist_mergeSort decide_le_trans decide_le_total hkey
      List.filter_sublist).filter fun x => key x = k
    simp only [List.filter_filter, Bool.and_self] at hsub
    exact (hsub.eq_of_length ((List.mergeSort_perm xs _).filter _).length_eq.symm).symm

/-- Lists whose elements correspond, with equal keys, still do when both are sorted. -/
theorem forall₂_mergeSort {R : τ → υ → Prop} (hkey : ∀ x y, R x y → key x = key' y) {xs : List τ}
    {ys : List υ} (h : List.Forall₂ R xs ys) :
    List.Forall₂ R (xs.mergeSort fun x y => key x ≤ key y)
      (ys.mergeSort fun x y => key' x ≤ key' y) := by
  obtain ⟨hlength, hzip⟩ := List.forall₂_iff_zip.mp h
  obtain ⟨pairs, rfl, rfl, hpairs⟩ : ∃ pairs : List (τ × υ),
      pairs.map Prod.fst = xs ∧ pairs.map Prod.snd = ys ∧ ∀ p ∈ pairs, R p.1 p.2 :=
    ⟨xs.zip ys, List.map_fst_zip hlength.le, List.map_snd_zip hlength.ge, fun p hp => hzip hp⟩
  have hfst : (pairs.mergeSort fun p q => key p.1 ≤ key q.1).map Prod.fst =
      (pairs.map Prod.fst).mergeSort fun x y => key x ≤ key y :=
    List.map_mergeSort fun _ _ _ _ => rfl
  have hsnd : (pairs.mergeSort fun p q => key p.1 ≤ key q.1).map Prod.snd =
      (pairs.map Prod.snd).mergeSort fun x y => key' x ≤ key' y := by
    refine List.map_mergeSort fun p hp q hq => ?_
    rw [hkey _ _ (hpairs p hp), hkey _ _ (hpairs q hq)]
  rw [← hfst, ← hsnd, List.forall₂_map_left_iff, List.forall₂_map_right_iff, List.forall₂_same]
  intro p hp
  exact hpairs p ((List.mergeSort_perm _ _).mem_iff.mp hp)

end OrderedBy

/-! ### Entries -/

/-- The entry describes the variable, to whoever follows its references in this pool. -/
structure LocalVar.Recorded (b : Body) (pool : Pool) (v : LocalVar) (r : LocalRecord) : Prop where
  extent : v.extent b = .ok (r.start, r.length)
  slot : v.slot = r.slot
  name : pool.utf8At r.name = .ok v.name.text
  descriptor : pool.utf8At r.descriptor = .ok v.type.descriptor

/-- The entry describes the handler, to whoever follows its references in this pool. -/
structure CatchRange.Recorded (b : Body) (pool : Pool) (c : CatchRange) (r : CatchRecord) : Prop where
  start : (b.position c.first >>= codeOffset) = .ok r.start
  stop : (((· + ·) <$> b.position c.last <*> b.width c.last) >>= codeOffset) = .ok r.stop
  handler : (b.position c.handler >>= codeOffset) = .ok r.handler
  caught_none : r.caught = none ↔ c.caught = none
  caught_some : ∀ ref ∈ r.caught,
    ref.index ≠ 0 ∧ ∃ name ∈ c.caught, pool.classNameAt ref = .ok name.text

theorem LocalVar.Recorded.mono {b : Body} {pool pool' : Pool} {v : LocalVar} {r : LocalRecord}
    (h : v.Recorded b pool r) (hext : pool.Extends pool') : v.Recorded b pool' r :=
  ⟨h.extent, h.slot, hext.utf8At h.name, hext.utf8At h.descriptor⟩

theorem CatchRange.Recorded.mono {b : Body} {pool pool' : Pool} {c : CatchRange} {r : CatchRecord}
    (h : c.Recorded b pool r) (hext : pool.Extends pool') : c.Recorded b pool' r where
  start := h.start
  stop := h.stop
  handler := h.handler
  caught_none := h.caught_none
  caught_some ref href := by
    obtain ⟨hne, name, hname, hclass⟩ := h.caught_some ref href
    exact ⟨hne, name, hname, hext.classNameAt hclass⟩

theorem LocalVar.record_ok {v : LocalVar} {b : Body} {pool pool' : Pool} {r : LocalRecord}
    (h : pool.Extends pool) (hok : v.record b pool = .ok r pool') : v.Recorded b pool' r := by
  obtain ⟨⟨start, length⟩, hextent, hok⟩ := exists_of_ofExcept_bind_ok hok
  obtain ⟨name, p, hname, hok⟩ := exists_of_bind_ok hok
  obtain ⟨descriptor, q, hdescriptor, hok⟩ := exists_of_bind_ok hok
  cases hok
  obtain ⟨cs, hcs⟩ := h.built
  obtain ⟨hext, -, hname⟩ := hcs.internUtf8_ok hname
  obtain ⟨ds, hds⟩ := hext.built
  obtain ⟨hext', -, hdescriptor⟩ := hds.internUtf8_ok hdescriptor
  exact ⟨hextent, rfl, hext'.utf8At hname, hdescriptor⟩

theorem CatchRange.record_ok {c : CatchRange} {b : Body} {pool pool' : Pool} {r : CatchRecord}
    (h : pool.Extends pool) (hok : c.record b pool = .ok r pool') : c.Recorded b pool' r := by
  obtain ⟨first, hfirst, hok⟩ := exists_of_ofExcept_bind_ok hok
  obtain ⟨past, hpast, hok⟩ := exists_of_ofExcept_bind_ok hok
  dsimp only at hok
  split at hok
  · obtain ⟨_, _, hthrow, -⟩ := exists_of_bind_ok hok
    cases hthrow
  obtain ⟨caught, p, hcaught, hok⟩ := exists_of_bind_ok hok
  obtain ⟨start, hstart, hok⟩ := exists_of_ofExcept_bind_ok hok
  obtain ⟨stop, hstop, hok⟩ := exists_of_ofExcept_bind_ok hok
  obtain ⟨handler, hhandler, hok⟩ := exists_of_ofExcept_bind_ok hok
  cases hok
  have hclass : (caught = none ↔ c.caught = none) ∧ ∀ ref ∈ caught,
      ref.index ≠ 0 ∧ ∃ name ∈ c.caught, pool'.classNameAt ref = .ok name.text := by
    cases hname : c.caught with
    | none =>
      rw [hname] at hcaught
      cases hcaught
      exact ⟨iff_of_true rfl rfl, nofun⟩
    | some name =>
      rw [hname] at hcaught
      obtain ⟨ref, hintern, rfl⟩ := exists_of_map_ok hcaught
      obtain ⟨cs, hcs⟩ := h.built
      obtain ⟨hne, hclass⟩ := hcs.internBinaryName_ok hintern
      refine ⟨⟨nofun, nofun⟩, fun ref' href => ?_⟩
      cases href
      exact ⟨hne, name, rfl, hclass⟩
  exact ⟨by rw [hfirst]; exact hstart, by rw [hpast]; exact hstop, hhandler, hclass.1, hclass.2⟩

theorem LocalVar.emit_ok {v : LocalVar} {b : Body} {e e' : Emission} {r : LocalRecord}
    (h : e.pool.Extends e.pool) (hok : v.emit b e = .ok r e') : v.Recorded b e'.pool r := by
  rw [emit] at hok
  split at hok
  · obtain ⟨_, told, hnotify, hok⟩ := exists_of_bind_ok hok
    have htold : told.pool = e.pool := by
      cases hnotify
      rfl
    exact record_ok (by rwa [htold]) (EmitM.onPool_ok hok)
  · exact record_ok h (EmitM.onPool_ok hok)

theorem CatchRange.emit_ok {c : CatchRange} {b : Body} {e e' : Emission} {r : CatchRecord}
    (h : e.pool.Extends e.pool) (hok : c.emit b e = .ok r e') : c.Recorded b e'.pool r :=
  record_ok h (EmitM.onPool_ok hok)

/-! ### Tables -/

/-- What is known of each entry from the pool as it was when the entry was emitted is known in the end,
when the others have been emitted. -/
theorem EmitM.forall₂_of_mapM_ok {τ α : Type} {R : Pool → τ → α → Prop} {act : τ → EmitM α}
    (hkeeps : ∀ start t, Preserves (fun e => Pool.Extends start e.pool) (act t))
    (hok : ∀ t e x e', e.pool.Extends e.pool → act t e = .ok x e' → R e'.pool t x)
    (hmono : ∀ pool pool' t x, R pool t x → pool.Extends pool' → R pool' t x) {ts : List τ}
    {xs : List α} {e e' : Emission} (h : e.pool.Extends e.pool) (hall : ts.mapM act e = .ok xs e') :
    List.Forall₂ (R e'.pool) ts xs := by
  induction ts generalizing xs e with
  | nil =>
    cases hall
    exact .nil
  | cons t ts ih =>
    rw [List.mapM_cons] at hall
    obtain ⟨x, e₁, hx, hall⟩ := exists_of_bind_ok hall
    obtain ⟨ys, e₂, hys, hall⟩ := exists_of_bind_ok hall
    cases hall
    have hbuilt : e₁.pool.Extends e₁.pool := ((hkeeps e.pool t).ok hx h).right
    have hrest : e₁.pool.Extends e'.pool := (Preserves.mapM (hkeeps e₁.pool) ts).ok hys hbuilt
    exact .cons (hmono _ _ _ _ (hok t e x e₁ h hx) hrest) (ih hbuilt hys)

namespace Method

variable {m : Method} {e e' : Emission}

theorem localTable_ok {table : List LocalRecord} (h : e.pool.Extends e.pool)
    (hok : m.localTable e = .ok table e') : ∃ vs, OrderedBy LocalVar.slot m.locals vs ∧
      List.Forall₂ (LocalVar.Recorded m.body e'.pool) vs table := by
  obtain ⟨records, _, hall, hok⟩ := exists_of_bind_ok hok
  cases hok
  have hrecorded := EmitM.forall₂_of_mapM_ok
    (fun start v => v.emit_preserves (Pool.kept_of_intern (Pool.intern_extends · start)) m.body)
    (fun _ _ _ _ => LocalVar.emit_ok) (fun _ _ _ _ => LocalVar.Recorded.mono) h hall
  exact ⟨_, orderedBy_mergeSort m.locals, forall₂_mergeSort (fun _ _ hv => hv.slot) hrecorded⟩

theorem catchTable_ok {table : List CatchRecord} (h : e.pool.Extends e.pool)
    (hok : m.catchTable e = .ok table e') :
    List.Forall₂ (CatchRange.Recorded m.body e'.pool) m.catches table :=
  EmitM.forall₂_of_mapM_ok
    (fun start c => c.emit_preserves (Pool.kept_of_intern (Pool.intern_extends · start)) m.body)
    (fun _ _ _ _ => CatchRange.emit_ok) (fun _ _ _ _ => CatchRange.Recorded.mono) h hok

/-- Whatever has been done with a method and a pool, the table of local variables describes the variables
that are left, by slot and within a slot as they were added, and the table of exception handlers describes
the handlers that are left, as they were added. The pool in the end has what it had. -/
theorem session_tables {start : Pool} (hstart : Pool.Origin start) (tasks : List Emission.Task)
    (notices : List Notice) (operations : List Operation) :
    let e := (performAll Emission.perform tasks ⟨start, notices⟩).2
    let m := (performAll perform operations ∅).2
    m.roll = rollCall operations (performAll perform operations ∅).1 ⟨[], []⟩ ∧
      (∀ table e', m.localTable e = .ok table e' → e.pool.Retains e'.pool ∧
        ∃ vs, OrderedBy LocalVar.slot m.locals vs ∧
          List.Forall₂ (LocalVar.Recorded m.body e'.pool) vs table) ∧
      ∀ table e', m.catchTable e = .ok table e' → e.pool.Retains e'.pool ∧
        List.Forall₂ (CatchRange.Recorded m.body e'.pool) m.catches table := by
  intro e m
  obtain ⟨cs, hcs⟩ := hstart.built
  have he : e.pool.Extends e.pool := (Emission.performAll_extends tasks hcs.extends).right
  have hkept := Pool.kept_of_intern (Pool.intern_extends · e.pool)
  refine ⟨roll_performAll operations ∅, fun table e' hok => ?_, fun table e' hok => ?_⟩
  · have hext : e.pool.Extends e'.pool := (m.localTable_preserves hkept).ok hok he
    exact ⟨hext.retains, localTable_ok he hok⟩
  · have hext : e.pool.Extends e'.pool := (m.catchTable_preserves hkept).ok hok he
    exact ⟨hext.retains, catchTable_ok he hok⟩

/-- An instruction, a handler for it, and two variables, of which the second comes first. -/
def annotated : List Operation :=
  [.call (.edit (.append .nop)), .addLocal 1 ⟨"a", by decide⟩ (.base .int) none none,
    .addLocal 0 ⟨"b", by decide⟩ (.base .int) none none,
    .addCatch ⟨0⟩ ⟨0⟩ ⟨0⟩ (some .exception), .call (.edit .layOut)]

theorem session_tables_of_annotated :
    let m := (performAll perform annotated ∅).2
    let table : List LocalRecord := [⟨0, 0, ⟨3⟩, ⟨2⟩, 0⟩, ⟨0, 0, ⟨1⟩, ⟨2⟩, 1⟩]
    let pool := Pool.ofConstants [.utf8 "a", .utf8 "I", .utf8 "b"]
    let pool' := Pool.ofConstants [.utf8 "java/lang/Exception", .classRef ⟨1⟩]
    m.body.stale = false ∧ m.localTable ⟨∅, []⟩ = .ok table ⟨pool, []⟩ ∧
      (∃ vs, OrderedBy LocalVar.slot m.locals vs ∧
        List.Forall₂ (LocalVar.Recorded m.body pool) vs table) ∧
      m.catchTable ⟨∅, []⟩ = .ok [⟨0, 1, 0, some ⟨2⟩⟩] ⟨pool', []⟩ ∧
      List.Forall₂ (CatchRange.Recorded m.body pool') m.catches [⟨0, 1, 0, some ⟨2⟩⟩] := by
  intro m table pool pool'
  have hfresh : m.body.stale = false := by decide +kernel
  have hlocals : m.locals =
      [⟨⟨0⟩, 1, ⟨"a", by decide⟩, .base .int, none, none⟩,
        ⟨⟨1⟩, 0, ⟨"b", by decide⟩, .base .int, none, none⟩] := by decide +kernel
  have hcatches : m.catches = [⟨⟨2⟩, ⟨0⟩, ⟨0⟩, ⟨0⟩, some .exception⟩] := by decide +kernel
  have hposition : m.body.position ⟨0⟩ = .ok 0 := by decide +kernel
  have hwidth : m.body.width ⟨0⟩ = .ok 1 := by decide +kernel
  have ha : Pool.internUtf8 "a" ∅ = .ok ⟨1⟩ (Pool.ofConstants [.utf8 "a"]) :=
    map_of_ok _ (Pool.built_empty.intern_new (by decide) (by decide))
  have hint : Pool.internUtf8 "I" (Pool.ofConstants [.utf8 "a"]) =
      .ok ⟨2⟩ (Pool.ofConstants [.utf8 "a", .utf8 "I"]) :=
    map_of_ok _ (Pool.intern_ofConstants (by decide) (by decide))
  have hb : Pool.internUtf8 "b" (Pool.ofConstants [.utf8 "a", .utf8 "I"]) = .ok ⟨3⟩ pool :=
    map_of_ok _ (Pool.intern_ofConstants (by decide) (by decide))
  have hint' : Pool.internUtf8 "I" pool = .ok ⟨2⟩ pool :=
    map_of_ok _ (Pool.intern_of_some (by rw [Pool.firstIndex_ofConstants (by decide)]; rfl))
  have hfirst : LocalVar.record ⟨⟨0⟩, 1, ⟨"a", by decide⟩, .base .int, none, none⟩ m.body ∅ =
      .ok ⟨0, 0, ⟨1⟩, ⟨2⟩, 1⟩ (Pool.ofConstants [.utf8 "a", .utf8 "I"]) :=
    (bind_of_ok ha).trans (bind_of_ok hint)
  have hsecond : LocalVar.record ⟨⟨1⟩, 0, ⟨"b", by decide⟩, .base .int, none, none⟩ m.body
      (Pool.ofConstants [.utf8 "a", .utf8 "I"]) = .ok ⟨0, 0, ⟨3⟩, ⟨2⟩, 0⟩ pool :=
    (bind_of_ok hb).trans (bind_of_ok hint')
  have hemits : m.locals.mapM (·.emit m.body) ⟨∅, []⟩ =
      .ok [⟨0, 0, ⟨1⟩, ⟨2⟩, 1⟩, ⟨0, 0, ⟨3⟩, ⟨2⟩, 0⟩] ⟨pool, []⟩ := by
    simp only [hlocals, List.mapM_cons, List.mapM_nil, LocalVar.emit, hfresh, Bool.false_eq_true,
      if_false]
    refine (bind_of_ok (EmitM.onPool_of_ok hfirst)).trans (bind_of_ok ?_)
    exact bind_of_ok (EmitM.onPool_of_ok hsecond)
  have htable : m.localTable ⟨∅, []⟩ = .ok table ⟨pool, []⟩ := by
    have hsorted : ([⟨0, 0, ⟨1⟩, ⟨2⟩, 1⟩, ⟨0, 0, ⟨3⟩, ⟨2⟩, 0⟩] : List LocalRecord).mergeSort
        (fun r s => r.slot ≤ s.slot) = table := by
      simp [List.mergeSort, List.MergeSort.Internal.splitInTwo, List.splitAt, List.splitAt.go, table]
    rw [localTable, bind_of_ok hemits, hsorted]
    rfl
  have hrange : CatchRange.record ⟨⟨2⟩, ⟨0⟩, ⟨0⟩, ⟨0⟩, some .exception⟩ m.body ∅ =
      .ok ⟨0, 1, 0, some ⟨2⟩⟩ pool' := by
    rw [CatchRange.record, hposition, hwidth]
    exact bind_of_ok (map_of_ok some (Pool.internBinaryName_empty .exception))
  have hcatchTable : m.catchTable ⟨∅, []⟩ = .ok [⟨0, 1, 0, some ⟨2⟩⟩] ⟨pool', []⟩ := by
    rw [catchTable, hcatches, List.mapM_cons]
    exact bind_of_ok (EmitM.onPool_of_ok hrange)
  have htables := session_tables .empty [] [] annotated
  exact ⟨hfresh, htable, (htables.2.1 _ _ htable).2, hcatchTable, (htables.2.2 _ _ hcatchTable).2⟩

end Method

end JvmAssembler
