import JvmAssembler.Proofs.Emission
import JvmAssembler.Proofs.Pool.Loadable

/-!
# Emitting again

What has been emitted once can be emitted again, with the same indices and without adding anything. All
the constants that it needs are in the pool by then, and they are found where they are whatever has been
emitted in between. Neither does a pool without room stand in the way.
-/

namespace JvmAssembler

variable {σ α β : Type} {pool : σ → Pool} {act : EStateM Fault σ α} {next : α → EStateM Fault σ β}

/-- Where the computation succeeds, it goes on to succeed with the same answer on all that the pool grows
to, and leaves that as it is. The pool is a part of the state. -/
def Lasting (pool : σ → Pool) (act : EStateM Fault σ α) : Prop :=
  ∀ s x s', (pool s).Extends (pool s) → act s = .ok x s' →
    (pool s).Extends (pool s') ∧
      ∀ t, (pool s').Extends (pool t) → ∃ t', act t = .ok x t' ∧ pool t' = pool t

namespace Lasting

theorem pure (x : α) : Lasting pool (Pure.pure x : EStateM Fault σ α) := by
  intro s y s' hs hok
  cases hok
  exact ⟨hs, fun t _ => ⟨t, rfl, rfl⟩⟩

theorem throw (fault : Fault) : Lasting pool (throw fault : EStateM Fault σ α) := by
  intro s x s' _ hok
  cases hok

theorem bind (h : Lasting pool act) (hnext : ∀ x, Lasting pool (next x)) :
    Lasting pool (act >>= next) := by
  intro s y s' hs hok
  obtain ⟨x, s₁, hx, hy⟩ := exists_of_bind_ok hok
  obtain ⟨hfirst, hagain⟩ := h s x s₁ hs hx
  obtain ⟨hsecond, hagain'⟩ := hnext x s₁ y s' hfirst.right hy
  refine ⟨hfirst.trans hsecond, fun t ht => ?_⟩
  obtain ⟨t₁, hact, hsame⟩ := hagain t (hsecond.trans ht)
  obtain ⟨t₂, hact', hsame'⟩ := hagain' t₁ (hsame ▸ ht)
  exact ⟨t₂, (bind_of_ok hact).trans hact', hsame'.trans hsame⟩

end Lasting

theorem lasting_stepwise (pool : σ → Pool) :
    Stepwise fun α (act : EStateM Fault σ α) => Lasting pool act :=
  ⟨Lasting.pure, Lasting.throw, Lasting.bind⟩

namespace Pool

theorem intern_lasting (c : Constant) : Lasting (fun p => p) (intern c) := by
  intro p i p' hp hok
  obtain ⟨cs, hcs⟩ := hp.built
  obtain ⟨hext, hfirst⟩ := hcs.intern_ok hok
  exact ⟨hext, fun q hq => ⟨q, standing_intern hfirst q hq, rfl⟩⟩

theorem internUtf8_lasting (text : String) : Lasting (fun p => p) (internUtf8 text) :=
  (lasting_stepwise _).map (intern_lasting _) Ref.mk

theorem internBinaryName_lasting (name : BinaryName) :
    Lasting (fun p => p) (internBinaryName name) :=
  (internUtf8_lasting _).bind fun _ => (lasting_stepwise _).map (intern_lasting _) Ref.mk

end Pool

theorem EmitM.onPool_lasting {act : PoolM α} (h : Lasting (fun p => p) act) :
    Lasting Emission.pool (EmitM.onPool act) := by
  intro e x e' he hok
  obtain ⟨hext, hagain⟩ := h _ _ _ he (EmitM.onPool_ok hok)
  refine ⟨hext, fun later hlater => ?_⟩
  obtain ⟨p, hact, hsame⟩ := hagain later.pool hlater
  exact ⟨_, EmitM.onPool_of_ok hact, hsame⟩

theorem EmitM.notify_lasting (notice : Notice) : Lasting Emission.pool (EmitM.notify notice) := by
  intro e x e' he hok
  cases hok
  exact ⟨he, fun later _ => ⟨_, rfl, rfl⟩⟩

theorem Emission.entrySteps_lasting :
    EntrySteps (fun _ act => Lasting (fun p => p) act) fun _ act => Lasting Emission.pool act where
  onPools := lasting_stepwise _
  onEmissions := lasting_stepwise _
  utf8 := Pool.internUtf8_lasting
  binaryName := Pool.internBinaryName_lasting
  onPool := EmitM.onPool_lasting
  notify := EmitM.notify_lasting

namespace Emission

/-- What has been emitted is emitted again after whatever else has been. -/
theorem again_of_lasting {act : EmitM α} (h : Lasting Emission.pool act) {e e' : Emission} {x : α}
    (he : e.pool.Extends e.pool) (hok : act e = .ok x e') (after : List Task) :
    let later := (performAll perform after e').2
    ∃ e'', act later = .ok x e'' ∧ e''.pool = later.pool := by
  obtain ⟨hext, hagain⟩ := h e x e' he hok
  exact hagain _ (performAll_extends after hext.right)

/-- A table that a method has emitted is emitted again as it was, with the same offsets and indices, after
whatever else has been emitted into the pool, and nothing is added to the pool for it. -/
theorem session_repeats_tables {start : Pool} (hstart : Pool.Origin start) (before after : List Task)
    (notices : List Notice) (m : Method) :
    let e := (performAll perform before ⟨start, notices⟩).2
    (∀ table e', m.localTable e = .ok table e' →
      let later := (performAll perform after e').2
      ∃ e'', m.localTable later = .ok table e'' ∧ e''.pool = later.pool) ∧
    ∀ table e', m.catchTable e = .ok table e' →
      let later := (performAll perform after e').2
      ∃ e'', m.catchTable later = .ok table e'' ∧ e''.pool = later.pool := by
  intro e
  obtain ⟨cs, hcs⟩ := hstart.built
  have he : e.pool.Extends e.pool := (performAll_extends before hcs.extends).right
  have hlocals := m.localTable_steps entrySteps_lasting
  have hcatches := m.catchTable_steps entrySteps_lasting
  exact ⟨fun _ _ hok => again_of_lasting hlocals he hok after,
    fun _ _ hok => again_of_lasting hcatches he hok after⟩

/-- A variable and a handler in a body that has not been laid out, which is told about each time. -/
def unplaced : Method where
  body := (outcome (Body.append .nop) ∅).2
  locals := [⟨⟨0⟩, 1, ⟨"I", by decide⟩, .base .int, none, none⟩]
  catches := [⟨⟨1⟩, ⟨0⟩, ⟨0⟩, ⟨0⟩, some .exception⟩]

/-- The variable is called like its type, which takes one constant. Between the two times its table and the
other one come to be emitted, the pool gets a string with that text. -/
theorem session_repeats_unplaced :
    let pool := Pool.ofConstants [.utf8 "I"]
    let pool' := Pool.ofConstants [.utf8 "java/lang/Exception", .classRef ⟨1⟩]
    let told : List Notice := [.stalePositions ⟨"I", by decide⟩]
    let after : List Task := [.request (.loadable (.string "I")), .catchTable unplaced]
    Pool.Origin ∅ ∧
      unplaced.localTable ⟨∅, []⟩ = .ok [⟨0, 0, ⟨1⟩, ⟨1⟩, 1⟩] ⟨pool, told⟩ ∧
      (∃ e'', unplaced.localTable (performAll perform after ⟨pool, told⟩).2 =
          .ok [⟨0, 0, ⟨1⟩, ⟨1⟩, 1⟩] e'' ∧
        e''.pool = (performAll perform after ⟨pool, told⟩).2.pool) ∧
      unplaced.catchTable ⟨∅, []⟩ = .ok [⟨0, 1, 0, some ⟨2⟩⟩] ⟨pool', []⟩ ∧
      ∃ e'', unplaced.catchTable (performAll perform after ⟨pool', []⟩).2 =
          .ok [⟨0, 1, 0, some ⟨2⟩⟩] e'' ∧
        e''.pool = (performAll perform after ⟨pool', []⟩).2.pool := by
  intro pool pool' told after
  have hposition : unplaced.body.position ⟨0⟩ = .ok 0 := by decide +kernel
  have hwidth : unplaced.body.width ⟨0⟩ = .ok 1 := by decide +kernel
  have hname : Pool.internUtf8 "I" ∅ = .ok ⟨1⟩ pool :=
    map_of_ok _ (Pool.built_empty.intern_new (by decide) (by decide))
  have htype : Pool.internUtf8 "I" pool = .ok ⟨1⟩ pool :=
    map_of_ok _ (Pool.intern_of_some (by rw [Pool.firstIndex_ofConstants (by decide)]; rfl))
  have hrecord : LocalVar.record ⟨⟨0⟩, 1, ⟨"I", by decide⟩, .base .int, none, none⟩ unplaced.body ∅ =
      .ok ⟨0, 0, ⟨1⟩, ⟨1⟩, 1⟩ pool := (bind_of_ok hname).trans (bind_of_ok htype)
  have hstale : unplaced.body.stale = true := by decide +kernel
  have hemit : LocalVar.emit ⟨⟨0⟩, 1, ⟨"I", by decide⟩, .base .int, none, none⟩ unplaced.body ⟨∅, []⟩ =
      .ok ⟨0, 0, ⟨1⟩, ⟨1⟩, 1⟩ ⟨pool, told⟩ := by
    rw [LocalVar.emit, if_pos hstale]
    exact EmitM.onPool_of_ok hrecord
  have hrecords : unplaced.locals.mapM (·.emit unplaced.body) ⟨∅, []⟩ =
      .ok [⟨0, 0, ⟨1⟩, ⟨1⟩, 1⟩] ⟨pool, told⟩ := by
    simp only [unplaced, List.mapM_cons, List.mapM_nil]
    exact bind_of_ok hemit
  have hlocals : unplaced.localTable ⟨∅, []⟩ = .ok [⟨0, 0, ⟨1⟩, ⟨1⟩, 1⟩] ⟨pool, told⟩ := by
    rw [Method.localTable, bind_of_ok hrecords, List.mergeSort_singleton]
    rfl
  have hrange : CatchRange.record ⟨⟨1⟩, ⟨0⟩, ⟨0⟩, ⟨0⟩, some .exception⟩ unplaced.body ∅ =
      .ok ⟨0, 1, 0, some ⟨2⟩⟩ pool' := by
    rw [CatchRange.record, hposition, hwidth]
    exact bind_of_ok (map_of_ok some (Pool.internBinaryName_empty .exception))
  have hcatches : unplaced.catchTable ⟨∅, []⟩ = .ok [⟨0, 1, 0, some ⟨2⟩⟩] ⟨pool', []⟩ := by
    simp only [Method.catchTable, unplaced, List.mapM_cons, List.mapM_nil]
    exact bind_of_ok (EmitM.onPool_of_ok hrange)
  have hagain := session_repeats_tables .empty [] after [] unplaced
  exact ⟨.empty, hlocals, hagain.1 _ _ hlocals, hcatches, hagain.2 _ _ hcatches⟩

end Emission

end JvmAssembler
