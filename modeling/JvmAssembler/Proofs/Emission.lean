import JvmAssembler.Code.Method
import JvmAssembler.Proofs.Code.Entries
import JvmAssembler.Proofs.Pool.Growth

/-!
# Emitting into a pool

Everything that extends a pool: requests for constants, and table entries and whole tables of methods,
for which constants are interned on the way. A task may fail after it has interned some of them. Since a
pool only ever has constants added to it one by one, whatever becomes of the tasks, all that was found
there before is found there afterwards.
-/

namespace JvmAssembler

theorem EmitM.onPool_ok {α : Type} {act : PoolM α} {e e' : Emission} {x : α}
    (hok : EmitM.onPool act e = .ok x e') : act e.pool = .ok x e'.pool := by
  rw [EmitM.onPool] at hok
  split at hok
  next hact =>
    cases hok
    exact hact
  · cases hok

theorem EmitM.onPool_of_ok {α : Type} {act : PoolM α} {e : Emission} {x : α} {pool : Pool}
    (hok : act e.pool = .ok x pool) : EmitM.onPool act e = .ok x { e with pool } := by
  rw [EmitM.onPool, hok]

theorem EmitM.onPool_error {α : Type} {act : PoolM α} {fault : Fault} {e e' : Emission}
    (h : EmitM.onPool act e = .error fault e') :
    ∃ pool, act e.pool = .error fault pool ∧ e' = { e with pool } := by
  rw [EmitM.onPool] at h
  split at h
  · cases h
  next pool hact =>
    cases h
    exact ⟨pool, hact, rfl⟩

theorem EmitM.onPool_of_error {α : Type} {act : PoolM α} {fault : Fault} {e : Emission} {pool : Pool}
    (h : act e.pool = .error fault pool) : EmitM.onPool act e = .error fault { e with pool } := by
  rw [EmitM.onPool, h]

theorem EmitM.outcome_onPool {α : Type} (act : PoolM α) (e : Emission) :
    (outcome (EmitM.onPool act) e).1 = (outcome act e.pool).1 := by
  rw [outcome, EmitM.onPool, outcome]
  cases act e.pool <;> rfl

namespace Emission

/-- What extends a pool. Entries and tables may be of any variables, handlers and methods. -/
inductive Task
  | request (r : Pool.Request)
  | localEntry (v : LocalVar) (b : Body)
  | catchEntry (r : CatchRange) (b : Body)
  | localTable (m : Method)
  | catchTable (m : Method)

inductive Product
  | index (i : UInt16)
  | locals (table : List LocalRecord)
  | catches (table : List CatchRecord)

/-- The constant that is asked for with references of the caller's own. -/
def Task.given : Task → Option Constant
  | .request r => r.given
  | .localEntry .. | .catchEntry .. | .localTable _ | .catchTable _ => none

def perform : Task → EmitM Product
  | .request r => .index <$> EmitM.onPool (Pool.perform r)
  | .localEntry v b => (.locals [·]) <$> v.emit b
  | .catchEntry r b => (.catches [·]) <$> r.emit b
  | .localTable m => .locals <$> m.localTable
  | .catchTable m => .catches <$> m.catchTable

variable {I : Pool → Prop} {start : Pool}

theorem onPool_preserves {α : Type} {act : PoolM α} (h : Preserves I act) :
    Preserves (fun e => I e.pool) (EmitM.onPool act) := by
  intro e he
  have hend := h e.pool he
  cases hact : act e.pool with
  | ok x pool =>
    rw [outcome_of_ok hact] at hend
    rwa [outcome, EmitM.onPool, hact]
  | error fault pool =>
    rw [outcome_of_error hact] at hend
    rwa [outcome, EmitM.onPool, hact]

/-- What holds of all steps in which entries are emitted: `P` on the pool alone, and `Q` with the notices.
-/
structure EntrySteps (P : (α : Type) → PoolM α → Prop) (Q : (α : Type) → EmitM α → Prop) :
    Prop where
  onPools : Stepwise P
  onEmissions : Stepwise Q
  utf8 (text : String) : P _ (Pool.internUtf8 text)
  binaryName (name : BinaryName) : P _ (Pool.internBinaryName name)
  onPool {α : Type} {act : PoolM α} (h : P α act) : Q α (EmitM.onPool act)
  notify (notice : Notice) : Q _ (EmitM.notify notice)

theorem entrySteps_of_kept {I : Pool → Prop} (h : Pool.Kept I) :
    EntrySteps (fun _ act => Preserves I act) fun _ act => Preserves (fun e => I e.pool) act where
  onPools := preserves_stepwise I
  onEmissions := preserves_stepwise _
  utf8 _ := (h.plain _ rfl).map
  binaryName _ := h.className _
  onPool hact := onPool_preserves hact
  notify _ := fun _ he => he

end Emission

open Emission

section EntrySteps

variable {P : (α : Type) → PoolM α → Prop} {Q : (α : Type) → EmitM α → Prop}

theorem LocalVar.emit_steps (h : EntrySteps P Q) (v : LocalVar) (b : Body) : Q _ (v.emit b) := by
  have hrecord : P _ (v.record b) :=
    h.onPools.bind (h.onPools.ofExcept _) fun _ => h.onPools.bind (h.utf8 _) fun _ =>
      h.onPools.bind (h.utf8 _) fun _ => h.onPools.pure _
  rw [emit]
  split
  · exact h.onEmissions.bind (h.notify _) fun _ => h.onPool hrecord
  · exact h.onPool hrecord

theorem CatchRange.emit_steps (h : EntrySteps P Q) (r : CatchRange) (b : Body) :
    Q _ (r.emit b) := by
  have hP := h.onPools
  have hcaught : P _ (r.caught.mapM Pool.internBinaryName) := by
    cases r.caught with
    | none => exact hP.pure none
    | some name => exact hP.map (h.binaryName name) some
  rw [emit, record_eq]
  exact h.onPool (hP.bind (hP.ofExcept _) fun _ => hP.bind hcaught fun _ =>
    hP.bind (hP.ofExcept _) fun _ => hP.pure _)

theorem Method.localTable_steps (h : EntrySteps P Q) (m : Method) : Q _ m.localTable :=
  h.onEmissions.bind (h.onEmissions.mapM (fun v => v.emit_steps h m.body) m.locals) fun _ =>
    h.onEmissions.pure _

theorem Method.catchTable_steps (h : EntrySteps P Q) (m : Method) : Q _ m.catchTable :=
  h.onEmissions.mapM (fun r => r.emit_steps h m.body) m.catches

end EntrySteps

theorem LocalVar.emit_preserves {I : Pool → Prop} (h : Pool.Kept I) (v : LocalVar) (b : Body) :
    Preserves (fun e => I e.pool) (v.emit b) :=
  v.emit_steps (entrySteps_of_kept h) b

theorem CatchRange.emit_preserves {I : Pool → Prop} (h : Pool.Kept I) (r : CatchRange) (b : Body) :
    Preserves (fun e => I e.pool) (r.emit b) :=
  r.emit_steps (entrySteps_of_kept h) b

theorem Method.localTable_preserves {I : Pool → Prop} (h : Pool.Kept I) (m : Method) :
    Preserves (fun e => I e.pool) m.localTable :=
  m.localTable_steps (entrySteps_of_kept h)

theorem Method.catchTable_preserves {I : Pool → Prop} (h : Pool.Kept I) (m : Method) :
    Preserves (fun e => I e.pool) m.catchTable :=
  m.catchTable_steps (entrySteps_of_kept h)

namespace Emission

/-- A task can break only what interning the constant breaks whose references it brings along. -/
theorem perform_preserves {I : Pool → Prop} (h : Pool.Kept I) (task : Task)
    (hgiven : ∀ c ∈ task.given, Preserves I (Pool.intern c)) :
    Preserves (fun e => I e.pool) (perform task) := by
  cases task with
  | request r => exact (onPool_preserves (h.perform r hgiven)).map
  | localEntry v b => exact (v.emit_preserves h b).map
  | catchEntry r b => exact (r.emit_preserves h b).map
  | localTable m => exact (m.localTable_preserves h).map
  | catchTable m => exact (m.catchTable_preserves h).map

theorem performAll_extends (tasks : List Task) {e : Emission} (he : Pool.Extends start e.pool) :
    Pool.Extends start (performAll perform tasks e).2.pool := by
  have hintern (c : Constant) := Pool.intern_extends c start
  have hstep (task : Task) : Preserves (fun e => Pool.Extends start e.pool) (perform task) :=
    perform_preserves (Pool.kept_of_intern hintern) task fun c _ => hintern c
  exact performAll_preserves hstep tasks he

/-- Whatever is emitted into a pool, and whether or not it succeeds, the constants stay where they are
and others follow them. So every look-up that succeeds goes on to succeed with the same result, and the
second slot of a constant stays unusable. -/
theorem session_appends (hstart : Pool.Origin start) (notices : List Notice)
    (before after : List Task) :
    let e := (performAll perform before ⟨start, notices⟩).2
    let e' := (performAll perform after e).2
    e.pool.Retains e'.pool := by
  intro e e'
  obtain ⟨cs, hcs⟩ := hstart.built
  have hbefore : Pool.Extends start e.pool := performAll_extends before hcs.extends
  have hafter : Pool.Extends e.pool e'.pool := performAll_extends after hbefore.right
  exact hafter.retains

/-- The second slot of a constant is told apart by its end while nothing follows, and by the next constant
once something does. -/
theorem session_appends_to_long :
    let e := (performAll perform [.request (.loadable (.long 7))] ⟨∅, []⟩).2
    let e' := (performAll perform [.request (.utf8 "a")] e).2
    Pool.Origin ∅ ∧ e.pool.get 2 = .error (.unusableSlot 2) ∧
      e'.pool.get 2 = .error (.unusableSlot 2) := by
  intro e e'
  have hlong : Pool.perform (.loadable (.long 7)) ∅ = .ok 1 (Pool.ofConstants [.long 7]) :=
    Pool.built_empty.intern_new (by decide) (by decide)
  have hend : e = ⟨Pool.ofConstants [.long 7], []⟩ := by
    have hstep : perform (.request (.loadable (.long 7))) ⟨∅, []⟩ =
        .ok (.index 1) ⟨Pool.ofConstants [.long 7], []⟩ :=
      map_of_ok _ (EmitM.onPool_of_ok hlong)
    exact congrArg Prod.snd (outcome_of_ok hstep)
  have hbuilt : e.pool.Built [.long 7] := ⟨congrArg Emission.pool hend, by decide⟩
  have hsecond : e.pool.get 2 = .error (.unusableSlot 2) :=
    hbuilt.get_eq_unusable_iff.mpr ⟨(1, .long 7), List.mem_cons_self, by decide, by decide⟩
  exact ⟨.empty, hsecond, (session_appends .empty [] _ _).unusable 2 hsecond⟩

end Emission

end JvmAssembler
