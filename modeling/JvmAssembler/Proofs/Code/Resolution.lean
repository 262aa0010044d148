import JvmAssembler.Proofs.Code.Entries
import JvmAssembler.Proofs.Code.Holders
import JvmAssembler.Proofs.Pool.Layout

/-!
# Resolving what is alive

Resolving a variable or a handler reads the instructions that it points at. It may fail for other
reasons, but not because one of these is dead, as long as the body contains them all.
-/

namespace JvmAssembler

variable {b : Body}

def Fault.Alive (e : Fault) : Prop := ∀ h, e ≠ .deadHandle h

def Fault.Overflow (e : Fault) : Prop := ∃ c i, e = .poolOverflow c i

theorem Fault.Overflow.alive {e : Fault} (he : e.Overflow) : e.Alive := by
  obtain ⟨c, i, rfl⟩ := he
  intro h heq
  cases heq

namespace Pool

theorem append_overflow (c : Constant) : FaultsAre Fault.Overflow (append c) := by
  intro pool e pool' he
  rw [append] at he
  split at he <;> cases he
  exact ⟨c, _, rfl⟩

theorem intern_overflow (c : Constant) : FaultsAre Fault.Overflow (intern c) := by
  intro pool e pool' he
  cases hentry : pool.firstIndex[c]? with
  | some index =>
    rw [intern_of_some hentry] at he
    cases he
  | none =>
    rw [intern_of_none hentry] at he
    exact append_overflow c pool e pool' he

theorem internUtf8_overflow (text : String) : FaultsAre Fault.Overflow (internUtf8 text) :=
  (intern_overflow _).map

theorem internBinaryName_overflow (name : BinaryName) :
    FaultsAre Fault.Overflow (internBinaryName name) :=
  (internUtf8_overflow _).bind fun _ => (intern_overflow _).map

end Pool

namespace Body

theorem exists_line {h : Handle} (hh : b.contains h) : ∃ line, b.line h = .ok line := by
  obtain ⟨node, hnode⟩ := Option.isSome_iff_exists.mp hh
  exact ⟨node.value, by rw [line, hnode]⟩

theorem contains_of_position {h : Handle} {n : Nat} (hn : b.position h = .ok n) : b.contains h := by
  rw [position, line] at hn
  cases hnode : b.lines.node? h with
  | none =>
    rw [hnode] at hn
    cases hn
  | some node =>
    rw [contains, Chain.contains, hnode]
    rfl

theorem exists_position {h : Handle} (hh : b.contains h) : ∃ n, b.position h = .ok n := by
  obtain ⟨line, hline⟩ := exists_line hh
  exact ⟨line.position, by rw [position, hline]; rfl⟩

theorem exists_width {h : Handle} (hh : b.contains h) : ∃ n, b.width h = .ok n := by
  obtain ⟨line, hline⟩ := exists_line hh
  exact ⟨line.instruction.width, by rw [width, instruction, hline]; rfl⟩

end Body

theorem codeOffset_alive {n : Nat} {e : Fault} (he : codeOffset n = .error e) : e.Alive := by
  rw [codeOffset] at he
  split at he <;> cases he
  intro h heq
  cases heq

theorem alive_invertedRange (first last : Handle) : (Fault.invertedRange first last).Alive := by
  intro h heq
  cases heq

namespace LocalVar

variable {v : LocalVar}

/-- The offset past the scope whose last instruction stands at `last`. -/
def past (b : Body) (stop : Handle) (last width : Nat) : Nat :=
  if (b.next? stop).isNone then last + width else last

theorem extent_of_scope {start stop : Handle} {first last width : Nat}
    (hstart : v.start = some start) (hstop : v.stop = some stop)
    (hfirst : b.position start = .ok first) (hlast : b.position stop = .ok last)
    (hwidth : b.width stop = .ok width) :
    v.extent b = if past b stop last width < first then .error (.invertedRange start stop) else do
      let offset ← codeOffset first
      let length ← codeOffset (past b stop last width - first)
      return (offset, length) := by
  rw [extent, hstart, hstop, past]
  dsimp only
  rw [hfirst, hlast, hwidth]
  change (if _ then _ else _) = _
  split
  · change (if _ then _ else _) = _
    split <;> rfl
  · change (if _ then _ else _) = _
    split <;> rfl

theorem extent_alive (hlive : ∀ h ∈ v.held, b.contains h) {e : Fault}
    (he : v.extent b = .error e) : e.Alive := by
  cases hstart : v.start with
  | none =>
    rw [extent, hstart] at he
    cases he
  | some start =>
    cases hstop : v.stop with
    | none =>
      rw [extent, hstart, hstop] at he
      cases he
    | some stop =>
      have hlive' : b.contains stop := hlive stop (by simp [held, hstop])
      obtain ⟨first, hfirst⟩ := Body.exists_position (hlive start (by simp [held, hstart]))
      obtain ⟨last, hlast⟩ := Body.exists_position hlive'
      obtain ⟨width, hwidth⟩ := Body.exists_width hlive'
      rw [extent_of_scope hstart hstop hfirst hlast hwidth] at he
      split at he
      · cases he
        exact alive_invertedRange start stop
      rcases error_of_bind he with he | ⟨offset, -, he⟩
      · exact codeOffset_alive he
      rcases error_of_bind he with he | ⟨length, -, he⟩
      · exact codeOffset_alive he
      · cases he

theorem record_alive (hlive : ∀ h ∈ v.held, b.contains h) :
    FaultsAre Fault.Alive (v.record b) := by
  refine .bind (.ofExcept fun _ => extent_alive hlive) fun (start, length) => ?_
  have halive (text : String) : FaultsAre Fault.Alive (Pool.internUtf8 text) :=
    (Pool.internUtf8_overflow text).mono fun _ => Fault.Overflow.alive
  exact .bind (halive _) fun name => .bind (halive _) fun descriptor => .pure _

end LocalVar

namespace CatchRange

variable {r : CatchRange}

theorem span_alive (hlive : ∀ h ∈ r.held, b.contains h) {e : Fault} (he : r.span b = .error e) :
    e.Alive := by
  obtain ⟨first, hfirst⟩ := Body.exists_position (hlive r.first (by simp [held]))
  obtain ⟨last, hlast⟩ := Body.exists_position (hlive r.last (by simp [held]))
  obtain ⟨width, hwidth⟩ := Body.exists_width (hlive r.last (by simp [held]))
  rw [span, hfirst, hlast, hwidth] at he
  change (if _ then _ else _) = _ at he
  split at he
  · cases he
    exact alive_invertedRange r.first r.last
  · cases he

theorem caught_overflow (r : CatchRange) :
    FaultsAre Fault.Overflow (r.caught.mapM Pool.internBinaryName) := by
  cases r.caught with
  | none => exact .pure none
  | some name => exact (Pool.internBinaryName_overflow name).map

theorem offsets_alive (hlive : ∀ h ∈ r.held, b.contains h) {start stop : Nat} {e : Fault}
    (he : r.offsets b start stop = .error e) : e.Alive := by
  obtain ⟨handler, hhandler⟩ := Body.exists_position (hlive r.handler (by simp [held]))
  rw [offsets, hhandler] at he
  rcases error_of_bind he with he | ⟨_, -, he⟩
  · exact codeOffset_alive he
  rcases error_of_bind he with he | ⟨_, -, he⟩
  · exact codeOffset_alive he
  rcases error_of_bind he with he | ⟨_, -, he⟩
  · exact codeOffset_alive he
  · cases he

theorem record_alive (hlive : ∀ h ∈ r.held, b.contains h) : FaultsAre Fault.Alive (r.record b) := by
  rw [record_eq]
  refine .bind (.ofExcept fun _ => span_alive hlive) fun (start, stop) => ?_
  refine .bind (r.caught_overflow.mono fun _ => Fault.Overflow.alive) fun caught => ?_
  exact .bind (.ofExcept fun _ => offsets_alive hlive) fun _ => .pure _

end CatchRange

/-! ### Notices -/

theorem EmitM.onPool_alive {α : Type} {act : PoolM α} (h : FaultsAre Fault.Alive act) :
    FaultsAre Fault.Alive (EmitM.onPool act) := by
  intro s e s' he
  rw [EmitM.onPool] at he
  split at he
  · cases he
  · next hact =>
    cases he
    exact h s.pool e _ hact

theorem LocalVar.emit_alive {v : LocalVar} (hlive : ∀ h ∈ v.held, b.contains h) :
    FaultsAre Fault.Alive (v.emit b) := by
  rw [emit]
  split
  · exact .bind (fun _ _ _ => nofun) fun _ => EmitM.onPool_alive (record_alive hlive)
  · exact EmitM.onPool_alive (record_alive hlive)

theorem CatchRange.emit_alive {r : CatchRange} (hlive : ∀ h ∈ r.held, b.contains h) :
    FaultsAre Fault.Alive (r.emit b) :=
  EmitM.onPool_alive (record_alive hlive)

end JvmAssembler
