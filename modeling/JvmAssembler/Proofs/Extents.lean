import JvmAssembler.Proofs.Code.Offsets
import JvmAssembler.Proofs.Code.Resolution
import JvmAssembler.Proofs.Coverage
import JvmAssembler.Proofs.Emission

/-!
# Where scopes lie in the bytecode

Resolving a variable compares offsets, but answers about code order: with positions up to date the bytes
of a scope are those of the instructions that it covers. Its start and its length have to fit into 16
bits, each by itself.
-/

namespace JvmAssembler

theorem codeOffset_of_le {n : Nat} (hn : n ≤ 65535) : codeOffset n = .ok (UInt16.ofNat n) := if_pos hn

theorem codeOffset_of_gt {n : Nat} (hn : 65535 < n) : codeOffset n = .error (.codeTooLong n) :=
  if_neg (Nat.not_le.mpr hn)

namespace Body

variable {b : Body} {l : Listing} {start stop : Handle}

/-- The place in the order behind a scope that stops at `stop`, which is in the scope just if it is the
last instruction. -/
def scopeEnd (b : Body) (stop : Handle) : Nat :=
  if b.rank stop + 1 = b.order.length then b.rank stop + 1 else b.rank stop

def scope (b : Body) (start stop : Handle) : Rows Instruction :=
  b.stretch (b.rank start) (b.scopeEnd stop)

/-- Why the extent of a scope cannot be told. -/
inductive ScopeFault (b : Body) (start stop : Handle) : Fault → Prop
  | inverted (hinverted : b.rank stop < b.rank start) :
    ScopeFault b start stop (.invertedRange start stop)
  | far (hrange : b.rank start ≤ b.rank stop) (hfar : 65535 < b.offset (b.rank start)) :
    ScopeFault b start stop (.codeTooLong (b.offset (b.rank start)))
  | long (hrange : b.rank start ≤ b.rank stop) (hnear : b.offset (b.rank start) ≤ 65535)
    (hlong : 65535 < (b.scope start stop).byteLength) :
    ScopeFault b start stop (.codeTooLong (b.scope start stop).byteLength)

theorem ScopeFault.not_fits {e : Fault} (he : b.ScopeFault start stop e) :
    ¬(b.rank start ≤ b.rank stop ∧ b.offset (b.rank start) ≤ 65535 ∧
      (b.scope start stop).byteLength ≤ 65535) := by
  cases he <;> omega

theorem ScopeFault.unique {e e' : Fault} (he : b.ScopeFault start stop e)
    (he' : b.ScopeFault start stop e') : e = e' := by
  cases he <;> cases he' <;> first | rfl | omega

/-- Nothing starts behind the last instruction, so taking this one in does not change which scopes are
inverted. -/
theorem Shows.scopeEnd_lt_iff (hs : b.Shows l) (hstart : b.contains start) (stop : Handle) :
    b.scopeEnd stop < b.rank start ↔ b.rank stop < b.rank start := by
  have hlt := hs.rank_lt hstart
  rw [scopeEnd]
  split <;> omega

theorem rank_le_scopeEnd (b : Body) (stop : Handle) : b.rank stop ≤ b.scopeEnd stop := by
  rw [scopeEnd]
  split <;> omega

theorem Shows.scopeEnd_le (hs : b.Shows l) (hstop : b.contains stop) :
    b.scopeEnd stop ≤ b.order.length := by
  have hlt := hs.rank_lt hstop
  rw [scopeEnd]
  split <;> omega

end Body

namespace LocalVar

variable {v : LocalVar} {b : Body} {l : Listing} {start stop : Handle}

theorem covers_iff_mem_stretch (hs : b.Shows l) (hstart : v.start = some start)
    (hstop : v.stop = some stop) (hlive : b.contains stop) (h : Handle) :
    v.Covers b h ↔ h ∈ (b.scope start stop).map Prod.fst := by
  rw [Body.scope, hs.mem_stretch_iff, covers_iff hstart hstop, hs.next?_eq_none_iff hlive]
  refine and_congr_right fun hh => and_congr_right fun _ => ?_
  rw [Body.scopeEnd, ← hs.rank_inj hh]
  split <;> omega

/-- With positions up to date the extent of a scope is told by code order. -/
theorem extent_eq (hb : b.LaidOut) (hs : b.Shows l) (hstart : v.start = some start)
    (hstop : v.stop = some stop) (hlive : b.contains start) (hlive' : b.contains stop) :
    v.extent b = if b.rank stop < b.rank start then .error (.invertedRange start stop) else do
      let offset ← codeOffset (b.offset (b.rank start))
      let length ← codeOffset (b.scope start stop).byteLength
      return (offset, length) := by
  obtain ⟨-, -, hfirst, -⟩ := hb.position_eq hs hlive
  obtain ⟨width, hwidth, hlast, hnext⟩ := hb.position_eq hs hlive'
  have hpast : past b stop (b.offset (b.rank stop)) width = b.offset (b.scopeEnd stop) := by
    have hstops := hs.next?_eq_none_iff hlive'
    rw [past, hnext, Body.scopeEnd]
    by_cases hnone : b.next? stop = none
    · rw [if_pos (Option.isNone_iff_eq_none.mpr hnone), if_pos (hstops.mp hnone)]
    · rw [if_neg (mt Option.isNone_iff_eq_none.mp hnone), if_neg (mt hstops.mpr hnone)]
  rw [extent_of_scope hstart hstop hfirst hlast hwidth, hpast]
  have hinverted := Body.offset_lt_iff (hs.scopeEnd_le hlive') (Nat.le_of_lt (hs.rank_lt hlive))
  rw [hs.scopeEnd_lt_iff hlive stop] at hinverted
  by_cases hlt : b.rank stop < b.rank start
  · rw [if_pos hlt, if_pos (hinverted.mpr hlt)]
  · rw [if_neg hlt, if_neg (mt hinverted.mp hlt)]
    have hle := (Nat.le_of_not_lt hlt).trans (b.rank_le_scopeEnd stop)
    rw [← Body.offset_add_stretch hle, Nat.add_sub_cancel_left, Body.scope]

theorem record_of_error {e : Fault} (hextent : v.extent b = .error e) (pool : Pool) :
    v.record b pool = .error e pool := by
  rw [record, hextent]
  rfl

theorem record_of_extent {first length : UInt16} (hextent : v.extent b = .ok (first, length)) :
    FaultsAre Fault.Overflow (v.record b) ∧
      Answers (fun r => r.start = first ∧ r.length = length) (v.record b) := by
  rw [record, hextent]
  constructor
  · exact .bind (.pure _) fun _ => .bind (Pool.internUtf8_overflow _) fun _ =>
      .bind (Pool.internUtf8_overflow _) fun _ => .pure _
  · have hpair : Answers (fun p => p = (first, length))
        (ofExcept (.ok (first, length)) : PoolM (UInt16 × UInt16)) := .pure rfl
    refine .bind hpair fun _ hp => .andThen fun _ => .andThen fun _ => .pure ?_
    rw [hp]
    exact ⟨rfl, rfl⟩

/-- A variable takes two constants, its name and its descriptor. -/
theorem record_of_room {first length : UInt16} {pool : Pool}
    (hextent : v.extent b = .ok (first, length)) (hroom : pool.next + 2 ≤ 65535) :
    Surely (v.record b) pool fun _ _ => True := by
  have hknown : Surely (ofExcept (v.extent b) : PoolM _) pool fun _ pool' => pool' = pool := by
    rw [hextent]
    exact .pure rfl
  refine hknown.bind ?_
  rintro _ _ rfl
  refine (Pool.internUtf8_of_room _ (by omega)).bind fun _ pool₁ hname => ?_
  exact (Pool.internUtf8_of_room _ (by omega)).bind fun _ _ _ => .pure trivial

/-- How resolving a variable into a pool ends whose scope goes from `start` to `stop`. -/
structure Resolves (v : LocalVar) (b : Body) (start stop : Handle) (pool : Pool)
    (answer : Except Fault LocalRecord) : Prop where
  error_iff : ∀ e, ¬e.Overflow → (answer = .error e ↔ b.ScopeFault start stop e)
  fits : b.rank start ≤ b.rank stop → b.offset (b.rank start) ≤ 65535 →
    (b.scope start stop).byteLength ≤ 65535 →
    (65535 < pool.next + 2 ∧ ∃ c i, answer = .error (.poolOverflow c i)) ∨ ∃ r, answer = .ok r ∧
      r.start.toNat = b.offset (b.rank start) ∧ r.length.toNat = (b.scope start stop).byteLength ∧
      (b.bytecode.drop r.start.toNat).take r.length.toNat =
        (b.scope start stop).flatMap fun row => row.2.opcode :: row.2.operands
  covers_iff : ∀ h, v.Covers b h ↔ h ∈ (b.scope start stop).map Prod.fst

theorem emit_of_fresh (hfresh : b.stale = false) : v.emit b = EmitM.onPool (v.record b) := by
  rw [emit, hfresh]
  rfl

/-- The extent is told, unless there is a reason why it cannot be. -/
theorem extent_cases (hb : b.LaidOut) (hs : b.Shows l) (hstart : v.start = some start)
    (hstop : v.stop = some stop) (hlive : b.contains start) (hlive' : b.contains stop) :
    (∃ e, b.ScopeFault start stop e ∧ v.extent b = .error e) ∨
      (b.rank start ≤ b.rank stop ∧ b.offset (b.rank start) ≤ 65535 ∧
        (b.scope start stop).byteLength ≤ 65535 ∧ v.extent b =
          .ok (UInt16.ofNat (b.offset (b.rank start)), UInt16.ofNat (b.scope start stop).byteLength)) := by
  rw [extent_eq hb hs hstart hstop hlive hlive']
  rcases Nat.lt_or_ge (b.rank stop) (b.rank start) with hlt | hle
  · rw [if_pos hlt]
    exact .inl ⟨_, .inverted hlt, rfl⟩
  rw [if_neg (Nat.not_lt.mpr hle)]
  rcases Nat.lt_or_ge 65535 (b.offset (b.rank start)) with hfar | hnear
  · rw [codeOffset_of_gt hfar]
    exact .inl ⟨_, .far hle hfar, rfl⟩
  rw [codeOffset_of_le hnear]
  rcases Nat.lt_or_ge 65535 (b.scope start stop).byteLength with hlong | hshort
  · rw [codeOffset_of_gt hlong]
    exact .inl ⟨_, .long hle hnear hlong, rfl⟩
  rw [codeOffset_of_le hshort]
  exact .inr ⟨hle, hnear, hshort, rfl⟩

theorem resolves_of_laidOut (hb : b.LaidOut) (hs : b.Shows l) (hstart : v.start = some start)
    (hstop : v.stop = some stop) (hlive : b.contains start) (hlive' : b.contains stop) (pool : Pool) :
    v.Resolves b start stop pool (outcome (v.record b) pool).1 := by
  have hcovers := covers_iff_mem_stretch hs hstart hstop hlive'
  rcases extent_cases hb hs hstart hstop hlive hlive' with
    ⟨e, he, hextent⟩ | ⟨hle, hnear, hshort, hextent⟩
  · rw [outcome_of_error (record_of_error hextent pool)]
    refine ⟨fun e' _ => error_iff_of_unique he (fun _ => he.unique) e', fun hle hnear hshort => ?_,
      hcovers⟩
    exact absurd ⟨hle, hnear, hshort⟩ he.not_fits
  obtain ⟨hfaults, hanswers⟩ := record_of_extent hextent
  cases hrecord : v.record b pool with
  | error e pool' =>
    rw [outcome_of_error hrecord]
    have hoverflow := hfaults pool e pool' hrecord
    refine ⟨fun e' hother => iff_of_false ?_ fun he => he.not_fits ⟨hle, hnear, hshort⟩,
      fun _ _ _ => ?_, hcovers⟩
    · rintro ⟨⟩
      exact hother hoverflow
    · obtain ⟨c, i, rfl⟩ := hoverflow
      refine .inl ⟨Nat.lt_of_not_le fun hroom => ?_, c, i, rfl⟩
      obtain ⟨r, pool'', hok, -⟩ := record_of_room hextent hroom
      rw [hrecord] at hok
      cases hok
  | ok r pool' =>
    rw [outcome_of_ok hrecord]
    obtain ⟨hfirst, hlength⟩ := hanswers pool r pool' hrecord
    have hfirst' : r.start.toNat = b.offset (b.rank start) := by
      rw [hfirst, Pool.toNat_ofNat_of_le hnear]
    have hlength' : r.length.toNat = (b.scope start stop).byteLength := by
      rw [hlength, Pool.toNat_ofNat_of_le hshort]
    refine ⟨fun e _ => iff_of_false (by simp) fun he => he.not_fits ⟨hle, hnear, hshort⟩,
      fun _ _ _ => .inr ⟨r, rfl, hfirst', hlength', ?_⟩, hcovers⟩
    rw [hfirst', hlength']
    exact Body.slice_bytecode (hle.trans (b.rank_le_scopeEnd stop))

end LocalVar

/-- Whatever has been done with a body, once positions are up to date, resolving a variable fails if its
scope stops before it starts, or if the start or the length of the scope does not fit into 16 bits. It
can fail otherwise only for want of room in the pool, and what it answers are the bytes of the
instructions in the scope. -/
theorem session_resolves (calls : List Call) (v : LocalVar) (start stop : Handle) (e : Emission)
    (hfresh : (performAll Body.call calls ∅).2.stale = false) (hstart : v.start = some start)
    (hstop : v.stop = some stop) (hlive : (performAll Body.call calls ∅).2.contains start)
    (hlive' : (performAll Body.call calls ∅).2.contains stop) :
    let b := (performAll Body.call calls ∅).2
    v.Resolves b start stop e.pool (outcome (v.emit b) e).1 := by
  intro b
  have hb : b.Positioned := Body.positioned_performAll calls
  obtain ⟨l, hs⟩ := hb.shows
  rw [LocalVar.emit_of_fresh hfresh, EmitM.outcome_onPool]
  exact LocalVar.resolves_of_laidOut (hb.laidOut hfresh) hs hstart hstop hlive hlive' e.pool

/-- A scope that stops at the last instruction takes this one in. -/
theorem session_resolves_to_last :
    let calls : List Call := [.edit (.append .nop), .edit (.append (.iconst 300)),
      .edit (.append .returnVoid), .edit .layOut]
    let b := (performAll Body.call calls ∅).2
    let v : LocalVar := ⟨⟨0⟩, 1, ⟨"x", by decide⟩, .base .int, some ⟨1⟩, some ⟨2⟩⟩
    v.Resolves b ⟨1⟩ ⟨2⟩ ∅ (outcome (v.emit b) ⟨∅, []⟩).1 ∧
      (b.scope ⟨1⟩ ⟨2⟩).map Prod.fst = [⟨1⟩, ⟨2⟩] ∧ b.offset (b.rank ⟨1⟩) = 1 ∧
      (b.scope ⟨1⟩ ⟨2⟩).byteLength = 4 := by
  intro calls b v
  have hfresh : b.stale = false := by decide +kernel
  have hlive : b.contains ⟨1⟩ := by decide +kernel
  have hlive' : b.contains ⟨2⟩ := by decide +kernel
  have hends := session_resolves calls v ⟨1⟩ ⟨2⟩ ⟨∅, []⟩ hfresh rfl rfl hlive hlive'
  exact ⟨hends, by decide +kernel, by decide +kernel, by decide +kernel⟩

/-! ### The ends of scopes -/

namespace LocalVar

variable {v : LocalVar} {b : Body} {l : Listing} {start stop : Handle} {pool : Pool}

/-- The offset of the first byte past the scope, or zero for a variable that lacks one. -/
def endOffset (v : LocalVar) (b : Body) : Nat :=
  match v.start, v.stop with
  | some _, some stop => b.offset (b.scopeEnd stop)
  | _, _ => 0

theorem live_of_extent (hstart : v.start = some start) (hstop : v.stop = some stop)
    {p : UInt16 × UInt16} (hok : v.extent b = .ok p) : b.contains start ∧ b.contains stop := by
  rw [extent, hstart, hstop] at hok
  obtain ⟨first, hfirst, hok⟩ := ok_of_bind hok
  obtain ⟨last, hlast, -⟩ := ok_of_bind hok
  exact ⟨Body.contains_of_position hfirst, Body.contains_of_position hlast⟩

/-- Start and length add up to the end, wherever that is. -/
theorem add_of_extent (hb : b.LaidOut) (hs : b.Shows l) {first length : UInt16}
    (hok : v.extent b = .ok (first, length)) : first.toNat + length.toNat = v.endOffset b := by
  cases hstart : v.start with
  | none =>
    rw [extent, hstart] at hok
    cases hok
    rw [endOffset, hstart]
    rfl
  | some start =>
    cases hstop : v.stop with
    | none =>
      rw [extent, hstart, hstop] at hok
      cases hok
      rw [endOffset, hstart, hstop]
      rfl
    | some stop =>
      obtain ⟨hlive, hlive'⟩ := live_of_extent hstart hstop hok
      rcases extent_cases hb hs hstart hstop hlive hlive' with
        ⟨e, -, herror⟩ | ⟨hle, hnear, hshort, hextent⟩
      · rw [hok] at herror
        cases herror
      · rw [hok] at hextent
        cases hextent
        rw [endOffset, hstart, hstop, Pool.toNat_ofNat_of_le hnear, Pool.toNat_ofNat_of_le hshort]
        exact Body.offset_add_stretch (hle.trans (b.rank_le_scopeEnd stop))

theorem extent_of_record {r : LocalRecord} {pool' : Pool} (hok : v.record b pool = .ok r pool') :
    v.extent b = .ok (r.start, r.length) := by
  obtain ⟨p, hextent, hok⟩ := exists_of_ofExcept_bind_ok hok
  obtain ⟨name, _, -, hok⟩ := exists_of_bind_ok hok
  obtain ⟨descriptor, _, -, hok⟩ := exists_of_bind_ok hok
  cases hok
  exact hextent

/-- Nothing but the start and the length of the scope has to fit. -/
theorem exists_record (hb : b.LaidOut) (hs : b.Shows l) (hstart : v.start = some start)
    (hstop : v.stop = some stop) (hlive : b.contains start) (hlive' : b.contains stop)
    (hle : b.rank start ≤ b.rank stop) (hnear : b.offset (b.rank start) ≤ 65535)
    (hshort : (b.scope start stop).byteLength ≤ 65535) (hroom : pool.next + 2 ≤ 65535) :
    ∃ r pool', v.record b pool = .ok r pool' := by
  rcases extent_cases hb hs hstart hstop hlive hlive' with ⟨e, he, -⟩ | ⟨-, -, -, hextent⟩
  · exact absurd ⟨hle, hnear, hshort⟩ he.not_fits
  · obtain ⟨r, pool', hok, -⟩ := record_of_room hextent hroom
    exact ⟨r, pool', hok⟩

end LocalVar

/-- Whatever has been done with a body, once positions are up to date, the start and the length that a
variable is resolved to add up to the end of its scope, so that they stay within 16 bits just if that
does. But nothing is said of the end: a variable is resolved if only the start and the length of its
scope fit into 16 bits each. -/
theorem session_reaches_scope_end (calls : List Call) (v : LocalVar) (e : Emission)
    (hfresh : (performAll Body.call calls ∅).2.stale = false) :
    let b := (performAll Body.call calls ∅).2
    (∀ r e', v.emit b e = .ok r e' → r.start.toNat + r.length.toNat = v.endOffset b) ∧
      ∀ start stop, v.start = some start → v.stop = some stop → b.contains start → b.contains stop →
        b.rank start ≤ b.rank stop → b.offset (b.rank start) ≤ 65535 →
        (b.scope start stop).byteLength ≤ 65535 → e.pool.next + 2 ≤ 65535 →
        ∃ r e', v.emit b e = .ok r e' := by
  intro b
  have hb : b.Positioned := Body.positioned_performAll calls
  obtain ⟨l, hs⟩ := hb.shows
  have hlaid := hb.laidOut hfresh
  rw [LocalVar.emit_of_fresh hfresh]
  constructor
  · intro r e' hok
    exact LocalVar.add_of_extent hlaid hs (LocalVar.extent_of_record (EmitM.onPool_ok hok))
  · intro start stop hstart hstop hlive hlive' hle hnear hshort hroom
    obtain ⟨r, pool', hok⟩ :=
      LocalVar.exists_record hlaid hs hstart hstop hlive hlive' hle hnear hshort hroom
    exact ⟨r, _, EmitM.onPool_of_ok hok⟩

/-! ### A scope that ends too far -/

namespace Body

/-- The instruction is the last one, and has `width` bytes behind the `before` bytes of the others. -/
structure EndsIn (b : Body) (h : Handle) (before width : Nat) : Prop where
  live : b.contains h
  offset_rank : b.offset (b.rank h) = before
  scopeEnd_eq : b.scopeEnd h = b.rank h + 1
  offset_past : b.offset (b.rank h + 1) = before + width

variable {b : Body} {l : Listing} {h : Handle}

theorem Shows.endsIn (hs : b.Shows l) {rows : Rows Instruction} {i : Instruction}
    (htable : b.toList = rows ++ [(h, i)]) : b.EndsIn h rows.byteLength i.width := by
  have horder : b.order = rows.map Prod.fst ++ [h] := by
    rw [order, htable, List.map_append]
    rfl
  obtain ⟨-, hrank⟩ := hs.rank_split horder
  rw [List.length_map] at hrank
  have hall : b.toList.take (rows.length + 1) = b.toList :=
    List.take_of_length_le (by rw [htable, List.length_append, List.length_singleton])
  constructor
  case live => exact (hs.mem_order_iff h).mp (by rw [horder]; simp)
  case offset_rank => rw [offset, hrank, htable, List.take_left]
  case scopeEnd_eq => exact if_pos (by rw [hrank, horder]; simp)
  case offset_past =>
    rw [offset, hrank, hall, htable, Rows.byteLength_append]
    rfl

/-- The scope of the last instruction alone has the bytes of that. -/
theorem EndsIn.byteLength_scope {before width : Nat} (hends : b.EndsIn h before width) :
    (b.scope h h).byteLength = width := by
  have hadd := b.offset_add_stretch (Nat.le_succ (b.rank h))
  rw [hends.offset_rank, hends.offset_past] at hadd
  rw [scope, hends.scopeEnd_eq]
  exact Nat.add_left_cancel hadd

end Body

def Instruction.padded (n : Nat) : Instruction := ⟨0, List.replicate n 0⟩

@[simp] theorem Instruction.width_padded (n : Nat) : (Instruction.padded n).width = n + 1 := by
  rw [padded, width, List.length_replicate]
  exact Nat.add_comm 1 n

theorem stale_layOut (calls : List Call) :
    (performAll Body.call (calls ++ [.edit .layOut]) ∅).2.stale = false := by
  rw [performAll_append]
  rfl

def doubling (n : Nat) : List Call :=
  [.edit (.append (.padded n)), .edit (.append (.padded n))] ++ [.edit .layOut]

theorem endsIn_doubling (n : Nat) :
    (performAll Body.call (doubling n) ∅).2.EndsIn ⟨1⟩ (n + 1) (n + 1) := by
  have hs := Body.shows_performAll (doubling n)
  have htable : (performAll Body.call (doubling n) ∅).2.toList =
      [(⟨0⟩, .padded n)] ++ [(⟨1⟩, .padded n)] := hs.reads.toList_eq
  have hends := hs.endsIn htable
  simpa [Rows.byteLength] using hends

def LocalVar.around (h : Handle) : LocalVar :=
  ⟨⟨0⟩, 1, ⟨"scoped", by decide⟩, .base .int, some h, some h⟩

theorem Body.EndsIn.endOffset_around {b : Body} {h : Handle} {before width : Nat}
    (hends : b.EndsIn h before width) : (LocalVar.around h).endOffset b = before + width := by
  rw [← hends.offset_past, ← hends.scopeEnd_eq]
  rfl

/-- Start and length are both 40000. -/
theorem session_reaches_far_scope_end :
    let b := (performAll Body.call (doubling 39999) ∅).2
    let v := LocalVar.around ⟨1⟩
    b.stale = false ∧ v.endOffset b = 80000 ∧
      ∃ r e', v.emit b ⟨∅, []⟩ = .ok r e' ∧ r.start.toNat + r.length.toNat = 80000 := by
  intro b v
  have hends : b.EndsIn ⟨1⟩ 40000 40000 := endsIn_doubling 39999
  have hfresh : b.stale = false := stale_layOut _
  obtain ⟨hreaches, hresolves⟩ := session_reaches_scope_end _ v ⟨∅, []⟩ hfresh
  obtain ⟨r, e', hok⟩ := hresolves ⟨1⟩ ⟨1⟩ rfl rfl hends.live hends.live (Nat.le_refl _)
    (by rw [hends.offset_rank]; decide) (by rw [hends.byteLength_scope]; decide) (by decide)
  exact ⟨hfresh, hends.endOffset_around, r, e', hok, (hreaches r e' hok).trans hends.endOffset_around⟩

/-- So what is resolved can lie past the last offset of 16 bits. -/
theorem exists_scope_end_past_code :
    ¬∀ (calls : List Call) (v : LocalVar) (e e' : Emission) (r : LocalRecord),
      (performAll Body.call calls ∅).2.stale = false →
      v.emit (performAll Body.call calls ∅).2 e = .ok r e' →
      r.start.toNat + r.length.toNat ≤ 65535 := by
  intro hfits
  let b := (performAll Body.call (doubling 39999) ∅).2
  let v := LocalVar.around ⟨1⟩
  have hends : b.EndsIn ⟨1⟩ 40000 40000 := endsIn_doubling 39999
  have hfresh : b.stale = false := stale_layOut _
  have hb : b.LaidOut := (Body.positioned_performAll (doubling 39999)).laidOut hfresh
  have hs := Body.shows_performAll (doubling 39999)
  have hrecord : ∃ r pool', v.record b ∅ = .ok r pool' :=
    LocalVar.exists_record hb hs rfl rfl hends.live hends.live (Nat.le_refl _)
      (by rw [hends.offset_rank]; decide) (by rw [hends.byteLength_scope]; decide) (by decide)
  obtain ⟨r, pool', hok⟩ := hrecord
  have hfar : r.start.toNat + r.length.toNat = 80000 :=
    (LocalVar.add_of_extent hb hs (LocalVar.extent_of_record hok)).trans hends.endOffset_around
  have hemit : v.emit b ⟨∅, []⟩ = .ok r ⟨pool', []⟩ := by
    rw [LocalVar.emit_of_fresh hfresh]
    exact EmitM.onPool_of_ok hok
  have hnear := hfits _ _ _ _ r hfresh hemit
  omega

end JvmAssembler
