import JvmAssembler.Proofs.Code.Entries
import JvmAssembler.Proofs.Extents

/-!
# Where handlers lie in the bytecode

A handler's range is told by the bytes where it starts and where its last instruction ends. No
instruction is without bytes and positions are in code order, so with positions up to date the range is
inverted just if its last instruction stands before its first one; and the bytes of a range that is not
are those of its instructions, the last one included.
-/

namespace JvmAssembler

def Pool.Admits (pool : Pool) (name : BinaryName) : Prop :=
  ∃ ref pool', internBinaryName name pool = .ok ref pool'

theorem Pool.admits_of_room {pool : Pool} (hroom : pool.next + 2 ≤ 65535) (name : BinaryName) :
    pool.Admits name := by
  have hroom₁ : pool.next + 1 ≤ 65535 := by omega
  obtain ⟨text, middle, htext, hnext⟩ := internUtf8_of_room name.text hroom₁
  have hroom₂ : middle.next + 1 ≤ 65535 := by omega
  obtain ⟨i, pool', hok, -⟩ := intern_of_room (c := .classRef text) hroom₂
  exact ⟨⟨i⟩, pool', (bind_of_ok htext).trans (map_of_ok Ref.mk hok)⟩

namespace CatchRange

variable {r : CatchRange} {b : Body} {l : Listing} {pool : Pool}

theorem exists_caught (hroom : ∀ name ∈ r.caught, pool.Admits name) :
    ∃ caught pool', r.caught.mapM Pool.internBinaryName pool = .ok caught pool' := by
  cases hname : r.caught with
  | none => exact ⟨none, pool, rfl⟩
  | some name =>
    obtain ⟨ref, pool', hok⟩ := hroom name hname
    exact ⟨some ref, pool', map_of_ok some hok⟩

def rows (r : CatchRange) (b : Body) : Rows Instruction :=
  b.stretch (b.rank r.first) (b.rank r.last + 1)

/-- Where the range starts, where it has ended and where the handler starts, in bytes. -/
def landmarks (r : CatchRange) (b : Body) : List Nat :=
  [b.offset (b.rank r.first), b.offset (b.rank r.last + 1), b.offset (b.rank r.handler)]

theorem covers_iff_mem_rows (hs : b.Shows l) (h : Handle) :
    r.Covers b h ↔ h ∈ (r.rows b).map Prod.fst := by
  rw [rows, hs.mem_stretch_iff, Covers, Nat.lt_succ_iff]

theorem span_eq (hb : b.LaidOut) (hs : b.Shows l) (hfirst : b.contains r.first)
    (hlast : b.contains r.last) :
    r.span b = if b.rank r.last < b.rank r.first then .error (.invertedRange r.first r.last) else
      .ok (b.offset (b.rank r.first), b.offset (b.rank r.last + 1)) := by
  obtain ⟨-, -, hstart, -⟩ := hb.position_eq hs hfirst
  obtain ⟨width, hwidth, hstop, hpast⟩ := hb.position_eq hs hlast
  have hinverted : b.offset (b.rank r.last + 1) ≤ b.offset (b.rank r.first) ↔
      b.rank r.last < b.rank r.first := by
    have hlt := hs.rank_lt hfirst
    have hlt' := hs.rank_lt hlast
    rw [← Nat.not_lt, Body.offset_lt_iff (Nat.le_of_lt hlt) hlt']
    omega
  have hend : ((· + ·) <$> b.position r.last <*> b.width r.last) =
      .ok (b.offset (b.rank r.last + 1)) := by
    rw [hstop, hwidth, ← hpast]
    rfl
  rw [span, hstart, hend]
  change (if _ then _ else _) = _
  by_cases hlt : b.rank r.last < b.rank r.first
  · rw [if_pos (hinverted.mpr hlt), if_pos hlt]
    rfl
  · rw [if_neg (mt hinverted.mp hlt), if_neg hlt]
    rfl

/-- The first offset that is too large is the one that is reported. -/
theorem offsets_eq (start stop : Nat) {handler : Nat}
    (hhandler : b.position r.handler = .ok handler) :
    r.offsets b start stop = match [start, stop, handler].find? (65535 < ·) with
      | some n => .error (.codeTooLong n)
      | none => .ok (UInt16.ofNat start, UInt16.ofNat stop, UInt16.ofNat handler) := by
  rw [offsets, hhandler]
  rcases Nat.lt_or_ge 65535 start with hfar | hstart
  · simp only [List.find?_cons, decide_eq_true hfar, codeOffset_of_gt hfar]
    rfl
  simp only [List.find?_cons, decide_eq_false (Nat.not_lt.mpr hstart), codeOffset_of_le hstart]
  rcases Nat.lt_or_ge 65535 stop with hfar | hstop
  · simp only [decide_eq_true hfar, codeOffset_of_gt hfar]
    rfl
  simp only [decide_eq_false (Nat.not_lt.mpr hstop), codeOffset_of_le hstop]
  change (codeOffset handler >>= _) = _
  rcases Nat.lt_or_ge 65535 handler with hfar | hnear
  · simp only [decide_eq_true hfar, codeOffset_of_gt hfar]
    rfl
  · simp only [decide_eq_false (Nat.not_lt.mpr hnear), codeOffset_of_le hnear]
    rfl

/-- Where the entry puts the range and its handler: at their code, from the first byte of the range up to
the byte past its last instruction. -/
structure LiesAt (r : CatchRange) (b : Body) (entry : CatchRecord) : Prop where
  start_eq : entry.start.toNat = b.offset (b.rank r.first)
  stop_eq : entry.stop.toNat = b.offset (b.rank r.last + 1)
  handler_eq : entry.handler.toNat = b.offset (b.rank r.handler)
  start_lt_stop : entry.start < entry.stop
  range_code : (b.bytecode.drop entry.start.toNat).take (entry.stop.toNat - entry.start.toNat) =
    (r.rows b).flatMap fun row => row.2.opcode :: row.2.operands
  handler_code : ∃ i, b.instruction r.handler = .ok i ∧
    (b.bytecode.drop entry.handler.toNat).take i.width = i.opcode :: i.operands

/-- How resolving a handler ends, given room for its class. -/
structure Resolves (r : CatchRange) (b : Body) (answer : Except Fault CatchRecord) : Prop where
  inverted_iff : answer = .error (.invertedRange r.first r.last) ↔ b.rank r.last < b.rank r.first
  far_iff : ∀ n, answer = .error (.codeTooLong n) ↔
    b.rank r.first ≤ b.rank r.last ∧ (r.landmarks b).find? (65535 < ·) = some n
  ok_iff : (∃ entry, answer = .ok entry) ↔
    b.rank r.first ≤ b.rank r.last ∧ ∀ n ∈ r.landmarks b, n ≤ 65535
  of_ok : ∀ entry, answer = .ok entry → r.LiesAt b entry
  covers_iff : ∀ h, r.Covers b h ↔ h ∈ (r.rows b).map Prod.fst

theorem outcome_record (hb : b.LaidOut) (hs : b.Shows l) (hlive : ∀ h ∈ r.held, b.contains h)
    {caught : Option (Ref .classRef)} {pool' : Pool}
    (hcaught : r.caught.mapM Pool.internBinaryName pool = .ok caught pool') :
    (outcome (r.record b) pool).1 =
      if b.rank r.last < b.rank r.first then .error (.invertedRange r.first r.last) else
        match (r.landmarks b).find? (65535 < ·) with
        | some n => .error (.codeTooLong n)
        | none => .ok ⟨UInt16.ofNat (b.offset (b.rank r.first)),
            UInt16.ofNat (b.offset (b.rank r.last + 1)),
            UInt16.ofNat (b.offset (b.rank r.handler)), caught⟩ := by
  have hspan := r.span_eq hb hs (hlive _ (by simp [held])) (hlive _ (by simp [held]))
  obtain ⟨-, -, hhandler, -⟩ := hb.position_eq hs (hlive r.handler (by simp [held]))
  have hoffsets := r.offsets_eq (b.offset (b.rank r.first)) (b.offset (b.rank r.last + 1)) hhandler
  rw [← landmarks] at hoffsets
  rw [record_eq, hspan]
  split
  · rfl
  · change (outcome (r.caught.mapM Pool.internBinaryName >>= _) pool).1 = _
    rw [outcome, bind_of_ok hcaught, hoffsets]
    cases (r.landmarks b).find? (65535 < ·) <;> rfl

/-- An entry with these offsets lies where the range and the handler do. -/
theorem liesAt_of_eq (hb : b.LaidOut) (hs : b.Shows l) (hlive : ∀ h ∈ r.held, b.contains h)
    (hle : b.rank r.first ≤ b.rank r.last) {entry : CatchRecord}
    (hstart : entry.start.toNat = b.offset (b.rank r.first))
    (hstop : entry.stop.toNat = b.offset (b.rank r.last + 1))
    (hhandler : entry.handler.toNat = b.offset (b.rank r.handler)) : r.LiesAt b entry := by
  have hlt : b.rank r.first < b.rank r.last + 1 := Nat.lt_succ_of_le hle
  have hlast := hs.rank_lt (hlive r.last (by simp [held]))
  refine ⟨hstart, hstop, hhandler, ?_, ?_, ?_⟩
  · rw [UInt16.lt_iff_toNat_lt, hstart, hstop]
    exact Body.offset_lt hlt hlast
  · rw [hstart, hstop, ← Body.offset_add_stretch (Nat.le_of_lt hlt), Nat.add_sub_cancel_left]
    exact Body.slice_bytecode (Nat.le_of_lt hlt)
  · have hlive' := hlive r.handler (by simp [held])
    obtain ⟨before, i, after, -, hi, -, hposition, hcode⟩ := hb.at_live r.handler hlive'
    obtain ⟨-, -, hoffset, -⟩ := hb.position_eq hs hlive'
    have hbefore := Except.ok.inj (hoffset.symm.trans hposition)
    exact ⟨i, hi, by rw [hhandler, hbefore, hcode]⟩

theorem resolves_of_laidOut (hb : b.LaidOut) (hs : b.Shows l) (hlive : ∀ h ∈ r.held, b.contains h)
    (hroom : ∀ name ∈ r.caught, pool.Admits name) :
    r.Resolves b (outcome (r.record b) pool).1 := by
  obtain ⟨caught, pool', hcaught⟩ := exists_caught hroom
  rw [outcome_record hb hs hlive hcaught]
  have hcovers := r.covers_iff_mem_rows hs
  rcases Nat.lt_or_ge (b.rank r.last) (b.rank r.first) with hlt | hle
  · rw [if_pos hlt]
    have hnot := Nat.not_le.mpr hlt
    exact ⟨iff_of_true rfl hlt, fun n => iff_of_false (by simp) fun h => hnot h.1,
      iff_of_false (by simp) fun h => hnot h.1, by simp, hcovers⟩
  rw [if_neg (Nat.not_lt.mpr hle)]
  have hnot := Nat.not_lt.mpr hle
  cases hfar : (r.landmarks b).find? (65535 < ·) with
  | some n =>
    refine ⟨iff_of_false (by simp) hnot, fun m => ?_, iff_of_false (by simp) fun h => ?_, by simp,
      hcovers⟩
    · simp [hle, hfar]
    · have hlarge : 65535 < n := by simpa using List.find?_some hfar
      exact Nat.not_le.mpr hlarge (h.2 n (List.mem_of_find?_eq_some hfar))
  | none =>
    have hnear : ∀ n ∈ r.landmarks b, n ≤ 65535 := by simpa using hfar
    refine ⟨iff_of_false (by simp) hnot, fun m => iff_of_false (by simp) (by simp [hfar]),
      iff_of_true ⟨_, rfl⟩ ⟨hle, hnear⟩, ?_, hcovers⟩
    rintro entry ⟨⟩
    simp only [landmarks, List.forall_mem_cons] at hnear
    exact liesAt_of_eq hb hs hlive hle (Pool.toNat_ofNat_of_le hnear.1)
      (Pool.toNat_ofNat_of_le hnear.2.1) (Pool.toNat_ofNat_of_le hnear.2.2.1)

end CatchRange

/-- Whatever has been done with a body, once positions are up to date, resolving a handler into a pool
with room for its class fails if the last instruction of its range stands before the first one.
Otherwise it succeeds just if the range starts and ends, and the handler starts, at offsets of 16 bits,
and fails with the first of these that is none. The entry then holds these offsets, and the bytes that
it covers are those of the instructions in the range. -/
theorem session_resolves_range (calls : List Call) (r : CatchRange) (e : Emission)
    (hfresh : (performAll Body.call calls ∅).2.stale = false)
    (hlive : ∀ h ∈ r.held, (performAll Body.call calls ∅).2.contains h)
    (hroom : ∀ name ∈ r.caught, e.pool.Admits name) :
    let b := (performAll Body.call calls ∅).2
    r.Resolves b (outcome (r.emit b) e).1 := by
  intro b
  have hb : b.Positioned := Body.positioned_performAll calls
  obtain ⟨l, hs⟩ := hb.shows
  rw [CatchRange.emit, EmitM.outcome_onPool]
  exact CatchRange.resolves_of_laidOut (hb.laidOut hfresh) hs hlive hroom

/-- The last instruction of a range belongs to it with all its bytes. -/
theorem session_resolves_range_to_throw :
    let calls : List Call := [.edit (.append .nop), .edit (.append (.iconst 300)),
      .edit (.append .athrow), .edit (.append (.astore 1)), .edit .layOut]
    let b := (performAll Body.call calls ∅).2
    let r : CatchRange := ⟨⟨0⟩, ⟨1⟩, ⟨2⟩, ⟨3⟩, some .exception⟩
    let answer := (outcome (r.emit b) ⟨∅, []⟩).1
    (b.stale = false ∧ (∀ h ∈ r.held, b.contains h) ∧
      ∀ name ∈ r.caught, (∅ : Pool).Admits name) ∧ r.Resolves b answer ∧
      r.landmarks b = [1, 5, 5] ∧ ∃ entry, answer = .ok entry ∧ r.LiesAt b entry := by
  intro calls b r answer
  have hfresh : b.stale = false := by decide +kernel
  have hlive : ∀ h ∈ r.held, b.contains h := by decide +kernel
  have hroom : ∀ name ∈ r.caught, (∅ : Pool).Admits name := fun name _ =>
    Pool.admits_of_room (by decide) name
  have hends := session_resolves_range calls r ⟨∅, []⟩ hfresh hlive hroom
  have hmarks : r.landmarks b = [1, 5, 5] := by decide +kernel
  have hle : b.rank r.first ≤ b.rank r.last := by decide +kernel
  obtain ⟨entry, hok⟩ := hends.ok_iff.mpr ⟨hle, by rw [hmarks]; decide⟩
  exact ⟨⟨hfresh, hlive, hroom⟩, hends, hmarks, entry, hok, hends.of_ok entry hok⟩

end JvmAssembler
