import JvmAssembler.Proofs.Ranges
import JvmAssembler.Proofs.Repetition

/-!
# What failed entries leave behind

An entry can fail for the code or for want of room in the pool. Resolving a variable looks at the code
first, so that a fault in the code leaves the pool alone. A handler's class however is interned after
the range of the handler has been told, but before the offsets are written down in 16 bits. Where these
are too large, or the handling instruction is dead, the class stays in the pool though no entry has come
of it.
-/

namespace JvmAssembler

/-- What is wrong is in the code, and not in the pool. -/
inductive Fault.InCode : Fault → Prop
  | dead (h : Handle) : InCode (.deadHandle h)
  | inverted (start stop : Handle) : InCode (.invertedRange start stop)
  | long (offset : Nat) : InCode (.codeTooLong offset)

theorem Fault.InCode.not_overflow {fault : Fault} (hfault : fault.InCode) : ¬fault.Overflow := by
  rintro ⟨c, i, rfl⟩
  cases hfault

section

variable {b : Body} {fault : Fault} {pool pool' : Pool} {e e' : Emission}

namespace LocalVar

variable {v : LocalVar}

theorem record_leaves (hfault : fault.InCode) (h : v.record b pool = .error fault pool') :
    pool' = pool := by
  cases hextent : v.extent b with
  | error e =>
    rw [record_of_error hextent] at h
    cases h
    rfl
  | ok extent => exact absurd ((record_of_extent hextent).1 pool fault pool' h) hfault.not_overflow

theorem emit_leaves (hfault : fault.InCode) (h : v.emit b e = .error fault e') :
    e'.pool = e.pool := by
  rw [emit] at h
  split at h
  · rcases cases_of_bind_error h with hnotify | ⟨_, told, hnotify, h⟩
    · cases hnotify
    · cases hnotify
      obtain ⟨pool, hrecord, rfl⟩ := EmitM.onPool_error h
      exact record_leaves hfault hrecord
  · obtain ⟨pool, hrecord, rfl⟩ := EmitM.onPool_error h
    exact record_leaves hfault hrecord

end LocalVar

namespace CatchRange

variable {r : CatchRange}

/-- How a handler's entry fails for the code: before anything is done to the pool, or once the class is in
it. -/
inductive Fails (r : CatchRange) (b : Body) (fault : Fault) (pool : Pool) : Pool → Prop
  | early (hspan : r.span b = .error fault) : Fails r b fault pool pool
  | late {start stop : Nat} {caught : Option (Ref .classRef)} {pool' : Pool}
    (hspan : r.span b = .ok (start, stop))
    (hcaught : r.caught.mapM Pool.internBinaryName pool = .ok caught pool')
    (hoffsets : r.offsets b start stop = .error fault) : Fails r b fault pool pool'

theorem Fails.record_eq (h : r.Fails b fault pool pool') : r.record b pool = .error fault pool' := by
  rw [CatchRange.record_eq]
  cases h with
  | early hspan =>
    rw [hspan]
    rfl
  | late hspan hcaught hoffsets =>
    rw [hspan]
    refine (bind_of_ok hcaught).trans ?_
    rw [hoffsets]
    rfl

theorem fails_of_record (hfault : fault.InCode) (h : r.record b pool = .error fault pool') :
    r.Fails b fault pool pool' := by
  rw [record_eq] at h
  rcases cases_of_ofExcept_bind_error h with ⟨hspan, rfl⟩ | ⟨⟨start, stop⟩, hspan, h⟩
  · exact .early hspan
  rcases cases_of_bind_error h with hcaught | ⟨caught, pool'', hcaught, h⟩
  · exact absurd (r.caught_overflow pool fault pool' hcaught) hfault.not_overflow
  rcases cases_of_ofExcept_bind_error h with ⟨hoffsets, rfl⟩ | ⟨offsets, -, h⟩
  · exact .late hspan hcaught hoffsets
  · cases h

theorem caught_lasting (r : CatchRange) :
    Lasting (fun p => p) (r.caught.mapM Pool.internBinaryName) := by
  cases r.caught with
  | none => exact .pure none
  | some name => exact (lasting_stepwise _).map (Pool.internBinaryName_lasting name) some

/-- What has failed once fails again in the same way, and finds the class in the pool. -/
theorem Fails.again (h : r.Fails b fault pool pool') (hpool : pool.Extends pool) :
    r.Fails b fault pool' pool' := by
  cases h with
  | early hspan => exact .early hspan
  | late hspan hcaught hoffsets =>
    obtain ⟨hext, hagain⟩ := r.caught_lasting pool _ _ hpool hcaught
    obtain ⟨pool'', hcaught', rfl⟩ := hagain pool' hext.right
    exact .late hspan hcaught' hoffsets

end CatchRange

end

namespace Emission

/-- Whatever has been emitted into a pool, and whatever the body is like, a variable that fails for the
code leaves the pool as it was. A handler does so if it is the range that cannot be told. If it is an
offset, the class has been interned, once and for all: trying again fails in the same way, and leaves
everything alone. -/
theorem session_fails_in_code {start : Pool} (hstart : Pool.Origin start) (tasks : List Task)
    (notices : List Notice) (b : Body) (fault : Fault) (hfault : fault.InCode) :
    let e := (performAll perform tasks ⟨start, notices⟩).2
    (∀ (v : LocalVar) e', v.emit b e = .error fault e' → e'.pool = e.pool) ∧
      ∀ (r : CatchRange) e', r.emit b e = .error fault e' →
        r.Fails b fault e.pool e'.pool ∧ e'.notices = e.notices ∧ r.emit b e' = .error fault e' := by
  intro e
  obtain ⟨cs, hcs⟩ := hstart.built
  have he : e.pool.Extends e.pool := (performAll_extends tasks hcs.extends).right
  refine ⟨fun v e' h => LocalVar.emit_leaves hfault h, fun r e' h => ?_⟩
  obtain ⟨pool, hrecord, rfl⟩ := EmitM.onPool_error h
  have hfails := CatchRange.fails_of_record hfault hrecord
  exact ⟨hfails, rfl, EmitM.onPool_of_error (hfails.again he).record_eq⟩

def looping : CatchRange := ⟨⟨0⟩, ⟨0⟩, ⟨0⟩, ⟨0⟩, some .exception⟩

def oversizing : List Call := [.edit (.append (.padded 65535))] ++ [.edit .layOut]

def oversized : Body := (performAll Body.call oversizing ∅).2

theorem stale_oversized : oversized.stale = false := stale_layOut _

theorem laidOut_oversized : oversized.LaidOut :=
  (Body.positioned_performAll _).laidOut stale_oversized

theorem endsIn_oversized : oversized.EndsIn ⟨0⟩ 0 65536 := by
  have hs := Body.shows_performAll oversizing
  have htable : oversized.toList = [] ++ [(⟨0⟩, .padded 65535)] := hs.reads.toList_eq
  have hends := hs.endsIn htable
  rwa [Instruction.width_padded] at hends

theorem extent_around : (LocalVar.around ⟨0⟩).extent oversized = .error (.codeTooLong 65536) := by
  have hlive := endsIn_oversized.live
  rw [LocalVar.extent_eq laidOut_oversized (Body.shows_performAll _) rfl rfl hlive hlive,
    endsIn_oversized.byteLength_scope, endsIn_oversized.offset_rank, if_neg (Nat.lt_irrefl _)]
  rfl

theorem fails_looping : looping.Fails oversized (.codeTooLong 65536) ∅
    (Pool.ofConstants [.utf8 "java/lang/Exception", .classRef ⟨1⟩]) := by
  have hs := Body.shows_performAll oversizing
  have hlive := endsIn_oversized.live
  have hspan : looping.span oversized = .ok (0, 65536) := by
    refine (looping.span_eq laidOut_oversized hs hlive hlive).trans ?_
    exact (if_neg (Nat.lt_irrefl _)).trans
      (congrArg₂ (fun m n => Except.ok (m, n)) endsIn_oversized.offset_rank endsIn_oversized.offset_past)
  have hoffsets : looping.offsets oversized 0 65536 = .error (.codeTooLong 65536) := by
    obtain ⟨-, -, hposition, -⟩ := laidOut_oversized.position_eq hs hlive
    rw [endsIn_oversized.offset_rank] at hposition
    exact looping.offsets_eq 0 65536 hposition
  exact .late hspan (map_of_ok some (Pool.internBinaryName_empty .exception)) hoffsets

theorem emit_looping : looping.emit oversized ⟨∅, []⟩ = .error (.codeTooLong 65536)
    ⟨Pool.ofConstants [.utf8 "java/lang/Exception", .classRef ⟨1⟩], []⟩ :=
  EmitM.onPool_of_error fails_looping.record_eq

/-- The variable and the handler fail alike, but only the handler leaves something behind. -/
theorem session_fails_in_oversized :
    let v := LocalVar.around ⟨0⟩
    Pool.Origin ∅ ∧ Fault.InCode (.codeTooLong 65536) ∧
      (∃ e', v.emit oversized ⟨∅, []⟩ = .error (.codeTooLong 65536) e' ∧ e'.pool = ∅) ∧
      ∃ e', looping.emit oversized ⟨∅, []⟩ = .error (.codeTooLong 65536) e' ∧
        e'.pool = Pool.ofConstants [.utf8 "java/lang/Exception", .classRef ⟨1⟩] ∧
        looping.emit oversized e' = .error (.codeTooLong 65536) e' := by
  intro v
  obtain ⟨hvars, hranges⟩ :=
    session_fails_in_code .empty [] [] oversized (.codeTooLong 65536) (.long 65536)
  have hvar : v.emit oversized ⟨∅, []⟩ = .error (.codeTooLong 65536) ⟨∅, []⟩ := by
    rw [LocalVar.emit_of_fresh stale_oversized]
    exact EmitM.onPool_of_error (LocalVar.record_of_error extent_around ∅)
  obtain ⟨-, -, hagain⟩ := hranges looping _ emit_looping
  exact ⟨.empty, .long 65536, ⟨_, hvar, hvars v _ hvar⟩, _, emit_looping, rfl, hagain⟩

/-- So a fault in the code does not mean that the pool is as it was. -/
theorem exists_residue :
    ¬∀ (calls : List Call) (r : CatchRange) (e e' : Emission) (fault : Fault), fault.InCode →
      r.emit (performAll Body.call calls ∅).2 e = .error fault e' → e'.pool = e.pool := by
  intro hkeeps
  have hsame := hkeeps oversizing looping ⟨∅, []⟩ _ _ (.long 65536) emit_looping
  have hnext := congrArg Pool.next hsame
  rw [Pool.next_ofConstants (by decide)] at hnext
  exact absurd hnext (by decide)

end Emission

end JvmAssembler
