import JvmAssembler.Proofs.Emission
import JvmAssembler.Proofs.Pool.Loadable

/-!
# Well-formed pools

A pool is well-formed if the references of all its constants lead to strings. Interning cannot undo that,
since strings stay where they are, as long as a new constant refers to strings that are there already.
Of what a pool interns by itself the string comes first, so it may stop half way; what is asked of it with
an index is well-formed if that is the index of a string. A well-formed pool can be written unless a
string in it is too long.
-/

namespace JvmAssembler

open Binary (Bytes)
open Text

/-! ### Writing constants -/

/-- A constant can be written unless it is a string whose bytes cannot be counted in 16 bits. -/
theorem Constant.encode_eq_error_iff {c : Constant} {fault : Fault} : c.encode = .error fault ↔
    ∃ text, c = .utf8 text ∧ 65535 < (ModifiedUtf8.encode text).length ∧
      fault = .utf8TooLong (ModifiedUtf8.encode text).length := by
  cases c with
  | utf8 text =>
    rw [encode, encodeBody, encodeText]
    split
    next hle =>
      constructor
      · intro h
        cases h
      · rintro ⟨_, heq, hlong, -⟩
        cases heq
        omega
    next hlong =>
      constructor
      · intro h
        cases h
        exact ⟨text, rfl, by omega, rfl⟩
      · rintro ⟨_, heq, -, rfl⟩
        cases heq
        rfl
  | _ => simp [encode, encodeBody]

namespace Pool

variable {c : Constant} {cs : List Constant} {pool pool' start : Pool} {r : Ref .utf8}

/-! ### Checking -/

def Leads (pool : Pool) (r : Ref .utf8) : Prop := ∃ text, pool.utf8At r = .ok text

def Linked (pool : Pool) : Prop := ∀ p ∈ pool.constants.toList, ∀ r ∈ p.2.refs, pool.Leads r

theorem Extends.leads (h : Extends pool pool') (hr : pool.Leads r) : pool'.Leads r := by
  obtain ⟨text, htext⟩ := hr
  exact ⟨text, h.utf8At htext⟩

/-- A string is looked up by its kind as well as by what it says, and fails to be in the same way. -/
theorem discard_getOfKind_utf8 (pool : Pool) (r : Ref .utf8) :
    discard (pool.getOfKind r.index .utf8) = discard (pool.utf8At r) := by
  rw [getOfKind, utf8At]
  cases pool.get r.index with
  | error fault => rfl
  | ok c => cases c <;> rfl

/-- To check a constant is to follow its references and to forget where they lead. -/
theorem checkConstant_eq (pool : Pool) (c : Constant) :
    pool.checkConstant c = discard (pool.resolve c) := by
  cases c with
  | classRef name =>
    rw [checkConstant, discard_getOfKind_utf8, resolve, Entry.follow]
    cases pool.utf8At name <;> rfl
  | stringRef text =>
    rw [checkConstant, discard_getOfKind_utf8, resolve, Entry.follow]
    cases pool.utf8At text <;> rfl
  | nameAndType name descriptor =>
    rw [checkConstant, discard_getOfKind_utf8, discard_getOfKind_utf8, resolve, Entry.follow]
    cases pool.utf8At name with
    | error fault => rfl
    | ok text => cases pool.utf8At descriptor <;> rfl
  | _ => rfl

theorem check_eq (pool : Pool) : pool.check = pool.toList.forM fun p => discard (pool.resolve p.2) := by
  rw [check]
  congr 1
  funext p
  exact pool.checkConstant_eq p.2

theorem checkConstant_eq_ok_iff : pool.checkConstant c = .ok () ↔ ∀ r ∈ c.refs, pool.Leads r := by
  cases c with
  | classRef name =>
    rw [checkConstant, discard_getOfKind_utf8, discard_eq_ok_iff, Entry.refs, List.forall_mem_singleton,
      Leads]
  | stringRef text =>
    rw [checkConstant, discard_getOfKind_utf8, discard_eq_ok_iff, Entry.refs, List.forall_mem_singleton,
      Leads]
  | nameAndType name descriptor =>
    rw [checkConstant, seq_eq_ok_iff, discard_getOfKind_utf8, discard_getOfKind_utf8, discard_eq_ok_iff,
      discard_eq_ok_iff, Entry.refs, List.forall_mem_cons, List.forall_mem_singleton, Leads, Leads]
  | _ => simp [checkConstant, Entry.refs, pure, Except.pure]

theorem check_eq_ok_iff : pool.check = .ok () ↔ pool.Linked := by
  rw [check, forM_eq_ok_iff, toList, List.forall_mem_map]
  exact forall₂_congr fun _ _ => checkConstant_eq_ok_iff

/-! ### Interning -/

theorem Built.linked_iff (h : pool.Built cs) :
    pool.Linked ↔ ∀ c ∈ cs, ∀ r ∈ c.refs, pool.Leads r := by
  rw [Linked, h.toList_eq]
  conv_rhs => rw [← map_snd_placedFrom 1 cs, List.forall_mem_map]

/-- The second pool has the constants of the first, and all its references lead to strings. -/
def Grown (pool pool' : Pool) : Prop := Extends pool pool' ∧ pool'.Linked

theorem Grown.trans {pool'' : Pool} (h : Grown pool pool') (h' : Grown pool' pool'') :
    Grown pool pool'' := ⟨h.1.trans h'.1, h'.2⟩

theorem Grown.right (h : Grown pool pool') : Grown pool' pool' := ⟨h.1.right, h.2⟩

theorem intern_grown (hrefs : ∀ r ∈ c.refs, start.Leads r) : Preserves (Grown start) (intern c) := by
  intro pool h
  have hext := intern_extends c pool pool h.1.right
  refine ⟨h.1.trans hext, ?_⟩
  obtain ⟨cs, hcs⟩ := h.1.built
  rcases hcs.intern c with hsame | ⟨-, hbuilt⟩
  · rw [hsame]
    exact h.2
  · rw [hbuilt.linked_iff]
    intro d hd r hr
    rcases List.mem_append.mp hd with hd | hd
    · exact hext.leads (hcs.linked_iff.mp h.2 d hd r hr)
    · rw [List.mem_singleton.mp hd] at hr
      exact hext.leads (h.1.leads (hrefs r hr))

theorem internNamed_grown {make : Ref .utf8 → Constant} (hmake : ∀ r, (make r).refs = [r])
    (text : String) : Preserves (Grown start) (internNamed make text) := by
  intro pool h
  have hutf8 : Preserves (Grown start) (internUtf8 text) := (intern_grown (by simp [Entry.refs])).map
  have hmiddle := hutf8 pool h
  obtain ⟨cs, hcs⟩ := h.1.built
  cases hok : internUtf8 text pool with
  | error fault middle =>
    rw [outcome_of_error hok] at hmiddle
    rwa [internNamed, outcome_of_error (bind_of_error hok)]
  | ok r middle =>
    rw [outcome_of_ok hok] at hmiddle
    have hleads : ∀ k ∈ (make r).refs, middle.Leads k := by
      rw [hmake, List.forall_mem_singleton]
      exact ⟨text, (hcs.internUtf8_ok hok).2.2⟩
    rw [internNamed, outcome, bind_of_ok hok]
    exact hmiddle.trans (intern_grown hleads middle hmiddle.right)

theorem kept_grown (start : Pool) : Kept (Grown start) where
  plain c hc := intern_grown (by simp [hc])
  className name := by
    rw [internClassNamed_eq]
    exact (internNamed_grown (fun _ => rfl) name).map
  string text := by
    rw [internLoadable_string]
    exact internNamed_grown (fun _ => rfl) text

/-! ### Writing -/

/-- A string of the pool takes this number of bytes, which 16 bits cannot count. -/
def Oversized (pool : Pool) (size : Nat) : Prop :=
  ∃ p ∈ pool.constants.toList, ∃ text, p.2 = .utf8 text ∧
    size = (ModifiedUtf8.encode text).length ∧ 65535 < size

theorem Linked.emit_eq (h : pool.Linked) : pool.emit = pool.encode := by
  rw [emit, check_eq_ok_iff.mpr h]
  rfl

/-- A well-formed pool can be written unless one of its strings is too long. -/
theorem Linked.emit_eq_error (h : pool.Linked) {fault : Fault} (hfault : pool.emit = .error fault) :
    ∃ size, pool.Oversized size ∧ fault = .utf8TooLong size := by
  rw [h.emit_eq, encode] at hfault
  rcases error_of_bind hfault with hfault | ⟨_, -, hfault⟩
  · obtain ⟨p, hp, hc⟩ := exists_of_mapM_error hfault
    obtain ⟨q, hq, rfl⟩ := List.mem_map.mp hp
    obtain ⟨text, heq, hlong, rfl⟩ := Constant.encode_eq_error_iff.mp hc
    exact ⟨_, ⟨q, hq, text, heq, rfl, hlong⟩, rfl⟩
  · cases hfault

theorem Oversized.emit_fails {size : Nat} (h : pool.Oversized size) :
    ∃ fault, pool.emit = .error fault := by
  obtain ⟨p, hp, text, heq, rfl, hlong⟩ := h
  have hc := Constant.encode_eq_error_iff.mpr ⟨text, heq, hlong, rfl⟩
  obtain ⟨fault, hfault⟩ := mapM_of_error (f := fun q : UInt16 × Constant => q.2.encode)
    (List.mem_map_of_mem (f := fun q => (UInt16.ofNat q.1, q.2)) hp) hc
  have hencode : pool.encode = .error fault := by
    rw [encode, toList, hfault]
    rfl
  cases hcheck : pool.check with
  | error fault' => exact ⟨fault', by rw [emit, hcheck]; rfl⟩
  | ok _ => exact ⟨fault, by rw [emit, hcheck, ← hencode]; rfl⟩

end Pool

namespace Emission

variable {start : Pool}

/-- The index that has been answered to a request for a string. -/
def textIndex? : Task → Except Fault Product → Option UInt16
  | .request (.utf8 _), .ok (.index i) => some i
  | _, _ => none

/-- The indices that a session has answered to requests for strings. -/
def textIndices (tasks : List Task) (answers : List (Except Fault Product)) : List UInt16 :=
  (tasks.zip answers).filterMap fun p => textIndex? p.1 p.2

theorem exists_of_textIndex? {task : Task} {answer : Except Fault Product} {i : UInt16}
    (h : textIndex? task answer = some i) :
    (∃ text, task = .request (.utf8 text)) ∧ answer = .ok (.index i) := by
  unfold textIndex? at h
  split at h
  next text j =>
    cases h
    exact ⟨⟨text, rfl⟩, rfl⟩
  · cases h

theorem textIndex_leads {e e' : Emission} (he : Pool.Extends e.pool e.pool) {text : String} {i : UInt16}
    (hok : perform (.request (.utf8 text)) e = .ok (.index i) e') : e'.pool.Leads ⟨i⟩ := by
  obtain ⟨cs, hcs⟩ := he.built
  obtain ⟨j, hj, heq⟩ := exists_of_map_ok hok
  cases heq
  obtain ⟨r, hr, rfl⟩ := exists_of_map_ok (EmitM.onPool_ok hj)
  exact ⟨text, (hcs.internUtf8_ok hr).2.2⟩

theorem leads_of_mem_textIndices (tasks : List Task) {e : Emission}
    (he : Pool.Extends e.pool e.pool) {i : UInt16}
    (hi : i ∈ textIndices tasks (performAll perform tasks e).1) :
    (performAll perform tasks e).2.pool.Leads ⟨i⟩ := by
  induction tasks generalizing e with
  | nil => cases hi
  | cons task tasks ih =>
    have hnext : Pool.Extends e.pool (outcome (perform task) e).2.pool := performAll_extends [task] he
    rw [performAll_cons, textIndices, List.zip_cons_cons, List.filterMap_cons] at hi
    rw [performAll_cons]
    split at hi
    · exact ih hnext.right hi
    next j hhead =>
      rcases List.mem_cons.mp hi with rfl | hi
      · obtain ⟨⟨text, rfl⟩, hanswer⟩ := exists_of_textIndex? hhead
        have hleads := textIndex_leads he (ok_of_outcome hanswer)
        exact (performAll_extends tasks hnext.right).leads hleads
      · exact ih hnext.right hi

/-- Each index that comes with a task for a reference is one that has been answered to a request for a
string before. -/
def Sourced (e : Emission) : (done tasks : List Task) → Prop
  | _, [] => True
  | done, task :: tasks =>
    (∀ c ∈ task.given, ∀ r ∈ c.refs, r.index ∈ textIndices done (performAll perform done e).1) ∧
      Sourced e (done ++ [task]) tasks

theorem linked_of_sourced {e : Emission} (he : Pool.Extends e.pool e.pool) (before after : List Task)
    (hlinked : (performAll perform before e).2.pool.Linked) (hsourced : Sourced e before after) :
    (performAll perform (before ++ after) e).2.pool.Linked := by
  induction after generalizing before with
  | nil => rwa [List.append_nil]
  | cons task after ih =>
    obtain ⟨hfirst, hrest⟩ := hsourced
    have hnow := (performAll_extends before he).right
    have hleads : ∀ c ∈ task.given, ∀ r ∈ c.refs, (performAll perform before e).2.pool.Leads r :=
      fun c hc r hr => leads_of_mem_textIndices before he (hfirst c hc r hr)
    have hstep := perform_preserves (Pool.kept_grown _) task
      (fun c hc => Pool.intern_grown (hleads c hc)) (performAll perform before e).2 ⟨hnow, hlinked⟩
    rw [List.append_cons]
    apply ih (before ++ [task])
    · rw [performAll_append]
      exact hstep.2
    · exact hrest

/-- A well-formed pool stays well-formed, whatever is emitted into it and whether or not that succeeds, if
strings are referred to by indices that were answered for them. Then all that can keep the pool from
being written is a string that is too long, and such a string does. -/
theorem session_stays_well_formed (hstart : Pool.Origin start) (notices : List Notice)
    (before after : List Task)
    (hcheck : (performAll perform before ⟨start, notices⟩).2.pool.check = .ok ())
    (hsourced : Sourced ⟨start, notices⟩ before after) :
    let pool := (performAll perform (before ++ after) ⟨start, notices⟩).2.pool
    pool.check = .ok () ∧
      (∀ fault, pool.emit = .error fault → ∃ size, pool.Oversized size ∧ fault = .utf8TooLong size) ∧
      ∀ size, pool.Oversized size → ∃ fault, pool.emit = .error fault := by
  intro pool
  obtain ⟨cs, hcs⟩ := hstart.built
  have hlinked : pool.Linked :=
    linked_of_sourced hcs.extends before after (Pool.check_eq_ok_iff.mp hcheck) hsourced
  exact ⟨Pool.check_eq_ok_iff.mpr hlinked, fun _ => hlinked.emit_eq_error, fun _ h => h.emit_fails⟩

/-- A class is asked for whose name has just been interned into a pool that was read. -/
theorem session_stays_well_formed_with_class :
    let start := Pool.ofConstants [.utf8 "A", .classRef ⟨1⟩]
    let tasks : List Task := [.request (.utf8 "B"), .request (.classRef ⟨3⟩)]
    Pool.Origin start ∧ start.check = .ok () ∧ Sourced ⟨start, []⟩ [] tasks ∧
      (performAll perform tasks ⟨start, []⟩).2.pool.check = .ok () := by
  intro start tasks
  have hstart : start.Built [.utf8 "A", .classRef ⟨1⟩] := ⟨rfl, by decide⟩
  have hread : start.encode = .ok [0, 3, 1, 0, 1, 65, 7, 0, 1] := by
    rw [hstart.encode_eq]
    rfl
  have horigin := hstart.origin hread
  have hname : start.get 1 = .ok (.utf8 "A") := hstart.get_eq_ok_iff.mpr List.mem_cons_self
  have hleads : start.Leads ⟨1⟩ := ⟨"A", by rw [Pool.utf8At, hname]; rfl⟩
  have hcheck : start.check = .ok () := by
    rw [Pool.check_eq_ok_iff, hstart.linked_iff]
    simp [Entry.refs, hleads]
  have hutf8 : perform (.request (.utf8 "B")) ⟨start, []⟩ =
      .ok (.index 3) ⟨Pool.ofConstants [.utf8 "A", .classRef ⟨1⟩, .utf8 "B"], []⟩ := by
    have hintern : Pool.perform (.utf8 "B") start =
        .ok 3 (Pool.ofConstants [.utf8 "A", .classRef ⟨1⟩, .utf8 "B"]) :=
      map_of_ok _ (map_of_ok _ (hstart.intern_new (by decide) (by decide)))
    exact map_of_ok _ (EmitM.onPool_of_ok hintern)
  have hsourced : Sourced ⟨start, []⟩ [] tasks := by
    refine ⟨by simp [Task.given, Pool.Request.given], fun c hc r hr => ?_, trivial⟩
    cases hc
    cases List.mem_singleton.mp hr
    rw [List.nil_append, performAll_cons, outcome_of_ok hutf8]
    exact List.mem_cons_self
  exact ⟨horigin, hcheck, hsourced, (session_stays_well_formed horigin [] [] tasks hcheck hsourced).1⟩

end Emission

end JvmAssembler
