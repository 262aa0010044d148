import JvmAssembler.Code.Emission
import JvmAssembler.Proofs.Code.Holdings

/-!
# Local variables and exception handlers as holders

Whatever a variable or a handler does through the body, the body goes on keeping track of it, and an
operation that fails has done nothing. Those that are given live instructions do not fail.
-/

namespace JvmAssembler

open Body

variable {b : Body} {ps : Holdings} {t : HolderId} {old new : Handle}

def Handle.redirected (old new h : Handle) : Handle := if h = old then new else h

theorem Handle.redirected_self (k h : Handle) : Handle.redirected k k h = h := by
  rw [Handle.redirected]
  split
  · exact Eq.symm ‹_›
  · rfl

theorem Handle.count_redirected (old new h : Handle) (hs : List Handle) :
    (hs.map (Handle.redirected old new)).count h =
      (if h = old then 0 else hs.count h) + if h = new then hs.count old else 0 := by
  induction hs with
  | nil => simp
  | cons k hs ih =>
    simp only [List.map_cons, List.count_cons, ih, Handle.redirected, beq_iff_eq]
    grind

/-- What `old` stood for in each holder, `new` stands for. -/
def Holdings.redirected (old new : Handle) (ps : Holdings) : Holdings :=
  ps.map fun p => (p.1, p.2.map (Handle.redirected old new))

theorem Holdings.redirected_of_not_mem {ps : Holdings} (hps : ∀ p ∈ ps, old ∉ p.2) :
    ps.redirected old new = ps := by
  refine (List.map_congr_left fun p hp => ?_).trans (List.map_id ps)
  have hkeep : p.2.map (Handle.redirected old new) = p.2.map id := by
    refine List.map_congr_left fun h hh => if_neg fun heq => ?_
    exact hps p hp (heq ▸ hh)
  rw [hkeep, List.map_id, id]

theorem Holdings.tally_redirected (old new h : Handle) (t : HolderId) (ps : Holdings) :
    (ps.redirected old new).tally t h =
      (if h = old then 0 else ps.tally t h) + if h = new then ps.tally t old else 0 := by
  induction ps with
  | nil => simp [redirected, tally]
  | cons p ps ih =>
    change tally ((p.1, p.2.map (Handle.redirected old new)) :: redirected old new ps) t h = _
    rw [tally_cons, ih, Handle.count_redirected, tally_cons ps p.1 p.2, tally_cons ps p.1 p.2]
    split_ifs <;> omega

/-- The body can keep track of what `edit` does to something that points at instructions. -/
def Careful {τ : Type} (holding : τ → HolderId × List Handle) (edit : τ → BodyM τ) : Prop :=
  ∀ (b : Body) (ps : Holdings) (x : τ), b.Tracks (holding x :: ps) →
    Atomically (edit x) b fun y b' =>
      b'.lines = b.lines ∧ (holding y).1 = (holding x).1 ∧ b'.Tracks (holding y :: ps)

section Setters

variable {τ : Type} (holding : τ → HolderId × List Handle) (x y : τ) (old new : Option Handle)
  {rest : List Handle}

/-- What every setter does: it moves one registration, and answers `x` with that one changed. -/
theorem set_of_live (hb : b.Tracks (holding x :: ps))
    (hx : List.Perm (holding x).2 (old.toList ++ rest)) (hid : (holding y).1 = (holding x).1)
    (hy : List.Perm (new.toList ++ rest) (holding y).2) (hlive : ∀ k ∈ new, b.contains k) :
    Surely (do rebind (holding x).1 old new; return y) b fun z b' =>
      SameCode b b' ∧ z = y ∧ b'.Tracks (holding z :: ps) := by
  refine ((hb.reorder hx).rebind_of_live old new hlive).bind fun _ b' ⟨hsame, hb'⟩ => ?_
  have hafter := hb'.reorder hy
  rw [← hid] at hafter
  exact .pure ⟨hsame, rfl, hafter⟩

theorem set_atomic (hb : b.Tracks (holding x :: ps))
    (hx : List.Perm (holding x).2 (old.toList ++ rest)) (hid : (holding y).1 = (holding x).1)
    (hy : List.Perm (new.toList ++ rest) (holding y).2) :
    Atomically (do rebind (holding x).1 old new; return y) b fun z b' =>
      b'.lines = b.lines ∧ (holding z).1 = (holding x).1 ∧ b'.Tracks (holding z :: ps) := by
  refine ((hb.reorder hx).rebind old new).bind fun _ b' ⟨hsame, hb'⟩ => ?_
  have hafter := hb'.reorder hy
  rw [← hid] at hafter
  exact .pure ⟨hsame.lines_eq, hid, hafter⟩

end Setters

/-! ### Local variables -/

namespace LocalVar

variable {v : LocalVar}

def holding (v : LocalVar) : HolderId × List Handle := (v.id, v.held)

def redirected (old new : Handle) (v : LocalVar) : LocalVar :=
  { v with start := v.start.map (Handle.redirected old new),
           stop := v.stop.map (Handle.redirected old new) }

theorem held_redirected (old new : Handle) (v : LocalVar) :
    (v.redirected old new).held = v.held.map (Handle.redirected old new) := by
  rw [held, held, redirected, List.map_append]
  cases v.start <;> cases v.stop <;> rfl

theorem redirected_self (k : Handle) (v : LocalVar) : v.redirected k k = v := by
  have hsame : Handle.redirected k k = fun h => h := funext (Handle.redirected_self k)
  simp [redirected, hsame]

theorem redirected_of_not_mem (hold : old ∉ v.held) : v.redirected old new = v := by
  have hkeep {o : Option Handle} (ho : old ∉ o.toList) : o.map (Handle.redirected old new) = o := by
    rcases o with _ | h
    · rfl
    · have hne : h ≠ old := fun heq => ho (by rw [heq]; exact List.mem_singleton_self old)
      exact congrArg some (if_neg hne)
  rw [held, List.mem_append, not_or] at hold
  rw [redirected, hkeep hold.1, hkeep hold.2]

theorem setStart_of_live (start : Option Handle) (hb : b.Tracks (v.holding :: ps))
    (hlive : ∀ k ∈ start, b.contains k) :
    Surely (v.setStart start) b fun w b' =>
      SameCode b b' ∧ w = { v with start } ∧ b'.Tracks (w.holding :: ps) :=
  set_of_live holding v { v with start } v.start start hb (.refl _) rfl (.refl _) hlive

theorem setStop_of_live (stop : Option Handle) (hb : b.Tracks (v.holding :: ps))
    (hlive : ∀ k ∈ stop, b.contains k) :
    Surely (v.setStop stop) b fun w b' =>
      SameCode b b' ∧ w = { v with stop } ∧ b'.Tracks (w.holding :: ps) :=
  set_of_live holding v { v with stop } v.stop stop hb List.perm_append_comm rfl
    List.perm_append_comm hlive

theorem careful_setStart (start : Option Handle) : Careful holding (setStart start) :=
  fun _ _ v hb =>
    set_atomic holding v { v with start } v.start start hb (.refl _) rfl (.refl _)

theorem careful_setStop (stop : Option Handle) : Careful holding (setStop stop) :=
  fun _ _ v hb =>
    set_atomic holding v { v with stop } v.stop stop hb List.perm_append_comm rfl
      List.perm_append_comm

theorem careful_setSlot (slot : Int) : Careful holding (setSlot slot) := by
  intro b ps v hb
  apply Atomically.check (C := fun _ => True) (.ofExcept fun _ _ => ⟨rfl, trivial⟩)
  intro slot _
  exact (Surely.pure ⟨rfl, rfl, hb⟩).atomically

theorem careful_setName (name : UnqualifiedName) : Careful holding (setName name) :=
  fun _ _ _ hb => (Surely.pure ⟨rfl, rfl, hb⟩).atomically

theorem careful_setType (type : FieldType) : Careful holding (setType type) :=
  fun _ _ _ hb => (Surely.pure ⟨rfl, rfl, hb⟩).atomically

theorem release_surely (hb : b.Tracks (v.holding :: ps)) :
    Surely v.release b fun w b' =>
      SameCode b b' ∧ w = { v with start := none, stop := none } ∧ b'.Tracks (w.holding :: ps) := by
  apply (setStart_of_live none hb (by simp)).bind
  intro _ b' hstep
  obtain ⟨hsame, rfl, hb'⟩ := hstep
  apply (setStop_of_live none hb' (by simp)).mono
  intro _ b'' hstep
  obtain ⟨hsame', rfl, hb''⟩ := hstep
  exact ⟨hsame.trans hsame', rfl, hb''⟩

theorem careful_release : Careful holding release := by
  intro b ps v hb
  refine ((release_surely hb).mono ?_).atomically
  intro _ b' hstep
  obtain ⟨hsame, rfl, hb'⟩ := hstep
  exact ⟨hsame.lines_eq, rfl, hb'⟩

/-- A variable is either created with its whole scope, or not at all. -/
theorem create_tracks (hb : b.Tracks ps) (slot : Int) (name : UnqualifiedName) (type : FieldType)
    (start stop : Option Handle) :
    Atomically (create slot name type start stop) b fun v b' =>
      b'.lines = b.lines ∧ b'.Tracks (v.holding :: ps) := by
  apply Atomically.check (C := fun _ => True) (.ofExcept fun _ _ => ⟨rfl, trivial⟩)
  intro slot _
  apply Atomically.check (requireLive_checks _ b)
  intro _ hlive
  refine (hb.freshHolder.bind ?_).atomically
  intro t b₁ ⟨hlines, hb₁⟩
  have hlive₁ : ∀ h ∈ start.toList ++ stop.toList, b₁.contains h := by
    intro h hh
    rw [contains_congr hlines, hlive h hh]
  refine Surely.bind (setStart_of_live (v := ⟨t, slot, name, type, none, none⟩) start hb₁ ?_) ?_
  · exact fun k hk => hlive₁ k (List.mem_append_left _ (Option.mem_toList.mpr hk))
  intro _ b₂ hstep
  obtain ⟨hsame, rfl, hb₂⟩ := hstep
  refine (setStop_of_live stop hb₂ ?_).mono ?_
  · intro k hk
    rw [contains_congr hsame.lines_eq]
    exact hlive₁ k (List.mem_append_right _ (Option.mem_toList.mpr hk))
  intro v b₃ hstep
  obtain ⟨hsame', -, hb₃⟩ := hstep
  exact ⟨by rw [hsame'.lines_eq, hsame.lines_eq, hlines], hb₃⟩

theorem redirected_start (v : LocalVar) : (v.redirected old new).start =
    if v.start = some old then some new else v.start := by
  cases hstart : v.start with
  | none => simp [redirected, hstart]
  | some h => by_cases hh : h = old <;> simp [redirected, hstart, Handle.redirected, hh]

theorem redirected_stop (v : LocalVar) : (v.redirected old new).stop =
    if v.stop = some old then some new else v.stop := by
  cases hstop : v.stop with
  | none => simp [redirected, hstop]
  | some h => by_cases hh : h = old <;> simp [redirected, hstop, Handle.redirected, hh]

theorem substitute_eq (hold : v.holds old) : v.substitute old new =
    (if v.start = some old then v.setStart (some new) else pure v) >>= fun w =>
      if w.stop = some old then w.setStop (some new) else pure w := by
  rw [substitute, if_neg (by simp [hold])]
  split <;> rfl

theorem redirectStart_of_live (old : Handle) (hb : b.Tracks (v.holding :: ps))
    (hlive : b.contains new) :
    Surely (if v.start = some old then v.setStart (some new) else pure v) b fun w b' =>
      SameCode b b' ∧ w = { v with start := (v.redirected old new).start } ∧
        b'.Tracks (w.holding :: ps) := by
  rw [redirected_start]
  split
  · exact setStart_of_live (some new) hb (by simpa using hlive)
  · exact .pure ⟨.refl b, rfl, hb⟩

theorem redirectStop_of_live (old : Handle) (hb : b.Tracks (v.holding :: ps))
    (hlive : b.contains new) :
    Surely (if v.stop = some old then v.setStop (some new) else pure v) b fun w b' =>
      SameCode b b' ∧ w = { v with stop := (v.redirected old new).stop } ∧
        b'.Tracks (w.holding :: ps) := by
  rw [redirected_stop]
  split
  · exact setStop_of_live (some new) hb (by simpa using hlive)
  · exact .pure ⟨.refl b, rfl, hb⟩

theorem substitute_of_live (hb : b.Tracks (v.holding :: ps)) (hold : v.holds old)
    (hlive : b.contains new) :
    Surely (v.substitute old new) b fun w b' =>
      SameCode b b' ∧ w = v.redirected old new ∧ b'.Tracks (w.holding :: ps) := by
  rw [substitute_eq hold]
  apply (redirectStart_of_live old hb hlive).bind
  intro _ b₁ hstep
  obtain ⟨hsame, rfl, hb₁⟩ := hstep
  have hlive₁ : b₁.contains new := by rw [contains_congr hsame.lines_eq, hlive]
  apply (redirectStop_of_live old hb₁ hlive₁).mono
  intro _ b₂ hstep
  obtain ⟨hsame', rfl, hb₂⟩ := hstep
  exact ⟨hsame.trans hsame', rfl, hb₂⟩

/-- Where something goes wrong, it does so before anything has been done. -/
theorem careful_substitute (old new : Handle) : Careful holding (substitute old new) := by
  intro b ps v hb
  by_cases hold : v.holds old
  · by_cases hlive : b.contains new
    · refine ((substitute_of_live hb hold hlive).mono ?_).atomically
      intro _ b' hstep
      obtain ⟨hsame, rfl, hb'⟩ := hstep
      exact ⟨hsame.lines_eq, rfl, hb'⟩
    · have hdead : b.contains new = false := Bool.eq_false_iff.mpr hlive
      refine .inl ⟨.deadHandle new, ?_⟩
      rw [substitute_eq hold]
      by_cases hstart : v.start = some old
      · rw [if_pos hstart]
        exact bind_of_error (bind_of_error (rebind_of_dead hdead v.id v.start))
      · have hstop : v.stop = some old := by
          simpa [holds, held, hstart] using hold
        rw [if_neg hstart, pure_bind, if_pos hstop]
        exact bind_of_error (rebind_of_dead hdead v.id v.stop)
  · refine .inl ⟨.notHeld v.id old, ?_⟩
    rw [substitute, if_pos (by simp [hold])]
    rfl

theorem duplicate_tracks (hb : b.Tracks ps) (v : LocalVar) :
    Atomically v.duplicate b fun w b' => b'.lines = b.lines ∧ b'.Tracks (w.holding :: ps) :=
  create_tracks hb v.slot.toNat v.name v.type v.start v.stop

end LocalVar

/-! ### Exception handlers -/

namespace CatchRange

variable {r : CatchRange}

def holding (r : CatchRange) : HolderId × List Handle := (r.id, r.held)

def redirected (old new : Handle) (r : CatchRange) : CatchRange :=
  { r with first := Handle.redirected old new r.first, last := Handle.redirected old new r.last,
           handler := Handle.redirected old new r.handler }

theorem held_redirected (old new : Handle) (r : CatchRange) :
    (r.redirected old new).held = r.held.map (Handle.redirected old new) := rfl

theorem redirected_self (k : Handle) (r : CatchRange) : r.redirected k k = r := by
  simp [redirected, Handle.redirected_self]

theorem redirected_of_not_mem (hold : old ∉ r.held) : r.redirected old new = r := by
  rw [held, List.mem_cons, List.mem_cons, List.mem_singleton, not_or, not_or] at hold
  have hkeep {h : Handle} (hh : ¬old = h) : Handle.redirected old new h = h := if_neg (Ne.symm hh)
  rw [redirected, hkeep hold.1, hkeep hold.2.1, hkeep hold.2.2]

theorem perm_last (r : CatchRange) : List.Perm r.held [r.last, r.first, r.handler] :=
  .swap ..

theorem perm_handler (r : CatchRange) : List.Perm r.held [r.handler, r.first, r.last] :=
  (List.perm_append_comm : List.Perm ([r.first, r.last] ++ [r.handler]) _)

theorem setFirst_of_live (hb : b.Tracks (r.holding :: ps)) (hlive : b.contains new) :
    Surely (r.setFirst new) b fun s b' =>
      SameCode b b' ∧ s = { r with first := new } ∧ b'.Tracks (s.holding :: ps) :=
  set_of_live holding r { r with first := new } (some r.first) (some new) hb (.refl _) rfl (.refl _)
    (by simpa using hlive)

theorem setLast_of_live (hb : b.Tracks (r.holding :: ps)) (hlive : b.contains new) :
    Surely (r.setLast new) b fun s b' =>
      SameCode b b' ∧ s = { r with last := new } ∧ b'.Tracks (s.holding :: ps) :=
  set_of_live holding r { r with last := new } (some r.last) (some new) hb r.perm_last rfl
    (perm_last { r with last := new }).symm (by simpa using hlive)

theorem setHandler_of_live (hb : b.Tracks (r.holding :: ps)) (hlive : b.contains new) :
    Surely (r.setHandler new) b fun s b' =>
      SameCode b b' ∧ s = { r with handler := new } ∧ b'.Tracks (s.holding :: ps) :=
  set_of_live holding r { r with handler := new } (some r.handler) (some new) hb r.perm_handler rfl
    (perm_handler { r with handler := new }).symm (by simpa using hlive)

theorem careful_setFirst (first : Handle) : Careful holding (setFirst first) :=
  fun _ _ r hb =>
    set_atomic holding r { r with first } (some r.first) (some first) hb (.refl _) rfl (.refl _)

theorem careful_setLast (last : Handle) : Careful holding (setLast last) :=
  fun _ _ r hb =>
    set_atomic holding r { r with last } (some r.last) (some last) hb r.perm_last rfl
      (perm_last { r with last }).symm

theorem careful_setHandler (handler : Handle) : Careful holding (setHandler handler) :=
  fun _ _ r hb =>
    set_atomic holding r { r with handler } (some r.handler) (some handler) hb r.perm_handler rfl
      (perm_handler { r with handler }).symm

theorem careful_setCaught (caught : Option BinaryName) : Careful holding (setCaught caught) :=
  fun _ _ _ hb => (Surely.pure ⟨rfl, rfl, hb⟩).atomically

theorem acquire_of_live {hs ks : List Handle} (hb : b.Tracks ((t, ks) :: ps))
    (hlive : ∀ h ∈ hs, b.contains h) :
    Surely (hs.forM fun h => rebind t none (some h)) b fun _ b' =>
      SameCode b b' ∧ b'.Tracks ((t, hs ++ ks) :: ps) := by
  induction hs generalizing b ks with
  | nil => exact .pure ⟨.refl b, hb⟩
  | cons h hs ih =>
    obtain ⟨hfirst, hrest⟩ := List.forall_mem_cons.mp hlive
    rw [List.forM]
    apply (hb.rebind_of_live none (some h) (by simpa using hfirst)).bind
    rintro _ b₁ ⟨hsame, hb₁⟩
    refine (ih hb₁ fun k hk => ?_).mono ?_
    · rw [contains_congr hsame.lines_eq, hrest k hk]
    rintro _ b₂ ⟨hsame', hb₂⟩
    exact ⟨hsame.trans hsame', hb₂.reorder List.perm_middle⟩

theorem giveUp_surely {hs : List Handle} (hb : b.Tracks ((t, hs) :: ps)) :
    Surely (hs.forM fun h => rebind t (some h) none) b fun _ b' =>
      SameCode b b' ∧ b'.Tracks ((t, []) :: ps) := by
  induction hs generalizing b with
  | nil => exact .pure ⟨.refl b, hb⟩
  | cons h hs ih =>
    rw [List.forM]
    apply (hb.rebind_of_live (some h) none (by simp)).bind
    rintro _ b₁ ⟨hsame, hb₁⟩
    apply (ih hb₁).mono
    rintro _ b₂ ⟨hsame', hb₂⟩
    exact ⟨hsame.trans hsame', hb₂⟩

/-- A range is either created with all its registrations, or not at all. -/
theorem create_tracks (hb : b.Tracks ps) (first last handler : Handle)
    (caught : Option BinaryName) :
    Atomically (create first last handler caught) b fun r b' =>
      b'.lines = b.lines ∧ b'.Tracks (r.holding :: ps) := by
  apply Atomically.check (requireLive_checks [first, last, handler] b)
  intro _ hlive
  refine (hb.freshHolder.bind ?_).atomically
  intro t b₁ ⟨hlines, hb₁⟩
  refine (acquire_of_live hb₁ fun h hh => ?_).bind ?_
  · rw [contains_congr hlines, hlive h hh]
  intro _ b₂ ⟨hsame, hb₂⟩
  exact .pure ⟨by rw [hsame.lines_eq, hlines], hb₂⟩

theorem release_surely (hb : b.Tracks (r.holding :: ps)) :
    Surely r.release b fun _ b' => SameCode b b' ∧ b'.Tracks ps :=
  (giveUp_surely hb).mono fun _ _ ⟨hsame, hb'⟩ => ⟨hsame, hb'.forget⟩

theorem substitute_eq (hold : r.holds old) : r.substitute old new =
    (if r.first = old then r.setFirst new else pure r) >>= fun s =>
      (if s.last = old then s.setLast new else pure s) >>= fun s =>
        if s.handler = old then s.setHandler new else pure s := by
  have hjoin (s : CatchRange) (next : CatchRange → BodyM CatchRange) :
      (if s.last = old then s.setLast new >>= next else pure s >>= next) =
        (if s.last = old then s.setLast new else pure s) >>= next := by
    split <;> rfl
  rw [substitute, if_neg (by simp [hold])]
  simp only [hjoin]
  split <;> rfl

theorem redirectFirst_of_live (old : Handle) (hb : b.Tracks (r.holding :: ps))
    (hlive : b.contains new) :
    Surely (if r.first = old then r.setFirst new else pure r) b fun s b' =>
      SameCode b b' ∧ s = { r with first := Handle.redirected old new r.first } ∧
        b'.Tracks (s.holding :: ps) := by
  rw [Handle.redirected]
  split
  · exact setFirst_of_live hb hlive
  · exact .pure ⟨.refl b, rfl, hb⟩

theorem redirectLast_of_live (old : Handle) (hb : b.Tracks (r.holding :: ps))
    (hlive : b.contains new) :
    Surely (if r.last = old then r.setLast new else pure r) b fun s b' =>
      SameCode b b' ∧ s = { r with last := Handle.redirected old new r.last } ∧
        b'.Tracks (s.holding :: ps) := by
  rw [Handle.redirected]
  split
  · exact setLast_of_live hb hlive
  · exact .pure ⟨.refl b, rfl, hb⟩

theorem redirectHandler_of_live (old : Handle) (hb : b.Tracks (r.holding :: ps))
    (hlive : b.contains new) :
    Surely (if r.handler = old then r.setHandler new else pure r) b fun s b' =>
      SameCode b b' ∧ s = { r with handler := Handle.redirected old new r.handler } ∧
        b'.Tracks (s.holding :: ps) := by
  rw [Handle.redirected]
  split
  · exact setHandler_of_live hb hlive
  · exact .pure ⟨.refl b, rfl, hb⟩

theorem substitute_of_live (hb : b.Tracks (r.holding :: ps)) (hold : r.holds old)
    (hlive : b.contains new) :
    Surely (r.substitute old new) b fun s b' =>
      SameCode b b' ∧ s = r.redirected old new ∧ b'.Tracks (s.holding :: ps) := by
  rw [substitute_eq hold]
  apply (redirectFirst_of_live old hb hlive).bind
  intro _ b₁ hstep
  obtain ⟨hsame₁, rfl, hb₁⟩ := hstep
  have hlive₁ : b₁.contains new := by rw [contains_congr hsame₁.lines_eq, hlive]
  apply (redirectLast_of_live old hb₁ hlive₁).bind
  intro _ b₂ hstep
  obtain ⟨hsame₂, rfl, hb₂⟩ := hstep
  have hlive₂ : b₂.contains new := by rw [contains_congr hsame₂.lines_eq, hlive₁]
  apply (redirectHandler_of_live old hb₂ hlive₂).mono
  intro _ b₃ hstep
  obtain ⟨hsame₃, rfl, hb₃⟩ := hstep
  exact ⟨(hsame₁.trans hsame₂).trans hsame₃, rfl, hb₃⟩

theorem careful_substitute (old new : Handle) : Careful holding (substitute old new) := by
  intro b ps r hb
  by_cases hold : r.holds old
  · by_cases hlive : b.contains new
    · refine ((substitute_of_live hb hold hlive).mono ?_).atomically
      intro _ b' hstep
      obtain ⟨hsame, rfl, hb'⟩ := hstep
      exact ⟨hsame.lines_eq, rfl, hb'⟩
    · have hdead : b.contains new = false := Bool.eq_false_iff.mpr hlive
      refine .inl ⟨.deadHandle new, ?_⟩
      rw [substitute_eq hold]
      by_cases hfirst : r.first = old
      · rw [if_pos hfirst]
        exact bind_of_error (bind_of_error (rebind_of_dead hdead r.id _))
      rw [if_neg hfirst, pure_bind]
      by_cases hlast : r.last = old
      · rw [if_pos hlast]
        exact bind_of_error (bind_of_error (rebind_of_dead hdead r.id _))
      · have hhandler : r.handler = old := by
          have hmem : old = r.first ∨ old = r.last ∨ old = r.handler := by
            simpa [holds, held] using hold
          rcases hmem with h | h | h
          · exact absurd h.symm hfirst
          · exact absurd h.symm hlast
          · exact h.symm
        rw [if_neg hlast, pure_bind, if_pos hhandler]
        exact bind_of_error (rebind_of_dead hdead r.id _)
  · refine .inl ⟨.notHeld r.id old, ?_⟩
    rw [substitute, if_pos (by simp [hold])]
    rfl

end CatchRange

end JvmAssembler
