import JvmAssembler.Proofs.Code.Holdings

/-!
# Registrations that nobody keeps track of

A body does not ask who registers. A holder may be one that was never given out, it may give up what it
does not have, and it may move from an instruction to that same instruction. None of this leaves an entry
behind that counts nothing, nor one for an instruction that is gone, so that an entry alone can decide
whether an instruction may be removed. What is counted in the end is told by the calls that succeeded.
-/

namespace JvmAssembler

abbrev Tally := Handle → HolderId → Nat

namespace Tally

/-- One registration of `t` at `old` is given up, if there is one, and then one at `new` is made. -/
def move (n : Tally) (t : HolderId) (old new : Option Handle) : Tally := fun h u =>
  (n h u - if old = some h ∧ u = t then 1 else 0) + if new = some h ∧ u = t then 1 else 0

/-- The tally after a call, told from what the call was answered. -/
def follow (n : Tally) : Call × Except Fault Reply → Tally
  | (.rebind t old new, .ok _) => n.move t old new
  | _ => n

end Tally

namespace Registry

/-- Everything that is asked about what points at `h` is answered by the counts. -/
structure ReadsCounts (r : Registry) (h : Handle) : Prop where
  isHeld_iff : r.isHeld h ↔ ∃ t, 1 ≤ r.count h t
  isHeldBy_iff : ∀ t, r.isHeldBy h t ↔ 1 ≤ r.count h t
  mem_holders_iff : ∀ t, t ∈ r.holders h ↔ 1 ≤ r.count h t
  ordered : (r.holders h).Pairwise fun t u => t.id < u.id

theorem Tight.readsCounts {r : Registry} (hr : r.Tight) (h : Handle) : r.ReadsCounts h where
  isHeld_iff := by simpa only [Nat.one_le_iff_ne_zero] using hr.isHeld_iff
  isHeldBy_iff t := by simpa only [Nat.one_le_iff_ne_zero] using hr.isHeldBy_iff
  mem_holders_iff t := by simpa only [Nat.one_le_iff_ne_zero] using hr.mem_holders_iff
  ordered := r.pairwise_holders h

end Registry

namespace Body

variable {b : Body} {r : Registry} {t : HolderId} {old new : Option Handle} {h : Handle}

/-! ### Entries -/

/-- Nothing is kept that counts nothing, and what something points at is there. -/
structure Registered (b : Body) : Prop where
  shows : ∃ l, b.Shows l
  tight : b.registry.Tight
  live : ∀ h, b.isHeld h → b.contains h

theorem Registered.empty : (∅ : Body).Registered where
  shows := ⟨∅, .empty⟩
  tight := Registry.tight_empty
  live h hheld := by
    obtain ⟨t, ht⟩ := Registry.tight_empty.isHeld_iff.mp hheld
    exact absurd (Registry.count_empty h t) ht

theorem Registered.contains_of_entry (hb : b.Registered) {held : Std.ExtTreeMap HolderId Nat}
    (hheld : b.registry.counts[h]? = some held) : b.contains h :=
  hb.live h (Registry.isHeld_iff_exists_entry.mpr ⟨held, hheld⟩)

theorem count_rebound_eq_move (r : Registry) (t : HolderId) (old new : Option Handle) :
    (rebound r t old new).count = Tally.move r.count t old new := by
  have hone (handle : Option Handle) (h : Handle) (u : HolderId) :
      (if t = u then handle.toList.count h else 0) = if handle = some h ∧ u = t then 1 else 0 := by
    by_cases hu : t = u
    · cases handle <;> simp [hu, List.count_singleton]
    · simp [hu, Ne.symm hu]
  funext h u
  rw [count_rebound, hone, hone, Tally.move]

/-- Only the instruction that a registration moves to can be pointed at for the first time. -/
theorem isHeld_of_rebound (hr : r.Tight) (hheld : (rebound r t old new).isHeld h) :
    r.isHeld h ∨ new = some h := by
  obtain ⟨u, hu⟩ := (tight_rebound hr t old new).isHeld_iff.mp hheld
  by_cases hnew : new = some h
  · exact .inr hnew
  · have hadded : ¬(new = some h ∧ u = t) := fun hboth => hnew hboth.1
    rw [count_rebound_eq_move, Tally.move, if_neg hadded] at hu
    exact .inl (hr.isHeld_iff.mpr ⟨u, by omega⟩)

theorem Registered.rebind (hb : b.Registered) (t : HolderId) (old new : Option Handle) :
    (outcome (rebind t old new) b).2.Registered := by
  rcases rebind_cases t old new b with ⟨hlive, hok⟩ | ⟨k, -, -, herror⟩
  · rw [outcome_of_ok hok]
    obtain ⟨l, hl⟩ := hb.shows
    constructor
    case shows => exact ⟨_, SameCode.shows rfl hl⟩
    case tight => exact tight_rebound hb.tight t old new
    case live =>
      intro h hheld
      rcases isHeld_of_rebound hb.tight hheld with hbefore | hnew
      · exact hb.live h hbefore
      · exact hlive h hnew
  · rwa [outcome_of_error herror]

theorem Registered.perform (hb : b.Registered) (e : Edit) :
    Atomically (perform e) b fun _ b' => b'.registry = b.registry ∧ b'.Registered := by
  -- Of the edits only a removal could take an instruction from under its entry, and it refuses to.
  rcases perform_atomic e b with herror | ⟨reply, b', hok, -⟩
  · exact .inl herror
  obtain ⟨l, hl⟩ := hb.shows
  obtain ⟨hshows, hregistry, -, hkeeps⟩ := hl.perform_keeps hok
  refine .inr ⟨reply, b', hok, hregistry, hshows, hregistry ▸ hb.tight, fun h hheld => ?_⟩
  rw [isHeld, hregistry] at hheld
  exact hkeeps h (hb.live h hheld) hheld

theorem Registered.call (hb : b.Registered) (c : Call) : (outcome (call c) b).2.Registered := by
  cases c with
  | edit e => exact ((hb.perform e).preserves ⟨rfl, hb⟩).2
  | rebind t old new =>
    rw [Body.call, snd_outcome_map]
    exact hb.rebind t old new

theorem registered_performAll (calls : List Call) : (performAll Body.call calls ∅).2.Registered :=
  performAll_preserves (fun c _ hb => hb.call c) calls .empty

/-! ### Counts -/

/-- Only a rebinding that succeeds changes what is counted. -/
theorem Registered.count_call (hb : b.Registered) (c : Call) :
    (outcome (Body.call c) b).2.registry.count =
      Tally.follow b.registry.count (c, (outcome (Body.call c) b).1) := by
  cases c with
  | edit e =>
    have hregistry : (outcome (Body.call (.edit e)) b).2.registry = b.registry :=
      ((hb.perform e).preserves ⟨rfl, hb⟩).1
    rw [hregistry]
    rfl
  | rebind t old new =>
    rcases rebind_cases t old new b with ⟨-, hok⟩ | ⟨k, -, -, herror⟩
    · have hcall : Body.call (.rebind t old new) b = _ := map_of_ok _ hok
      rw [outcome_of_ok hcall]
      exact count_rebound_eq_move b.registry t old new
    · have hcall : Body.call (.rebind t old new) b = _ := map_of_error _ herror
      rw [outcome_of_error hcall]
      rfl

/-- What is counted after a session is told by its calls and their answers. -/
theorem Registered.count_performAll (hb : b.Registered) (calls : List Call) :
    (performAll Body.call calls b).2.registry.count =
      (calls.zip (performAll Body.call calls b).1).foldl Tally.follow b.registry.count := by
  -- The tally goes on from what is counted already, so any body may be the first.
  induction calls generalizing b with
  | nil => rfl
  | cons c calls ih =>
    rw [performAll_cons, List.zip_cons_cons, List.foldl_cons, ← hb.count_call]
    exact ih (hb.call c)

/-! ### Ends -/

/-- How removing the instruction under `h` ends. -/
structure ErasureEnds (b : Body) (h : Handle) (answer : Except Fault Instruction) (b' : Body) :
    Prop where
  ok_iff : ∀ i, answer = .ok i ↔ b.instruction h = .ok i ∧ b.registry.counts[h]? = none
  error_iff : ∀ e, answer = .error e ↔
    (b.contains h = false ∧ e = .deadHandle h) ∨
      (b.contains h ∧ (∃ held, b.registry.counts[h]? = some held) ∧ e = .stillHeld h (b.holders h))
  failed : ∀ e, answer = .error e → b' = b

/-- How moving a registration of `t` from `old` to `new` ends. -/
structure RebindingEnds (b : Body) (t : HolderId) (old new : Option Handle)
    (answer : Except Fault Unit) (b' : Body) : Prop where
  ok_iff : answer = .ok () ↔ ∀ k ∈ new, b.contains k
  error_iff : ∀ e, answer = .error e ↔ ∃ k, new = some k ∧ b.contains k = false ∧ e = .deadHandle k
  failed : ∀ e, answer = .error e → b' = b
  sameCode : b.SameCode b'
  count_eq : answer = .ok () → b'.registry.count = Tally.move b.registry.count t old new

theorem erase_ends (b : Body) (h : Handle) :
    b.ErasureEnds h (outcome (erase h) b).1 (outcome (erase h) b).2 := by
  rcases erase_cases h b with
    ⟨hdead, hend⟩ | ⟨hlive, hheld, hend⟩ | ⟨hlive, hfree, i, b', hi, hend⟩
  · rw [outcome_of_error hend]
    constructor
    case ok_iff => simp [instruction_of_dead hdead]
    case error_iff => simp [hdead, eq_comm]
    case failed => exact fun _ _ => rfl
  · rw [outcome_of_error hend]
    obtain ⟨held, hentry⟩ := Registry.isHeld_iff_exists_entry.mp hheld
    constructor
    case ok_iff => simp [hentry]
    case error_iff => simp [hlive, hentry, eq_comm]
    case failed => exact fun _ _ => rfl
  · rw [outcome_of_ok hend]
    have hnone := Registry.isHeld_eq_false_iff.mp hfree
    constructor
    case ok_iff => simp [hi, hnone]
    case error_iff => simp [hlive, hnone]
    case failed => rintro e ⟨⟩

theorem rebind_ends (b : Body) (t : HolderId) (old new : Option Handle) :
    b.RebindingEnds t old new (outcome (rebind t old new) b).1 (outcome (rebind t old new) b).2 := by
  rcases rebind_cases t old new b with ⟨hlive, hend⟩ | ⟨k, rfl, hdead, hend⟩
  · rw [outcome_of_ok hend]
    constructor
    case ok_iff => exact iff_of_true rfl hlive
    case error_iff =>
      intro e
      refine iff_of_false (by simp) ?_
      rintro ⟨k, hk, hdead, -⟩
      rw [hlive k hk] at hdead
      cases hdead
    case failed => rintro e ⟨⟩
    case sameCode => rfl
    case count_eq => exact fun _ => count_rebound_eq_move b.registry t old new
  · rw [outcome_of_error hend]
    constructor
    case ok_iff => simp [hdead]
    case error_iff =>
      intro e
      constructor
      · rintro ⟨⟩
        exact ⟨k, rfl, hdead, rfl⟩
      · rintro ⟨k', ⟨⟩, -, rfl⟩
        rfl
    case failed => exact fun _ _ => rfl
    case sameCode => rfl
    case count_eq => rintro ⟨⟩

end Body

/-- Whatever has been called on a body, and whoever registered: no count is zero, no entry is empty, and
every entry is that of an instruction that is there. Removing an instruction is refused just if it has
an entry, and then lists in order of creation what is counted there. A registration moves unless the
instruction that it is to move to is gone, and nothing changes if it does not. What is counted is told by
the calls that succeeded, each of which gave up what it could. -/
theorem session_registrations (calls : List Call) :
    let run := performAll Body.call calls ∅
    let b := run.2
    (∀ (h : Handle) (held : Std.ExtTreeMap HolderId Nat), b.registry.counts[h]? = some held →
      held ≠ ∅ ∧ (∀ (t : HolderId) (n : Nat), held[t]? = some n → 1 ≤ n) ∧ b.contains h) ∧
    (∀ h, b.ErasureEnds h (outcome (Body.erase h) b).1 (outcome (Body.erase h) b).2) ∧
    (∀ h, b.registry.ReadsCounts h) ∧
    (∀ t old new, b.RebindingEnds t old new (outcome (Body.rebind t old new) b).1
      (outcome (Body.rebind t old new) b).2) ∧
    b.registry.count = (calls.zip run.1).foldl Tally.follow fun _ _ => 0 := by
  intro run b
  have hb : b.Registered := Body.registered_performAll calls
  refine ⟨fun h held hheld => ?_, fun h => b.erase_ends h, fun h => hb.tight.readsCounts h,
    fun t old new => b.rebind_ends t old new, ?_⟩
  · obtain ⟨hne, hcounts⟩ := hb.tight h held hheld
    exact ⟨hne, fun t n hn => Nat.pos_of_ne_zero (hcounts t n hn), hb.contains_of_entry hheld⟩
  · have hstart : (∅ : Body).registry.count = fun _ _ => 0 := by
      funext h t
      exact Registry.count_empty h t
    rw [← hstart]
    exact Body.Registered.empty.count_performAll calls

/-- Holders that were never given out: one registers and moves to where it is, and the other gives up what
it does not have. The instruction stays until the first has let go of it. -/
example :
    let calls : List Call := [.edit (.append .nop), .rebind ⟨7⟩ none (some ⟨0⟩),
      .rebind ⟨7⟩ (some ⟨0⟩) (some ⟨0⟩), .rebind ⟨8⟩ (some ⟨0⟩) none,
      .rebind ⟨7⟩ (some ⟨0⟩) (some ⟨5⟩), .edit (.erase ⟨0⟩), .rebind ⟨7⟩ (some ⟨0⟩) none,
      .edit (.erase ⟨0⟩)]
    (performAll Body.call calls ∅).1 = [.ok (.handle ⟨0⟩), .ok .done, .ok .done, .ok .done,
      .error (.deadHandle ⟨5⟩), .error (.stillHeld ⟨0⟩ [⟨7⟩]), .ok .done,
      .ok (.instruction .nop)] := by
  cbv

end JvmAssembler
