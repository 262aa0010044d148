import JvmAssembler.Proofs.Accounts

/-!
# How rerouting and removing end

A method reroutes everything that points at an instruction, or else nothing. It stops only at a target
that is gone and at holders that are not its own. Removing an instruction reroutes to its neighbour
first, after which nothing is left that could keep it. The only instruction of a body has no neighbour,
so that one stays for as long as anything points at it.
-/

namespace JvmAssembler

/-- In `s` what `r` counts at `old` is counted at `new`, on top of what was counted there. -/
structure Registry.Merges (old new : Handle) (r s : Registry) : Prop where
  count_new : ∀ t, s.count new t = r.count new t + r.count old t
  old_free : s.counts[old]? = none
  elsewhere : ∀ h, h ≠ old → h ≠ new → s.counts[h]? = r.counts[h]?

namespace Method

variable {m m' : Method} {ps : Holdings} {old new x k : Handle}

theorem Rerouted.merges (h : Rerouted old new m m') (hm : m.Tracks ps) (hm' : m'.Tracks ps)
    (howned : ∀ t ∈ m.body.holders old, m.owns t) (hne : old ≠ new) :
    Registry.Merges old new m.body.registry m'.body.registry where
  count_new t := by rw [h.count_eq hm hm' howned, if_neg hne.symm, if_pos rfl]
  old_free := Registry.isHeld_eq_false_iff.mp (h.isHeld_eq_false hm hm' howned hne)
  elsewhere k hold hnew := hm'.tight.entry_eq hm.tight fun t => by
    rw [h.count_eq hm hm' howned, if_neg hold, if_neg hnew, Nat.add_zero]

/-- The instruction under `x` is gone in `m'`, and every variable and handler has its heir wherever it
had `x` in `m`. -/
structure Removes (x : Handle) (m m' : Method) : Prop where
  toList_eq : m'.body.toList = m.body.toList.filter (·.1 ≠ x)
  locals_eq : m'.locals = m.locals.map (LocalVar.redirected x (m.body.heir x))
  catches_eq : m'.catches = m.catches.map (CatchRange.redirected x (m.body.heir x))

theorem Removed.toList_eq (h : Removed x k m m') (hm : m.Tracks ps) :
    m'.body.toList = m.body.toList.filter (·.1 ≠ x) := by
  obtain ⟨m₁, b, i, hrerouted, herase, rfl⟩ := h.step
  obtain ⟨l, hs⟩ := hm.shows
  obtain ⟨-, l', hrows, hs'⟩ := (hrerouted.body.shows hs).erase_row herase
  rw [hs.reads.toList_eq, hs'.reads.toList_eq, hrows]
  rfl

/-- Where something points at `x`, it was rerouted to the heir; where nothing does, there is nothing that
could have been. -/
theorem Removed.removes (h : Removed x k m m') (hm : m.Tracks ps) : Removes x m m' := by
  obtain ⟨l, hs⟩ := hm.shows
  have hheir {p : HolderId × List Handle} (hp : p ∈ m.holdings) (hx : x ∈ p.2) : k = m.body.heir x := by
    have hheld := hm.isHeld_of_mem (List.mem_append_left ps hp) hx
    exact (hs.heir_eq (hm.contains_of_held hheld) (h.neighbour hheld)).symm
  obtain ⟨m₁, b, i, hrerouted, -, heq⟩ := id h.step
  refine ⟨h.toList_eq hm, ?_, ?_⟩
  · rw [heq, hrerouted.locals_eq]
    refine List.map_congr_left fun v hv => ?_
    by_cases hx : x ∈ v.held
    · rw [hheir (mem_holdings.mpr (.inl ⟨v, hv, rfl⟩)) hx]
    · rw [LocalVar.redirected_of_not_mem hx, LocalVar.redirected_of_not_mem hx]
  · rw [heq, hrerouted.catches_eq]
    refine List.map_congr_left fun r hr => ?_
    by_cases hx : x ∈ r.held
    · rw [hheir (mem_holdings.mpr (.inr ⟨r, hr, rfl⟩)) hx]
    · rw [CatchRange.redirected_of_not_mem hx, CatchRange.redirected_of_not_mem hx]

end Method

namespace Workbench

variable {w : Workbench} {old new x : Handle}

section OnMethod

variable {α : Type} {act : MethodM α} {m : Method}

theorem outcome_onMethod_of_ok {x : α} (hok : act w.method = .ok x m) :
    outcome (onMethod act) w = (.ok x, { w with method := m }) :=
  outcome_of_ok (by rw [onMethod, hok])

theorem outcome_onMethod_of_error {e : Fault} (herror : act w.method = .error e w.method) :
    outcome (onMethod act) w = (.error e, w) :=
  outcome_of_error (by rw [onMethod, herror])

end OnMethod

/-- How rerouting from `old` to `new` ends. -/
structure ReroutingEnds (old new : Handle) (w : Workbench) (answer : Except Fault Unit)
    (w' : Workbench) : Prop where
  ok_iff : answer = .ok () ↔
    w.method.body.contains new ∧ ∀ t ∈ w.method.body.holders old, w.method.owns t
  error_iff : ∀ e, answer = .error e ↔ w.method.ReroutingFault old new e
  failed : ∀ e, answer = .error e → w' = w
  rerouted : answer = .ok () → ∃ m', w' = { w with method := m' } ∧
    Method.Rerouted old new w.method m' ∧
    (old ≠ new → Registry.Merges old new w.method.body.registry m'.body.registry)
  idle : answer = .ok () → old = new → w' = w

/-- Whatever has been done on a workbench, rerouting from one handle to another succeeds just if there is
an instruction under the second and everything that points at the first is the method's own. Otherwise
nothing happens. -/
theorem reroute_ends (actions : List Action) (old new : Handle) :
    let w := (performAll perform actions ∅).2
    let result := outcome (perform (.reroute old new)) w
    ReroutingEnds old new w result.1 result.2 := by
  intro w result
  have hw : w.Tracks := performAll_tracks actions
  rcases Method.Tracks.reroute_cases hw old new with
    ⟨e, he, hend⟩ | ⟨hlive, howned, ⟨⟩, m', hend, hm, hm'⟩
  · have hout : result = (.error e, w) := outcome_onMethod_of_error hend
    rw [hout]
    constructor
    case ok_iff => exact iff_of_false (by simp) he.not_owned
    case error_iff => exact error_iff_of_unique he fun _ => he.unique
    case failed => exact fun _ _ => rfl
    case rerouted => rintro ⟨⟩
    case idle => rintro ⟨⟩
  · have hout : result = (.ok (), { w with method := m' }) := outcome_onMethod_of_ok hend
    rw [hout]
    constructor
    case ok_iff => exact iff_of_true rfl ⟨hlive, howned⟩
    case error_iff => exact fun e => iff_of_false (by simp) fun he => he.not_owned ⟨hlive, howned⟩
    case failed => rintro e ⟨⟩
    case rerouted => exact fun _ => ⟨m', rfl, hm, hm.merges hw hm' howned⟩
    case idle =>
      rintro - rfl
      rw [hm.eq_of_self hw hm']

/-- A handler that points at the one instruction twice and at the other once points at the other three
times. -/
example :
    let actions : List Action := [.edit (.append .nop), .edit (.append .nop),
      .addCatch .attached ⟨0⟩ ⟨0⟩ ⟨1⟩ none]
    let w' := (outcome (perform (.reroute ⟨0⟩ ⟨1⟩)) (performAll perform actions ∅).2).2
    w'.method.catches = [⟨⟨0⟩, ⟨1⟩, ⟨1⟩, ⟨1⟩, none⟩] ∧
      w'.method.body.registry.count ⟨1⟩ ⟨0⟩ = 3 ∧ w'.method.body.isHeld ⟨0⟩ = false := by
  decide +kernel

/-- How removing the instruction under `x` ends. -/
structure RemovalEnds (x : Handle) (w : Workbench) (answer : Except Fault Instruction)
    (w' : Workbench) : Prop where
  ok_iff : (∃ i, answer = .ok i) ↔ w.method.body.contains x ∧
    ∀ t ∈ w.method.body.holders x, w.method.body.order ≠ [x] ∧ w.method.owns t
  error_iff : ∀ e, answer = .error e ↔ w.method.RemovalFault x e
  failed : ∀ e, answer = .error e → w' = w
  removed : ∀ i, answer = .ok i → w.method.body.instruction x = .ok i ∧
    ∃ m', w' = { w with method := m' } ∧ Method.Removes x w.method m'

/-- Whatever has been done on a workbench, removing an instruction succeeds if it is there, unless
something points at it that is not the method's own, or there is nowhere to point it at. What points at
an instruction is listed in full and in order of creation. -/
theorem removal_ends (actions : List Action) (x : Handle) :
    let w := (performAll perform actions ∅).2
    let result := outcome (onMethod (Method.removeInstruction x)) w
    RemovalEnds x w result.1 result.2 ∧ (∀ t h, result.1 ≠ .error (.notHeld t h)) ∧
      (w.method.body.holders x).Pairwise (fun t u => t.id < u.id) ∧
      ∀ t, t ∈ w.method.body.holders x ↔ ∃ hs, (t, hs) ∈ w.holdings ∧ x ∈ hs := by
  intro w result
  have hw : w.Tracks := performAll_tracks actions
  have hends : RemovalEnds x w result.1 result.2 := by
    rcases Method.Tracks.removeInstruction_cases hw x with
      ⟨e, he, hend⟩ | ⟨hlive, howned, i, m', hend, ⟨k, hm⟩, hi, hm'⟩
    · have hout : result = (.error e, w) := outcome_onMethod_of_error hend
      rw [hout]
      constructor
      case ok_iff => exact iff_of_false (by simp) he.not_owned
      case error_iff => exact error_iff_of_unique he fun _ => he.unique
      case failed => exact fun _ _ => rfl
      case removed => rintro i ⟨⟩
    · have hout : result = (.ok i, { w with method := m' }) := outcome_onMethod_of_ok hend
      rw [hout]
      constructor
      case ok_iff => exact iff_of_true ⟨i, rfl⟩ ⟨hlive, howned⟩
      case error_iff => exact fun e => iff_of_false (by simp) fun he => he.not_owned ⟨hlive, howned⟩
      case failed => rintro e ⟨⟩
      case removed =>
        rintro _ ⟨⟩
        exact ⟨hi, m', rfl, hm.removes hw⟩
  refine ⟨hends, fun t h hout => ?_, Registry.pairwise_holders _ x,
    fun t => Method.Tracks.mem_holders_iff hw⟩
  cases (hends.error_iff _).mp hout

end Workbench

end JvmAssembler
