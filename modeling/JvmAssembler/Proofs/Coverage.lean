import JvmAssembler.Proofs.Accounts
import JvmAssembler.Proofs.Code.Order

/-!
# What removing an instruction does to coverage

An exception handler covers the instructions from its first to its last, and a local variable those of
its scope. Removing an instruction moves whatever points at it to the instruction behind it. Where that
is the end of a handler's range, the range reaches one instruction further than before; and where a
variable's scope comes to stop at the last instruction, it takes this one in. In no other way does a
removal make anything cover more, and it uncovers nothing but the instruction that goes.
-/

namespace JvmAssembler

/-- The instruction is one of those from the first to the last of the range. -/
def CatchRange.Covers (r : CatchRange) (b : Body) (h : Handle) : Prop :=
  b.contains h ∧ b.rank r.first ≤ b.rank h ∧ b.rank h ≤ b.rank r.last

/-- The variable has a scope and the instruction is in it: it stands before the one at which the scope
stops, or is that one and the last of all. -/
def LocalVar.Covers (v : LocalVar) (b : Body) (h : Handle) : Prop :=
  ∃ start ∈ v.start, ∃ stop ∈ v.stop, b.contains h ∧ b.rank start ≤ b.rank h ∧
    (b.rank h < b.rank stop ∨ h = stop ∧ b.next? stop = none)

section Redirected

variable {b b' : Body} {l l' : Listing} {x k : Handle}

/-- Where the handle goes that stands for `h` once the instruction under `x` is removed and `x` has
become its neighbour `k`. -/
theorem Body.Lacks.rank_redirected (hb : Body.Lacks x b b') (hs : b.Shows l) {h : Handle}
    (hh : b.contains h) (hneighbour : h = x → (b.next? x).or (b.prev? x) = some k) :
    b'.contains (Handle.redirected x k h) ∧
      (b.rank h < b.rank x ∧ b'.rank (Handle.redirected x k h) = b.rank h ∨
        b.rank x < b.rank h ∧ b'.rank (Handle.redirected x k h) + 1 = b.rank h ∨
        b.rank h = b.rank x ∧ b'.order.length > b.rank x ∧
          b'.rank (Handle.redirected x k h) = b.rank x ∨
        b.rank h = b.rank x ∧ b'.order.length = b.rank x ∧
          b'.rank (Handle.redirected x k h) + 1 = b.rank x) := by
  have hlength := hb.length_eq
  rw [Handle.redirected]
  by_cases hx : h = x
  · subst hx
    rw [if_pos rfl]
    obtain ⟨hk, hrank⟩ := hs.rank_neighbour hh (hneighbour rfl)
    have hne : k ≠ h := by
      intro heq
      subst heq
      omega
    have hmoved := hb.rank_eq k hk hne
    exact ⟨(hb.contains_iff k).mpr ⟨hk, hne⟩, by omega⟩
  · rw [if_neg hx]
    have hmoved := hb.rank_eq h hh hx
    exact ⟨(hb.contains_iff h).mpr ⟨hh, hx⟩, by omega⟩

/-- Nothing that is gone is covered, so coverage is compared where instructions are left. -/
theorem Body.Lacks.covered_iff (hb : Body.Lacks x b b') {h j : Handle} (hj : b'.contains j)
    {p q r : Prop} (hpq : b.contains h → h ≠ x → (p ↔ q ∨ (h = j ∧ r))) :
    b'.contains h ∧ p ↔ ((b.contains h ∧ q) ∧ h ≠ x) ∨ (h = j ∧ r) := by
  rw [hb.contains_iff]
  by_cases hh : b.contains h ∧ h ≠ x
  · rw [and_iff_right hh, and_iff_left hh.2, and_iff_right hh.1]
    exact hpq hh.1 hh.2
  · constructor
    · intro hcovered
      exact absurd hcovered.1 hh
    · rintro (hcovered | ⟨rfl, -⟩)
      · exact absurd ⟨hcovered.1.1, hcovered.2⟩ hh
      · exact absurd ((hb.contains_iff h).mp hj) hh

/-- A range whose end goes with the instruction reaches the neighbour instead; every other range covers
what it did. -/
theorem CatchRange.covers_redirected {r : CatchRange} (hb : Body.Lacks x b b') (hs : b.Shows l)
    (hs' : b'.Shows l') (hlive : ∀ h ∈ r.held, b.contains h)
    (hneighbour : x ∈ r.held → (b.next? x).or (b.prev? x) = some k)
    (hrange : b.rank r.first ≤ b.rank r.last) (h : Handle) :
    (r.redirected x k).Covers b' h ↔
      (r.Covers b h ∧ h ≠ x) ∨ (h = (r.redirected x k).last ∧ r.last = x) := by
  have hfirst : r.first ∈ r.held := by simp [held]
  have hlast : r.last ∈ r.held := by simp [held]
  obtain ⟨-, hstart⟩ := hb.rank_redirected hs (hlive _ hfirst) fun heq => hneighbour (heq ▸ hfirst)
  obtain ⟨hend, hstop⟩ := hb.rank_redirected hs (hlive _ hlast) fun heq => hneighbour (heq ▸ hlast)
  refine hb.covered_iff hend fun hh hne => ?_
  change b'.rank (Handle.redirected x k r.first) ≤ _ ∧ _ ≤ b'.rank (Handle.redirected x k r.last) ↔
    _ ∨ h = Handle.redirected x k r.last ∧ _
  rw [← hs'.rank_inj ((hb.contains_iff h).mpr ⟨hh, hne⟩), ← hs.rank_inj (hlive _ hlast)]
  have hmoved := hb.rank_eq h hh hne
  have hlength := hb.length_eq
  have hlt := hs.rank_lt (hlive _ hlast)
  omega

theorem LocalVar.covers_iff {v : LocalVar} {start stop : Handle} (hstart : v.start = some start)
    (hstop : v.stop = some stop) (h : Handle) :
    v.Covers b h ↔ b.contains h ∧ b.rank start ≤ b.rank h ∧
      (b.rank h < b.rank stop ∨ h = stop ∧ b.next? stop = none) := by
  simp [Covers, hstart, hstop]

/-- A scope that comes to stop at the last instruction takes this one in; every other scope covers what
it did. -/
theorem LocalVar.covers_redirected {v : LocalVar} {start stop : Handle} (hb : Body.Lacks x b b')
    (hs : b.Shows l) (hs' : b'.Shows l') (hlive : ∀ h ∈ v.held, b.contains h)
    (hneighbour : x ∈ v.held → (b.next? x).or (b.prev? x) = some k) (hstart : v.start = some start)
    (hstop : v.stop = some stop) (hscope : b.rank start ≤ b.rank stop) (h : Handle) :
    (v.redirected x k).Covers b' h ↔ (v.Covers b h ∧ h ≠ x) ∨
      (h = Handle.redirected x k stop ∧ b'.next? (Handle.redirected x k stop) = none) := by
  have hfirst : start ∈ v.held := by simp [held, hstart]
  have hlast : stop ∈ v.held := by simp [held, hstop]
  obtain ⟨-, hbegin⟩ := hb.rank_redirected hs (hlive _ hfirst) fun heq => hneighbour (heq ▸ hfirst)
  obtain ⟨hend, hstop'⟩ := hb.rank_redirected hs (hlive _ hlast) fun heq => hneighbour (heq ▸ hlast)
  rw [covers_iff hstart hstop,
    covers_iff (congrArg (Option.map _) hstart) (congrArg (Option.map _) hstop),
    hs.next?_eq_none_iff (hlive _ hlast), hs'.next?_eq_none_iff hend]
  refine hb.covered_iff hend fun hh hne => ?_
  rw [← hs'.rank_inj ((hb.contains_iff h).mpr ⟨hh, hne⟩), ← hs.rank_inj hh]
  have hmoved := hb.rank_eq h hh hne
  have hlength := hb.length_eq
  have hlt := hs.rank_lt hb.live
  have hlt' := hs.rank_lt (hlive _ hlast)
  omega

end Redirected

/-! ### Everything that is in a method or beside it -/

namespace Method

variable {m m' : Method} {x k : Handle} {t : HolderId}

theorem Removed.lacks (hr : Removed x k m m') {l : Listing} (hs : m.body.Shows l) :
    Body.Lacks x m.body m'.body := by
  obtain ⟨m₁, b, i, hrerouted, herase, rfl⟩ := hr.step
  have hlacks := ((hrerouted.body.shows hs).erase_lacks herase).1
  rw [hrerouted.body] at hlacks
  exact ⟨hlacks.live, hlacks.contains_iff, hlacks.length_eq, hlacks.rank_eq⟩

theorem Removed.local?_eq (hr : Removed x k m m') (t : HolderId) :
    m'.local? t = (m.local? t).map (LocalVar.redirected x k) := by
  obtain ⟨m₁, b, i, hrerouted, -, rfl⟩ := hr.step
  rw [local?, local?, hrerouted.locals_eq, List.find?_map]
  rfl

theorem Removed.catch?_eq (hr : Removed x k m m') (t : HolderId) :
    m'.catch? t = (m.catch? t).map (CatchRange.redirected x k) := by
  obtain ⟨m₁, b, i, hrerouted, -, rfl⟩ := hr.step
  rw [catch?, catch?, hrerouted.catches_eq, List.find?_map]
  rfl

end Method

namespace Workbench

variable {w : Workbench} {x : Handle} {t : HolderId}

theorem holding_mem_of_local? {v : LocalVar} (hv : w.local? t = some v) :
    v.holding ∈ w.holdings := by
  rcases Option.or_eq_some_iff.mp hv with hv | ⟨-, hv⟩
  · have hmem := List.mem_map_of_mem (f := LocalVar.holding) (List.mem_of_find?_eq_some hv)
    exact List.mem_append_left _ (List.mem_append_left _ hmem)
  · have hmem := List.mem_map_of_mem (f := LocalVar.holding) (List.mem_of_find?_eq_some hv)
    exact List.mem_append_right _ (List.mem_append_left _ hmem)

theorem holding_mem_of_catch? {r : CatchRange} (hr : w.catch? t = some r) :
    r.holding ∈ w.holdings := by
  rcases Option.or_eq_some_iff.mp hr with hr | ⟨-, hr⟩
  · have hmem := List.mem_map_of_mem (f := CatchRange.holding) (List.mem_of_find?_eq_some hr)
    exact List.mem_append_left _ (List.mem_append_right _ hmem)
  · have hmem := List.mem_map_of_mem (f := CatchRange.holding) (List.mem_of_find?_eq_some hr)
    exact List.mem_append_right _ (List.mem_append_right _ hmem)

/-- The instruction under `x` is gone in `w'`, and all variables and handlers have `k` wherever they had
`x` in `w`. -/
structure Removal (x k : Handle) (w w' : Workbench) : Prop where
  tracks : w'.Tracks
  lacks : Body.Lacks x w.method.body w'.method.body
  neighbour : w.method.body.isHeld x →
    (w.method.body.next? x).or (w.method.body.prev? x) = some k
  local?_eq : ∀ t v, w.local? t = some v → w'.local? t = some (v.redirected x k)
  catch?_eq : ∀ t r, w.catch? t = some r → w'.catch? t = some (r.redirected x k)

/-- An instruction that a loose variable or handler points at is not removed, so that it makes no
difference to these whether they are redirected. -/
theorem removal_of_ok (hw : w.Tracks)
    (hok : (outcome (perform (.removeInstruction x)) w).1 = .ok ()) :
    ∃ k, Removal x k w (outcome (perform (.removeInstruction x)) w).2 := by
  rcases (Method.Tracks.removeInstruction hw x) with ⟨e, herror⟩ | ⟨i, m', hstep, ⟨k, hm⟩, hm'⟩
  · have hout : outcome (perform (.removeInstruction x)) w = (.error e, w) :=
      outcome_of_error (map_of_error _ (by rw [onMethod, herror]))
    rw [hout] at hok
    cases hok
  have hout : outcome (perform (.removeInstruction x)) w = (.ok (), { w with method := m' }) :=
    outcome_of_ok (map_of_ok (x := i) _ (by rw [onMethod, hstep]))
  obtain ⟨l, hs⟩ := hw.shows
  have hlacks := hm.lacks hs
  have hfree : ∀ p ∈ w.loose, x ∉ p.2 := by
    intro p hp hx
    have hlive := hm'.live p (List.mem_append_right _ hp) x hx
    exact ((hlacks.contains_iff x).mp hlive).2 rfl
  rw [hout]
  refine ⟨k, hm', hlacks, hm.neighbour, fun t v hv => ?_, fun t r hr => ?_⟩
  · change (m'.local? t).or _ = _
    rw [hm.local?_eq]
    rcases Option.or_eq_some_iff.mp hv with hv | ⟨hnone, hv⟩
    · rw [show w.method.local? t = some v from hv]
      rfl
    · have hmem := List.mem_map_of_mem (f := LocalVar.holding) (List.mem_of_find?_eq_some hv)
      rw [show w.method.local? t = none from hnone,
        LocalVar.redirected_of_not_mem (hfree _ (List.mem_append_left _ hmem))]
      exact hv
  · change (m'.catch? t).or _ = _
    rw [hm.catch?_eq]
    rcases Option.or_eq_some_iff.mp hr with hr | ⟨hnone, hr⟩
    · rw [hr]
      rfl
    · have hmem := List.mem_map_of_mem (f := CatchRange.holding) (List.mem_of_find?_eq_some hr)
      rw [hnone, CatchRange.redirected_of_not_mem (hfree _ (List.mem_append_right _ hmem))]
      exact hr

/-- Whatever has been done on a workbench, once an instruction is removed there a handler covers what it
covered before without that instruction, and besides, if its range ended with that instruction, the
neighbour with which it ends now. A variable covers what it covered before without the instruction, and
besides the one at which its scope now stops, if that is the last of all. -/
theorem removal_coverage (actions : List Action) (x : Handle)
    (hok : (outcome (perform (.removeInstruction x)) (performAll perform actions ∅).2).1 = .ok ()) :
    let w := (performAll perform actions ∅).2
    let w' := (outcome (perform (.removeInstruction x)) w).2
    let b := w.method.body
    let b' := w'.method.body
    (∀ t r, w.catch? t = some r → b.rank r.first ≤ b.rank r.last →
      ∃ r', w'.catch? t = some r' ∧
        (r.last = x → (b.next? x).or (b.prev? x) = some r'.last) ∧
        ∀ h, r'.Covers b' h ↔ (r.Covers b h ∧ h ≠ x) ∨ (h = r'.last ∧ r.last = x)) ∧
    ∀ t v start stop, w.local? t = some v → v.start = some start → v.stop = some stop →
      b.rank start ≤ b.rank stop →
      ∃ v' stop', w'.local? t = some v' ∧ v'.stop = some stop' ∧
        ∀ h, v'.Covers b' h ↔ (v.Covers b h ∧ h ≠ x) ∨ (h = stop' ∧ b'.next? stop' = none) := by
  intro w w' b b'
  have hw : w.Tracks := performAll_tracks actions
  obtain ⟨k, hremoval⟩ := removal_of_ok hw hok
  obtain ⟨l, hs⟩ := hw.shows
  obtain ⟨l', hs'⟩ := hremoval.tracks.shows
  have hneighbour {p : HolderId × List Handle} (hp : p ∈ w.holdings) (hx : x ∈ p.2) :
      (b.next? x).or (b.prev? x) = some k :=
    hremoval.neighbour (hw.isHeld_of_mem hp hx)
  constructor
  · intro t r hr hrange
    have hmem := holding_mem_of_catch? hr
    refine ⟨r.redirected x k, hremoval.catch?_eq t r hr, fun hlast => ?_, fun h => ?_⟩
    · have hlast' : (r.redirected x k).last = k := if_pos hlast
      rw [hlast']
      exact hneighbour hmem (by simp [CatchRange.holding, CatchRange.held, hlast])
    · exact CatchRange.covers_redirected hremoval.lacks hs hs' (hw.live _ hmem) (hneighbour hmem)
        hrange h
  · intro t v start stop hv hstart hstop hscope
    have hmem := holding_mem_of_local? hv
    refine ⟨v.redirected x k, Handle.redirected x k stop, hremoval.local?_eq t v hv,
      congrArg (Option.map _) hstop, fun h => ?_⟩
    exact LocalVar.covers_redirected hremoval.lacks hs hs' (hw.live _ hmem) (hneighbour hmem) hstart
      hstop hscope h

/-- Three instructions, of which a handler and a variable point at the first and the second. -/
def threeInstructions : List Action :=
  [.edit (.append .nop), .edit (.append .nop), .edit (.append .nop),
    .addLocal .attached 0 ⟨"x", by decide⟩ (.base .int) (some ⟨0⟩) (some ⟨1⟩),
    .addCatch .attached ⟨0⟩ ⟨1⟩ ⟨0⟩ none]

theorem removal_coverage_of_second :
    let w := (performAll perform threeInstructions ∅).2
    let w' := (outcome (perform (.removeInstruction ⟨1⟩)) w).2
    let r : CatchRange := ⟨⟨1⟩, ⟨0⟩, ⟨1⟩, ⟨0⟩, none⟩
    (outcome (perform (.removeInstruction ⟨1⟩)) w).1 = .ok () ∧ w.catch? ⟨1⟩ = some r ∧
      ∃ r', w'.catch? ⟨1⟩ = some r' ∧ ∀ h, r'.Covers w'.method.body h ↔
        (r.Covers w.method.body h ∧ h ≠ ⟨1⟩) ∨ (h = r'.last ∧ r.last = ⟨1⟩) := by
  have hok : (outcome (perform (.removeInstruction ⟨1⟩))
      (performAll perform threeInstructions ∅).2).1 = .ok () := by decide +kernel
  have hcatch : (performAll perform threeInstructions ∅).2.catch? ⟨1⟩ =
      some ⟨⟨1⟩, ⟨0⟩, ⟨1⟩, ⟨0⟩, none⟩ := by decide +kernel
  have hcoverage := (removal_coverage threeInstructions ⟨1⟩ hok).1 ⟨1⟩ _ hcatch (by decide +kernel)
  exact ⟨hok, hcatch, hcoverage.imp fun r' h => ⟨h.1, h.2.2⟩⟩

/-- When the second instruction is removed, the handler and the variable go on to the third, which is the
last one, and both cover it, which they did not before. -/
theorem removal_widens :
    let w := (performAll perform threeInstructions ∅).2
    let w' := (outcome (perform (.removeInstruction ⟨1⟩)) w).2
    let b := w.method.body
    let b' := w'.method.body
    (outcome (perform (.removeInstruction ⟨1⟩)) w).1 = .ok () ∧
      (∃ r r', w.catch? ⟨1⟩ = some r ∧ w'.catch? ⟨1⟩ = some r' ∧ b.rank r.first ≤ b.rank r.last ∧
        ¬r.Covers b ⟨2⟩ ∧ r'.Covers b' ⟨2⟩) ∧
      ∃ v v', w.local? ⟨0⟩ = some v ∧ w'.local? ⟨0⟩ = some v' ∧
        (∃ start ∈ v.start, ∃ stop ∈ v.stop, b.rank start ≤ b.rank stop) ∧
        ¬v.Covers b ⟨2⟩ ∧ v'.Covers b' ⟨2⟩ := by
  intro w w' b b'
  have hok : (outcome (perform (.removeInstruction ⟨1⟩)) w).1 = .ok () := by decide +kernel
  have horder : b.order = [⟨0⟩, ⟨1⟩, ⟨2⟩] := by decide +kernel
  have horder' : b'.order = [⟨0⟩, ⟨2⟩] := by decide +kernel
  have hlive : b'.contains ⟨2⟩ := by decide +kernel
  have hlast : b'.next? ⟨2⟩ = none := by decide +kernel
  have hnext : b.next? ⟨1⟩ = some ⟨2⟩ := by decide +kernel
  have hcatch : w.catch? ⟨1⟩ = some ⟨⟨1⟩, ⟨0⟩, ⟨1⟩, ⟨0⟩, none⟩ := by decide +kernel
  have hcatch' : w'.catch? ⟨1⟩ = some ⟨⟨1⟩, ⟨0⟩, ⟨2⟩, ⟨0⟩, none⟩ := by decide +kernel
  have hlocal : w.local? ⟨0⟩ = some ⟨⟨0⟩, 0, ⟨"x", by decide⟩, .base .int, some ⟨0⟩, some ⟨1⟩⟩ := by
    decide +kernel
  have hlocal' : w'.local? ⟨0⟩ = some ⟨⟨0⟩, 0, ⟨"x", by decide⟩, .base .int, some ⟨0⟩, some ⟨2⟩⟩ := by
    decide +kernel
  refine ⟨hok, ⟨_, _, hcatch, hcatch', ?_, ?_, ?_⟩, _, _, hlocal, hlocal', ?_, ?_, ?_⟩
  · rw [Body.rank, Body.rank, horder]
    decide
  · rw [CatchRange.Covers, Body.rank, Body.rank, Body.rank, horder]
    intro hcovers
    exact absurd hcovers.2.2 (by decide)
  · rw [CatchRange.Covers, Body.rank, Body.rank, horder']
    exact ⟨hlive, by decide, by decide⟩
  · refine ⟨⟨0⟩, rfl, ⟨1⟩, rfl, ?_⟩
    rw [Body.rank, Body.rank, horder]
    decide
  · rw [LocalVar.covers_iff rfl rfl, Body.rank, Body.rank, Body.rank, horder, hnext]
    intro hcovers
    exact absurd hcovers.2.2 (by decide)
  · rw [LocalVar.covers_iff rfl rfl, Body.rank, Body.rank, horder', hlast]
    exact ⟨hlive, by decide, .inr ⟨rfl, rfl⟩⟩

end Workbench

end JvmAssembler
