import JvmAssembler.Proofs.Code.Method
import JvmAssembler.Proofs.Code.Order

/-!
# Rerouting and removing

Rerouting what points at an instruction and removing the instruction take several steps. They check first
that none of these can fail, so that they are done wholly or not at all.
-/

namespace JvmAssembler

section Keyed

variable {τ : Type} {key : τ → HolderId} {xs : List τ} {t : HolderId} {x : τ}

/-- Applies `f` to the elements with certain identities. -/
def mapAt (key : τ → HolderId) (ts : List HolderId) (f : τ → τ) (xs : List τ) : List τ :=
  xs.map fun x => if key x ∈ ts then f x else x

theorem mapAt_of_ne {f : τ → τ} (hne : ∀ y ∈ xs, key y ≠ t) : mapAt key [t] f xs = xs := by
  refine (List.map_congr_left fun y hy => if_neg ?_).trans (List.map_id xs)
  rw [List.mem_singleton]
  exact hne y hy

theorem map_eq_mapAt (hnd : (xs.map key).Nodup) (hx : x ∈ xs) (f : τ → τ) :
    (xs.map fun y => if key y = key x then f x else y) = mapAt key [key x] f xs := by
  refine List.map_congr_left fun y hy => ?_
  by_cases heq : key y = key x
  · rw [if_pos heq, if_pos (List.mem_singleton.mpr heq), List.inj_on_of_nodup_map hnd hy hx heq]
  · rw [if_neg heq, if_neg (mt List.mem_singleton.mp heq)]

theorem mapAt_cons {f : τ → τ} (hf : ∀ x, key (f x) = key x) {ts : List HolderId} (ht : t ∉ ts)
    (xs : List τ) : mapAt key ts f (mapAt key [t] f xs) = mapAt key (t :: ts) f xs := by
  rw [mapAt, mapAt, mapAt, List.map_map]
  refine List.map_congr_left fun x _ => ?_
  by_cases hx : key x = t
  · simp [hx, hf, ht]
  · simp [hx]

end Keyed

namespace Method

open Body

variable {m : Method} {ps : Holdings} {t : HolderId} {old new h : Handle}

/-! ### Rerouting -/

/-- In `m'` the holders `ts` have `new` wherever they had `old` in `m`, and nothing else differs but
the registrations. -/
structure Redirects (ts : List HolderId) (old new : Handle) (m m' : Method) : Prop where
  body : SameCode m.body m'.body
  locals_eq : m'.locals = mapAt LocalVar.id ts (LocalVar.redirected old new) m.locals
  catches_eq : m'.catches = mapAt CatchRange.id ts (CatchRange.redirected old new) m.catches

theorem Redirects.cons {ts : List HolderId} {m' m'' : Method} (h : Redirects [t] old new m m')
    (h' : Redirects ts old new m' m'') (ht : t ∉ ts) : Redirects (t :: ts) old new m m'' where
  body := h.body.trans h'.body
  locals_eq := by
    rw [h'.locals_eq, h.locals_eq]
    exact mapAt_cons (f := LocalVar.redirected old new) (fun _ => rfl) ht _
  catches_eq := by
    rw [h'.catches_eq, h.catches_eq]
    exact mapAt_cons (f := CatchRange.redirected old new) (fun _ => rfl) ht _

theorem substitute_local (hm : m.Tracks ps) {v : LocalVar} (hv : v ∈ m.locals) (hold : v.holds old)
    (hlive : m.body.contains new) :
    Surely (substitute old new v.id) m fun _ m' =>
      Redirects [v.id] old new m m' ∧ m'.Tracks ps := by
  have hfind := hm.local?_eq_some hv
  obtain ⟨-, rest, htracks, hput, -⟩ := hm.local_split hfind
  obtain ⟨w, b, hok, hsame, rfl, hb⟩ := LocalVar.substitute_of_live htracks hold hlive
  have hbody : onBody (v.substitute old new) m = .ok (v.redirected old new) { m with body := b } := by
    rw [onBody, hok]
  refine ⟨(), _, ?_, ⟨hsame, map_eq_mapAt hm.nodup_locals hv _, ?_⟩, hput _ b hb⟩
  · rw [substitute, bind_of_ok (get_apply m), if_pos (by rw [hfind]; rfl), editLocal,
      bind_of_ok (get_apply m), hfind]
    exact bind_of_ok hbody
  · exact (mapAt_of_ne fun r hr => (hm.id_ne hv hr).symm).symm

theorem substitute_catch (hm : m.Tracks ps) {r : CatchRange} (hr : r ∈ m.catches)
    (hold : r.holds old) (hlive : m.body.contains new) :
    Surely (substitute old new r.id) m fun _ m' =>
      Redirects [r.id] old new m m' ∧ m'.Tracks ps := by
  have hfind := hm.catch?_eq_some hr
  have hnone : m.local? r.id = none :=
    List.find?_eq_none.mpr fun v hv => by simpa using hm.id_ne hv hr
  obtain ⟨-, rest, htracks, hput, -⟩ := hm.catch_split hfind
  obtain ⟨s, b, hok, hsame, rfl, hb⟩ := CatchRange.substitute_of_live htracks hold hlive
  have hbody : onBody (r.substitute old new) m = .ok (r.redirected old new) { m with body := b } := by
    rw [onBody, hok]
  refine ⟨(), _, ?_, ⟨hsame, ?_, map_eq_mapAt hm.nodup_catches hr _⟩, hput _ b hb⟩
  · rw [substitute, bind_of_ok (get_apply m), if_neg (by rw [hnone]; simp), editCatch,
      bind_of_ok (get_apply m), hfind]
    exact bind_of_ok hbody
  · exact (mapAt_of_ne fun v hv => hm.id_ne hv hr).symm

theorem substitute_surely (hm : m.Tracks ps) {hs : List Handle} (ht : (t, hs) ∈ m.holdings)
    (hold : old ∈ hs) (hlive : m.body.contains new) :
    Surely (substitute old new t) m fun _ m' => Redirects [t] old new m m' ∧ m'.Tracks ps := by
  rcases mem_holdings.mp ht with ⟨v, hv, heq⟩ | ⟨r, hr, heq⟩
  · cases heq
    exact substitute_local hm hv (decide_eq_true hold) hlive
  · cases heq
    exact substitute_catch hm hr (decide_eq_true hold) hlive

theorem Redirects.mem_holdings_of_ne {m' : Method} {u : HolderId} {hs : List Handle}
    (h : Redirects [t] old new m m') (hu : (u, hs) ∈ m.holdings) (hne : u ≠ t) :
    (u, hs) ∈ m'.holdings := by
  have hkeep {τ : Type} {key : τ → HolderId} {f : τ → τ} {xs : List τ} {x : τ} (hx : x ∈ xs)
      (hkey : key x ≠ t) : x ∈ mapAt key [t] f xs :=
    List.mem_map.mpr ⟨x, hx, if_neg (mt List.mem_singleton.mp hkey)⟩
  rw [mem_holdings, h.locals_eq, h.catches_eq]
  rcases mem_holdings.mp hu with ⟨v, hv, heq⟩ | ⟨r, hr, heq⟩
  · cases heq
    exact .inl ⟨v, hkeep hv hne, rfl⟩
  · cases heq
    exact .inr ⟨r, hkeep hr hne, rfl⟩

/-- As long as every holder that is left still points at `old`, none of the substitutions fails. -/
theorem substituteAll_surely {ts : List HolderId} (hm : m.Tracks ps) (hnd : ts.Nodup)
    (hts : ∀ t ∈ ts, ∃ hs, (t, hs) ∈ m.holdings ∧ old ∈ hs) (hlive : m.body.contains new) :
    Surely (ts.forM (substitute old new)) m fun _ m' =>
      Redirects ts old new m m' ∧ m'.Tracks ps := by
  induction ts generalizing m with
  | nil =>
    refine .pure ⟨⟨.refl _, ?_, ?_⟩, hm⟩
    · simp [mapAt]
    · simp [mapAt]
  | cons t ts ih =>
    obtain ⟨ht, hnd⟩ := List.nodup_cons.mp hnd
    obtain ⟨⟨hs, hmem, hold⟩, hts⟩ := List.forall_mem_cons.mp hts
    rw [List.forM]
    refine (substitute_surely hm hmem hold hlive).bind fun _ m₁ hfirst => ?_
    have hredirects := hfirst.1
    have hlive₁ : m₁.body.contains new := by
      rw [contains_congr hredirects.body.lines_eq, hlive]
    have hts₁ : ∀ u ∈ ts, ∃ hs, (u, hs) ∈ m₁.holdings ∧ old ∈ hs := by
      intro u hu
      obtain ⟨hs, hmem, hold⟩ := hts u hu
      exact ⟨hs, hredirects.mem_holdings_of_ne hmem fun heq => ht (heq ▸ hu), hold⟩
    refine (ih hfirst.2 hnd hts₁ hlive₁).mono fun _ m₂ hrest => ?_
    exact ⟨hredirects.cons hrest.1 ht, hrest.2⟩

/-- In `m'` every variable and handler has `new` wherever it had `old` in `m`, and nothing else differs
but the registrations. -/
structure Rerouted (old new : Handle) (m m' : Method) : Prop where
  body : SameCode m.body m'.body
  locals_eq : m'.locals = m.locals.map (LocalVar.redirected old new)
  catches_eq : m'.catches = m.catches.map (CatchRange.redirected old new)

theorem Redirects.rerouted {m' : Method} (h : Redirects (m.body.holders old) old new m m')
    (hm : m.Tracks ps) : Rerouted old new m m' where
  body := h.body
  locals_eq := by
    rw [h.locals_eq, mapAt]
    refine List.map_congr_left fun v hv => ?_
    split
    · rfl
    case isFalse hfree =>
      refine (LocalVar.redirected_of_not_mem fun hold => hfree ?_).symm
      have hmem := mem_holdings.mpr (.inl ⟨v, hv, rfl⟩)
      exact hm.mem_holders_iff.mpr ⟨v.held, List.mem_append_left ps hmem, hold⟩
  catches_eq := by
    rw [h.catches_eq, mapAt]
    refine List.map_congr_left fun r hr => ?_
    split
    · rfl
    case isFalse hfree =>
      refine (CatchRange.redirected_of_not_mem fun hold => hfree ?_).symm
      have hmem := mem_holdings.mpr (.inr ⟨r, hr, rfl⟩)
      exact hm.mem_holders_iff.mpr ⟨r.held, List.mem_append_left ps hmem, hold⟩

/-- Of the holders at an instruction that are not the method's, this is the oldest. -/
structure FirstStranger (m : Method) (h : Handle) (t : HolderId) : Prop where
  mem : t ∈ m.body.holders h
  stranger : ¬m.owns t
  least : ∀ u ∈ m.body.holders h, ¬m.owns u → t.id ≤ u.id

theorem find?_stranger_iff :
    (m.body.holders h).find? (!m.owns ·) = some t ↔ m.FirstStranger h t := by
  rw [holders, Registry.find?_holders_eq_some_iff]
  simp only [Bool.not_eq_true', ← Bool.not_eq_true]
  exact ⟨fun h => ⟨h.1, h.2.1, h.2.2⟩, fun h => ⟨h.mem, h.stranger, h.least⟩⟩

theorem exists_firstStranger_iff :
    (∃ t, m.FirstStranger h t) ↔ ¬∀ t ∈ m.body.holders h, m.owns t := by
  simp only [← find?_stranger_iff, ← Option.isSome_iff_exists, List.find?_isSome]
  simp

theorem FirstStranger.unique {u : HolderId} (ht : m.FirstStranger h t) (hu : m.FirstStranger h u) :
    t = u :=
  Option.some.inj ((find?_stranger_iff.mpr ht).symm.trans (find?_stranger_iff.mpr hu))

/-- Why nothing is rerouted from `old` to `new`. -/
inductive ReroutingFault (m : Method) (old new : Handle) : Fault → Prop
  | dead (hdead : m.body.contains new = false) : ReroutingFault m old new (.deadHandle new)
  | stranger {t : HolderId} (hlive : m.body.contains new) (ht : m.FirstStranger old t) :
    ReroutingFault m old new (.unknownHolder t)

theorem ReroutingFault.unique {e e' : Fault} (he : m.ReroutingFault old new e)
    (he' : m.ReroutingFault old new e') : e = e' := by
  cases he with
  | dead hdead =>
    cases he' with
    | dead => rfl
    | stranger hlive => simp [hdead] at hlive
  | stranger hlive ht =>
    cases he' with
    | dead hdead => simp [hdead] at hlive
    | stranger _ hu => rw [ht.unique hu]

theorem ReroutingFault.not_owned {e : Fault} (he : m.ReroutingFault old new e) :
    ¬(m.body.contains new ∧ ∀ t ∈ m.body.holders old, m.owns t) := by
  rintro ⟨hlive, howned⟩
  cases he with
  | dead hdead => simp [hdead] at hlive
  | stranger _ ht => exact ht.stranger (howned _ ht.mem)

theorem reroute_of_dead (hdead : m.body.contains new = false) (old : Handle) :
    reroute old new m = .error (.deadHandle new) m := by
  rw [reroute, bind_of_ok (get_apply m)]
  exact congrFun (if_pos (by simp [hdead])) m

theorem reroute_of_live (hlive : m.body.contains new) (old : Handle) :
    reroute old new m = (match (m.body.holders old).find? (!m.owns ·) with
      | some t => throw (.unknownHolder t)
      | none => (m.body.holders old).forM (substitute old new) : MethodM Unit) m := by
  rw [reroute, bind_of_ok (get_apply m)]
  exact congrFun (if_neg (by simp [hlive])) m

theorem reroute_of_stranger (hlive : m.body.contains new) (ht : m.FirstStranger old t) :
    reroute old new m = .error (.unknownHolder t) m := by
  rw [reroute_of_live hlive, find?_stranger_iff.mpr ht]
  rfl

theorem reroute_of_owned (hm : m.Tracks ps) (hlive : m.body.contains new)
    (howned : ∀ t ∈ m.body.holders old, m.owns t) :
    Surely (reroute old new) m fun _ m' => Rerouted old new m m' ∧ m'.Tracks ps := by
  have hnone : (m.body.holders old).find? (!m.owns ·) = none :=
    List.find?_eq_none.mpr fun t ht => by simp [howned t ht]
  rw [Surely, reroute_of_live hlive, hnone]
  refine (substituteAll_surely hm (Registry.nodup_holders _ old) (fun t ht => ?_) hlive).mono
    fun _ m' h => ⟨h.1.rerouted hm, h.2⟩
  obtain ⟨hs, hmem, hold⟩ := hm.mem_holders_iff.mp ht
  obtain ⟨hs', hmem'⟩ := owns_iff.mp (howned t ht)
  have heq := List.inj_on_of_nodup_map hm.nodup hmem (List.mem_append_left ps hmem') rfl
  exact ⟨hs, heq ▸ hmem', hold⟩

/-- Rerouting either fails for a reason, and then nothing has happened, or is done. -/
theorem Tracks.reroute_cases (hm : m.Tracks ps) (old new : Handle) :
    (∃ e, m.ReroutingFault old new e ∧ reroute old new m = .error e m) ∨
      (m.body.contains new ∧ (∀ t ∈ m.body.holders old, m.owns t) ∧
        Surely (reroute old new) m fun _ m' => Rerouted old new m m' ∧ m'.Tracks ps) := by
  cases hlive : m.body.contains new with
  | false => exact .inl ⟨_, .dead hlive, reroute_of_dead hlive old⟩
  | true =>
    by_cases howned : ∀ t ∈ m.body.holders old, m.owns t
    · exact .inr ⟨rfl, howned, reroute_of_owned hm hlive howned⟩
    · obtain ⟨t, ht⟩ := exists_firstStranger_iff.mpr howned
      exact .inl ⟨_, .stranger hlive ht, reroute_of_stranger hlive ht⟩

/-- Where rerouting succeeds, everything that points at `old` is the method's. -/
theorem Tracks.reroute (hm : m.Tracks ps) (old new : Handle) :
    Atomically (reroute old new) m fun _ m' =>
      (∀ t ∈ m.body.holders old, m.owns t) ∧ Rerouted old new m m' ∧ m'.Tracks ps := by
  rcases hm.reroute_cases old new with ⟨e, -, hend⟩ | ⟨-, howned, hend⟩
  · exact .inl ⟨e, hend⟩
  · exact .inr (hend.mono fun _ _ hm' => ⟨howned, hm'⟩)

theorem Tracks.not_mem_of_owned (hm : m.Tracks ps) (howned : ∀ t ∈ m.body.holders h, m.owns t)
    {hs : List Handle} (ht : (t, hs) ∈ ps) : h ∉ hs := by
  intro hh
  have hholder := hm.mem_holders_iff.mpr ⟨hs, List.mem_append_right _ ht, hh⟩
  obtain ⟨hs', ht'⟩ := owns_iff.mp (howned t hholder)
  have hnd := hm.nodup
  rw [List.map_append] at hnd
  exact (List.nodup_append.mp hnd).2.2 t (List.mem_map_of_mem ht') t (List.mem_map_of_mem ht) rfl

theorem Rerouted.holdings_eq {m' : Method} (h : Rerouted old new m m') :
    m'.holdings = m.holdings.redirected old new := by
  have hlocal (v : LocalVar) : (v.redirected old new).holding =
      (v.id, v.held.map (Handle.redirected old new)) :=
    congrArg (Prod.mk v.id) (v.held_redirected old new)
  have hcatch (r : CatchRange) : (r.redirected old new).holding =
      (r.id, r.held.map (Handle.redirected old new)) :=
    congrArg (Prod.mk r.id) (r.held_redirected old new)
  rw [holdings, h.locals_eq, h.catches_eq, holdings, Holdings.redirected, List.map_append]
  simp only [List.map_map, Function.comp_def, hlocal, hcatch]
  rfl

/-- What was counted at `old` is counted at `new`, and everything else is counted as before. -/
theorem Rerouted.count_eq {m' : Method} (h : Rerouted old new m m') (hm : m.Tracks ps)
    (hm' : m'.Tracks ps) (howned : ∀ t ∈ m.body.holders old, m.owns t) (k : Handle)
    (t : HolderId) : m'.body.registry.count k t =
      (if k = old then 0 else m.body.registry.count k t) +
        if k = new then m.body.registry.count old t else 0 := by
  have hps : ps.redirected old new = ps :=
    Holdings.redirected_of_not_mem fun p hp => hm.not_mem_of_owned howned hp
  have hall : m'.holdings ++ ps = Holdings.redirected old new (m.holdings ++ ps) := by
    rw [h.holdings_eq, Holdings.redirected, Holdings.redirected, List.map_append]
    exact congrArg _ hps.symm
  rw [hm'.count_eq, hall, Holdings.tally_redirected, hm.count_eq, hm.count_eq]

/-- Once everything that pointed at `old` points elsewhere, nothing does. -/
theorem Rerouted.isHeld_eq_false {m' : Method} (h : Rerouted old new m m') (hm : m.Tracks ps)
    (hm' : m'.Tracks ps) (howned : ∀ t ∈ m.body.holders old, m.owns t) (hne : old ≠ new) :
    m'.body.isHeld old = false := by
  refine Bool.eq_false_iff.mpr fun hheld => ?_
  obtain ⟨t, ht⟩ := hm'.tight.isHeld_iff.mp hheld
  rw [h.count_eq hm hm' howned, if_pos rfl, if_neg hne] at ht
  exact ht rfl

theorem Rerouted.eq_of_self {m' : Method} (h : Rerouted new new m m') (hm : m.Tracks ps)
    (hm' : m'.Tracks ps) : m' = m := by
  have hlocals : m'.locals = m.locals :=
    h.locals_eq.trans (List.map_id'' (LocalVar.redirected_self new) m.locals)
  have hcatches : m'.catches = m.catches :=
    h.catches_eq.trans (List.map_id'' (CatchRange.redirected_self new) m.catches)
  have hregistry : m'.body.registry = m.body.registry := by
    refine hm'.tight.ext hm.tight fun k t => ?_
    rw [hm'.count_eq, hm.count_eq, holdings, holdings, hlocals, hcatches]
  have hbody : m'.body = m.body := by rw [h.body, hregistry]
  exact (Method.mk.injEq ..).mpr ⟨hbody, hlocals, hcatches⟩

/-! ### Removing -/

/-- Once what points at `x` has been rerouted to `k`, the instruction under `x` is removed. If nothing
points at `x`, then it does not matter what `k` is. -/
structure Removed (x k : Handle) (m m' : Method) : Prop where
  neighbour : m.body.isHeld x → (m.body.next? x).or (m.body.prev? x) = some k
  step : ∃ m₁ b i, Rerouted x k m m₁ ∧ erase x m₁.body = .ok i b ∧ m' = { m₁ with body := b }

theorem Rerouted.self (x : Handle) (m : Method) : Rerouted x x m m where
  body := .refl _
  locals_eq := (List.map_id'' (LocalVar.redirected_self x) m.locals).symm
  catches_eq := (List.map_id'' (CatchRange.redirected_self x) m.catches).symm

theorem Tracks.contains_of_held (hm : m.Tracks ps) (hheld : m.body.isHeld h) :
    m.body.contains h := by
  obtain ⟨t, ht⟩ := hm.tight.isHeld_iff.mp hheld
  obtain ⟨hs, hmem, hh⟩ := hm.count_ne_zero_iff.mp ht
  exact hm.live _ hmem h hh

theorem Tracks.exists_neighbour (hm : m.Tracks ps) (hlive : m.body.contains h)
    (hother : m.body.order ≠ [h]) :
    ∃ k, (m.body.next? h).or (m.body.prev? h) = some k ∧ m.body.contains k := by
  obtain ⟨l, hl⟩ := hm.shows
  cases hk : (m.body.next? h).or (m.body.prev? h) with
  | none => exact absurd ((hl.neighbour_eq_none_iff hlive).mp hk) hother
  | some k => exact ⟨k, rfl, (hl.rank_neighbour hlive hk).1⟩

theorem removeInstruction_of_free (hfree : m.body.isHeld h = false) :
    removeInstruction h m = onBody (erase h) m := by
  rw [removeInstruction, bind_of_ok (get_apply m)]
  exact congrFun (if_neg (by simp [hfree])) m

theorem removeInstruction_of_lone (hheld : m.body.isHeld h)
    (hnone : (m.body.next? h).or (m.body.prev? h) = none) :
    removeInstruction h m = onBody (erase h) m := by
  rw [removeInstruction, bind_of_ok (get_apply m)]
  dsimp only
  rw [if_pos hheld, hnone]

theorem removeInstruction_of_neighbour {k : Handle} (hheld : m.body.isHeld h)
    (hk : (m.body.next? h).or (m.body.prev? h) = some k) :
    removeInstruction h m = (reroute h k >>= fun _ => onBody (erase h)) m := by
  rw [removeInstruction, bind_of_ok (get_apply m)]
  dsimp only
  rw [if_pos hheld, hk]

theorem Rerouted.erase_of_free {m₁ : Method} {k : Handle} (hrerouted : Rerouted h k m m₁)
    (hm₁ : m₁.Tracks ps) (hlive : m.body.contains h) (hfree : m₁.body.isHeld h = false)
    (hneighbour : m.body.isHeld h → (m.body.next? h).or (m.body.prev? h) = some k) :
    Surely (onBody (erase h)) m₁ fun i m' =>
      Removed h k m m' ∧ m.body.instruction h = .ok i ∧ m'.Tracks ps := by
  have hlines := hrerouted.body.lines_eq
  have hlive₁ : m₁.body.contains h := by rw [contains_congr hlines, hlive]
  apply (surely_onBody (Body.Tracks.erase_of_free hm₁ hlive₁ hfree).recall).mono
  rintro i _ ⟨b, rfl, herase, hb⟩
  obtain ⟨l, hl⟩ := hm₁.shows
  have hinstruction : m₁.body.instruction h = .ok i := by
    rw [hl.instruction_eq, (hl.erase_row herase).1]
  rw [instruction_congr hlines] at hinstruction
  exact ⟨⟨hneighbour, m₁, b, i, hrerouted, herase, rfl⟩, hinstruction, hb⟩

/-- Why the instruction under `x` is not removed. -/
inductive RemovalFault (m : Method) (x : Handle) : Fault → Prop
  | dead (hdead : m.body.contains x = false) : RemovalFault m x (.deadHandle x)
  | stranger {t : HolderId} (hlive : m.body.contains x) (hother : m.body.order ≠ [x])
    (ht : m.FirstStranger x t) : RemovalFault m x (.unknownHolder t)
  | alone {t : HolderId} (hlive : m.body.contains x) (halone : m.body.order = [x])
    (ht : t ∈ m.body.holders x) : RemovalFault m x (.stillHeld x (m.body.holders x))

theorem RemovalFault.unique {e e' : Fault} (he : m.RemovalFault h e) (he' : m.RemovalFault h e') :
    e = e' := by
  cases he with
  | dead hdead =>
    cases he' with
    | dead => rfl
    | stranger hlive => simp [hdead] at hlive
    | alone hlive => simp [hdead] at hlive
  | stranger hlive hother ht =>
    cases he' with
    | dead hdead => simp [hdead] at hlive
    | stranger _ _ hu => rw [ht.unique hu]
    | alone _ halone => exact absurd halone hother
  | alone hlive halone =>
    cases he' with
    | dead hdead => simp [hdead] at hlive
    | stranger _ hother => exact absurd halone hother
    | alone => rfl

theorem RemovalFault.not_owned {e : Fault} (he : m.RemovalFault h e) :
    ¬(m.body.contains h ∧ ∀ t ∈ m.body.holders h, m.body.order ≠ [h] ∧ m.owns t) := by
  rintro ⟨hlive, howned⟩
  cases he with
  | dead hdead => simp [hdead] at hlive
  | stranger _ _ ht => exact ht.stranger (howned _ ht.mem).2
  | alone _ halone ht => exact (howned _ ht).1 halone

theorem Tracks.removeInstruction_of_free (hm : m.Tracks ps) (hfree : m.body.isHeld h = false)
    (hlive : m.body.contains h) :
    Surely (removeInstruction h) m fun i m' =>
      (∃ k, Removed h k m m') ∧ m.body.instruction h = .ok i ∧ m'.Tracks ps := by
  have hend := (Rerouted.self h m).erase_of_free hm hlive hfree fun hheld => by simp [hfree] at hheld
  rw [Surely, Method.removeInstruction_of_free hfree]
  exact hend.mono fun _ _ hm' => ⟨⟨h, hm'.1⟩, hm'.2⟩

theorem Tracks.removeInstruction_of_held (hm : m.Tracks ps) (hheld : m.body.isHeld h)
    (hother : m.body.order ≠ [h]) (howned : ∀ t ∈ m.body.holders h, m.owns t) :
    Surely (removeInstruction h) m fun i m' =>
      (∃ k, Removed h k m m') ∧ m.body.instruction h = .ok i ∧ m'.Tracks ps := by
  have hlive := hm.contains_of_held hheld
  obtain ⟨k, hk, hk'⟩ := hm.exists_neighbour hlive hother
  rw [Surely, removeInstruction_of_neighbour hheld hk]
  refine (reroute_of_owned hm hk' howned).bind ?_
  rintro _ m₁ ⟨hrerouted, hm₁⟩
  have hne := hm.ne_of_neighbour hk
  have hfree := hrerouted.isHeld_eq_false hm hm₁ howned hne.symm
  have hremoved := hrerouted.erase_of_free hm₁ hlive hfree fun _ => hk
  exact hremoved.mono fun _ _ hm' => ⟨⟨k, hm'.1⟩, hm'.2⟩

/-- Removing an instruction either fails for a reason, and then nothing has happened, or is done. -/
theorem Tracks.removeInstruction_cases (hm : m.Tracks ps) (h : Handle) :
    (∃ e, m.RemovalFault h e ∧ removeInstruction h m = .error e m) ∨
      (m.body.contains h ∧ (∀ t ∈ m.body.holders h, m.body.order ≠ [h] ∧ m.owns t) ∧
        Surely (removeInstruction h) m fun i m' =>
          (∃ k, Removed h k m m') ∧ m.body.instruction h = .ok i ∧ m'.Tracks ps) := by
  have hholder := hm.tight.isHeld_iff_exists_holder (h := h)
  cases hlive : m.body.contains h with
  | false =>
    have hfree : m.body.isHeld h = false := Bool.eq_false_iff.mpr fun hheld => by
      simp [hm.contains_of_held hheld] at hlive
    refine .inl ⟨_, .dead hlive, ?_⟩
    rw [Method.removeInstruction_of_free hfree, onBody, erase_of_dead hlive]
  | true =>
    cases hheld : m.body.isHeld h with
    | false =>
      have hnone (t : HolderId) : t ∉ m.body.holders h := fun ht => by
        rw [isHeld, hholder.mpr ⟨t, ht⟩] at hheld
        cases hheld
      exact .inr ⟨rfl, fun t ht => absurd ht (hnone t), hm.removeInstruction_of_free hheld hlive⟩
    | true =>
      obtain ⟨u, hu⟩ := hholder.mp hheld
      by_cases halone : m.body.order = [h]
      · obtain ⟨l, hl⟩ := hm.shows
        have hnone := (hl.neighbour_eq_none_iff hlive).mpr halone
        refine .inl ⟨_, .alone hlive halone hu, ?_⟩
        rw [removeInstruction_of_lone hheld hnone, onBody, erase_of_held hlive hheld]
      by_cases howned : ∀ t ∈ m.body.holders h, m.owns t
      · exact .inr ⟨rfl, fun t ht => ⟨halone, howned t ht⟩,
          hm.removeInstruction_of_held hheld halone howned⟩
      · obtain ⟨t, ht⟩ := exists_firstStranger_iff.mpr howned
        obtain ⟨k, hk, hk'⟩ := hm.exists_neighbour hlive halone
        refine .inl ⟨_, .stranger hlive halone ht, ?_⟩
        rw [removeInstruction_of_neighbour hheld hk]
        exact bind_of_error (reroute_of_stranger hk' ht)

theorem Tracks.removeInstruction (hm : m.Tracks ps) (h : Handle) :
    Atomically (removeInstruction h) m fun _ m' => (∃ k, Removed h k m m') ∧ m'.Tracks ps := by
  rcases hm.removeInstruction_cases h with ⟨e, -, hend⟩ | ⟨-, -, hend⟩
  · exact .inl ⟨e, hend⟩
  · exact .inr (hend.mono fun _ _ hm' => ⟨hm'.1, hm'.2.2⟩)

end Method

end JvmAssembler
