import JvmAssembler.Code.Method
import JvmAssembler.Proofs.Code.Holders

/-!
# Methods keep track

A method's body keeps track of the method's own variables and handlers together with any others, and
so it does after each operation on one of them.
-/

namespace JvmAssembler

/-! ### Lists by identity -/

section Keyed

variable {τ : Type} {key : τ → HolderId} {xs : List τ} {t : HolderId} {x : τ}

/-- Under distinct identities, changing or taking out the element with one of them does so at one
place. -/
theorem exists_keyed_split (hnd : (xs.map key).Nodup)
    (hfind : xs.find? (fun y => key y = t) = some x) :
    key x = t ∧ ∃ us vs, xs = us ++ x :: vs ∧ xs.filter (fun y => key y ≠ t) = us ++ vs ∧
      ∀ y, (xs.map fun z => if key z = t then y else z) = us ++ y :: vs := by
  have hkey : key x = t := by simpa using List.find?_some hfind
  obtain ⟨us, vs, rfl⟩ := List.append_of_mem (List.mem_of_find?_eq_some hfind)
  rw [List.map_append, List.map_cons, List.nodup_append, List.nodup_cons] at hnd
  obtain ⟨-, ⟨hvs, -⟩, hdisj⟩ := hnd
  have hu : ∀ y ∈ us, key y ≠ t := fun y hy he =>
    hdisj (key y) (List.mem_map_of_mem hy) (key x) List.mem_cons_self (he.trans hkey.symm)
  have hv : ∀ y ∈ vs, key y ≠ t := fun y hy he =>
    hvs ((he.trans hkey.symm) ▸ List.mem_map_of_mem hy)
  refine ⟨hkey, us, vs, rfl, ?_, fun y => ?_⟩
  · rw [List.filter_append, List.filter_cons_of_neg (by simpa using hkey),
      List.filter_eq_self.mpr (by simpa using hu), List.filter_eq_self.mpr (by simpa using hv)]
  · have hsame {ws : List τ} (hw : ∀ z ∈ ws, key z ≠ t) :
        (ws.map fun z => if key z = t then y else z) = ws :=
      (List.map_congr_left fun z hz => if_neg (hw z hz)).trans (List.map_id ws)
    rw [List.map_append, List.map_cons, if_pos hkey, hsame hu, hsame hv]

theorem find?_key_eq_some (hnd : (xs.map key).Nodup) (hx : x ∈ xs) :
    xs.find? (fun y => key y = key x) = some x := by
  obtain ⟨y, hy⟩ : ∃ y, xs.find? (fun y => key y = key x) = some y := by
    rw [← Option.isSome_iff_exists, List.find?_isSome]
    exact ⟨x, hx, by simp⟩
  have hkey : key y = key x := by simpa using List.find?_some hy
  rw [hy, List.inj_on_of_nodup_map hnd (List.mem_of_find?_eq_some hy) hx hkey]

theorem perm_middle_append (us vs ws : List τ) (x : τ) :
    List.Perm (us ++ (vs ++ x :: ws)) (x :: (us ++ (vs ++ ws))) := by
  rw [← List.append_assoc, ← List.append_assoc]
  exact List.perm_middle

end Keyed

namespace Method

open Body

variable {α : Type} {m : Method} {ps : Holdings} {t : HolderId} {h : Handle}

section OnBody

variable {act : BodyM α} {Q : α → Body → Prop}

theorem surely_onBody (hact : Surely act m.body Q) :
    Surely (onBody act) m fun x m' => ∃ b, m' = { m with body := b } ∧ Q x b := by
  obtain ⟨x, b, hok, hQ⟩ := hact
  exact ⟨x, { m with body := b }, by rw [onBody, hok], b, rfl, hQ⟩

theorem atomically_onBody (hact : Atomically act m.body Q) :
    Atomically (onBody act) m fun x m' => ∃ b, m' = { m with body := b } ∧ Q x b := by
  rcases hact with ⟨e, herror⟩ | hsurely
  · exact .inl ⟨e, by rw [onBody, herror]⟩
  · exact .inr (surely_onBody hsurely)

end OnBody

def holdings (m : Method) : Holdings :=
  m.locals.map LocalVar.holding ++ m.catches.map CatchRange.holding

/-- The body keeps track of the method's variables and handlers and of the given other holders. -/
def Tracks (m : Method) (ps : Holdings) : Prop := m.body.Tracks (m.holdings ++ ps)

theorem Tracks.nodup_locals (hm : m.Tracks ps) : (m.locals.map LocalVar.id).Nodup := by
  have hnd := hm.nodup
  rw [holdings, List.map_append, List.map_append, List.map_map, List.append_assoc] at hnd
  exact hnd.of_append_left

theorem Tracks.nodup_catches (hm : m.Tracks ps) : (m.catches.map CatchRange.id).Nodup := by
  have hnd := hm.nodup
  rw [holdings, List.map_append, List.map_append, List.map_map, List.append_assoc] at hnd
  have hcatches := hnd.of_append_right.of_append_left
  rwa [List.map_map] at hcatches

/-! ### One variable or handler -/

theorem Tracks.local_split (hm : m.Tracks ps) {x : LocalVar} (hx : m.local? t = some x) :
    x.id = t ∧ ∃ rest, m.body.Tracks (x.holding :: rest) ∧
      (∀ y b, b.Tracks (y.holding :: rest) →
        Tracks ⟨b, m.locals.map fun v => if v.id = t then y else v, m.catches⟩ ps) ∧
      ∀ p b, b.Tracks (p :: rest) →
        Tracks ⟨b, m.locals.filter fun v => v.id ≠ t, m.catches⟩ (p :: ps) := by
  obtain ⟨hid, us, vs, hxs, hfilter, hmap⟩ := exists_keyed_split hm.nodup_locals hx
  refine ⟨hid, us.map LocalVar.holding ++ (vs.map LocalVar.holding ++
    (m.catches.map CatchRange.holding ++ ps)), hm.perm ?_, fun y b hb => hb.perm ?_,
    fun p b hb => hb.perm ?_⟩
  · rw [holdings, hxs]
    simp
  · rw [holdings, hmap]
    simpa using List.perm_middle.symm
  · rw [holdings, hfilter]
    have hp : List.Perm (us.map LocalVar.holding ++ (vs.map LocalVar.holding ++
        (m.catches.map CatchRange.holding ++ p :: ps))) _ :=
      (perm_middle_append ..).append_left _ |>.trans List.perm_middle
    simpa using hp.symm

theorem Tracks.catch_split (hm : m.Tracks ps) {x : CatchRange} (hx : m.catch? t = some x) :
    x.id = t ∧ ∃ rest, m.body.Tracks (x.holding :: rest) ∧
      (∀ y b, b.Tracks (y.holding :: rest) →
        Tracks ⟨b, m.locals, m.catches.map fun r => if r.id = t then y else r⟩ ps) ∧
      ∀ b, b.Tracks rest → Tracks ⟨b, m.locals, m.catches.filter fun r => r.id ≠ t⟩ ps := by
  obtain ⟨hid, us, vs, hxs, hfilter, hmap⟩ := exists_keyed_split hm.nodup_catches hx
  refine ⟨hid, m.locals.map LocalVar.holding ++ (us.map CatchRange.holding ++
    (vs.map CatchRange.holding ++ ps)), hm.perm ?_, fun y b hb => hb.perm ?_,
    fun b hb => hb.perm ?_⟩
  · rw [holdings, hxs]
    simpa using perm_middle_append ..
  · rw [holdings, hmap]
    simpa using (perm_middle_append ..).symm
  · rw [holdings, hfilter]
    simp

theorem Tracks.addLocal (hm : m.Tracks ps) (slot : Int) (name : UnqualifiedName) (type : FieldType)
    (start stop : Option Handle) :
    Atomically (addLocal slot name type start stop) m fun _ m' => m'.Tracks ps := by
  apply (atomically_onBody (LocalVar.create_tracks hm slot name type start stop)).bind
  intro v _ hstep
  obtain ⟨b, rfl, -, hb⟩ := hstep
  refine ⟨v.id, _, rfl, hb.perm ?_⟩
  rw [holdings, holdings, List.map_append]
  simpa using List.perm_middle.symm

theorem Tracks.addCatch (hm : m.Tracks ps) (first last handler : Handle)
    (caught : Option BinaryName) :
    Atomically (addCatch first last handler caught) m fun _ m' => m'.Tracks ps := by
  apply (atomically_onBody (CatchRange.create_tracks hm first last handler caught)).bind
  intro r _ hstep
  obtain ⟨b, rfl, -, hb⟩ := hstep
  refine ⟨r.id, _, rfl, hb.perm ?_⟩
  rw [holdings, holdings, List.map_append]
  simpa using (perm_middle_append ..).symm

theorem Tracks.editLocal (hm : m.Tracks ps) {edit : LocalVar → BodyM LocalVar}
    (hedit : Careful LocalVar.holding edit) (t : HolderId) :
    Atomically (editLocal t edit) m fun _ m' => m'.Tracks ps := by
  apply Atomically.get
  cases hfind : m.local? t with
  | none => exact .throw _
  | some v =>
    obtain ⟨-, rest, hv, hput, -⟩ := hm.local_split hfind
    apply (atomically_onBody (hedit _ _ v hv)).bind
    intro w _ hstep
    obtain ⟨b, rfl, -, -, hb⟩ := hstep
    exact ⟨(), _, rfl, hput w b hb⟩

/-- A variable that is taken out lives on without a scope. -/
theorem Tracks.removeLocal (hm : m.Tracks ps) (t : HolderId) :
    Atomically (removeLocal t) m fun v m' => m'.Tracks (v.holding :: ps) := by
  apply Atomically.get
  cases hfind : m.local? t with
  | none => exact .throw _
  | some v =>
    obtain ⟨-, rest, hv, -, htake⟩ := hm.local_split hfind
    obtain ⟨w, b, hok, -, -, hb⟩ := LocalVar.release_surely hv
    refine .inr ⟨w, _, ?_, htake w.holding b hb⟩
    change onBody v.release { m with locals := _ } = _
    rw [onBody, hok]

theorem Tracks.removeCatch (hm : m.Tracks ps) (t : HolderId) :
    Atomically (removeCatch t) m fun _ m' => m'.Tracks ps := by
  apply Atomically.get
  cases hfind : m.catch? t with
  | none => exact .throw _
  | some r =>
    obtain ⟨-, rest, hr, -, htake⟩ := hm.catch_split hfind
    obtain ⟨_, b, hok, -, hb⟩ := CatchRange.release_surely hr
    refine .inr ⟨(), _, ?_, htake b hb⟩
    change onBody r.release { m with catches := _ } = _
    rw [onBody, hok]

/-! ### Whose holders they are -/

theorem Tracks.local?_eq_some (hm : m.Tracks ps) {v : LocalVar} (hv : v ∈ m.locals) :
    m.local? v.id = some v :=
  find?_key_eq_some hm.nodup_locals hv

theorem Tracks.catch?_eq_some (hm : m.Tracks ps) {r : CatchRange} (hr : r ∈ m.catches) :
    m.catch? r.id = some r :=
  find?_key_eq_some hm.nodup_catches hr

/-- Variables and handlers have identities of their own. -/
theorem Tracks.id_ne (hm : m.Tracks ps) {v : LocalVar} (hv : v ∈ m.locals) {r : CatchRange}
    (hr : r ∈ m.catches) : v.id ≠ r.id := by
  have hnd := hm.nodup
  rw [holdings, List.map_append, List.map_append] at hnd
  refine (List.nodup_append.mp hnd.of_append_left).2.2 v.id ?_ r.id ?_
  · exact List.mem_map.mpr ⟨v.holding, List.mem_map_of_mem hv, rfl⟩
  · exact List.mem_map.mpr ⟨r.holding, List.mem_map_of_mem hr, rfl⟩

theorem mem_holdings {p : HolderId × List Handle} : p ∈ m.holdings ↔
    (∃ v ∈ m.locals, v.holding = p) ∨ ∃ r ∈ m.catches, r.holding = p := by
  rw [holdings, List.mem_append, List.mem_map, List.mem_map]

theorem owns_iff : m.owns t ↔ ∃ hs, (t, hs) ∈ m.holdings := by
  rw [owns, Bool.or_eq_true, local?, catch?, List.find?_isSome, List.find?_isSome]
  constructor
  · intro hexists
    rcases hexists with ⟨v, hv, heq⟩ | ⟨r, hr, heq⟩
    · exact ⟨v.held, mem_holdings.mpr (.inl ⟨v, hv, by rw [← of_decide_eq_true heq]; rfl⟩)⟩
    · exact ⟨r.held, mem_holdings.mpr (.inr ⟨r, hr, by rw [← of_decide_eq_true heq]; rfl⟩)⟩
  · intro hexists
    obtain ⟨hs, hmem⟩ := hexists
    rcases mem_holdings.mp hmem with ⟨v, hv, heq⟩ | ⟨r, hr, heq⟩
    · exact .inl ⟨v, hv, decide_eq_true (congrArg Prod.fst heq)⟩
    · exact .inr ⟨r, hr, decide_eq_true (congrArg Prod.fst heq)⟩

/-- What points at an instruction says so itself, whoever it belongs to. -/
theorem Tracks.mem_holders_iff (hm : m.Tracks ps) :
    t ∈ m.body.holders h ↔ ∃ hs, (t, hs) ∈ m.holdings ++ ps ∧ h ∈ hs :=
  hm.tight.mem_holders_iff.trans hm.count_ne_zero_iff

end Method

end JvmAssembler
