import JvmAssembler.Proofs.Code.Refinement
import JvmAssembler.Proofs.Code.Registry

/-!
# Holdings

A body keeps track of holders when its registrations count exactly what the holders themselves say
that they point at, and all of that is alive. Edits of the body keep track of the same holders, and
each step that a holder takes through the body changes what that one points at and nothing else.
-/

namespace JvmAssembler

open Rows

/-- Holders, each with the instructions that it points at: twice with one that it points at twice. -/
abbrev Holdings := List (HolderId × List Handle)

namespace Holdings

variable {ps qs : Holdings} {t u : HolderId} {h : Handle} {hs : List Handle}

def tally (ps : Holdings) (t : HolderId) (h : Handle) : Nat :=
  (ps.map fun p => if p.1 = t then p.2.count h else 0).sum

theorem tally_cons (ps : Holdings) (u : HolderId) (hs : List Handle) (t : HolderId) (h : Handle) :
    tally ((u, hs) :: ps) t h = (if u = t then hs.count h else 0) + ps.tally t h := rfl

theorem tally_perm (hp : List.Perm ps qs) (t : HolderId) (h : Handle) :
    ps.tally t h = qs.tally t h :=
  (hp.map _).sum_nat

theorem tally_of_not_mem (ht : t ∉ ps.map Prod.fst) (h : Handle) : ps.tally t h = 0 := by
  induction ps with
  | nil => rfl
  | cons p ps ih =>
    rw [List.map_cons, List.mem_cons, not_or] at ht
    rw [tally_cons, if_neg (Ne.symm ht.1), ih ht.2]

theorem tally_of_mem (hnd : (ps.map Prod.fst).Nodup) (hmem : (t, hs) ∈ ps) (h : Handle) :
    ps.tally t h = hs.count h := by
  induction ps with
  | nil => cases hmem
  | cons p ps ih =>
    obtain ⟨hp, hnd⟩ := List.nodup_cons.mp hnd
    rcases List.mem_cons.mp hmem with rfl | hmem
    · rw [tally_cons, if_pos rfl, tally_of_not_mem hp, Nat.add_zero]
    · have hne : p.1 ≠ t := fun heq => hp (heq ▸ List.mem_map_of_mem hmem)
      rw [tally_cons, if_neg hne, Nat.zero_add, ih hnd hmem]

theorem exists_of_tally_ne_zero (hne : ps.tally t h ≠ 0) : ∃ hs, (t, hs) ∈ ps ∧ h ∈ hs := by
  induction ps with
  | nil => exact absurd rfl hne
  | cons p ps ih =>
    rw [tally_cons] at hne
    by_cases hrest : tally ps t h = 0
    · rw [hrest] at hne
      split at hne
      · next heq =>
        subst heq
        exact ⟨p.2, List.mem_cons_self, List.count_pos_iff.mp (by omega)⟩
      · exact absurd rfl hne
    · obtain ⟨hs, hmem, hh⟩ := ih hrest
      exact ⟨hs, List.mem_cons_of_mem p hmem, hh⟩

end Holdings

namespace Listing

variable {l l' : Listing} {h : Handle}

theorem mem_of_find {i : Instruction} (hfind : l.find h = .ok i) : h ∈ l.handles := by
  by_contra hh
  rw [find_dead hh] at hfind
  cases hfind

/-- An edit leaves registrations alone, and every instruction that something points at is still there
after it. -/
theorem edited_keeps {e : Edit} {reply : Reply} (hok : l.edited e = .ok (reply, l')) :
    l'.registry = l.registry ∧ l.nextHolder ≤ l'.nextHolder ∧
      ∀ h ∈ l.handles, l.registry.isHeld h → h ∈ l'.handles := by
  cases e with
  | append i =>
    cases hok
    refine ⟨rfl, Nat.le_refl _, fun h hh _ => ?_⟩
    rw [handles, extend, List.map_append]
    exact List.mem_append_left _ hh
  | insertBefore k i =>
    obtain ⟨_, -, hok⟩ := ok_of_bind hok
    cases hok
    exact ⟨rfl, Nat.le_refl _, fun h hh _ => mem_insertBefore k hh⟩
  | insertAfter k i =>
    obtain ⟨_, -, hok⟩ := ok_of_bind hok
    cases hok
    exact ⟨rfl, Nat.le_refl _, fun h hh _ => mem_insertAfter k hh⟩
  | moveAfter k after =>
    obtain ⟨i, -, hok⟩ := ok_of_bind hok
    rcases after with _ | target
    · cases hok
      refine ⟨rfl, Nat.le_refl _, fun h hh _ => ?_⟩
      by_cases hk : h = k
      · exact hk ▸ List.mem_cons_self
      · exact List.mem_cons_of_mem k (mem_erase hk hh)
    · obtain ⟨_, hfind, hok⟩ := ok_of_bind hok
      split at hok
      · cases hok
        exact ⟨rfl, Nat.le_refl _, fun h hh _ => hh⟩
      case isFalse hne =>
        cases hok
        refine ⟨rfl, Nat.le_refl _, fun h hh _ => ?_⟩
        by_cases hk : h = k
        · subst hk
          exact mem_insertAfter_self (mem_erase hne (mem_of_find hfind))
        · exact mem_insertAfter target (mem_erase hk hh)
  | replace k i =>
    obtain ⟨_, -, hok⟩ := ok_of_bind hok
    cases hok
    refine ⟨rfl, Nat.le_refl _, fun h hh _ => ?_⟩
    rwa [handles, map_fst_replace]
  | erase k =>
    obtain ⟨_, -, hok⟩ := ok_of_bind hok
    split at hok
    · cases hok
    case isFalse hfree =>
      cases hok
      refine ⟨rfl, Nat.le_refl _, fun h hh hheld => mem_erase ?_ hh⟩
      intro heq
      exact hfree (heq ▸ hheld)
  | freshHolder =>
    cases hok
    exact ⟨rfl, Nat.le_succ _, fun h hh _ => hh⟩
  | layOut =>
    cases hok
    exact ⟨rfl, Nat.le_refl _, fun h hh _ => hh⟩

end Listing

/-! ### Keeping track -/

/-- The body counts for each of the holders what that one points at, and counts nothing else. All of it
is alive. -/
structure Body.Tracks (b : Body) (ps : Holdings) : Prop where
  shows : ∃ l, b.Shows l
  nodup : (ps.map Prod.fst).Nodup
  id_lt : ∀ p ∈ ps, p.1.id < b.nextHolder
  tight : b.registry.Tight
  count_eq : ∀ h t, b.registry.count h t = Holdings.tally ps t h
  live : ∀ p ∈ ps, ∀ h ∈ p.2, b.contains h

namespace Body

variable {b : Body} {ps qs : Holdings} {t : HolderId} {h : Handle} {hs ks : List Handle}

theorem Tracks.empty : (∅ : Body).Tracks [] where
  shows := ⟨∅, .empty⟩
  nodup := List.nodup_nil
  id_lt := by simp
  tight := Registry.tight_empty
  count_eq := Registry.count_empty
  live := by simp

theorem Tracks.perm (hb : b.Tracks ps) (hp : List.Perm ps qs) : b.Tracks qs where
  shows := hb.shows
  nodup := (hp.map Prod.fst).nodup_iff.mp hb.nodup
  id_lt := fun p hmem => hb.id_lt p (hp.mem_iff.mpr hmem)
  tight := hb.tight
  count_eq := fun h t => (hb.count_eq h t).trans (Holdings.tally_perm hp t h)
  live := fun p hmem => hb.live p (hp.mem_iff.mpr hmem)

/-- Nor does the order in which a holder lists what it points at. -/
theorem Tracks.reorder (hb : b.Tracks ((t, hs) :: ps)) (hp : List.Perm hs ks) :
    b.Tracks ((t, ks) :: ps) where
  shows := hb.shows
  nodup := hb.nodup
  id_lt := List.forall_mem_cons.mpr (List.forall_mem_cons.mp hb.id_lt)
  tight := hb.tight
  count_eq := fun h u => by
    rw [hb.count_eq, Holdings.tally_cons, Holdings.tally_cons, hp.count_eq]
  live := by
    obtain ⟨hfirst, hrest⟩ := List.forall_mem_cons.mp hb.live
    exact List.forall_mem_cons.mpr ⟨fun h hh => hfirst h (hp.mem_iff.mpr hh), hrest⟩

/-- A holder that points at nothing can be let go of. -/
theorem Tracks.forget (hb : b.Tracks ((t, []) :: ps)) : b.Tracks ps where
  shows := hb.shows
  nodup := (List.nodup_cons.mp hb.nodup).2
  id_lt := (List.forall_mem_cons.mp hb.id_lt).2
  tight := hb.tight
  count_eq := fun h u => by
    rw [hb.count_eq, Holdings.tally_cons, List.count_nil, ite_self, Nat.zero_add]
  live := (List.forall_mem_cons.mp hb.live).2

/-- What points at an instruction are the holders that say so. -/
theorem Tracks.count_ne_zero_iff (hb : b.Tracks ps) :
    b.registry.count h t ≠ 0 ↔ ∃ hs, (t, hs) ∈ ps ∧ h ∈ hs := by
  rw [hb.count_eq]
  constructor
  · exact Holdings.exists_of_tally_ne_zero
  · intro hexists
    obtain ⟨hs, hmem, hh⟩ := hexists
    rw [Holdings.tally_of_mem hb.nodup hmem]
    exact Nat.pos_iff_ne_zero.mp (List.count_pos_iff.mpr hh)

theorem Tracks.isHeld_of_mem (hb : b.Tracks ps) (hmem : (t, hs) ∈ ps) (hh : h ∈ hs) :
    b.registry.isHeld h :=
  hb.tight.isHeld_iff.mpr ⟨t, hb.count_ne_zero_iff.mpr ⟨hs, hmem, hh⟩⟩

/-! ### Steps -/

/-- The two bodies differ in nothing but their registrations. -/
def SameCode (b b' : Body) : Prop := b' = { b with registry := b'.registry }

theorem SameCode.refl (b : Body) : SameCode b b := rfl

theorem SameCode.trans {b' b'' : Body} (h : SameCode b b') (h' : SameCode b' b'') :
    SameCode b b'' := by
  rw [SameCode, h', h]

theorem SameCode.lines_eq {b' : Body} (h : SameCode b b') : b'.lines = b.lines := by
  rw [h]

theorem SameCode.shows {b' : Body} {l : Listing} (h : SameCode b b') (hs : b.Shows l) :
    b'.Shows { l with registry := b'.registry } := by
  rw [h]
  exact ⟨hs.exists_lines, rfl, hs.nextHolder_eq⟩

theorem contains_congr {b' : Body} (hlines : b'.lines = b.lines) (h : Handle) :
    b'.contains h = b.contains h := by
  rw [contains, hlines, contains]

theorem instruction_congr {b' : Body} (hlines : b'.lines = b.lines) (h : Handle) :
    b'.instruction h = b.instruction h := by
  rw [instruction, line, hlines, instruction, line]

theorem count_rebound (r : Registry) (t : HolderId) (old new : Option Handle) (k : Handle)
    (u : HolderId) : (rebound r t old new).count k u =
      r.count k u - (if t = u then old.toList.count k else 0) +
        if t = u then new.toList.count k else 0 := by
  have hlower (h : Handle) : (r.lower h t).count k u =
      r.count k u - if t = u then [h].count k else 0 := by
    rw [Registry.count_lower, List.count_singleton]
    by_cases hk : h = k <;> by_cases hu : t = u <;> simp [hk, hu]
  have hraise (s : Registry) (h : Handle) : (s.raise h t).count k u =
      s.count k u + if t = u then [h].count k else 0 := by
    rw [Registry.count_raise, List.count_singleton]
    by_cases hk : h = k <;> by_cases hu : t = u <;> simp [hk, hu]
  cases old <;> cases new <;> simp [rebound, hlower, hraise]

theorem tight_rebound {r : Registry} (hr : r.Tight) (t : HolderId) (old new : Option Handle) :
    (rebound r t old new).Tight := by
  cases old with
  | none =>
    cases new with
    | none => exact hr
    | some k => exact hr.raise k t
  | some h =>
    cases new with
    | none => exact hr.lower h t
    | some k => exact (hr.lower h t).raise k t

theorem Tracks.rebind_of_live (old new : Option Handle)
    (hb : b.Tracks ((t, old.toList ++ hs) :: ps)) (hlive : ∀ k ∈ new, b.contains k) :
    Surely (rebind t old new) b fun _ b' =>
      SameCode b b' ∧ b'.Tracks ((t, new.toList ++ hs) :: ps) := by
  refine ⟨_, _, Body.rebind_of_live hlive t old, rfl, ?_⟩
  obtain ⟨l, hl⟩ := hb.shows
  obtain ⟨hfirst, hrest⟩ := List.forall_mem_cons.mp hb.live
  constructor
  case shows => exact ⟨_, SameCode.shows rfl hl⟩
  case nodup => exact hb.nodup
  case id_lt => exact List.forall_mem_cons.mpr (List.forall_mem_cons.mp hb.id_lt)
  case tight => exact tight_rebound hb.tight t old new
  case count_eq =>
    intro k u
    have hcount := hb.count_eq k u
    rw [Holdings.tally_cons, List.count_append] at hcount
    rw [count_rebound, Holdings.tally_cons, List.count_append]
    by_cases hu : t = u
    · rw [if_pos hu] at hcount
      rw [if_pos hu, if_pos hu, if_pos hu]
      omega
    · rw [if_neg hu] at hcount
      rw [if_neg hu, if_neg hu, if_neg hu]
      omega
  case live =>
    refine List.forall_mem_cons.mpr ⟨fun k hk => ?_, hrest⟩
    rcases List.mem_append.mp hk with hk | hk
    · exact hlive k (Option.mem_toList.mp hk)
    · exact hfirst k (List.mem_append_right _ hk)

theorem Tracks.rebind (old new : Option Handle) (hb : b.Tracks ((t, old.toList ++ hs) :: ps)) :
    Atomically (rebind t old new) b fun _ b' =>
      SameCode b b' ∧ b'.Tracks ((t, new.toList ++ hs) :: ps) := by
  rcases rebind_cases t old new b with ⟨hlive, -⟩ | ⟨k, -, -, herror⟩
  · exact (hb.rebind_of_live old new hlive).atomically
  · exact .inl ⟨_, herror⟩

theorem requireLive_checks (handles : List Handle) (b : Body) :
    Atomically (requireLive handles) b fun _ b' => b' = b ∧ ∀ h ∈ handles, b.contains h := by
  cases hfind : handles.find? (!b.contains ·) with
  | none =>
    have hlive : ∀ h ∈ handles, b.contains h := by simpa using hfind
    exact .inr ⟨(), b, requireLive_of_live hlive, rfl, hlive⟩
  | some dead => exact .inl ⟨_, requireLive_of_dead hfind⟩

theorem Tracks.freshHolder (hb : b.Tracks ps) :
    Surely freshHolder b fun t b' => b'.lines = b.lines ∧ b'.Tracks ((t, []) :: ps) := by
  refine ⟨_, _, rfl, rfl, ?_⟩
  obtain ⟨l, hl⟩ := hb.shows
  constructor
  case shows =>
    exact ⟨{ l with nextHolder := b.nextHolder + 1 }, hl.exists_lines, hl.registry_eq, rfl⟩
  case nodup =>
    refine List.nodup_cons.mpr ⟨fun hmem => ?_, hb.nodup⟩
    obtain ⟨p, hp, heq⟩ := List.mem_map.mp hmem
    exact Nat.lt_irrefl b.nextHolder (heq ▸ hb.id_lt p hp :)
  case id_lt =>
    exact List.forall_mem_cons.mpr
      ⟨Nat.lt_succ_self _, fun p hp => Nat.lt_succ_of_lt (hb.id_lt p hp)⟩
  case tight => exact hb.tight
  case count_eq =>
    intro h u
    rw [Holdings.tally_cons, List.count_nil, ite_self, Nat.zero_add]
    exact hb.count_eq h u
  case live => exact List.forall_mem_cons.mpr ⟨by simp, hb.live⟩

theorem perform_atomic (e : Edit) (b : Body) : Atomically (perform e) b fun _ _ => True := by
  have hedit {α : Type} (change : Chain Line → Except Handle (α × Chain Line)) :
      Atomically (edit change) b fun _ _ => True := by
    cases hchange : change b.lines with
    | error h => exact .inl ⟨_, edit_of_error hchange⟩
    | ok result => exact .inr ⟨_, _, edit_of_ok hchange, trivial⟩
  cases e with
  | append i => exact (hedit _).map
  | insertBefore h i => exact (hedit _).map
  | insertAfter h i => exact (hedit _).map
  | moveAfter h after =>
    apply Atomically.map
    cases hchange : b.lines.moveAfter h after with
    | error dead => exact .inl ⟨_, moveAfter_of_error hchange⟩
    | ok lines => exact .inr ⟨_, _, moveAfter_of_ok hchange, trivial⟩
  | replace h i =>
    apply Atomically.map
    rw [Atomically, Surely, Body.replace]
    split
    · exact .inr ⟨_, _, rfl, trivial⟩
    · exact .inl ⟨_, rfl⟩
  | erase h =>
    apply Atomically.map
    rcases erase_cases h b with ⟨-, hend⟩ | ⟨-, -, hend⟩ | ⟨-, -, i, b', -, hend⟩
    · exact .inl ⟨_, hend⟩
    · exact .inl ⟨_, hend⟩
    · exact .inr ⟨i, b', hend, trivial⟩
  | freshHolder => exact .inr ⟨_, _, rfl, trivial⟩
  | layOut => exact .inr ⟨_, _, rfl, trivial⟩

/-- An edit that succeeds leaves registrations alone, and what something points at is still there. -/
theorem Shows.perform_keeps {l : Listing} (hl : b.Shows l) {e : Edit} {reply : Reply} {b' : Body}
    (hok : perform e b = .ok reply b') :
    (∃ l', b'.Shows l') ∧ b'.registry = b.registry ∧ b.nextHolder ≤ b'.nextHolder ∧
      ∀ h, b.contains h → b.isHeld h → b'.contains h := by
  obtain ⟨l', hlisting, hl'⟩ := hl.edited_of_ok hok
  obtain ⟨hregistry, hnext, hkeeps⟩ := Listing.edited_keeps hlisting
  refine ⟨⟨l', hl'⟩, ?_, ?_, fun h hlive hheld => ?_⟩
  · rw [hl'.registry_eq, hregistry, hl.registry_eq]
  · rwa [hl'.nextHolder_eq, hl.nextHolder_eq]
  · rw [isHeld, hl.registry_eq] at hheld
    exact (hl'.contains_iff h).mpr (hkeeps h ((hl.contains_iff h).mp hlive) hheld)

theorem Tracks.perform (hb : b.Tracks ps) (e : Edit) :
    Atomically (perform e) b fun _ b' => b'.Tracks ps := by
  rcases perform_atomic e b with herror | ⟨reply, b', hok, -⟩
  · exact .inl herror
  refine .inr ⟨reply, b', hok, ?_⟩
  obtain ⟨l, hl⟩ := hb.shows
  obtain ⟨hshows, hregistry, hnext, hkeeps⟩ := hl.perform_keeps hok
  constructor
  case shows => exact hshows
  case nodup => exact hb.nodup
  case id_lt => exact fun p hp => Nat.lt_of_lt_of_le (hb.id_lt p hp) hnext
  case tight => exact hregistry ▸ hb.tight
  case count_eq => exact hregistry ▸ hb.count_eq
  case live => exact fun p hp h hh => hkeeps h (hb.live p hp h hh) (hb.isHeld_of_mem hp hh)

theorem Tracks.erase (hb : b.Tracks ps) (h : Handle) :
    Atomically (erase h) b fun _ b' => b'.Tracks ps :=
  (hb.perform (.erase h)).of_map

theorem Tracks.erase_of_free (hb : b.Tracks ps) (hlive : b.contains h) (hfree : b.isHeld h = false) :
    Surely (Body.erase h) b fun _ b' => b'.Tracks ps := by
  obtain ⟨i, b', -, hok⟩ := exists_erase_of_free hlive hfree
  rcases hb.erase h with ⟨e, herror⟩ | hsurely
  · rw [hok] at herror
    cases herror
  · exact hsurely

theorem Tracks.ne_of_neighbour {k : Handle} (hb : b.Tracks ps)
    (hk : (b.next? h).or (b.prev? h) = some k) : k ≠ h := by
  obtain ⟨l, hl⟩ := hb.shows
  have hnd := hl.reads.nodup
  intro heq
  subst heq
  rcases Option.or_eq_some_iff.mp hk with hk | ⟨-, hk⟩
  · obtain ⟨before, after, heq⟩ := (hl.reads.next?_eq_some_iff k k).mp hk
    simp [heq, List.nodup_append] at hnd
  · obtain ⟨before, after, heq⟩ := (hl.reads.prev?_eq_some_iff k k).mp hk
    simp [heq, List.nodup_append] at hnd

end Body

end JvmAssembler
