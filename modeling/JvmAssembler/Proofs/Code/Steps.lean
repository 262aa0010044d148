import JvmAssembler.Code.Body
import JvmAssembler.Proofs.Atomic

/-!
# Steps on a body

What the computations on a body do in each case, as equations on their results, so that nothing else
has to look into how they are written.
-/

namespace JvmAssembler

namespace Body

variable {b : Body} {h : Handle}

section Edit

variable {α : Type} {change : Chain Line → Except Handle (α × Chain Line)}

theorem edit_of_ok {x : α} {d : Chain Line} (hok : change b.lines = .ok (x, d)) :
    edit change b = .ok x { b with lines := d, stale := true } := by
  rw [edit, hok]

theorem edit_of_error (hdead : change b.lines = .error h) :
    edit change b = .error (.deadHandle h) b := by
  rw [edit, hdead]

end Edit

theorem moveAfter_of_ok {after : Option Handle} {d : Chain Line}
    (hok : b.lines.moveAfter h after = .ok d) :
    moveAfter h after b = .ok () { b with lines := d, stale := b.stale || after ≠ some h } := by
  rw [moveAfter, hok]

theorem moveAfter_of_error {after : Option Handle} {dead : Handle}
    (hdead : b.lines.moveAfter h after = .error dead) :
    moveAfter h after b = .error (.deadHandle dead) b := by
  rw [moveAfter, hdead]

theorem erase_of_held (hlive : b.contains h) (hheld : b.isHeld h) :
    erase h b = .error (.stillHeld h (b.holders h)) b := by
  rw [erase, bind_of_ok (get_apply b), if_pos (by rw [hlive, hheld, Bool.and_self])]
  rfl

theorem erase_of_free (hfree : (b.contains h && b.isHeld h) = false) :
    erase h b = (Line.instruction <$> edit fun lines => lines.erase h) b := by
  rw [erase, bind_of_ok (get_apply b), if_neg (by simp [hfree])]
  rfl

theorem erase_of_dead (hdead : b.contains h = false) : erase h b = .error (.deadHandle h) b := by
  have hnode : b.lines.node? h = none := by simpa [contains, Chain.contains] using hdead
  rw [erase_of_free (by rw [hdead, Bool.false_and])]
  refine map_of_error _ (edit_of_error ?_)
  rw [Chain.erase, Chain.node, hnode]
  rfl

theorem instruction_of_dead (hdead : b.contains h = false) :
    b.instruction h = .error (.deadHandle h) := by
  have hnode : b.lines.node? h = none := by simpa [contains, Chain.contains] using hdead
  rw [instruction, line, hnode]
  rfl

theorem exists_erase_of_free (hlive : b.contains h) (hfree : b.isHeld h = false) :
    ∃ i b', b.instruction h = .ok i ∧ erase h b = .ok i b' := by
  obtain ⟨node, hnode⟩ := Option.isSome_iff_exists.mp hlive
  obtain ⟨d, hchain⟩ : ∃ d, b.lines.erase h = .ok (node.value, d) := by
    rw [Chain.erase, Chain.node, hnode]
    exact ⟨_, rfl⟩
  refine ⟨node.value.instruction, { b with lines := d, stale := true }, ?_, ?_⟩
  · rw [instruction, line, hnode]
    rfl
  · rw [erase_of_free (by rw [hfree, Bool.and_false])]
    exact map_of_ok _ (edit_of_ok hchain)

theorem erase_cases (h : Handle) (b : Body) :
    (b.contains h = false ∧ erase h b = .error (.deadHandle h) b) ∨
      (b.contains h ∧ b.isHeld h ∧ erase h b = .error (.stillHeld h (b.holders h)) b) ∨
      (b.contains h ∧ b.isHeld h = false ∧
        ∃ i b', b.instruction h = .ok i ∧ erase h b = .ok i b') := by
  cases hlive : b.contains h with
  | false => exact .inl ⟨rfl, erase_of_dead hlive⟩
  | true =>
    cases hheld : b.isHeld h with
    | true => exact .inr (.inl ⟨rfl, rfl, erase_of_held hlive hheld⟩)
    | false => exact .inr (.inr ⟨rfl, rfl, exists_erase_of_free hlive hheld⟩)

theorem requireLive_of_live {handles : List Handle} (hlive : ∀ h ∈ handles, b.contains h) :
    requireLive handles b = .ok () b := by
  have hfind : handles.find? (!b.contains ·) = none :=
    List.find?_eq_none.mpr fun h hh => by simp [hlive h hh]
  rw [requireLive, bind_of_ok (get_apply b), hfind]
  rfl

theorem requireLive_of_dead {handles : List Handle} (hdead : handles.find? (!b.contains ·) = some h) :
    requireLive handles b = .error (.deadHandle h) b := by
  rw [requireLive, bind_of_ok (get_apply b), hdead]
  rfl

def rebound (r : Registry) (t : HolderId) (old new : Option Handle) : Registry :=
  let r := old.elim r (r.lower · t)
  new.elim r (r.raise · t)

theorem rebind_of_live {new : Option Handle} (hlive : ∀ k ∈ new, b.contains k) (t : HolderId)
    (old : Option Handle) :
    rebind t old new b = .ok () { b with registry := rebound b.registry t old new } := by
  rw [rebind, bind_of_ok (requireLive_of_live fun k hk => hlive k (Option.mem_toList.mp hk))]
  rfl

theorem rebind_of_dead (hdead : b.contains h = false) (t : HolderId) (old : Option Handle) :
    rebind t old (some h) b = .error (.deadHandle h) b := by
  rw [rebind, bind_of_error (requireLive_of_dead (h := h) (by simp [hdead]))]

theorem rebind_cases (t : HolderId) (old new : Option Handle) (b : Body) :
    ((∀ k ∈ new, b.contains k) ∧
        rebind t old new b = .ok () { b with registry := rebound b.registry t old new }) ∨
      ∃ k, new = some k ∧ b.contains k = false ∧
        rebind t old new b = .error (.deadHandle k) b := by
  by_cases hlive : ∀ k ∈ new, b.contains k
  · exact .inl ⟨hlive, rebind_of_live hlive t old⟩
  · obtain ⟨k, rfl, hk⟩ : ∃ k, new = some k ∧ b.contains k = false := by simpa using hlive
    exact .inr ⟨k, rfl, hk, rebind_of_dead hk t old⟩

end Body

end JvmAssembler
