import JvmAssembler.Proofs.Chain.Segment

/-!
# Editing a chain

What each edit of a chain does to the rows that the chain holds. Everything is stated where the rows
are cut at the place of the edit; an edit that names a dead handle fails and says which.
-/

namespace JvmAssembler.Chain

open Rows

variable {α : Type}

/-- The chain consists of the rows, linked in order, and has given out `issued` handles so far. -/
structure Holds (c : Chain α) (issued : Nat) (rows : Rows α) : Prop extends c.Threaded rows where
  contains_iff : ∀ h, c.contains h ↔ h ∈ rows.map Prod.fst
  size_eq : c.size = rows.length
  issued_eq : c.nodes.size = issued

variable {c : Chain α} {n : Nat} {rows xs ys : Rows α} {h : Handle}

theorem Holds.empty : (∅ : Chain α).Holds 0 [] where
  nodup := List.nodup_nil
  segment := trivial
  first_eq := rfl
  last_eq := rfl
  contains_iff h := by simp [contains, node?, show (∅ : Chain α).nodes = #[] from rfl]
  size_eq := rfl
  issued_eq := rfl

/-! ### Reading -/

theorem Holds.node_split {x : α} (hc : c.Holds n (xs ++ (h, x) :: ys)) :
    c.node h = .ok ⟨x, trailing xs, leading ys⟩ := by
  rw [node, hc.node?_eq]

theorem Holds.node_of_not_mem (hc : c.Holds n rows) (hh : h ∉ rows.map Prod.fst) :
    c.node h = .error h := by
  have hnone : c.node? h = none := by
    simpa [contains] using mt (hc.contains_iff h).mp hh
  rw [node, hnone]

theorem Holds.id_lt (hc : c.Holds n rows) (hh : h ∈ rows.map Prod.fst) : h.id < n := by
  have hsome := (hc.contains_iff h).mpr hh
  by_contra hge
  have hout : c.nodes[h.id]? = none := by
    rw [Array.getElem?_eq_none_iff, hc.issued_eq]
    omega
  simp [contains, node?, hout] at hsome

theorem Holds.fresh (hc : c.Holds n rows) : (⟨n⟩ : Handle) ∉ rows.map Prod.fst := fun hmem =>
  Nat.lt_irrefl n (hc.id_lt hmem)

/-! ### Adding -/

theorem node?_alloc (c : Chain α) (x : α) (k : Handle) :
    (c.alloc x).2.node? k = if k.id = c.nodes.size then some ⟨x, none, none⟩ else c.node? k := by
  rw [alloc, node?, Array.getElem?_push, apply_ite Option.join]
  rfl

/-- A new element between the rows `xs` and `ys`. -/
theorem Holds.alloc_link (hc : c.Holds n (xs ++ ys)) (x : α) :
    ((c.alloc x).2.link ⟨n⟩ (trailing xs) (leading ys)).Holds (n + 1) (xs ++ (⟨n⟩, x) :: ys) := by
  have hnode : (c.alloc x).2.node? ⟨n⟩ = some ⟨x, none, none⟩ := by
    rw [node?_alloc, if_pos hc.issued_eq.symm]
  have hsame : ∀ k ∈ (xs ++ ys).map Prod.fst, (c.alloc x).2.node? k = c.node? k := by
    intro k hk
    rw [node?_alloc, if_neg]
    have := hc.id_lt hk
    have := hc.issued_eq
    omega
  have halloc : (c.alloc x).2.Threaded (xs ++ ys) :=
    ⟨hc.nodup, hc.segment.congr hsame, hc.first_eq, hc.last_eq⟩
  refine ⟨halloc.link hc.fresh hnode, fun k => ?_, ?_, ?_⟩
  · have hk : k.id = n ↔ k = ⟨n⟩ := by
      rcases k with ⟨k⟩
      simp
    have hold := hc.contains_iff k
    rw [contains, List.map_append, List.mem_append] at hold
    rw [contains, isSome_node?_link, node?_alloc, hc.issued_eq, List.map_append, List.map_cons,
      List.mem_append, List.mem_cons]
    by_cases he : k.id = n
    · simp [hk.mp he]
    · rw [if_neg he, hold, or_iff_right (a := k = _) fun h => he (hk.mpr h)]
  · have hsize : (c.alloc x).2.size = c.size + 1 := rfl
    rw [size_link, hsize, hc.size_eq, List.length_append, List.length_append, List.length_cons]
    omega
  · rw [size_nodes_link, alloc, Array.size_push, hc.issued_eq]

theorem Holds.append (hc : c.Holds n rows) (x : α) :
    ∃ d, c.append x = (⟨n⟩, d) ∧ d.Holds (n + 1) (rows ++ [(⟨n⟩, x)]) := by
  have hnew : (c.alloc x).1 = ⟨n⟩ := congrArg Handle.mk hc.issued_eq
  have hlast := hc.last_eq
  rw [← List.append_nil rows] at hc
  refine ⟨_, ?_, hc.alloc_link x⟩
  rw [Chain.append, hlast, ← hnew]
  rfl

theorem Holds.insertBefore {y : α} (hc : c.Holds n (xs ++ (h, y) :: ys)) (x : α) :
    ∃ d, c.insertBefore h x = .ok (⟨n⟩, d) ∧
      d.Holds (n + 1) (xs ++ (⟨n⟩, x) :: (h, y) :: ys) := by
  have hnew : (c.alloc x).1 = ⟨n⟩ := congrArg Handle.mk hc.issued_eq
  refine ⟨_, ?_, hc.alloc_link x⟩
  rw [Chain.insertBefore, hc.node_split, leading_cons, ← hnew]
  rfl

theorem Holds.insertAfter {y : α} (hc : c.Holds n (xs ++ (h, y) :: ys)) (x : α) :
    ∃ d, c.insertAfter h x = .ok (⟨n⟩, d) ∧
      d.Holds (n + 1) (xs ++ (h, y) :: (⟨n⟩, x) :: ys) := by
  have hnew : (c.alloc x).1 = ⟨n⟩ := congrArg Handle.mk hc.issued_eq
  have hnode := hc.node_split
  rw [List.append_cons] at hc ⊢
  refine ⟨_, ?_, hc.alloc_link x⟩
  rw [Chain.insertAfter, hnode, trailing_concat, ← hnew]
  rfl

/-! ### Changing and removing -/

theorem Holds.modifyNode {y : α} (hc : c.Holds n (xs ++ (h, y) :: ys)) (change : α → α) :
    (c.modifyNode h fun node => { node with value := change node.value }).Holds n
      (xs ++ (h, change y) :: ys) := by
  have hkeys : (xs ++ (h, change y) :: ys).map Prod.fst = (xs ++ (h, y) :: ys).map Prod.fst := by
    simp
  obtain ⟨hx, hy⟩ := not_mem_of_nodup_split hc.nodup
  refine ⟨⟨hkeys ▸ hc.nodup, ?_, ?_, ?_⟩, fun k => ?_, ?_, ?_⟩
  · obtain ⟨hsegx, hnode, hsegy⟩ := (segment_append ..).mp hc.segment
    refine (segment_append ..).mpr ⟨hsegx.modifyNode hx _, ?_, hsegy.modifyNode hy _⟩
    rw [node?_modifyNode, if_pos rfl, hnode]
    rfl
  · rw [first_modifyNode, hc.first_eq, leading_append, leading_append]
    rfl
  · rw [last_modifyNode, hc.last_eq, trailing_append_cons, trailing_append_cons]
    rcases ys with _ | ⟨row, ys⟩
    · rfl
    · rw [trailing_cons_cons, trailing_cons_cons]
  · rw [hkeys, contains, isSome_node?_modifyNode, ← hc.contains_iff]
    rfl
  · rw [size_modifyNode, hc.size_eq, List.length_append, List.length_append, List.length_cons,
      List.length_cons]
  · rw [size_nodes_modifyNode, hc.issued_eq]

theorem Holds.modify {y : α} (hc : c.Holds n (xs ++ (h, y) :: ys)) (change : α → α) :
    ∃ d, c.modify h change = .ok (y, d) ∧ d.Holds n (xs ++ (h, change y) :: ys) := by
  refine ⟨_, ?_, hc.modifyNode change⟩
  rw [Chain.modify, hc.node_split]
  rfl

/-- The chain with the place of an element emptied, which has to be off all rows. -/
def vacate (c : Chain α) (h : Handle) : Chain α :=
  { c with nodes := c.nodes.setIfInBounds h.id none, size := c.size - 1 }

theorem size_vacate (c : Chain α) (h : Handle) : (c.vacate h).size = c.size - 1 := rfl

theorem node?_vacate (c : Chain α) (h k : Handle) :
    (c.vacate h).node? k = if k = h then none else c.node? k := by
  have hid : h.id = k.id ↔ k = h := by
    rcases h with ⟨h⟩
    rcases k with ⟨k⟩
    simp [eq_comm]
  rw [vacate, node?, Array.getElem?_setIfInBounds]
  by_cases hk : k = h
  · rw [if_pos (hid.mpr hk), if_pos hk]
    split <;> rfl
  · rw [if_neg (mt hid.mp hk), if_neg hk]
    rfl

theorem Holds.erase {y : α} (hc : c.Holds n (xs ++ (h, y) :: ys)) :
    ∃ d, c.erase h = .ok (y, d) ∧ d.Holds n (xs ++ ys) := by
  obtain ⟨hx, hy⟩ := not_mem_of_nodup_split hc.nodup
  obtain ⟨hthread, -⟩ := hc.unlink hc.node?_eq
  have hout : h ∉ (xs ++ ys).map Prod.fst := by
    rw [List.map_append, List.mem_append, not_or]
    exact ⟨hx, hy⟩
  refine ⟨(c.unlink h ⟨y, trailing xs, leading ys⟩).vacate h, ?_,
    ⟨hthread.nodup, ?_, hthread.first_eq, hthread.last_eq⟩, fun k => ?_, ?_, ?_⟩
  · rw [Chain.erase, hc.node_split]
    rfl
  · refine hthread.segment.congr fun k hk => ?_
    rw [node?_vacate, if_neg]
    intro heq
    subst heq
    exact hout hk
  · have hold := hc.contains_iff k
    rw [contains, List.map_append, List.map_cons, List.mem_append, List.mem_cons] at hold
    rw [contains, node?_vacate]
    by_cases hk : k = h
    · subst hk
      simp [hx, hy]
    · rw [if_neg hk, isSome_node?_unlink, hold, or_iff_right (a := k = _) hk, List.map_append,
        List.mem_append]
  · rw [size_vacate, size_unlink, hc.size_eq, List.length_append, List.length_append, List.length_cons]
    omega
  · rw [vacate, Array.size_setIfInBounds, size_nodes_unlink, hc.issued_eq]

/-! ### Moving -/

/-- An element that is unlinked and linked in again elsewhere. -/
theorem Holds.unlink_link {y : α} {us vs : Rows α} (hc : c.Holds n (xs ++ (h, y) :: ys))
    (hsplit : xs ++ ys = us ++ vs) :
    ((c.unlink h ⟨y, trailing xs, leading ys⟩).link h (trailing us) (leading vs)).Holds n
      (us ++ (h, y) :: vs) := by
  obtain ⟨hx, hy⟩ := not_mem_of_nodup_split hc.nodup
  obtain ⟨hthread, hnode⟩ := hc.unlink hc.node?_eq
  have hout : h ∉ (xs ++ ys).map Prod.fst := by
    rw [List.map_append, List.mem_append, not_or]
    exact ⟨hx, hy⟩
  rw [hsplit] at hthread hout
  refine ⟨hthread.link hout hnode, fun k => ?_, ?_, ?_⟩
  · have hperm : (us ++ (h, y) :: vs).Perm (xs ++ (h, y) :: ys) := by
      refine List.perm_middle.trans (List.Perm.trans ?_ List.perm_middle.symm)
      rw [hsplit]
    rw [contains, isSome_node?_link, isSome_node?_unlink, (hperm.map Prod.fst).mem_iff,
      ← hc.contains_iff]
    rfl
  · have hlen := congrArg List.length hsplit
    rw [size_link, size_unlink, hc.size_eq]
    simp only [List.length_append, List.length_cons] at hlen ⊢
    omega
  · rw [size_nodes_link, size_nodes_unlink, hc.issued_eq]

theorem moveAfter_of_ne {a : Handle} (hne : a ≠ h) {node other : Node α}
    (hnode : c.node h = .ok node) (hother : c.node a = .ok other) :
    c.moveAfter h (some a) =
      .ok ((c.unlink h node).link h (some a) ((c.unlink h node).next? a)) := by
  rw [Chain.moveAfter, hnode]
  change (if some a = some h then _ else _) = _
  rw [if_neg (mt Option.some.inj hne), hother]
  rfl

theorem moveAfter_self {node : Node α} (hnode : c.node h = .ok node) :
    c.moveAfter h (some h) = .ok c := by
  rw [Chain.moveAfter, hnode]
  change (if some h = some h then _ else _) = _
  rw [if_pos rfl]
  rfl

theorem moveAfter_dead {a : Handle} (hne : a ≠ h) {node : Node α} (hnode : c.node h = .ok node)
    (hdead : c.node a = .error a) : c.moveAfter h (some a) = .error a := by
  rw [Chain.moveAfter, hnode]
  change (if some a = some h then _ else _) = _
  rw [if_neg (mt Option.some.inj hne), hdead]
  rfl

theorem Holds.moveAfter_none {y : α} (hc : c.Holds n (xs ++ (h, y) :: ys)) :
    ∃ d, c.moveAfter h none = .ok d ∧ d.Holds n ((h, y) :: (xs ++ ys)) := by
  have hfirst := (hc.unlink hc.node?_eq).1.first_eq
  refine ⟨_, ?_, hc.unlink_link (List.nil_append _).symm⟩
  rw [Chain.moveAfter, hc.node_split, ← hfirst]
  rfl

theorem Holds.moveAfter_some {y z : α} {a : Handle} {us vs : Rows α}
    (hc : c.Holds n (xs ++ (h, y) :: ys)) (hsplit : xs ++ ys = us ++ (a, z) :: vs) :
    ∃ d, c.moveAfter h (some a) = .ok d ∧ d.Holds n (us ++ (a, z) :: (h, y) :: vs) := by
  have hne : a ≠ h := by
    intro heq
    subst heq
    obtain ⟨hx, hy⟩ := not_mem_of_nodup_split hc.nodup
    have hmem : (a, z) ∈ xs ++ ys := hsplit ▸ by simp
    rcases List.mem_append.mp hmem with hmem | hmem
    · exact hx (List.mem_map_of_mem hmem)
    · exact hy (List.mem_map_of_mem hmem)
  have hlive : ∃ node, c.node a = .ok node := by
    have hmem : (a, z) ∈ xs ++ ys := hsplit ▸ by simp
    have hmem' : a ∈ (xs ++ (h, y) :: ys).map Prod.fst :=
      List.mem_map_of_mem (List.perm_middle.mem_iff.mpr (List.mem_cons_of_mem _ hmem))
    obtain ⟨node, hnode⟩ := Option.isSome_iff_exists.mp ((hc.contains_iff a).mpr hmem')
    exact ⟨node, by rw [Chain.node, hnode]⟩
  obtain ⟨other, hother⟩ := hlive
  have hthread := (hc.unlink hc.node?_eq).1
  rw [hsplit] at hthread
  have hnext := hthread.node?_eq
  rw [List.append_cons] at hsplit ⊢
  refine ⟨_, ?_, hc.unlink_link hsplit⟩
  rw [moveAfter_of_ne hne hc.node_split hother, next?, hnext, trailing_concat]
  rfl

end JvmAssembler.Chain
