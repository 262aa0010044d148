import JvmAssembler.Chain
import JvmAssembler.Proofs.Chain.Rows

/-!
# Linked segments

What the links of a chain say about rows. A segment is read from the row before it to the row after
it, either of which may be missing, so that segments can be taken apart and put together anywhere.
Linking an element in and unlinking it are then two statements about a segment that is cut at one
place.
-/

namespace JvmAssembler.Chain

open Rows

variable {α : Type}

/-- The rows are linked to each other in order, the first of them back to `before` and the last of
them on to `after`. -/
def Segment (c : Chain α) (before : Option Handle) :
    Rows α → (after : Option Handle) → Prop
  | [], _ => True
  | (h, x) :: rest, after =>
    c.node? h = some ⟨x, before, (leading rest).or after⟩ ∧ c.Segment (some h) rest after

theorem segment_append (c : Chain α) (before after : Option Handle) (xs ys : Rows α) :
    c.Segment before (xs ++ ys) after ↔
      c.Segment before xs ((leading ys).or after) ∧
        c.Segment ((trailing xs).or before) ys after := by
  induction xs generalizing before with
  | nil => simp [Segment]
  | cons row xs ih =>
    rw [trailing_cons_or, List.cons_append, Segment, Segment, ih, leading_append, Option.or_assoc,
      and_assoc]

/-- A segment is a matter of its own rows only. -/
theorem Segment.congr {c d : Chain α} {before after : Option Handle} {rows : Rows α}
    (hseg : c.Segment before rows after) (same : ∀ h ∈ rows.map Prod.fst, d.node? h = c.node? h) :
    d.Segment before rows after := by
  induction rows generalizing before with
  | nil => trivial
  | cons row rows ih =>
    obtain ⟨hnode, hrest⟩ := hseg
    refine ⟨(same row.1 (by simp)).trans hnode, ih hrest fun h hh => same h ?_⟩
    simp [hh]

/-! ### Changing nodes -/

theorem node?_modifyNode (c : Chain α) (h k : Handle) (change : Node α → Node α) :
    (c.modifyNode h change).node? k = if h = k then (c.node? k).map change else c.node? k := by
  have hid : h.id = k.id ↔ h = k := by
    rcases h with ⟨h⟩
    rcases k with ⟨k⟩
    simp
  unfold modifyNode node?
  rw [Array.getElem?_modify]
  by_cases hk : h = k
  · subst hk
    cases c.nodes[h.id]? with
    | none => simp
    | some node => cases node <;> simp
  · simp [hk, hid]

@[simp] theorem first_modifyNode (c : Chain α) (h : Handle) (change : Node α → Node α) :
    (c.modifyNode h change).first = c.first := rfl

@[simp] theorem last_modifyNode (c : Chain α) (h : Handle) (change : Node α → Node α) :
    (c.modifyNode h change).last = c.last := rfl

theorem node?_setNext (c : Chain α) (h next : Option Handle) (k : Handle) :
    (c.setNext h next).node? k =
      if h = some k then (c.node? k).map fun node => { node with next } else c.node? k := by
  cases h with
  | none => rfl
  | some h => simp only [Chain.setNext, node?_modifyNode, Option.some.injEq]

theorem node?_setPrev (c : Chain α) (h prev : Option Handle) (k : Handle) :
    (c.setPrev h prev).node? k =
      if h = some k then (c.node? k).map fun node => { node with prev } else c.node? k := by
  cases h with
  | none => rfl
  | some h => simp only [Chain.setPrev, node?_modifyNode, Option.some.injEq]

theorem isSome_node?_modifyNode (c : Chain α) (h k : Handle) (change : Node α → Node α) :
    ((c.modifyNode h change).node? k).isSome = (c.node? k).isSome := by
  rw [node?_modifyNode]
  split <;> simp

theorem modifyNode_eq_self {c : Chain α} {h : Handle} {node : Node α}
    {change : Node α → Node α} (hnode : c.node? h = some node) (hsame : change node = node) :
    c.modifyNode h change = c := by
  have hplace : c.nodes[h.id]? = some (some node) := by
    rwa [node?, Option.join_eq_some_iff] at hnode
  have hnodes : c.nodes.modify h.id (Option.map change) = c.nodes := by
    ext1
    · exact Array.size_modify
    · next k _ hk =>
      rw [Array.getElem_modify]
      split
      · next heq =>
        subst heq
        have := (Array.getElem?_eq_some_iff.mp hplace).2
        rw [this, Option.map_some, hsame]
      · rfl
  rw [modifyNode, hnodes]

theorem Segment.modifyNode {c : Chain α} {before after : Option Handle}
    {rows : Rows α} (hseg : c.Segment before rows after) {h : Handle}
    (hh : h ∉ rows.map Prod.fst) (change : Node α → Node α) :
    (c.modifyNode h change).Segment before rows after := by
  refine hseg.congr fun k hk => ?_
  rw [node?_modifyNode, if_neg]
  intro heq
  subst heq
  exact hh hk

theorem Segment.setNext {c : Chain α} {before after : Option Handle}
    {rows : Rows α} (hseg : c.Segment before rows after) {h : Option Handle}
    (hh : ∀ k ∈ h, k ∉ rows.map Prod.fst) (next : Option Handle) :
    (c.setNext h next).Segment before rows after := by
  cases h with
  | none => exact hseg.congr fun _ _ => rfl
  | some k => exact hseg.modifyNode (hh k rfl) _

theorem Segment.setPrev {c : Chain α} {before after : Option Handle}
    {rows : Rows α} (hseg : c.Segment before rows after) {h : Option Handle}
    (hh : ∀ k ∈ h, k ∉ rows.map Prod.fst) (prev : Option Handle) :
    (c.setPrev h prev).Segment before rows after := by
  cases h with
  | none => exact hseg.congr fun _ _ => rfl
  | some k => exact hseg.modifyNode (hh k rfl) _

/-- Setting what follows the last row changes where the segment leads on to. -/
theorem Segment.setNext_trailing {c : Chain α} {before after : Option Handle}
    {rows : Rows α} (hseg : c.Segment before rows after)
    (hnd : (rows.map Prod.fst).Nodup) (next : Option Handle) :
    (c.setNext (trailing rows) next).Segment before rows next := by
  rcases List.eq_nil_or_concat' rows with rfl | ⟨init, ⟨h, x⟩, rfl⟩
  · trivial
  · rw [trailing_concat]
    rw [segment_append] at hseg ⊢
    rw [List.map_append, List.nodup_append] at hnd
    have hinit : h ∉ init.map Prod.fst := fun hmem => hnd.2.2 h hmem h (by simp) rfl
    obtain ⟨hfront, hnode, -⟩ := hseg
    refine ⟨hfront.modifyNode hinit _, ?_, trivial⟩
    rw [Chain.setNext, node?_modifyNode, if_pos rfl, hnode]
    rfl

/-- Setting what precedes the first row changes where the segment leads back to. -/
theorem Segment.setPrev_leading {c : Chain α} {before after : Option Handle}
    {rows : Rows α} (hseg : c.Segment before rows after)
    (hnd : (rows.map Prod.fst).Nodup) (prev : Option Handle) :
    (c.setPrev (leading rows) prev).Segment prev rows after := by
  rcases rows with _ | ⟨⟨h, x⟩, rest⟩
  · trivial
  · obtain ⟨hnode, hrest⟩ := hseg
    have hnot : h ∉ rest.map Prod.fst := (List.nodup_cons.mp hnd).1
    refine ⟨?_, hrest.modifyNode hnot _⟩
    rw [leading_cons, Chain.setPrev, node?_modifyNode, if_pos rfl, hnode]
    rfl

/-! ### Linking and unlinking -/

/-- The links of a chain, its ends included, run through the rows in order. -/
structure Threaded (c : Chain α) (rows : Rows α) : Prop where
  nodup : (rows.map Prod.fst).Nodup
  segment : c.Segment none rows none
  first_eq : c.first = leading rows
  last_eq : c.last = trailing rows

theorem first_setNext (c : Chain α) (h next : Option Handle) :
    (c.setNext h next).first = if h = none then next else c.first := by
  cases h <;> rfl

@[simp] theorem last_setNext (c : Chain α) (h next : Option Handle) :
    (c.setNext h next).last = c.last := by
  cases h <;> rfl

@[simp] theorem first_setPrev (c : Chain α) (h prev : Option Handle) :
    (c.setPrev h prev).first = c.first := by
  cases h <;> rfl

theorem last_setPrev (c : Chain α) (h prev : Option Handle) :
    (c.setPrev h prev).last = if h = none then prev else c.last := by
  cases h <;> rfl

/-- An element that is allocated but on no row is linked in between the rows `xs` and `ys`. -/
theorem Threaded.link {c : Chain α} {xs ys : Rows α} (hc : c.Threaded (xs ++ ys))
    {h : Handle} (hh : h ∉ (xs ++ ys).map Prod.fst) {node : Node α} (hnode : c.node? h = some node) :
    (c.link h (trailing xs) (leading ys)).Threaded (xs ++ (h, node.value) :: ys) := by
  obtain ⟨hnd, hseg, hfirst, hlast⟩ := hc
  rw [segment_append, Option.or_none, Option.or_none] at hseg
  rw [List.map_append, List.mem_append, not_or] at hh
  rw [List.map_append, List.nodup_append] at hnd
  obtain ⟨hndx, hndy, hdisj⟩ := hnd
  have hxy : ∀ k ∈ trailing xs, k ∉ ys.map Prod.fst := fun k hk hky =>
    hdisj k (mem_of_mem_trailing hk) k hky rfl
  have hyx : ∀ k ∈ leading ys, k ∉ xs.map Prod.fst := fun k hk hkx =>
    hdisj k hkx k (mem_of_mem_leading hk) rfl
  have hhx : trailing xs ≠ some h := fun he => hh.1 (mem_of_mem_trailing he)
  have hhy : leading ys ≠ some h := fun he => hh.2 (mem_of_mem_leading he)
  have hself : (c.link h (trailing xs) (leading ys)).node? h
      = some ⟨node.value, trailing xs, leading ys⟩ := by
    rw [Chain.link, node?_setPrev, if_neg hhy, node?_setNext, if_neg hhx, node?_modifyNode,
      if_pos rfl, hnode]
    rfl
  refine ⟨?_, ?_, ?_, ?_⟩
  · rw [List.map_append, List.map_cons, List.nodup_append]
    refine ⟨hndx, List.nodup_cons.mpr ⟨hh.2, hndy⟩, fun a ha b hb => ?_⟩
    rcases List.mem_cons.mp hb with rfl | hb
    · intro heq
      subst heq
      exact hh.1 ha
    · exact hdisj a ha b hb
  · rw [segment_append, leading_cons, Option.some_or, Option.or_none, Segment, Option.or_none]
    refine ⟨?_, ?_, ?_⟩
    · exact ((hseg.1.modifyNode hh.1 _).setNext_trailing hndx _).setPrev hyx _
    · exact hself
    · exact ((hseg.2.modifyNode hh.2 _).setNext hxy _).setPrev_leading hndy _
  · rw [Chain.link, first_setPrev, first_setNext, first_modifyNode, hfirst, leading_append,
      leading_append, leading_cons]
    rcases xs with _ | ⟨row, xs⟩
    · rfl
    · rw [if_neg (by simp [trailing_eq_none])]
      rfl
  · rw [Chain.link, last_setPrev, last_setNext, last_modifyNode, hlast, trailing_append_cons]
    rcases ys with _ | ⟨row, ys⟩
    · rfl
    · rw [if_neg (by simp), trailing_append_cons, trailing_cons_cons]

/-- The node of a row is its value with the handles of the rows around it. -/
theorem Threaded.node?_eq {c : Chain α} {xs ys : Rows α} {h : Handle} {x : α}
    (hc : c.Threaded (xs ++ (h, x) :: ys)) : c.node? h = some ⟨x, trailing xs, leading ys⟩ := by
  have hseg := hc.segment
  rw [segment_append, Option.or_none, Segment] at hseg
  rw [hseg.2.1, Option.or_none, Option.or_none]

/-- An element is unlinked, after which it is on no row but still allocated. -/
theorem Threaded.unlink {c : Chain α} {xs ys : Rows α} {h : Handle} {x : α}
    (hc : c.Threaded (xs ++ (h, x) :: ys)) {node : Node α} (hnode : c.node? h = some node) :
    (c.unlink h node).Threaded (xs ++ ys) ∧ (c.unlink h node).node? h = some ⟨x, none, none⟩ := by
  obtain rfl : node = ⟨x, trailing xs, leading ys⟩ :=
    Option.some.inj (hnode.symm.trans hc.node?_eq)
  obtain ⟨hnd, hseg, hfirst, hlast⟩ := hc
  rw [segment_append, leading_cons, Option.some_or, Option.or_none, Segment, Option.or_none] at hseg
  obtain ⟨hsegx, -, hsegy⟩ := hseg
  rw [List.map_append, List.map_cons, List.nodup_append, List.nodup_cons] at hnd
  obtain ⟨hndx, ⟨hhy, hndy⟩, hdisj⟩ := hnd
  have hhx : h ∉ xs.map Prod.fst := fun hmem => hdisj h hmem h (by simp) rfl
  have hxy : ∀ k ∈ trailing xs, k ∉ ys.map Prod.fst := fun k hk hky =>
    hdisj k (mem_of_mem_trailing hk) k (List.mem_cons_of_mem _ hky) rfl
  have hyx : ∀ k ∈ leading ys, k ∉ xs.map Prod.fst := fun k hk hkx =>
    hdisj k hkx k (List.mem_cons_of_mem _ (mem_of_mem_leading hk)) rfl
  refine ⟨⟨?_, ?_, ?_, ?_⟩, ?_⟩
  · rw [List.map_append, List.nodup_append]
    exact ⟨hndx, hndy, fun a ha b hb => hdisj a ha b (List.mem_cons_of_mem _ hb)⟩
  · rw [segment_append, Option.or_none, Option.or_none]
    refine ⟨?_, ?_⟩
    · exact ((hsegx.modifyNode hhx _).setNext_trailing hndx _).setPrev hyx _
    · exact ((hsegy.modifyNode hhy _).setNext hxy _).setPrev_leading hndy _
  · rw [Chain.unlink, first_setPrev, first_setNext, first_modifyNode, hfirst, leading_append,
      leading_append, leading_cons]
    rcases xs with _ | ⟨row, xs⟩
    · rfl
    · rw [if_neg (by simp [trailing_eq_none])]
      rfl
  · rw [Chain.unlink, last_setPrev, last_setNext, last_modifyNode, hlast]
    rcases ys with _ | ⟨row, ys⟩
    · rw [List.append_nil]
      rfl
    · rw [if_neg (by simp), trailing_append_cons, trailing_append_cons, trailing_cons_cons]
  · have hnx : trailing xs ≠ some h := fun he => hhx (mem_of_mem_trailing he)
    have hny : leading ys ≠ some h := fun he => hhy (mem_of_mem_leading he)
    rw [Chain.unlink, node?_setPrev, if_neg hny, node?_setNext, if_neg hnx, node?_modifyNode,
      if_pos rfl, hnode]
    rfl

/-! ### What linking leaves alone -/

theorem isSome_node?_link (c : Chain α) (h k : Handle) (before after : Option Handle) :
    ((c.link h before after).node? k).isSome = (c.node? k).isSome := by
  rw [link, node?_setPrev, apply_ite Option.isSome, Option.isSome_map, ite_self, node?_setNext,
    apply_ite Option.isSome, Option.isSome_map, ite_self, isSome_node?_modifyNode]

theorem isSome_node?_unlink (c : Chain α) (h k : Handle) (node : Node α) :
    ((c.unlink h node).node? k).isSome = (c.node? k).isSome := by
  rw [unlink, node?_setPrev, apply_ite Option.isSome, Option.isSome_map, ite_self, node?_setNext,
    apply_ite Option.isSome, Option.isSome_map, ite_self, isSome_node?_modifyNode]

@[simp] theorem size_modifyNode (c : Chain α) (h : Handle) (change : Node α → Node α) :
    (c.modifyNode h change).size = c.size := rfl

@[simp] theorem size_setNext (c : Chain α) (h next : Option Handle) :
    (c.setNext h next).size = c.size := by
  cases h <;> rfl

@[simp] theorem size_setPrev (c : Chain α) (h prev : Option Handle) :
    (c.setPrev h prev).size = c.size := by
  cases h <;> rfl

theorem size_link (c : Chain α) (h : Handle) (before after : Option Handle) :
    (c.link h before after).size = c.size := by
  rw [link, size_setPrev, size_setNext, size_modifyNode]

theorem size_unlink (c : Chain α) (h : Handle) (node : Node α) :
    (c.unlink h node).size = c.size := by
  rw [unlink, size_setPrev, size_setNext, size_modifyNode]

@[simp] theorem size_nodes_modifyNode (c : Chain α) (h : Handle) (change : Node α → Node α) :
    (c.modifyNode h change).nodes.size = c.nodes.size :=
  Array.size_modify

@[simp] theorem size_nodes_setNext (c : Chain α) (h next : Option Handle) :
    (c.setNext h next).nodes.size = c.nodes.size := by
  cases h with
  | none => rfl
  | some h => exact size_nodes_modifyNode ..

@[simp] theorem size_nodes_setPrev (c : Chain α) (h prev : Option Handle) :
    (c.setPrev h prev).nodes.size = c.nodes.size := by
  cases h with
  | none => rfl
  | some h => exact size_nodes_modifyNode ..

theorem size_nodes_link (c : Chain α) (h : Handle) (before after : Option Handle) :
    (c.link h before after).nodes.size = c.nodes.size := by
  rw [link, size_nodes_setPrev, size_nodes_setNext, size_nodes_modifyNode]

theorem size_nodes_unlink (c : Chain α) (h : Handle) (node : Node α) :
    (c.unlink h node).nodes.size = c.nodes.size := by
  rw [unlink, size_nodes_setPrev, size_nodes_setNext, size_nodes_modifyNode]

end JvmAssembler.Chain
