import JvmAssembler.Handle
import Mathlib.Data.List.Basic

/-!
# Rows

A plain sequence of values under distinct handles, which is what a chain amounts to for those who use
it. The editing functions say by themselves what each edit does to the order; they look for a handle
from the front and know nothing of links.
-/

namespace JvmAssembler

/-- A sequence of values under handles. -/
abbrev Rows (α : Type) := List (Handle × α)

namespace Rows

variable {α : Type}

def leading (rows : Rows α) : Option Handle := rows.head?.map Prod.fst

def trailing (rows : Rows α) : Option Handle := rows.getLast?.map Prod.fst

@[simp] theorem leading_cons (row : Handle × α) (rows : Rows α) :
    leading (row :: rows) = some row.1 := rfl

@[simp] theorem trailing_nil : trailing ([] : Rows α) = none := rfl

theorem trailing_concat (rows : Rows α) (row : Handle × α) :
    trailing (rows ++ [row]) = some row.1 := by
  simp [trailing]

theorem trailing_cons_cons (row row' : Handle × α) (rows : Rows α) :
    trailing (row :: row' :: rows) = trailing (row' :: rows) := by
  simp [trailing]

theorem trailing_append_cons (xs ys : Rows α) (row : Handle × α) :
    trailing (xs ++ row :: ys) = trailing (row :: ys) := by
  simp [trailing, List.getLast?_append, List.getLast?_cons]

theorem leading_append (xs ys : Rows α) :
    leading (xs ++ ys) = (leading xs).or (leading ys) := by
  cases xs <;> simp [leading]

theorem trailing_cons_or (row : Handle × α) (rows : Rows α) (before : Option Handle) :
    (trailing (row :: rows)).or before = (trailing rows).or (some row.1) := by
  cases h : rows.getLast? <;> simp [trailing, List.getLast?_cons, h]

theorem mem_of_mem_leading {rows : Rows α} {h : Handle} (hh : h ∈ leading rows) :
    h ∈ rows.map Prod.fst := by
  obtain ⟨row, hrow, rfl⟩ := Option.map_eq_some_iff.mp hh
  exact List.mem_map_of_mem (List.mem_of_head? hrow)

theorem mem_of_mem_trailing {rows : Rows α} {h : Handle} (hh : h ∈ trailing rows) :
    h ∈ rows.map Prod.fst := by
  obtain ⟨row, hrow, rfl⟩ := Option.map_eq_some_iff.mp hh
  exact List.mem_map_of_mem (List.mem_of_getLast? hrow)

theorem trailing_eq_none {rows : Rows α} : trailing rows = none ↔ rows = [] := by
  simp [trailing]

/-! ### Editing -/

def insertBefore (target : Handle) (row : Handle × α) : Rows α → Rows α
  | [] => []
  | (k, y) :: rest =>
    if k = target then row :: (k, y) :: rest else (k, y) :: insertBefore target row rest

def insertAfter (target : Handle) (row : Handle × α) : Rows α → Rows α
  | [] => []
  | (k, y) :: rest =>
    if k = target then (k, y) :: row :: rest else (k, y) :: insertAfter target row rest

def erase (h : Handle) (rows : Rows α) : Rows α := rows.filter (·.1 ≠ h)

def replace (h : Handle) (x : α) (rows : Rows α) : Rows α :=
  rows.map fun row => if row.1 = h then (h, x) else row

def value? (h : Handle) (rows : Rows α) : Option α := (rows.find? (·.1 = h)).map Prod.snd

/-! ### At one place

Every edit is about one row, and is worked out where the rows are cut around that row.
-/

section Split

variable {h : Handle} {x : α} {xs ys : Rows α}

theorem not_mem_of_nodup_split {x : α} (hnd : ((xs ++ (h, x) :: ys).map Prod.fst).Nodup) :
    h ∉ xs.map Prod.fst ∧ h ∉ ys.map Prod.fst := by
  rw [List.map_append, List.map_cons, List.nodup_append, List.nodup_cons] at hnd
  obtain ⟨-, ⟨hy, -⟩, hdisj⟩ := hnd
  exact ⟨fun hx => hdisj h hx h (by simp) rfl, hy⟩

theorem exists_split {rows : Rows α} (hnd : (rows.map Prod.fst).Nodup)
    (hh : h ∈ rows.map Prod.fst) :
    ∃ xs x ys, rows = xs ++ (h, x) :: ys ∧ h ∉ xs.map Prod.fst ∧ h ∉ ys.map Prod.fst := by
  obtain ⟨⟨k, x⟩, hrow, rfl⟩ := List.mem_map.mp hh
  obtain ⟨xs, ys, rfl⟩ := List.append_of_mem hrow
  exact ⟨xs, x, ys, rfl, not_mem_of_nodup_split hnd⟩

theorem insertBefore_split (hx : h ∉ xs.map Prod.fst) (row : Handle × α) :
    insertBefore h row (xs ++ (h, x) :: ys) = xs ++ row :: (h, x) :: ys := by
  induction xs with
  | nil => simp [insertBefore]
  | cons other xs ih =>
    rw [List.map_cons, List.mem_cons, not_or] at hx
    rw [List.cons_append, insertBefore, if_neg (Ne.symm hx.1), ih hx.2, List.cons_append]

theorem insertAfter_split (hx : h ∉ xs.map Prod.fst) (row : Handle × α) :
    insertAfter h row (xs ++ (h, x) :: ys) = xs ++ (h, x) :: row :: ys := by
  induction xs with
  | nil => simp [insertAfter]
  | cons other xs ih =>
    rw [List.map_cons, List.mem_cons, not_or] at hx
    rw [List.cons_append, insertAfter, if_neg (Ne.symm hx.1), ih hx.2, List.cons_append]

theorem erase_of_not_mem (hx : h ∉ xs.map Prod.fst) : erase h xs = xs := by
  refine List.filter_eq_self.mpr fun row hrow => decide_eq_true fun he => hx ?_
  exact he ▸ List.mem_map_of_mem hrow

theorem erase_split (hx : h ∉ xs.map Prod.fst) (hy : h ∉ ys.map Prod.fst) :
    erase h (xs ++ (h, x) :: ys) = xs ++ ys := by
  have hcons : erase h ((h, x) :: ys) = erase h ys := by simp [erase]
  have happ : erase h (xs ++ (h, x) :: ys) = erase h xs ++ erase h ((h, x) :: ys) :=
    List.filter_append ..
  rw [happ, hcons, erase_of_not_mem hx, erase_of_not_mem hy]

theorem replace_of_not_mem (hx : h ∉ xs.map Prod.fst) (z : α) : replace h z xs = xs := by
  refine (List.map_congr_left fun row hrow => if_neg fun he => hx ?_).trans (List.map_id xs)
  exact he ▸ List.mem_map_of_mem hrow

theorem replace_split (hx : h ∉ xs.map Prod.fst) (hy : h ∉ ys.map Prod.fst) (z : α) :
    replace h z (xs ++ (h, x) :: ys) = xs ++ (h, z) :: ys := by
  have happ : replace h z (xs ++ (h, x) :: ys) = replace h z xs ++ (h, z) :: replace h z ys := by
    simp [replace]
  rw [happ, replace_of_not_mem hx, replace_of_not_mem hy]

theorem find?_of_not_mem (hx : h ∉ xs.map Prod.fst) : xs.find? (·.1 = h) = none := by
  refine List.find?_eq_none.mpr fun row hrow he => hx ?_
  exact of_decide_eq_true he ▸ List.mem_map_of_mem hrow

theorem value?_of_not_mem (hx : h ∉ xs.map Prod.fst) : value? h xs = none := by
  rw [value?, find?_of_not_mem hx, Option.map_none]

theorem value?_split (hx : h ∉ xs.map Prod.fst) : value? h (xs ++ (h, x) :: ys) = some x := by
  rw [value?, List.find?_append, find?_of_not_mem hx]
  simp

end Split

/-! ### What stays -/

section Membership

variable {h k : Handle} {row : Handle × α} {rows : Rows α}

theorem mem_insertBefore (target : Handle) (hh : h ∈ rows.map Prod.fst) :
    h ∈ (rows.insertBefore target row).map Prod.fst := by
  induction rows with
  | nil => exact hh
  | cons other rows ih =>
    rw [insertBefore]
    rcases List.mem_cons.mp hh with rfl | hh <;> split <;> simp_all

theorem mem_insertAfter (target : Handle) (hh : h ∈ rows.map Prod.fst) :
    h ∈ (rows.insertAfter target row).map Prod.fst := by
  induction rows with
  | nil => exact hh
  | cons other rows ih =>
    rw [insertAfter]
    rcases List.mem_cons.mp hh with rfl | hh <;> split <;> simp_all

theorem mem_insertAfter_self {target : Handle} (htarget : target ∈ rows.map Prod.fst) :
    row.1 ∈ (rows.insertAfter target row).map Prod.fst := by
  induction rows with
  | nil => cases htarget
  | cons other rows ih =>
    rw [insertAfter]
    rcases List.mem_cons.mp htarget with rfl | htarget <;> split <;> simp_all

theorem mem_erase (hne : k ≠ h) (hk : k ∈ rows.map Prod.fst) : k ∈ (rows.erase h).map Prod.fst := by
  obtain ⟨row, hrow, rfl⟩ := List.mem_map.mp hk
  exact List.mem_map_of_mem (List.mem_filter.mpr ⟨hrow, by simpa using hne⟩)

theorem map_fst_replace (h : Handle) (x : α) (rows : Rows α) :
    (rows.replace h x).map Prod.fst = rows.map Prod.fst := by
  rw [replace, List.map_map]
  refine List.map_congr_left fun row _ => ?_
  by_cases hrow : row.1 = h <;> simp [hrow]

end Membership

end Rows

end JvmAssembler
