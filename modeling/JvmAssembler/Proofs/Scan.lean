import JvmAssembler.Constant.Basic
import JvmAssembler.Proofs.SlotSeq
import Mathlib.Algebra.BigOperators.Group.List.Basic
import Mathlib.Algebra.Order.Ring.Nat
import Mathlib.Data.List.Induction

/-!
# Going through all elements

Looking up an offset by halving answers what one finds by going through the elements from the front. Both
are compared with what the answer says of the elements and of the slots before each of them: that an
element starts at the offset, that the offset is inside of one, or that it is in front of or behind the
places that can be told. Where every element takes at least one slot, offsets ascend strictly and no two
of these are the case together.
-/

namespace JvmAssembler.SlotSeq

variable {α : Type} {slots : α → Nat} {start offset : Nat} {xs : List α} {x : α} {i j : Nat}
  {s t : SlotSeq α slots}

/-! ### Sequences of given elements -/

/-- The sequence to which the given elements have been added in order, unless one did not fit. -/
def ofList? (slots : α → Nat) (start : Nat) (xs : List α) : Option (SlotSeq α slots) :=
  xs.foldlM push? (startingAt start)

/-- The offset of the element with index `i`, after the slots of those before it. -/
def offsetOf (slots : α → Nat) (start : Nat) (xs : List α) (i : Nat) : Nat :=
  start + ((xs.take i).map slots).sum

theorem ofList?_concat (start : Nat) (xs : List α) (x : α) :
    ofList? slots start (xs ++ [x]) = (ofList? slots start xs).bind (·.push? x) := by
  rw [ofList?, List.foldlM_append]
  refine Option.bind_congr fun s _ => ?_
  exact bind_pure (s.push? x)

theorem offsetOf_zero (start : Nat) (xs : List α) : offsetOf slots start xs 0 = start := rfl

theorem offsetOf_succ (hx : xs[i]? = some x) :
    offsetOf slots start xs (i + 1) = offsetOf slots start xs i + slots x := by
  rw [offsetOf, List.take_add_one, hx, Option.toList_some, List.map_append, List.sum_append,
    List.map_singleton, List.sum_singleton, ← Nat.add_assoc]
  rfl

theorem offsetOf_append (start : Nat) (xs ys : List α) (hi : i ≤ xs.length) :
    offsetOf slots start (xs ++ ys) i = offsetOf slots start xs i := by
  rw [offsetOf, List.take_append_of_le_length hi]
  rfl

theorem offsetOf_length (start : Nat) (xs : List α) :
    offsetOf slots start xs xs.length = start + (xs.map slots).sum := by
  rw [offsetOf, List.take_length]

theorem offsetOf_length_concat (start : Nat) (xs : List α) (x : α) :
    offsetOf slots start (xs ++ [x]) (xs ++ [x]).length =
      offsetOf slots start xs xs.length + slots x := by
  rw [List.length_append, List.length_singleton, offsetOf_succ List.getElem?_concat_length,
    offsetOf_append _ _ _ (Nat.le_refl _)]

/-- The sequence has these elements, each entered with its offset, and ends behind them. -/
structure Entered (s : SlotSeq α slots) (start : Nat) (xs : List α) : Prop where
  next_eq : s.next = offsetOf slots start xs xs.length
  size_eq : s.entries.size = xs.length
  getElem?_eq : ∀ i, s.entries[i]? = xs[i]?.map fun x => (offsetOf slots start xs i, x)

theorem Entered.startingAt (start : Nat) : (startingAt start : SlotSeq α slots).Entered start [] :=
  ⟨rfl, rfl, fun _ => rfl⟩

theorem Entered.push? (h : s.Entered start xs) (ht : s.push? x = some t) :
    t.Entered start (xs ++ [x]) := by
  obtain ⟨hroom, rfl⟩ := push?_eq_some_iff.mp ht
  rw [push_of_room hroom]
  constructor
  case next_eq => rw [h.next_eq, offsetOf_length_concat]
  case size_eq => rw [Array.size_push, h.size_eq, List.length_append, List.length_singleton]
  case getElem?_eq =>
    intro i
    rw [Array.getElem?_push, h.size_eq]
    by_cases hi : i = xs.length
    · subst hi
      rw [if_pos rfl, List.getElem?_concat_length, h.next_eq, Option.map_some,
        offsetOf_append _ _ _ (Nat.le_refl _)]
    · rw [if_neg hi, h.getElem?_eq]
      rcases Nat.lt_or_gt_of_ne hi with hlt | hgt
      · rw [List.getElem?_append_left hlt, offsetOf_append _ _ _ (Nat.le_of_lt hlt)]
      · rw [List.getElem?_eq_none (Nat.le_of_lt hgt), List.getElem?_eq_none]
        · rfl
        · rw [List.length_append, List.length_singleton]
          exact hgt

theorem entered_of_ofList? (h : ofList? slots start xs = some s) : s.Entered start xs := by
  induction xs using List.reverseRecOn generalizing s with
  | nil =>
    cases h
    exact .startingAt start
  | append_singleton xs x ih =>
    rw [ofList?_concat, Option.bind_eq_some_iff] at h
    obtain ⟨t, ht, hpush⟩ := h
    exact (ih ht).push? hpush

/-- Elements can be added one by one if they fit all together. -/
theorem exists_ofList?_iff (hstart : start ≤ maxOffset) :
    (∃ s, ofList? slots start xs = some s) ↔ start + (xs.map slots).sum ≤ maxOffset := by
  induction xs using List.reverseRecOn with
  | nil => exact iff_of_true ⟨_, rfl⟩ hstart
  | append_singleton xs x ih =>
    rw [List.map_append, List.sum_append, List.map_singleton, List.sum_singleton, ofList?_concat]
    constructor
    · rintro ⟨t, ht⟩
      obtain ⟨s, hs, hpush⟩ := Option.bind_eq_some_iff.mp ht
      have hfits := (push?_eq_some_iff.mp hpush).1
      rwa [(entered_of_ofList? hs).next_eq, offsetOf_length, Nat.add_assoc] at hfits
    · intro hfits
      obtain ⟨s, hs⟩ := ih.mpr (by omega)
      have hroom : s.next + slots x ≤ maxOffset := by
        rwa [(entered_of_ofList? hs).next_eq, offsetOf_length, Nat.add_assoc]
      exact ⟨_, Option.bind_eq_some_iff.mpr ⟨s, hs, push?_eq_some_iff.mpr ⟨hroom, rfl⟩⟩⟩

example : ofList? id (maxOffset - 3) [1, 2] =
    some ⟨#[(maxOffset - 3, 1), (maxOffset - 2, 2)], maxOffset⟩ := rfl

example : ofList? id (maxOffset - 3) [1, 2, 1] = none := rfl

section Positive

variable (start) (hpos : ∀ x ∈ xs, 1 ≤ slots x)
include hpos

theorem offsetOf_lt_offsetOf (hij : i < j) (hj : j ≤ xs.length) :
    offsetOf slots start xs i < offsetOf slots start xs j := by
  induction j, hij using Nat.le_induction with
  | base =>
    have hx := List.getElem?_eq_getElem (Nat.lt_of_succ_le hj)
    have hslots := hpos _ (List.mem_of_getElem? hx)
    rw [offsetOf_succ hx]
    omega
  | succ j hle ih =>
    have hx := List.getElem?_eq_getElem (Nat.lt_of_succ_le hj)
    have hlt := ih (Nat.le_of_succ_le hj)
    rw [offsetOf_succ hx]
    omega

theorem offsetOf_le_offsetOf (hij : i ≤ j) (hj : j ≤ xs.length) :
    offsetOf slots start xs i ≤ offsetOf slots start xs j := by
  rcases Nat.lt_or_eq_of_le hij with hlt | rfl
  · exact Nat.le_of_lt (offsetOf_lt_offsetOf start hpos hlt hj)
  · exact Nat.le_refl _

theorem Entered.ascending (h : s.Entered start xs) : Ascending s.entries := by
  intro i j p q hij hp hq
  rw [h.getElem?_eq, Option.map_eq_some_iff] at hp hq
  obtain ⟨x, -, rfl⟩ := hp
  obtain ⟨y, hy, rfl⟩ := hq
  have hj := (List.getElem?_eq_some_iff.mp hy).1
  exact offsetOf_lt_offsetOf start hpos hij (Nat.le_of_lt hj)

/-- Offsets need only be compared with those of the two elements at the place. -/
theorem Entered.splits (h : s.Entered start xs) (hi : i ≤ xs.length)
    (hbelow : ∀ j, j + 1 = i → offsetOf slots start xs j < offset)
    (habove : i < xs.length → offset ≤ offsetOf slots start xs i) :
    Splits s.entries offset i := by
  constructor
  case le_size => rwa [h.size_eq]
  case below =>
    intro j p hj hp
    rw [h.getElem?_eq, Option.map_eq_some_iff] at hp
    obtain ⟨x, -, rfl⟩ := hp
    have hlast := hbelow (i - 1) (by omega)
    have hle := offsetOf_le_offsetOf start hpos (show j ≤ i - 1 by omega) (by omega)
    exact Nat.lt_of_le_of_lt hle hlast
  case above =>
    intro j p hj hp
    rw [h.getElem?_eq, Option.map_eq_some_iff] at hp
    obtain ⟨x, hx, rfl⟩ := hp
    have hlt := (List.getElem?_eq_some_iff.mp hx).1
    have hle := offsetOf_le_offsetOf start hpos hj (Nat.le_of_lt hlt)
    exact Nat.le_trans (habove (Nat.lt_of_le_of_lt hj hlt)) hle

end Positive

/-! ### What answers say -/

theorem Splits.unique {entries : Array (Nat × α)} (hi : Splits entries offset i)
    (hj : Splits entries offset j) : i = j := by
  have hle {i j : Nat} (hi : Splits entries offset i) (hj : Splits entries offset j) : j ≤ i := by
    by_contra hlt
    have hentry := Array.getElem?_eq_getElem (show i < entries.size from
      Nat.lt_of_lt_of_le (Nat.lt_of_not_le hlt) hj.le_size)
    have hbelow := hj.below i _ (Nat.lt_of_not_le hlt) hentry
    have habove := hi.above i _ (Nat.le_refl i) hentry
    omega
  exact Nat.le_antisymm (hle hj hi) (hle hi hj)

theorem lookup_of_splits_end (hsorted : Ascending s.entries)
    (h : Splits s.entries offset i) (hend : s.entries[i]? = none) : s.lookup offset = .beyond := by
  rw [lookup, (search_eq hsorted).unique h, hend]

/-- The element behind the place to split at decides the look-up. -/
theorem lookup_of_splits (hsorted : Ascending s.entries)
    (h : Splits s.entries offset i) {first : Nat} (hentry : s.entries[i]? = some (first, x)) :
    s.lookup offset =
      if first = offset then .found i x else if i = 0 then .before else .inside (i - 1) := by
  rw [lookup, (search_eq hsorted).unique h, hentry]

/-- What an answer says of an offset and the elements. -/
def Tells (slots : α → Nat) (start : Nat) (xs : List α) (offset : Nat) : Lookup α → Prop
  | .found i x => xs[i]? = some x ∧ offset = offsetOf slots start xs i
  | .inside i => ∃ x, xs[i]? = some x ∧ i + 1 < xs.length ∧
      offsetOf slots start xs i < offset ∧ offset < offsetOf slots start xs i + slots x
  | .before => xs ≠ [] ∧ offset < start
  | .beyond => xs = [] ∨ offsetOf slots start xs (xs.length - 1) < offset

/-- What is the case is what is answered. -/
theorem Entered.lookup_of_tells (h : s.Entered start xs) (hpos : ∀ x ∈ xs, 1 ≤ slots x)
    {answer : Lookup α} (htells : Tells slots start xs offset answer) : s.lookup offset = answer := by
  have hsorted := h.ascending start hpos
  cases answer with
  | found i x =>
    obtain ⟨hx, rfl⟩ := htells
    exact lookup_of_mem hsorted (by rw [h.getElem?_eq, hx, Option.map_some])
  | inside i =>
    obtain ⟨x, hx, hlast, hlow, hhigh⟩ := htells
    rw [← offsetOf_succ hx] at hhigh
    have hsplits : Splits s.entries offset (i + 1) :=
      h.splits start hpos (Nat.le_of_lt hlast) (fun j hj => by rwa [Nat.succ.inj hj])
        fun _ => Nat.le_of_lt hhigh
    have hentry := h.getElem?_eq (i + 1)
    rw [List.getElem?_eq_getElem hlast, Option.map_some] at hentry
    rw [lookup_of_splits hsorted hsplits hentry, if_neg (Nat.ne_of_gt hhigh),
      if_neg (Nat.succ_ne_zero i), Nat.add_sub_cancel]
  | before =>
    obtain ⟨hne, hlt⟩ := htells
    have hlength := List.length_pos_iff.mpr hne
    have hsplits : Splits s.entries offset 0 :=
      h.splits start hpos (Nat.zero_le _) (fun j hj => absurd hj (Nat.succ_ne_zero j))
        fun _ => Nat.le_of_lt hlt
    have hentry := h.getElem?_eq 0
    rw [List.getElem?_eq_getElem hlength, Option.map_some, offsetOf_zero] at hentry
    rw [lookup_of_splits hsorted hsplits hentry, if_neg (Nat.ne_of_gt hlt), if_pos rfl]
  | beyond =>
    have hbelow : ∀ j, j + 1 = xs.length → offsetOf slots start xs j < offset := by
      intro j hj
      rcases htells with rfl | hlt
      · cases hj
      · rwa [← hj, Nat.add_sub_cancel] at hlt
    have hsplits := h.splits start hpos (Nat.le_refl _) hbelow fun hlt =>
      absurd hlt (Nat.lt_irrefl _)
    apply lookup_of_splits_end hsorted hsplits
    rw [h.getElem?_eq, List.getElem?_eq_none (Nat.le_refl _), Option.map_none]

/-! ### Scanning -/

/-- What stands at an offset, found by going through elements of which the first has the index `i` and
the offset `first`. -/
def scanFrom (slots : α → Nat) (offset : Nat) : (i first : Nat) → List α → Lookup α
  | _, _, [] => .beyond
  | i, first, x :: xs =>
    if offset < first then .before
    else if offset = first then .found i x
    else if xs = [] then .beyond
    else if offset < first + slots x then .inside i
    else scanFrom slots offset (i + 1) (first + slots x) xs

def scan (slots : α → Nat) (start : Nat) (xs : List α) (offset : Nat) : Lookup α :=
  scanFrom slots offset 0 start xs

/-- All that is left is scanned, once the offset is not in front of it. -/
theorem scanFrom_tells (ys zs : List α)
    (hfront : ys = [] ∨ zs ≠ [] ∧ offsetOf slots start (ys ++ zs) ys.length ≤ offset) :
    Tells slots start (ys ++ zs) offset
      (scanFrom slots offset ys.length (offsetOf slots start (ys ++ zs) ys.length) zs) := by
  -- The induction is on what is left, and what has been gone through grows at its end.
  induction zs generalizing ys with
  | nil =>
    rcases hfront with rfl | ⟨hne, -⟩
    · exact .inl rfl
    · exact absurd rfl hne
  | cons z zs ih =>
    have hz : (ys ++ z :: zs)[ys.length]? = some z := by
      rw [List.getElem?_append_right (Nat.le_refl _), Nat.sub_self]
      rfl
    have hsplit : ys ++ z :: zs = (ys ++ [z]) ++ zs := by
      rw [List.append_assoc, List.singleton_append]
    have hlength : (ys ++ z :: zs).length = ys.length + 1 + zs.length := by
      rw [hsplit, List.length_append, List.length_append, List.length_singleton]
    rw [scanFrom]
    rcases Nat.lt_trichotomy offset (offsetOf slots start (ys ++ z :: zs) ys.length)
      with hlt | heq | hgt
    · rw [if_pos hlt]
      rcases hfront with rfl | ⟨-, hle⟩
      · exact ⟨List.cons_ne_nil z zs, hlt⟩
      · exact absurd hlt (Nat.not_lt.mpr hle)
    · rw [if_neg (Nat.not_lt.mpr (Nat.le_of_eq heq.symm)), if_pos heq]
      exact ⟨hz, heq⟩
    rw [if_neg (Nat.lt_asymm hgt), if_neg (Nat.ne_of_gt hgt)]
    by_cases hlast : zs = []
    · subst hlast
      rw [if_pos rfl]
      refine .inr ?_
      rw [hlength]
      exact hgt
    have hmore := List.length_pos_iff.mpr hlast
    rw [if_neg hlast, ← offsetOf_succ hz]
    by_cases hinside : offset < offsetOf slots start (ys ++ z :: zs) (ys.length + 1)
    · rw [if_pos hinside]
      rw [offsetOf_succ hz] at hinside
      exact ⟨z, hz, by omega, hgt, hinside⟩
    · rw [if_neg hinside]
      have hnext := ih (ys ++ [z])
      rw [← hsplit, List.length_append, List.length_singleton] at hnext
      exact hnext (.inr ⟨hlast, Nat.le_of_not_lt hinside⟩)

theorem scan_tells (start : Nat) (xs : List α) (offset : Nat) :
    Tells slots start xs offset (scan slots start xs offset) :=
  scanFrom_tells [] xs (.inl rfl)

/-- Elements can be added to an empty sequence just if the slots of all of them end at an offset of
64 bits. Of every sequence that there is then, halving the range of candidates answers what a scan
answers. It answers an element and its index just if the element starts at the offset, and the index of
an element that is not the last just if the offset is behind its start and in front of its end. The
offset is before the elements just if there are some and it is below the start of the first, and beyond
them just if there are none or it is above the start of the last, be it inside of that or not. -/
theorem lookup_scans (start : Nat) (xs : List α) (hstart : start ≤ maxOffset)
    (hpos : ∀ x ∈ xs, 1 ≤ slots x) :
    ((∃ s, ofList? slots start xs = some s) ↔ start + (xs.map slots).sum ≤ maxOffset) ∧
    ∀ s, ofList? slots start xs = some s → ∀ offset,
      s.lookup offset = scan slots start xs offset ∧
      (∀ i x, s.lookup offset = .found i x ↔
        xs[i]? = some x ∧ offset = offsetOf slots start xs i) ∧
      (∀ i, s.lookup offset = .inside i ↔ ∃ x, xs[i]? = some x ∧ i + 1 < xs.length ∧
        offsetOf slots start xs i < offset ∧ offset < offsetOf slots start xs i + slots x) ∧
      (s.lookup offset = .before ↔ xs ≠ [] ∧ offset < start) ∧
      (s.lookup offset = .beyond ↔
        xs = [] ∨ offsetOf slots start xs (xs.length - 1) < offset) := by
  refine ⟨exists_ofList?_iff hstart, fun s hs offset => ?_⟩
  have hentered := entered_of_ofList? hs
  have hscan : s.lookup offset = scan slots start xs offset :=
    hentered.lookup_of_tells hpos (scan_tells ..)
  have hiff (answer : Lookup α) :
      s.lookup offset = answer ↔ Tells slots start xs offset answer := by
    constructor
    · rintro rfl
      rw [hscan]
      exact scan_tells ..
    · exact hentered.lookup_of_tells hpos
  exact ⟨hscan, fun i x => hiff (.found i x), fun i => hiff (.inside i), hiff .before, hiff .beyond⟩

/-- A `long` at the first index of a pool, and one more as the last constant. -/
theorem lookup_scans_around_long :
    let xs : List Constant := [.long 7, .utf8 "a", .long 8]
    (1 ≤ maxOffset ∧ ∀ c ∈ xs, 1 ≤ c.slots) ∧ ∃ s, ofList? Entry.slots 1 xs = some s ∧
      s.lookup 0 = .before ∧ s.lookup 1 = .found 0 (.long 7) ∧ s.lookup 2 = .inside 0 ∧
      s.lookup 4 = .found 2 (.long 8) ∧ s.lookup 5 = .beyond := by
  intro xs
  have hstart : 1 ≤ maxOffset := by decide
  have hpos : ∀ c ∈ xs, 1 ≤ c.slots := fun c _ => c.slots_pos
  obtain ⟨hfits, hlooks⟩ := lookup_scans 1 xs hstart hpos
  obtain ⟨s, hs⟩ := hfits.mpr (by decide)
  have hscans (offset : Nat) := hlooks s hs offset
  exact ⟨⟨hstart, hpos⟩, s, hs, (hscans 0).1, (hscans 1).1, (hscans 2).1, (hscans 4).1,
    (hscans 5).1⟩

end JvmAssembler.SlotSeq
