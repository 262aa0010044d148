import JvmAssembler.Descriptor
import Mathlib.Data.List.Basic
import Mathlib.Logic.Function.Iterate

/-!
# Descriptors and names of class constants

A descriptor is a bracket for each dimension of its type and then the descriptor of an element, which
starts with another letter. That of a base type is a letter that no class has in front of its name, and
that of a class ends with the first semicolon, which names have none of. So where a descriptor ends
can be told from what comes before, whatever follows.

A class constant calls a class by its name and an array type by its descriptor. The two cannot be
mistaken for each other, because descriptors of arrays start with a bracket and names have none, and
neither can two classes or two array types.
-/

namespace JvmAssembler

theorem exists_mem_splitOnPPrepend {p : Char → Bool} {c : Char} (hc : p c = false)
    (text done : List Char) (hmem : c ∈ done ∨ c ∈ text) :
    ∃ segment ∈ List.splitOnPPrepend p text done, c ∈ segment := by
  -- `done` is the segment that is being read, last character first.
  induction text generalizing done with
  | nil =>
    rw [List.splitOnPPrepend.eq_def]
    simpa using hmem
  | cons d text ih =>
    rw [List.splitOnPPrepend.eq_def]
    dsimp only
    split
    next hd =>
      rcases hmem with hmem | hmem
      · exact ⟨done.reverse, List.mem_cons_self, List.mem_reverse.mpr hmem⟩
      · have hne : c ≠ d := by
          rintro rfl
          simp [hc] at hd
        obtain ⟨segment, hsegment, hin⟩ := ih [] (.inr (List.mem_of_ne_of_mem hne hmem))
        exact ⟨segment, List.mem_cons_of_mem _ hsegment, hin⟩
    · apply ih
      simpa [or_comm, or_assoc, or_left_comm] using hmem

namespace BinaryName

/-- Of the characters that mean something in descriptors, only the slash is ever part of a name. -/
theorem not_mem_of_reserved (name : BinaryName) {c : Char} (hc : isReserved c) (hslash : c ≠ '/') :
    c ∉ name.text.toList := by
  intro hmem
  have hfault := name.fault?_text
  rw [fault?] at hfault
  split at hfault
  · cases hfault
  obtain ⟨segment, hsegment, hin⟩ := exists_mem_splitOnPPrepend (p := (· == '/'))
    (by simpa using hslash) name.text.toList [] (.inr hmem)
  have hfine := List.findSome?_eq_none_iff.mp hfault segment hsegment
  rw [UnqualifiedName.fault?, if_pos (List.any_eq_true.mpr ⟨c, hin, hc⟩)] at hfine
  cases hfine

theorem ext_text {name other : BinaryName} (h : name.text = other.text) : name = other := by
  cases name
  cases other
  cases h
  rfl

theorem bracket_not_mem (name : BinaryName) : '[' ∉ name.text.toList :=
  name.not_mem_of_reserved (by decide) (by decide)

theorem semicolon_not_mem (name : BinaryName) : ';' ∉ name.text.toList :=
  name.not_mem_of_reserved (by decide) (by decide)

end BinaryName

theorem BaseType.letter_injective {t u : BaseType} (h : t.letter = u.letter) : t = u := by
  cases t <;> cases u <;> first | rfl | exact absurd h (by decide)

theorem BaseType.letter_ne (t : BaseType) : t.letter ≠ 'L' ∧ t.letter ≠ '[' := by
  cases t <;> decide

/-! ### Where a descriptor ends -/

theorem replicate_append_inj {α : Type} {a : α} {xs ys : List α} (hx : xs.head? ≠ some a)
    (hy : ys.head? ≠ some a) {m n : Nat}
    (h : List.replicate m a ++ xs = List.replicate n a ++ ys) : m = n ∧ xs = ys := by
  induction m generalizing n with
  | zero =>
    cases n with
    | zero => exact ⟨rfl, h⟩
    | succ n => exact absurd (congrArg List.head? h) (by simpa [List.replicate_succ] using hx)
  | succ m ih =>
    cases n with
    | zero => exact absurd (congrArg List.head? h).symm (by simpa [List.replicate_succ] using hy)
    | succ n =>
      rw [List.replicate_succ, List.replicate_succ] at h
      obtain ⟨rfl, hxy⟩ := ih (List.cons.inj h).2
      exact ⟨rfl, hxy⟩

/-- What ends at the first of its terminators is told from whatever follows. -/
theorem append_terminator_inj {α : Type} {a : α} {xs ys us vs : List α} (hx : a ∉ xs) (hy : a ∉ ys)
    (h : xs ++ a :: us = ys ++ a :: vs) : xs = ys ∧ us = vs := by
  induction xs generalizing ys with
  | nil =>
    cases ys with
    | nil => exact ⟨rfl, (List.cons.inj h).2⟩
    | cons y ys =>
      obtain ⟨rfl, -⟩ := List.cons.inj h
      exact absurd List.mem_cons_self hy
  | cons x xs ih =>
    cases ys with
    | nil =>
      obtain ⟨rfl, -⟩ := List.cons.inj h
      exact absurd List.mem_cons_self hx
    | cons y ys =>
      obtain ⟨rfl, htail⟩ := List.cons.inj h
      obtain ⟨rfl, hrest⟩ :=
        ih (mt (List.mem_cons_of_mem x) hx) (mt (List.mem_cons_of_mem x) hy) htail
      exact ⟨rfl, hrest⟩

/-- The types that are not arrays. -/
inductive Element
  | base (type : BaseType)
  | object (name : BinaryName)

namespace Element

def toType : Element → FieldType
  | .base type => .base type
  | .object name => .ref (.object name)

def chars : Element → List Char
  | .base type => [type.letter]
  | .object name => name.descriptorChars

theorem toList_descriptor (e : Element) : e.toType.descriptor.toList = e.chars := by
  cases e <;> simp [toType, chars, FieldType.descriptor, RefType.descriptor, RefType.descriptorChars]

theorem head?_chars_append (e : Element) (xs : List Char) : (e.chars ++ xs).head? ≠ some '[' := by
  cases e with
  | base t => simpa [chars] using t.letter_ne.2
  | object name => simp [chars, BinaryName.descriptorChars]

theorem chars_append_inj {e f : Element} {xs ys : List Char} (h : e.chars ++ xs = f.chars ++ ys) :
    e = f ∧ xs = ys := by
  cases e with
  | base t =>
    cases f with
    | base u =>
      obtain ⟨hletter, hrest⟩ := List.cons.inj h
      exact ⟨by rw [BaseType.letter_injective hletter], hrest⟩
    | object name => exact absurd (List.cons.inj h).1 t.letter_ne.1
  | object name =>
    cases f with
    | base u => exact absurd (List.cons.inj h).1.symm u.letter_ne.1
    | object other =>
      have htail : name.text.toList ++ ';' :: xs = other.text.toList ++ ';' :: ys := by
        simpa [chars, BinaryName.descriptorChars] using h
      obtain ⟨htext, hrest⟩ :=
        append_terminator_inj name.semicolon_not_mem other.semicolon_not_mem htail
      exact ⟨by rw [BinaryName.ext_text (String.toList_injective htext)], hrest⟩

end Element

namespace FieldType

theorem toList_descriptor_iterate_array (n : Nat) (t : FieldType) :
    (array^[n] t).descriptor.toList = List.replicate n '[' ++ t.descriptor.toList := by
  induction n with
  | zero => rfl
  | succ n ih =>
    rw [Function.iterate_succ_apply', toList_descriptor_array, ih, List.replicate_succ,
      List.cons_append]

/-- Arrays of objects and of base values are made by adding one dimension after the other. -/
theorem iterate_array_succ (e : Element) (extra : Nat) : array^[extra + 1] e.toType =
    match e with
    | .base type => .ref (.baseArray type extra)
    | .object name => .ref (.objectArray name extra) := by
  induction extra with
  | zero => cases e <;> rfl
  | succ extra ih =>
    rw [Function.iterate_succ_apply', ih]
    cases e <;> rfl

/-- Every type is that of an element with a number of dimensions. -/
theorem exists_iterate_array (t : FieldType) : ∃ n e, t = array^[n] (Element.toType e) := by
  rcases t with type | ⟨name⟩ | ⟨name, extra⟩ | ⟨type, extra⟩
  · exact ⟨0, .base type, rfl⟩
  · exact ⟨0, .object name, rfl⟩
  · exact ⟨extra + 1, .object name, (iterate_array_succ (.object name) extra).symm⟩
  · exact ⟨extra + 1, .base type, (iterate_array_succ (.base type) extra).symm⟩

/-- Where a descriptor is followed by anything else, its type and what follows it can be told. -/
theorem descriptor_append_inj {t u : FieldType} {xs ys : List Char}
    (h : t.descriptor.toList ++ xs = u.descriptor.toList ++ ys) : t = u ∧ xs = ys := by
  obtain ⟨m, e, rfl⟩ := t.exists_iterate_array
  obtain ⟨n, f, rfl⟩ := u.exists_iterate_array
  simp only [toList_descriptor_iterate_array, Element.toList_descriptor, List.append_assoc] at h
  obtain ⟨rfl, helement⟩ :=
    replicate_append_inj (e.head?_chars_append xs) (f.head?_chars_append ys) h
  obtain ⟨rfl, hrest⟩ := Element.chars_append_inj helement
  exact ⟨rfl, hrest⟩

theorem descriptor_injective : Function.Injective descriptor := by
  intro t u h
  exact (descriptor_append_inj (congrArg (fun s => s.toList ++ []) h)).1

theorem eq_of_prefix {t u : FieldType} (h : t.descriptor.toList <+: u.descriptor.toList) : t = u := by
  obtain ⟨rest, h⟩ := h
  rw [← List.append_nil u.descriptor.toList] at h
  exact (descriptor_append_inj h).1

theorem toList_descriptor_ne_nil (t : FieldType) : t.descriptor.toList ≠ [] := by
  obtain ⟨n, e, rfl⟩ := t.exists_iterate_array
  rw [toList_descriptor_iterate_array, Element.toList_descriptor]
  cases e <;> simp [Element.chars, BinaryName.descriptorChars]

theorem flatMap_descriptor_inj {ts us : List FieldType}
    (h : ts.flatMap (fun t => t.descriptor.toList) = us.flatMap fun t => t.descriptor.toList) :
    ts = us := by
  induction ts generalizing us with
  | nil =>
    cases us with
    | nil => rfl
    | cons u us => exact absurd (List.append_eq_nil_iff.mp h.symm).1 u.toList_descriptor_ne_nil
  | cons t ts ih =>
    cases us with
    | nil => exact absurd (List.append_eq_nil_iff.mp h).1 t.toList_descriptor_ne_nil
    | cons u us =>
      obtain ⟨rfl, htail⟩ := descriptor_append_inj h
      rw [ih htail]

/-- Descriptors that are written one after the other can be told apart again. -/
theorem join_descriptor_injective :
    Function.Injective fun ts : List FieldType => String.join (ts.map descriptor) := by
  intro ts us h
  apply flatMap_descriptor_inj
  simpa [String.toList_join, List.flatMap_map] using congrArg String.toList h

end FieldType

/-! ### Names of constants -/

namespace RefType

theorem descriptor_injective : Function.Injective descriptor := by
  intro t u h
  exact FieldType.ref.inj (FieldType.descriptor_injective h)

theorem bracket_mem_constantName {t : RefType} (ht : ∀ name, t ≠ .object name) :
    '[' ∈ t.constantName.toList ∧ t.constantName = t.descriptor := by
  cases t with
  | object name => exact absurd rfl (ht name)
  | objectArray name extra =>
    exact ⟨by simp [constantName, descriptor, descriptorChars, arrayDescriptor], rfl⟩
  | baseArray element extra =>
    exact ⟨by simp [constantName, descriptor, descriptorChars, arrayDescriptor], rfl⟩

theorem constantName_injective {t u : RefType} (h : t.constantName = u.constantName) : t = u := by
  have hname (name : BinaryName) : '[' ∉ (RefType.object name).constantName.toList :=
    name.bracket_not_mem
  by_cases ht : ∀ name, t ≠ .object name
  · obtain ⟨hmem, hdescriptor⟩ := bracket_mem_constantName ht
    have hu : ∀ name, u ≠ .object name := by
      rintro name rfl
      exact hname name (h ▸ hmem)
    rw [hdescriptor, (bracket_mem_constantName hu).2] at h
    exact descriptor_injective h
  · obtain ⟨name, rfl⟩ : ∃ name, t = .object name := by simpa using ht
    by_cases hu : ∀ other, u ≠ .object other
    · exact absurd (h ▸ (bracket_mem_constantName hu).1) (hname name)
    · obtain ⟨other, rfl⟩ : ∃ other, u = .object other := by simpa using hu
      rw [BinaryName.ext_text h]

end RefType

end JvmAssembler
