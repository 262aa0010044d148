import JvmAssembler.Proofs.Text.Groups

/-!
# The grammar of modified UTF-8

Which bytes can be read, told without reading them: they are groups of three patterns of bits one after
another, and the code units that stand in the groups are those of a text, so that their surrogates pair
up. The reader goes from the front and never takes a step back. It misses no way to cut the bytes into
groups, since the first byte of a group already tells how long the group is.
-/

namespace JvmAssembler.Text

/-! ### Code units -/

namespace Utf16

variable {us : List UInt16} {text : List Char}

/-- Every high surrogate is directly followed by a low one, and no low one stands anywhere else. -/
inductive Paired : List UInt16 → Prop
  | nil : Paired []
  | single {u : UInt16} {us : List UInt16} (hhigh : ¬isHigh u) (hlow : ¬isLow u) (h : Paired us) :
    Paired (u :: us)
  | pair {u v : UInt16} {us : List UInt16} (hhigh : isHigh u) (hlow : isLow v) (h : Paired us) :
    Paired (u :: v :: us)

theorem paired_of_decodeOnto {done : List Char} (h : decodeOnto done us = some text) :
    Paired us := by
  fun_induction decodeOnto done us with
  | case1 done => exact .nil
  | case2 => cases h
  | case3 done u hhigh v rest hlow ih => exact .pair hhigh hlow (ih h)
  | case4 => cases h
  | case5 => cases h
  | case6 done u rest hhigh hlow ih => exact .single hhigh hlow (ih h)

theorem Paired.exists_encode (h : Paired us) : ∃ text, encode text = us := by
  induction h with
  | nil => exact ⟨[], rfl⟩
  | @single u us hhigh hlow _ ih =>
    obtain ⟨text, rfl⟩ := ih
    refine ⟨Char.ofNat u.toNat :: text, ?_⟩
    rw [encode, List.flatMap_cons, units_single hhigh hlow]
    rfl
  | @pair u v us hhigh hlow _ ih =>
    obtain ⟨text, rfl⟩ := ih
    refine ⟨join u v :: text, ?_⟩
    rw [encode, List.flatMap_cons, units_join hhigh hlow]
    rfl

/-- Units encode a text just if their surrogates pair up. -/
theorem paired_iff : Paired us ↔ ∃ text, encode text = us := by
  constructor
  · exact Paired.exists_encode
  · rintro ⟨text, rfl⟩
    exact paired_of_decodeOnto (decode?_encode text)

theorem decode?_eq_some_iff : decode? us = some text ↔ encode text = us := by
  constructor
  · exact encode_of_decode?
  · rintro rfl
    exact decode?_encode text

end Utf16

/-! ### Groups -/

namespace ModifiedUtf8

variable {piece bytes : List UInt8} {u : UInt16} {us : List UInt16}

/-- The bytes are one of the groups `0xxxxxxx`, which is not all zeros, `110xxxxx 10xxxxxx` and
`1110xxxx 10xxxxxx 10xxxxxx`, and the unit has the bits marked `x`, in the same order, after zeros. -/
inductive Pattern : List UInt8 → UInt16 → Prop
  | one {a : UInt8} (ha : 0x01 ≤ a ∧ a ≤ 0x7F) : Pattern [a] a.toUInt16
  | two (x : BitVec 5) (y : BitVec 6) :
    Pattern [⟨0b110#3 ++ x⟩, ⟨0b10#2 ++ y⟩] ⟨0#5 ++ x ++ y⟩
  | three (x : BitVec 4) (y z : BitVec 6) :
    Pattern [⟨0b1110#4 ++ x⟩, ⟨0b10#2 ++ y⟩, ⟨0b10#2 ++ z⟩] ⟨x ++ y ++ z⟩

theorem toNat_append {m n : Nat} (x : BitVec m) (y : BitVec n) :
    (x ++ y).toNat = x.toNat <<< n + y.toNat := by
  rw [BitVec.toNat_append, ← Nat.shiftLeft_add_eq_or_of_lt y.isLt]

theorem toNat_continuation (y : BitVec 6) :
    (⟨0b10#2 ++ y⟩ : UInt8).toNat = 0x80 + y.toNat := toNat_append _ _

theorem toNat_leadOfTwo (x : BitVec 5) : (⟨0b110#3 ++ x⟩ : UInt8).toNat = 0xC0 + x.toNat :=
  toNat_append _ _

theorem toNat_leadOfThree (x : BitVec 4) : (⟨0b1110#4 ++ x⟩ : UInt8).toNat = 0xE0 + x.toNat :=
  toNat_append _ _

theorem isContinuation_bits (y : BitVec 6) : isContinuation ⟨0b10#2 ++ y⟩ := by
  have hy := y.isLt
  rw [isContinuation_iff, toNat_continuation]
  omega

theorem unitOfTwo_bits (x : BitVec 5) (y : BitVec 6) :
    unitOfTwo ⟨0b110#3 ++ x⟩ ⟨0b10#2 ++ y⟩ = ⟨0#5 ++ x ++ y⟩ := by
  have hx := x.isLt
  have hy := y.isLt
  have hbits : (⟨0#5 ++ x ++ y⟩ : UInt16).toNat = x.toNat * 64 + y.toNat := by
    change (0#5 ++ x ++ y).toNat = _
    rw [toNat_append, toNat_append, BitVec.toNat_zero]
    omega
  apply UInt16.toNat_inj.mp
  rw [hbits, unitOfTwo, toNat_leadOfTwo, toNat_continuation, Utf16.toNat_ofNat_unit]
  · omega
  · omega

theorem unitOfThree_bits (x : BitVec 4) (y z : BitVec 6) :
    unitOfThree ⟨0b1110#4 ++ x⟩ ⟨0b10#2 ++ y⟩ ⟨0b10#2 ++ z⟩ = ⟨x ++ y ++ z⟩ := by
  have hx := x.isLt
  have hy := y.isLt
  have hz := z.isLt
  have hbits : (⟨x ++ y ++ z⟩ : UInt16).toNat = (x.toNat * 64 + y.toNat) * 64 + z.toNat := by
    change (x ++ y ++ z).toNat = _
    rw [toNat_append, toNat_append]
    omega
  apply UInt16.toNat_inj.mp
  rw [hbits, unitOfThree, toNat_leadOfThree, toNat_continuation, toNat_continuation,
    Utf16.toNat_ofNat_unit]
  · omega
  · omega

/-- A byte between bounds has the mark that these have in common. -/
theorem exists_bits {n low : Nat} {b : UInt8} (mark : BitVec n → UInt8)
    (hmark : ∀ x, (mark x).toNat = low + x.toNat) (hlow : low ≤ b.toNat)
    (hhigh : b.toNat < low + 1 <<< n) : ∃ x, b = mark x := by
  rw [Nat.one_shiftLeft] at hhigh
  refine ⟨BitVec.ofNat n (b.toNat - low), UInt8.toNat_inj.mp ?_⟩
  rw [hmark, BitVec.toNat_ofNat, Nat.mod_eq_of_lt (by omega)]
  omega

theorem exists_continuation {b : UInt8} (hb : isContinuation b) :
    ∃ y : BitVec 6, b = ⟨0b10#2 ++ y⟩ := by
  rw [isContinuation_iff] at hb
  exact exists_bits _ toNat_continuation hb.1 hb.2

theorem carries_iff_pattern : Carries piece u ↔ Pattern piece u := by
  constructor
  · intro h
    cases h with
    | one ha =>
      refine .one ⟨UInt8.le_iff_toNat_le.mpr ?_, UInt8.le_iff_toNat_le.mpr ?_⟩
      · exact ha.1
      · exact Nat.le_of_lt_succ ha.2
    | two ha hb =>
      obtain ⟨x, rfl⟩ := exists_bits _ toNat_leadOfTwo ha.1 ha.2
      obtain ⟨y, rfl⟩ := exists_continuation hb
      rw [unitOfTwo_bits]
      exact .two x y
    | three ha hb hc =>
      obtain ⟨x, rfl⟩ := exists_bits _ toNat_leadOfThree ha.1 ha.2
      obtain ⟨y, rfl⟩ := exists_continuation hb
      obtain ⟨z, rfl⟩ := exists_continuation hc
      rw [unitOfThree_bits]
      exact .three x y z
  · intro h
    cases h with
    | one ha =>
      have hlow : 1 ≤ UInt8.toNat _ := UInt8.le_iff_toNat_le.mp ha.1
      exact .one ⟨hlow, Nat.lt_succ_of_le (UInt8.le_iff_toNat_le.mp ha.2)⟩
    | two x y =>
      have hx := x.isLt
      rw [← unitOfTwo_bits]
      refine .two ?_ (isContinuation_bits y)
      rw [toNat_leadOfTwo]
      omega
    | three x y z =>
      have hx := x.isLt
      rw [← unitOfThree_bits]
      refine .three ?_ (isContinuation_bits y) (isContinuation_bits z)
      rw [toNat_leadOfThree]
      omega

/-! ### Reading -/

/-- The bytes are groups one after another, in which these units stand. -/
def Bears (bytes : List UInt8) (us : List UInt16) : Prop :=
  ∃ groups, bytes = groups.flatten ∧ List.Forall₂ Pattern groups us

theorem Carries.unitsOnto_append (h : Carries piece u) (done : List UInt16) (rest : List UInt8) :
    unitsOnto done (piece ++ rest) = unitsOnto (u :: done) rest := by
  cases h with
  | one ha => exact unitsOnto_one done rest ha
  | two ha hb => exact unitsOnto_two done rest ha hb
  | three ha hb hc => exact unitsOnto_three done rest ha hb hc

theorem unitsOnto_flatten {groups : List (List UInt8)} (h : List.Forall₂ Carries groups us)
    (done : List UInt16) : unitsOnto done groups.flatten = some (done.reverse ++ us) := by
  induction h generalizing done with
  | nil => simp [unitsOnto]
  | cons hcarries _ ih =>
    rw [List.flatten_cons, hcarries.unitsOnto_append, ih, List.reverse_cons, List.append_assoc,
      List.singleton_append]

theorem units?_eq_some_iff : units? bytes = some us ↔ Bears bytes us := by
  constructor
  · intro h
    obtain ⟨groups, _, rfl, hbytes, hgroups⟩ := carries_of_unitsOnto h
    exact ⟨groups, hbytes, hgroups.imp fun _ _ => carries_iff_pattern.mp⟩
  · rintro ⟨groups, rfl, hgroups⟩
    exact unitsOnto_flatten (hgroups.imp fun _ _ => carries_iff_pattern.mpr) []

theorem decode?_eq_some_iff {s : String} :
    decode? bytes = some s ↔ Bears bytes (Utf16.encode s.toList) := by
  rw [decode?, Option.bind_eq_some_iff]
  constructor
  · rintro ⟨us, hus, hs⟩
    obtain ⟨text, htext, rfl⟩ := Option.map_eq_some_iff.mp hs
    rw [String.toList_ofList, Utf16.decode?_eq_some_iff.mp htext]
    exact units?_eq_some_iff.mp hus
  · intro h
    refine ⟨_, units?_eq_some_iff.mpr h, ?_⟩
    rw [Utf16.decode?_encode, Option.map_some, String.ofList_toList]

/-- The bytes that are read as a string are the sequences of groups in which the units of the string
stand. All others are refused: those that are no sequence of groups, and those whose units do not pair
up. -/
theorem decode?_accepts (bytes : List UInt8) :
    (∀ s, decode? bytes = some s ↔ Bears bytes (Utf16.encode s.toList)) ∧
      (decode? bytes = none ↔ ∀ us, Bears bytes us → ¬Utf16.Paired us) := by
  refine ⟨fun s => decode?_eq_some_iff, ?_⟩
  rw [Option.eq_none_iff_forall_ne_some]
  constructor
  · intro hnone us hbears hpaired
    obtain ⟨text, rfl⟩ := hpaired.exists_encode
    refine hnone (String.ofList text) (decode?_eq_some_iff.mpr ?_)
    rwa [String.toList_ofList]
  · intro hrefused s hs
    exact hrefused _ (decode?_eq_some_iff.mp hs) (Utf16.paired_iff.mpr ⟨_, rfl⟩)

/-- A group cut short, a zero byte, a continuation byte on its own, a byte that starts no group, and two
surrogates the wrong way round. -/
example : [[0xE1, 0x80], [0x41, 0x00], [0x80], [0xF0, 0x90, 0x80, 0x80],
    [0xED, 0xB0, 0x80, 0xED, 0xA0, 0x80]].map decode? = List.replicate 5 none := by decide +kernel

end ModifiedUtf8

end JvmAssembler.Text
