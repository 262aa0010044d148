import JvmAssembler.Text.ModifiedUtf8
import Mathlib.Data.List.Basic

/-!
# Modified UTF-8 reads back

Every string is read back from its bytes: a code unit from its group, and a scalar value from its one
or two code units.
-/

namespace JvmAssembler.Text

/-! ### Code units -/

namespace Utf16

theorem toNat_ofNat_unit {n : Nat} (hn : n < 65536) : (UInt16.ofNat n).toNat = n := by
  rw [UInt16.toNat_ofNat']
  exact Nat.mod_eq_of_lt hn

theorem isHigh_iff (u : UInt16) : isHigh u ↔ 0xD800 ≤ u.toNat ∧ u.toNat < 0xDC00 := by
  simp [isHigh, UInt16.le_iff_toNat_le, UInt16.lt_iff_toNat_lt]

theorem isLow_iff (u : UInt16) : isLow u ↔ 0xDC00 ≤ u.toNat ∧ u.toNat < 0xE000 := by
  simp [isLow, UInt16.le_iff_toNat_le, UInt16.lt_iff_toNat_lt]

theorem decodeOnto_single {u : UInt16} (hhigh : ¬isHigh u) (hlow : ¬isLow u) (done : List Char)
    (rest : List UInt16) :
    decodeOnto done (u :: rest) = decodeOnto (Char.ofNat u.toNat :: done) rest := by
  rw [decodeOnto.eq_def]
  dsimp only
  rw [if_neg hhigh, if_neg hlow]

theorem decodeOnto_pair {u v : UInt16} (hhigh : isHigh u) (hlow : isLow v) (done : List Char)
    (rest : List UInt16) :
    decodeOnto done (u :: v :: rest) = decodeOnto (join u v :: done) rest := by
  rw [decodeOnto, if_pos hhigh, if_pos hlow]

/-- The units of a scalar value are read as that value: no scalar value is a surrogate. -/
theorem decodeOnto_units (done : List Char) (c : Char) (rest : List UInt16) :
    decodeOnto done (units c ++ rest) = decodeOnto (c :: done) rest := by
  have hvalid : c.toNat < 0xD800 ∨ 0xDFFF < c.toNat ∧ c.toNat < 0x110000 := c.valid
  rw [units]
  split
  case isTrue hsmall =>
    have hunit := toNat_ofNat_unit hsmall
    rw [List.singleton_append, decodeOnto_single, hunit, Char.ofNat_toNat]
    · rw [isHigh_iff, hunit]
      omega
    · rw [isLow_iff, hunit]
      omega
  case isFalse hlarge =>
    have hhigh : (UInt16.ofNat (0xD800 + (c.toNat - 0x10000) / 0x400)).toNat =
        0xD800 + (c.toNat - 0x10000) / 0x400 := toNat_ofNat_unit (by omega)
    have hlow : (UInt16.ofNat (0xDC00 + (c.toNat - 0x10000) % 0x400)).toNat =
        0xDC00 + (c.toNat - 0x10000) % 0x400 := toNat_ofNat_unit (by omega)
    have hjoin : 0x10000 + (0xD800 + (c.toNat - 0x10000) / 0x400 - 0xD800) * 0x400 +
        (0xDC00 + (c.toNat - 0x10000) % 0x400 - 0xDC00) = c.toNat := by omega
    rw [List.cons_append, List.singleton_append, decodeOnto_pair, join, hhigh, hlow, hjoin,
      Char.ofNat_toNat]
    · rw [isHigh_iff, hhigh]
      omega
    · rw [isLow_iff, hlow]
      omega

theorem decodeOnto_encode (done text : List Char) :
    decodeOnto done (encode text) = some (done.reverse ++ text) := by
  induction text generalizing done with
  | nil => simp [encode, decodeOnto]
  | cons c text ih =>
    have hcons : encode (c :: text) = units c ++ encode text := rfl
    rw [hcons, decodeOnto_units, ih, List.reverse_cons, List.append_assoc, List.singleton_append]

theorem decode?_encode (text : List Char) : decode? (encode text) = some text :=
  decodeOnto_encode [] text

end Utf16

/-! ### Groups -/

namespace ModifiedUtf8

theorem toNat_ofNat_byte {n : Nat} (hn : n < 256) : (UInt8.ofNat n).toNat = n := by
  rw [UInt8.toNat_ofNat']
  exact Nat.mod_eq_of_lt hn

theorem isContinuation_iff (b : UInt8) : isContinuation b ↔ 0x80 ≤ b.toNat ∧ b.toNat < 0xC0 := by
  simp [isContinuation, UInt8.le_iff_toNat_le, UInt8.lt_iff_toNat_lt]

theorem ne_zero_of_pos {b : UInt8} (hb : 0 < b.toNat) : b ≠ 0 := by
  intro heq
  rw [heq] at hb
  exact absurd hb (by decide)

theorem not_lt_of_le {b bound : UInt8} (hb : bound.toNat ≤ b.toNat) : ¬b < bound := by
  rw [UInt8.lt_iff_toNat_lt]
  omega

section Reading

variable {a b c : UInt8} (done : List UInt16) (rest : List UInt8)

theorem unitsOnto_one (ha : 0 < a.toNat ∧ a.toNat < 0x80) :
    unitsOnto done (a :: rest) = unitsOnto (a.toUInt16 :: done) rest := by
  have hne : a ≠ 0 := ne_zero_of_pos (by omega)
  have hlt : a < 0x80 := UInt8.lt_iff_toNat_lt.mpr ha.2
  rw [unitsOnto.eq_def]
  dsimp only
  rw [if_neg hne, if_pos hlt]

theorem unitsOnto_two (ha : 0xC0 ≤ a.toNat ∧ a.toNat < 0xE0) (hb : isContinuation b) :
    unitsOnto done (a :: b :: rest) = unitsOnto (unitOfTwo a b :: done) rest := by
  have hne : a ≠ 0 := ne_zero_of_pos (by omega)
  have hlt : ¬a < 0x80 := not_lt_of_le (Nat.le_trans (by decide : 0x80 ≤ 0xC0) ha.1)
  have hlead : 0xC0 ≤ a ∧ a < 0xE0 :=
    ⟨UInt8.le_iff_toNat_le.mpr ha.1, UInt8.lt_iff_toNat_lt.mpr ha.2⟩
  rw [unitsOnto.eq_def]
  dsimp only
  rw [if_neg hne, if_neg hlt, if_pos hlead, if_pos hb]

theorem unitsOnto_three (ha : 0xE0 ≤ a.toNat ∧ a.toNat < 0xF0) (hb : isContinuation b)
    (hc : isContinuation c) :
    unitsOnto done (a :: b :: c :: rest) = unitsOnto (unitOfThree a b c :: done) rest := by
  have hne : a ≠ 0 := ne_zero_of_pos (by omega)
  have hlt : ¬a < 0x80 := not_lt_of_le (Nat.le_trans (by decide : 0x80 ≤ 0xE0) ha.1)
  have htwo : ¬(0xC0 ≤ a ∧ a < 0xE0) := by
    intro h
    exact not_lt_of_le (show UInt8.toNat 0xE0 ≤ a.toNat from ha.1) h.2
  have hlead : 0xE0 ≤ a ∧ a < 0xF0 :=
    ⟨UInt8.le_iff_toNat_le.mpr ha.1, UInt8.lt_iff_toNat_lt.mpr ha.2⟩
  rw [unitsOnto.eq_def]
  dsimp only
  rw [if_neg hne, if_neg hlt, if_neg htwo, if_pos hlead, if_pos (by rw [hb, hc, Bool.and_self])]

end Reading

theorem unitsOnto_group (done : List UInt16) (u : UInt16) (rest : List UInt8) :
    unitsOnto done (group u ++ rest) = unitsOnto (u :: done) rest := by
  have hu := u.toNat_lt
  have hunit {n : Nat} (hn : n = u.toNat) : UInt16.ofNat n = u := by
    rw [hn, UInt16.ofNat_toNat]
  rw [group]
  split
  case isTrue hone =>
    have hbyte : (UInt8.ofNat u.toNat).toNat = u.toNat := toNat_ofNat_byte (by omega)
    have hsame : (UInt8.ofNat u.toNat).toUInt16 = u := by
      apply UInt16.toNat_inj.mp
      rw [UInt8.toNat_toUInt16, hbyte]
    rw [List.singleton_append, unitsOnto_one, hsame]
    rw [hbyte]
    exact hone
  case isFalse hone =>
    have hlast : (UInt8.ofNat (0x80 + u.toNat % 64)).toNat = 0x80 + u.toNat % 64 :=
      toNat_ofNat_byte (by omega)
    split
    case isTrue htwo =>
      have hlead : (UInt8.ofNat (0xC0 + u.toNat / 64)).toNat = 0xC0 + u.toNat / 64 :=
        toNat_ofNat_byte (by omega)
      rw [List.cons_append, List.singleton_append, unitsOnto_two, unitOfTwo, hunit]
      · rw [hlead, hlast]
        omega
      · rw [hlead]
        omega
      · rw [isContinuation_iff, hlast]
        omega
    case isFalse htwo =>
      have hlead : (UInt8.ofNat (0xE0 + u.toNat / 4096)).toNat = 0xE0 + u.toNat / 4096 :=
        toNat_ofNat_byte (by omega)
      have hmiddle : (UInt8.ofNat (0x80 + u.toNat / 64 % 64)).toNat = 0x80 + u.toNat / 64 % 64 :=
        toNat_ofNat_byte (by omega)
      rw [List.cons_append, List.cons_append, List.singleton_append, unitsOnto_three, unitOfThree,
        hunit]
      · rw [hlead, hmiddle, hlast]
        omega
      · rw [hlead]
        omega
      · rw [isContinuation_iff, hmiddle]
        omega
      · rw [isContinuation_iff, hlast]
        omega

theorem unitsOnto_groups (done us : List UInt16) :
    unitsOnto done (us.flatMap group) = some (done.reverse ++ us) := by
  induction us generalizing done with
  | nil => simp [unitsOnto]
  | cons u us ih =>
    rw [List.flatMap_cons, unitsOnto_group, ih, List.reverse_cons, List.append_assoc,
      List.singleton_append]

theorem decode?_encode (s : String) : decode? (encode s) = some s := by
  have hunits : units? (encode s) = some (Utf16.encode s.toList) := unitsOnto_groups [] _
  rw [decode?, hunits, Option.bind_some, Utf16.decode?_encode, Option.map_some, String.ofList_toList]

end ModifiedUtf8

end JvmAssembler.Text
