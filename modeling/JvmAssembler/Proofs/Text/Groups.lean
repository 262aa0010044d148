import JvmAssembler.Proofs.Text.ModifiedUtf8
import Mathlib.Data.List.Forall2

/-!
# What a string can be read from

A string can be read from more byte sequences than the one that it is written as, because a group
may be longer than its unit needs. The one that is written is shorter than all others.
-/

namespace JvmAssembler.Text

/-! ### Condensed sequences -/

/-- The first sequence is shorter than the second, unless they are the same. -/
structure Condenses (short long : List UInt8) : Prop where
  length_le : short.length ≤ long.length
  eq_of_length_eq : short.length = long.length → short = long

namespace Condenses

variable {a b c d : List UInt8} {as bs : List (List UInt8)}

theorem refl (a : List UInt8) : Condenses a a := ⟨Nat.le_refl _, fun _ => rfl⟩

theorem of_length_lt (h : a.length < b.length) : Condenses a b :=
  ⟨Nat.le_of_lt h, fun heq => absurd heq (Nat.ne_of_lt h)⟩

theorem append (h : Condenses a b) (h' : Condenses c d) : Condenses (a ++ c) (b ++ d) := by
  have hle := h.length_le
  have hle' := h'.length_le
  constructor
  · rw [List.length_append, List.length_append]
    omega
  · intro hlength
    rw [List.length_append, List.length_append] at hlength
    rw [h.eq_of_length_eq (by omega), h'.eq_of_length_eq (by omega)]

theorem flatten (h : List.Forall₂ Condenses as bs) : Condenses as.flatten bs.flatten := by
  induction h with
  | nil => exact refl []
  | cons hab _ ih => exact hab.append ih

/-- Nothing is gained in any place if nothing is gained altogether. -/
theorem eq_of_length_flatten_eq (h : List.Forall₂ Condenses as bs)
    (hlength : as.flatten.length = bs.flatten.length) : as = bs := by
  induction h with
  | nil => rfl
  | cons hab htail ih =>
    have hle := hab.length_le
    have hle' := (flatten htail).length_le
    rw [List.flatten_cons, List.flatten_cons, List.length_append, List.length_append] at hlength
    rw [hab.eq_of_length_eq (by omega), ih (by omega)]

end Condenses

/-! ### Code units -/

namespace Utf16

variable {u v : UInt16}

theorem toNat_ofNat_char {n : Nat} (hn : n.isValidChar) : (Char.ofNat n).toNat = n := by
  rw [Char.ofNat, dif_pos hn]
  rfl

theorem units_single (hhigh : ¬isHigh u) (hlow : ¬isLow u) : units (Char.ofNat u.toNat) = [u] := by
  rw [isHigh_iff] at hhigh
  rw [isLow_iff] at hlow
  have hu : u.toNat < 65536 := u.toNat_lt
  have hvalid : u.toNat.isValidChar := by
    rw [Nat.isValidChar]
    omega
  rw [units, toNat_ofNat_char hvalid]
  rw [if_pos hu, UInt16.ofNat_toNat]

theorem units_join (hhigh : isHigh u) (hlow : isLow v) : units (join u v) = [u, v] := by
  rw [isHigh_iff] at hhigh
  rw [isLow_iff] at hlow
  have hvalid :
      (0x10000 + (u.toNat - 0xD800) * 0x400 + (v.toNat - 0xDC00)).isValidChar := by
    rw [Nat.isValidChar]
    omega
  have hfirst : 0xD800 +
      (0x10000 + (u.toNat - 0xD800) * 0x400 + (v.toNat - 0xDC00) - 0x10000) / 0x400 = u.toNat := by
    omega
  have hsecond : 0xDC00 +
      (0x10000 + (u.toNat - 0xD800) * 0x400 + (v.toNat - 0xDC00) - 0x10000) % 0x400 = v.toNat := by
    omega
  rw [units, join, toNat_ofNat_char hvalid]
  rw [if_neg (by omega), hfirst, hsecond, UInt16.ofNat_toNat, UInt16.ofNat_toNat]

theorem encode_of_decodeOnto {done text : List Char} {us : List UInt16}
    (h : decodeOnto done us = some text) :
    ∃ tail, text = done.reverse ++ tail ∧ encode tail = us := by
  fun_induction decodeOnto done us with
  | case1 done =>
    cases h
    exact ⟨[], (List.append_nil _).symm, rfl⟩
  | case2 => cases h
  | case3 done u hhigh v rest hlow ih =>
    obtain ⟨tail, rfl, rfl⟩ := ih h
    refine ⟨join u v :: tail, by simp, ?_⟩
    rw [encode, List.flatMap_cons, units_join hhigh hlow]
    rfl
  | case4 => cases h
  | case5 => cases h
  | case6 done u rest hhigh hlow ih =>
    obtain ⟨tail, rfl, rfl⟩ := ih h
    refine ⟨Char.ofNat u.toNat :: tail, by simp, ?_⟩
    rw [encode, List.flatMap_cons, units_single hhigh hlow]
    rfl

/-- Only what a text is encoded as is decoded as that text. -/
theorem encode_of_decode? {text : List Char} {us : List UInt16} (h : decode? us = some text) :
    encode text = us := by
  obtain ⟨tail, rfl, hus⟩ := encode_of_decodeOnto h
  exact hus

end Utf16

/-! ### Groups -/

namespace ModifiedUtf8

/-- The bytes are a group from which the unit is read. -/
inductive Carries : List UInt8 → UInt16 → Prop
  | one {a : UInt8} (ha : 0 < a.toNat ∧ a.toNat < 0x80) : Carries [a] a.toUInt16
  | two {a b : UInt8} (ha : 0xC0 ≤ a.toNat ∧ a.toNat < 0xE0) (hb : isContinuation b) :
    Carries [a, b] (unitOfTwo a b)
  | three {a b c : UInt8} (ha : 0xE0 ≤ a.toNat ∧ a.toNat < 0xF0) (hb : isContinuation b)
    (hc : isContinuation c) : Carries [a, b, c] (unitOfThree a b c)

/-- A group that is as short as possible for its unit is the one that is written for it. -/
theorem Carries.condenses {piece : List UInt8} {u : UInt16} (h : Carries piece u) :
    Condenses (group u) piece := by
  cases h with
  | @one a ha =>
    have ha' : 0 < a.toUInt16.toNat ∧ a.toUInt16.toNat < 0x80 := by rwa [UInt8.toNat_toUInt16]
    rw [group, if_pos ha', UInt8.toNat_toUInt16, UInt8.ofNat_toNat]
    exact .refl [a]
  | @two a b ha hb =>
    rw [isContinuation_iff] at hb
    have hunit : (unitOfTwo a b).toNat = a.toNat % 32 * 64 + b.toNat % 64 :=
      Utf16.toNat_ofNat_unit (by omega)
    rw [group, hunit]
    split
    · exact .of_length_lt (by simp)
    · have hlead : 0xC0 + (a.toNat % 32 * 64 + b.toNat % 64) / 64 = a.toNat := by omega
      have hlast : 0x80 + (a.toNat % 32 * 64 + b.toNat % 64) % 64 = b.toNat := by omega
      rw [if_pos (by omega), hlead, hlast, UInt8.ofNat_toNat, UInt8.ofNat_toNat]
      exact .refl [a, b]
  | @three a b c ha hb hc =>
    rw [isContinuation_iff] at hb hc
    have hunit : (unitOfThree a b c).toNat =
        a.toNat % 16 * 4096 + b.toNat % 64 * 64 + c.toNat % 64 :=
      Utf16.toNat_ofNat_unit (by omega)
    rw [group, hunit]
    split
    · exact .of_length_lt (by simp)
    · split
      · exact .of_length_lt (by simp)
      · have hlead : 0xE0 + (a.toNat % 16 * 4096 + b.toNat % 64 * 64 + c.toNat % 64) / 4096 =
            a.toNat := by omega
        have hmiddle : 0x80 + (a.toNat % 16 * 4096 + b.toNat % 64 * 64 + c.toNat % 64) / 64 % 64 =
            b.toNat := by omega
        have hlast : 0x80 + (a.toNat % 16 * 4096 + b.toNat % 64 * 64 + c.toNat % 64) % 64 =
            c.toNat := by omega
        rw [hlead, hmiddle, hlast, UInt8.ofNat_toNat, UInt8.ofNat_toNat, UInt8.ofNat_toNat]
        exact .refl [a, b, c]

theorem carries_of_unitsOnto {done us : List UInt16} {bytes : List UInt8}
    (h : unitsOnto done bytes = some us) :
    ∃ groups tail, us = done.reverse ++ tail ∧ bytes = groups.flatten ∧
      List.Forall₂ Carries groups tail := by
  fun_induction unitsOnto done bytes with
  | case1 done =>
    cases h
    exact ⟨[], [], (List.append_nil _).symm, rfl, .nil⟩
  | case3 done a rest hne hlt ih =>
    obtain ⟨groups, tail, rfl, rfl, hgroups⟩ := ih h
    have ha : 0 < a.toNat ∧ a.toNat < 0x80 :=
      ⟨Nat.pos_of_ne_zero fun hzero => hne (UInt8.toNat_inj.mp hzero), UInt8.lt_iff_toNat_lt.mp hlt⟩
    exact ⟨[a] :: groups, a.toUInt16 :: tail, by simp, rfl, .cons (.one ha) hgroups⟩
  | case4 done a hne hlt hlead b rest hb ih =>
    obtain ⟨groups, tail, rfl, rfl, hgroups⟩ := ih h
    have ha : 0xC0 ≤ a.toNat ∧ a.toNat < 0xE0 :=
      ⟨UInt8.le_iff_toNat_le.mp hlead.1, UInt8.lt_iff_toNat_lt.mp hlead.2⟩
    exact ⟨[a, b] :: groups, unitOfTwo a b :: tail, by simp, rfl, .cons (.two ha hb) hgroups⟩
  | case7 done a hne hlt htwo hlead b c rest hbc ih =>
    obtain ⟨groups, tail, rfl, rfl, hgroups⟩ := ih h
    have ha : 0xE0 ≤ a.toNat ∧ a.toNat < 0xF0 :=
      ⟨UInt8.le_iff_toNat_le.mp hlead.1, UInt8.lt_iff_toNat_lt.mp hlead.2⟩
    have hboth := Bool.and_eq_true_iff.mp hbc
    exact ⟨[a, b, c] :: groups, unitOfThree a b c :: tail, by simp, rfl,
      .cons (.three ha hboth.1 hboth.2) hgroups⟩
  | _ => cases h

theorem Carries.bounds {piece : List UInt8} {u : UInt16} (h : Carries piece u) :
    ∀ b ∈ piece, b ≠ 0 ∧ b < 0xF0 := by
  have hbyte {b : UInt8} (hpos : 0 < b.toNat) (hlt : b.toNat < 0xF0) : b ≠ 0 ∧ b < 0xF0 :=
    ⟨ne_zero_of_pos hpos, UInt8.lt_iff_toNat_lt.mpr hlt⟩
  have hnext {b : UInt8} (hb : isContinuation b) : b ≠ 0 ∧ b < 0xF0 := by
    rw [isContinuation_iff] at hb
    exact hbyte (by omega) (by omega)
  cases h with
  | one ha =>
    rw [List.forall_mem_singleton]
    exact hbyte ha.1 (by omega)
  | two ha hb =>
    rw [List.forall_mem_cons, List.forall_mem_singleton]
    exact ⟨hbyte (by omega) (by omega), hnext hb⟩
  | three ha hb hc =>
    rw [List.forall_mem_cons, List.forall_mem_cons, List.forall_mem_singleton]
    exact ⟨hbyte (by omega) (by omega), hnext hb, hnext hc⟩

/-- Nothing that a string is read from has a zero byte, or one that would start a longer group. -/
theorem bounds_of_decode? {bytes : List UInt8} {text : String} (h : decode? bytes = some text) :
    ∀ b ∈ bytes, b ≠ 0 ∧ b < 0xF0 := by
  rw [decode?, Option.bind_eq_some_iff] at h
  obtain ⟨us, hus, -⟩ := h
  obtain ⟨groups, tail, -, rfl, hgroups⟩ := carries_of_unitsOnto hus
  clear hus
  induction hgroups with
  | nil => simp
  | cons hcarries _ ih =>
    rw [List.flatten_cons, List.forall_mem_append]
    exact ⟨hcarries.bounds, ih⟩

theorem encode_condenses {bytes : List UInt8} {text : String} (h : decode? bytes = some text) :
    Condenses (encode text) bytes := by
  rw [decode?, Option.bind_eq_some_iff] at h
  obtain ⟨us, hus, h⟩ := h
  rw [Option.map_eq_some_iff] at h
  obtain ⟨chars, hchars, rfl⟩ := h
  obtain ⟨groups, _, rfl, rfl, hgroups⟩ := carries_of_unitsOnto hus
  rw [encode, String.toList_ofList, Utf16.encode_of_decode? hchars, List.flatMap_def]
  apply Condenses.flatten
  rw [List.forall₂_map_left_iff]
  exact (hgroups.imp fun _ _ hcarries => hcarries.condenses).flip

/-- A string is read back from what it is written as, which has no zero byte and no byte from `0xF0` on.
All else that the string is read from is longer. -/
theorem encode_shortest (s : String) :
    decode? (encode s) = some s ∧ (∀ b ∈ encode s, b ≠ 0 ∧ b < 0xF0) ∧
      ∀ bytes, decode? bytes = some s → (encode s).length ≤ bytes.length ∧
        (bytes.length = (encode s).length → bytes = encode s) := by
  refine ⟨decode?_encode s, bounds_of_decode? (decode?_encode s), fun bytes h => ?_⟩
  have hcondenses := encode_condenses h
  exact ⟨hcondenses.length_le, fun heq => (hcondenses.eq_of_length_eq heq.symm).symm⟩

/-- U+0000 is also read from a group of three bytes, and a surrogate pair from two groups only. -/
theorem encode_shortest_overlong :
    let s := "\x00😀"
    let bytes : List UInt8 := [0xE0, 0x80, 0x80, 0xED, 0xA0, 0xBD, 0xED, 0xB8, 0x80]
    decode? bytes = some s ∧ encode s = [0xC0, 0x80, 0xED, 0xA0, 0xBD, 0xED, 0xB8, 0x80] ∧
      (encode s).length ≤ bytes.length ∧
      (bytes.length = (encode s).length → bytes = encode s) := by
  intro s bytes
  have hread : decode? bytes = some s := by rfl
  have hwritten : encode s = [0xC0, 0x80, 0xED, 0xA0, 0xBD, 0xED, 0xB8, 0x80] := by decide +kernel
  exact ⟨hread, hwritten, (encode_shortest s).2.2 bytes hread⟩

/-- The bytes are what the string that they decode to is written as. -/
def Canonical (bytes : List UInt8) : Prop :=
  ∃ text, decode? bytes = some text ∧ encode text = bytes

theorem canonical_iff {bytes : List UInt8} {text : String} (h : decode? bytes = some text) :
    Canonical bytes ↔ encode text = bytes := by
  constructor
  · rintro ⟨other, hother, hbytes⟩
    rw [h] at hother
    cases hother
    exact hbytes
  · exact fun hbytes => ⟨text, h, hbytes⟩

end ModifiedUtf8

end JvmAssembler.Text
