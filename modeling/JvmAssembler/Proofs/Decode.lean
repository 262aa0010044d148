import JvmAssembler.Constant.Basic
import JvmAssembler.Decode
import Mathlib.Algebra.BigOperators.Group.List.Basic
import Mathlib.Algebra.Order.Ring.Nat
import Mathlib.Data.List.Induction

/-!
# Reading back what was written

A reader reads bytes as a value when it takes exactly these bytes off every input that starts with
them. What readers read one after the other stands one after the other, so that the reader of a
format can be followed along its writer. Words of every type are read back.

The other way round, a reader that succeeds has taken some bytes off its input, and what these can
be is again found by following the reader. A word is only read from the bytes that it is written as.
-/

namespace JvmAssembler

open Binary (Bytes Word bigEndian ofBigEndian splitFirst? Float32Bits Float64Bits)

/-! ### Words -/

namespace Binary

theorem ofBigEndian_concat (bytes : Bytes) (b : UInt8) :
    ofBigEndian (bytes ++ [b]) = ofBigEndian bytes * 256 + b.toNat := by
  rw [ofBigEndian, ofBigEndian, List.foldl_append]
  rfl

theorem ofBigEndian_bigEndian {size n : Nat} (hn : n < 256 ^ size) :
    ofBigEndian (bigEndian size n) = n := by
  induction size generalizing n with
  | zero =>
    rw [Nat.pow_zero] at hn
    rw [Nat.lt_one_iff.mp hn]
    rfl
  | succ size ih =>
    have hhigh : n / 256 < 256 ^ size := by
      rw [Nat.pow_succ] at hn
      exact Nat.div_lt_of_lt_mul (by omega)
    rw [bigEndian, ofBigEndian_concat, ih hhigh, UInt8.toNat_ofNat']
    omega

theorem splitFirst?_append {n : Nat} {bytes : Bytes} (hn : bytes.length = n) (rest : Bytes) :
    splitFirst? n (bytes ++ rest) = some (bytes, rest) := by
  rw [splitFirst?, List.take_left' hn, List.drop_left' hn]
  exact if_pos hn

theorem splitFirst?_of_lt {n : Nat} {bytes : Bytes} (hlt : bytes.length < n) :
    splitFirst? n bytes = none := by
  rw [splitFirst?, List.take_of_length_le (Nat.le_of_lt hlt)]
  exact if_neg (Nat.ne_of_lt hlt)

/-- Words that are spelled by their number: it fits into their bytes and stands for nothing else. -/
class LawfulWord (α : Type) [Word α] : Prop where
  toNat_lt (x : α) : Word.toNat x < 256 ^ Word.size α
  ofNat_toNat (x : α) : Word.ofNat (Word.toNat x) = x

instance : LawfulWord UInt8 := ⟨UInt8.toNat_lt, fun _ => UInt8.ofNat_toNat⟩

instance : LawfulWord UInt16 := ⟨UInt16.toNat_lt, fun _ => UInt16.ofNat_toNat⟩

instance : LawfulWord UInt32 := ⟨UInt32.toNat_lt, fun _ => UInt32.ofNat_toNat⟩

instance : LawfulWord Int32 :=
  ⟨fun x => x.toUInt32.toNat_lt, fun x => congrArg UInt32.toInt32 (UInt32.ofNat_toNat (x := x.toUInt32))⟩

instance : LawfulWord Int64 :=
  ⟨fun x => x.toUInt64.toNat_lt, fun x => congrArg UInt64.toInt64 (UInt64.ofNat_toNat (x := x.toUInt64))⟩

instance : LawfulWord Float32Bits :=
  ⟨fun x => x.bits.toNat_lt, fun _ => congrArg Float32Bits.mk UInt32.ofNat_toNat⟩

instance : LawfulWord Float64Bits :=
  ⟨fun x => x.bits.toNat_lt, fun _ => congrArg Float64Bits.mk UInt64.ofNat_toNat⟩

instance {target : Tag} : LawfulWord (Ref target) :=
  ⟨fun r => r.index.toNat_lt, fun _ => congrArg Ref.mk UInt16.ofNat_toNat⟩

theorem ofBigEndian_encode {α : Type} [Word α] [LawfulWord α] (x : α) :
    ofBigEndian (Word.encode x) = Word.toNat x :=
  ofBigEndian_bigEndian (LawfulWord.toNat_lt x)

theorem Word.decode?_encode {α : Type} [Word α] [LawfulWord α] (x : α) (rest : Bytes) :
    Word.decode? (Word.encode x ++ rest) = some (x, rest) := by
  rw [Word.decode?, splitFirst?_append (Word.length_encode x) rest, Option.map_some]
  dsimp only
  rw [ofBigEndian_encode, LawfulWord.ofNat_toNat]

theorem Word.encode_byte (b : UInt8) : Word.encode b = [b] :=
  congrArg (fun b => [b]) UInt8.ofNat_toNat

theorem Word.encode_injective {α : Type} [Word α] [LawfulWord α] :
    Function.Injective (Word.encode : α → Bytes) := by
  intro x y h
  have hx := Word.decode?_encode x []
  rw [h, Word.decode?_encode y []] at hx
  cases hx
  rfl

theorem ofBigEndian_lt (bytes : Bytes) : ofBigEndian bytes < 256 ^ bytes.length := by
  induction bytes using List.reverseRecOn with
  | nil => exact Nat.one_pos
  | append_singleton bytes b ih =>
    have hb : b.toNat < 256 := b.toNat_lt
    rw [ofBigEndian_concat, List.length_append, List.length_singleton, Nat.pow_succ]
    omega

theorem bigEndian_ofBigEndian (bytes : Bytes) :
    bigEndian bytes.length (ofBigEndian bytes) = bytes := by
  induction bytes using List.reverseRecOn with
  | nil => rfl
  | append_singleton bytes b ih =>
    have hb : b.toNat < 256 := b.toNat_lt
    have hhigh : (ofBigEndian bytes * 256 + b.toNat) / 256 = ofBigEndian bytes := by omega
    have hlow : UInt8.ofNat (ofBigEndian bytes * 256 + b.toNat) = b := by
      apply UInt8.toNat_inj.mp
      rw [UInt8.toNat_ofNat']
      omega
    rw [ofBigEndian_concat, List.length_append, List.length_singleton, bigEndian, hhigh, hlow, ih]

theorem eq_append_of_splitFirst? {n : Nat} {bytes front rest : Bytes}
    (h : splitFirst? n bytes = some (front, rest)) : bytes = front ++ rest ∧ front.length = n := by
  rw [splitFirst?] at h
  split at h
  case isTrue hlength =>
    cases h
    exact ⟨(List.take_append_drop n bytes).symm, hlength⟩
  case isFalse => cases h

/-- Words of which every number that fits into their bytes is one. -/
class FullWord (α : Type) [Word α] : Prop where
  toNat_ofNat {n : Nat} (hn : n < 256 ^ Word.size α) : Word.toNat (Word.ofNat n : α) = n

instance : FullWord UInt8 := ⟨UInt8.toNat_ofNat_of_lt'⟩

instance : FullWord UInt16 := ⟨UInt16.toNat_ofNat_of_lt'⟩

instance : FullWord UInt32 := ⟨UInt32.toNat_ofNat_of_lt'⟩

instance : FullWord Int32 := ⟨UInt32.toNat_ofNat_of_lt'⟩

instance : FullWord Int64 := ⟨UInt64.toNat_ofNat_of_lt'⟩

instance : FullWord Float32Bits := ⟨UInt32.toNat_ofNat_of_lt'⟩

instance : FullWord Float64Bits := ⟨UInt64.toNat_ofNat_of_lt'⟩

instance {target : Tag} : FullWord (Ref target) := ⟨UInt16.toNat_ofNat_of_lt'⟩

/-- As many bytes as a word takes are those of a word. -/
theorem Word.exists_encode {α : Type} [Word α] [FullWord α] {bytes : Bytes}
    (h : bytes.length = Word.size α) : ∃ x : α, bytes = Word.encode x := by
  have hlt := ofBigEndian_lt bytes
  rw [h] at hlt
  refine ⟨Word.ofNat (ofBigEndian bytes), ?_⟩
  rw [Word.encode, FullWord.toNat_ofNat hlt, ← h, bigEndian_ofBigEndian]

theorem Word.eq_append_of_decode? {α : Type} [Word α] [FullWord α] {bytes rest : Bytes} {x : α}
    (h : Word.decode? bytes = some (x, rest)) : bytes = Word.encode x ++ rest := by
  rw [Word.decode?, Option.map_eq_some_iff] at h
  obtain ⟨⟨front, rest'⟩, hsplit, heq⟩ := h
  cases heq
  obtain ⟨rfl, hlength⟩ := eq_append_of_splitFirst? hsplit
  have hlt := ofBigEndian_lt front
  rw [hlength] at hlt
  rw [Word.encode, FullWord.toNat_ofNat hlt, ← hlength, bigEndian_ofBigEndian]

end Binary

/-! ### Readers -/

namespace Decode

variable {α β : Type} {read : Decode α} {next : α → Decode β} {bytes more : Bytes} {x : α} {y : β}

theorem bind_of_ok {input middle : Bytes} (h : read input = .ok (x, middle)) :
    (read >>= next) input = next x middle := by
  show (read input >>= fun r => next r.1 r.2) = _
  rw [h]
  rfl

theorem bind_of_error {input : Bytes} {fault : Fault} (h : read input = .error fault) :
    (read >>= next) input = .error fault := by
  show (read input >>= fun r => next r.1 r.2) = _
  rw [h]
  rfl

theorem bind_eq_ok_iff {input rest : Bytes} : (read >>= next) input = .ok (y, rest) ↔
    ∃ x middle, read input = .ok (x, middle) ∧ next x middle = .ok (y, rest) := by
  cases hread : read input with
  | error fault => simp [bind_of_error hread]
  | ok r =>
    rw [bind_of_ok hread]
    constructor
    · intro h
      exact ⟨r.1, r.2, rfl, h⟩
    · rintro ⟨x, middle, heq, h⟩
      cases heq
      exact h

/-- The reader takes these bytes for this value, whatever comes after them. -/
def Reads (read : Decode α) (bytes : Bytes) (x : α) : Prop :=
  ∀ rest, read (bytes ++ rest) = .ok (x, rest)

theorem Reads.pure (x : α) : Reads (Pure.pure x) [] x := fun _ => rfl

theorem Reads.bind (h : Reads read bytes x) (hnext : Reads (next x) more y) :
    Reads (read >>= next) (bytes ++ more) y := by
  intro rest
  rw [List.append_assoc, bind_eq_ok_iff]
  exact ⟨x, more ++ rest, h _, hnext rest⟩

theorem Reads.map (f : α → β) (h : Reads read bytes x) : Reads (f <$> read) bytes (f x) := by
  intro rest
  change (read (bytes ++ rest) >>= fun r => Except.ok (f r.1, r.2)) = _
  rw [h]
  rfl

theorem reads_word [Word α] [Binary.LawfulWord α] (x : α) : Reads word (Word.encode x) x := by
  intro rest
  rw [word, ofOption, Binary.Word.decode?_encode]

theorem reads_bytes {n : Nat} (hn : bytes.length = n) : Reads (Decode.bytes n) bytes bytes := by
  intro rest
  rw [Decode.bytes, ofOption, Binary.splitFirst?_append hn]

/-! ### What was taken -/

variable {S : Bytes → α → Prop} {T : Bytes → β → Prop}

/-- Where the reader succeeds, it has taken bytes that stand to the value as `S` says. -/
def Takes (read : Decode α) (S : Bytes → α → Prop) : Prop :=
  ∀ input x rest, read input = .ok (x, rest) → ∃ bytes, input = bytes ++ rest ∧ S bytes x

theorem Takes.mono {S' : Bytes → α → Prop} (h : Takes read S)
    (himp : ∀ bytes x, S bytes x → S' bytes x) : Takes read S' := by
  intro input x rest hread
  obtain ⟨bytes, hinput, hS⟩ := h input x rest hread
  exact ⟨bytes, hinput, himp bytes x hS⟩

theorem Takes.pure (h : S [] x) : Takes (Pure.pure x) S := by
  intro input y rest hread
  cases hread
  exact ⟨[], rfl, h⟩

theorem Takes.throw (fault : Fault) : Takes (throw fault : Decode α) S := by
  intro input x rest hread
  cases hread

theorem Takes.bind (h : Takes read S)
    (hnext : ∀ bytes x, S bytes x → Takes (next x) fun more => T (bytes ++ more)) :
    Takes (read >>= next) T := by
  intro input y rest hread
  obtain ⟨x, middle, hfirst, hsecond⟩ := bind_eq_ok_iff.mp hread
  obtain ⟨bytes, hinput, hS⟩ := h input x middle hfirst
  obtain ⟨more, hmore, hT⟩ := hnext bytes x hS middle y rest hsecond
  exact ⟨bytes ++ more, by rw [hinput, hmore, List.append_assoc], hT⟩

theorem Takes.map {f : α → β} (h : Takes read fun bytes x => T bytes (f x)) :
    Takes (f <$> read) T := by
  intro input y rest hread
  change (read input >>= fun r => Except.ok (f r.1, r.2)) = _ at hread
  cases hfirst : read input with
  | error fault =>
    rw [hfirst] at hread
    cases hread
  | ok r =>
    rw [hfirst] at hread
    cases hread
    exact h input r.1 r.2 hfirst

theorem takes_word [Word α] [Binary.FullWord α] :
    Takes (word : Decode α) fun bytes x => bytes = Word.encode x := by
  intro input x rest hread
  rw [word, ofOption] at hread
  split at hread
  next hword =>
    cases hread
    exact ⟨_, Binary.Word.eq_append_of_decode? hword, rfl⟩
  · cases hread

theorem word_eq_ok_iff [Word α] [Binary.LawfulWord α] [Binary.FullWord α] {input rest : Bytes} :
    word input = .ok (x, rest) ↔ input = Word.encode x ++ rest := by
  constructor
  · intro hread
    obtain ⟨bytes, hinput, rfl⟩ := takes_word input x rest hread
    exact hinput
  · rintro rfl
    exact reads_word x rest

theorem takes_bytes (n : Nat) :
    Takes (Decode.bytes n) fun bytes front => bytes = front ∧ front.length = n := by
  intro input front rest hread
  rw [Decode.bytes, ofOption] at hread
  split at hread
  next hsplit =>
    cases hread
    obtain ⟨hinput, hlength⟩ := Binary.eq_append_of_splitFirst? hsplit
    exact ⟨front, hinput, rfl, hlength⟩
  · cases hread

end Decode

end JvmAssembler
