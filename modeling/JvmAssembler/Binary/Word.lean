/-!
# Big-endian words

Every number in a class file is a word of fixed size, most significant byte first. `Word` names a
type's size and its correspondence with numbers, and `Word.encode` and `Word.decode?` are shared by
all of them. `encodeCounted` writes a sequence behind the number of its elements.
-/

namespace JvmAssembler.Binary

abbrev Bytes := List UInt8

/-- The `size` low-order bytes of `n`, most significant first. -/
def bigEndian : (size n : Nat) → Bytes
  | 0, _ => []
  | size + 1, n => bigEndian size (n / 256) ++ [UInt8.ofNat n]

theorem length_bigEndian (size n : Nat) : (bigEndian size n).length = size := by
  induction size generalizing n with
  | zero => rfl
  | succ size ih => simp [bigEndian, ih]

/-- The number whose base-256 digits are `bytes`, most significant first. -/
def ofBigEndian (bytes : Bytes) : Nat :=
  bytes.foldl (fun n b => n * 256 + b.toNat) 0

/-- The first `n` bytes and the rest, or nothing when there are fewer than `n`. -/
def splitFirst? (n : Nat) (bytes : Bytes) : Option (Bytes × Bytes) :=
  let front := bytes.take n
  if front.length = n then some (front, bytes.drop n) else none

/-- A type of words: `size` bytes each, with the number that those bytes spell. -/
class Word (α : Type) where
  size : Nat
  toNat : α → Nat
  ofNat : Nat → α

namespace Word

variable {α : Type} [Word α]

def encode (x : α) : Bytes :=
  bigEndian (size α) (toNat x)

theorem length_encode (x : α) : (encode x).length = size α :=
  length_bigEndian ..

/-- Reads a word off the front, or nothing when the input ends inside it. -/
def decode? (bytes : Bytes) : Option (α × Bytes) :=
  (splitFirst? (size α) bytes).map fun (front, rest) => (ofNat (ofBigEndian front), rest)

end Word

instance : Word UInt8 := ⟨1, UInt8.toNat, UInt8.ofNat⟩

instance : Word UInt16 := ⟨2, UInt16.toNat, UInt16.ofNat⟩

instance : Word UInt32 := ⟨4, UInt32.toNat, UInt32.ofNat⟩

instance : Word UInt64 := ⟨8, UInt64.toNat, UInt64.ofNat⟩

instance : Word Int32 := ⟨4, fun x => x.toUInt32.toNat, fun n => (UInt32.ofNat n).toInt32⟩

instance : Word Int64 := ⟨8, fun x => x.toUInt64.toNat, fun n => (UInt64.ofNat n).toInt64⟩

/-- The number of elements modulo 65536, as a 16-bit word, and then every element. -/
def encodeCounted {α : Type} (encode : α → Bytes) (xs : List α) : Bytes :=
  Word.encode (UInt16.ofNat xs.length) ++ xs.flatMap encode

theorem length_encodeCounted {α : Type} {encode : α → Bytes} {size : Nat}
    (h : ∀ x, (encode x).length = size) (xs : List α) :
    (encodeCounted encode xs).length = 2 + size * xs.length := by
  have : (xs.flatMap encode).length = size * xs.length := by
    induction xs with
    | nil => rfl
    | cons x xs ih => simp [h, ih, Nat.mul_succ, Nat.add_comm]
  simp [encodeCounted, this, Word.length_encode, Word.size]

end JvmAssembler.Binary
