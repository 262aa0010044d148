import JvmAssembler.Text.Utf16

/-!
# Modified UTF-8

The byte form of strings in a class file. Each UTF-16 code unit becomes a group of one, two or three
bytes; U+0000 takes the two-byte group, so no encoding holds a zero byte, and a supplementary
character is a surrogate pair of two three-byte groups.

Decoding refuses zero bytes, bytes from `0xF0` up, stray or missing continuation bytes and unpaired
surrogates. It accepts a unit in a longer group than `group` writes.
-/

namespace JvmAssembler.Text.ModifiedUtf8

/-- The bytes of one code unit, in the shortest group that is free of zero bytes. -/
def group (u : UInt16) : List UInt8 :=
  let n := u.toNat
  if 0 < n ∧ n < 0x80 then [UInt8.ofNat n]
  else if n < 0x800 then [UInt8.ofNat (0xC0 + n / 64), UInt8.ofNat (0x80 + n % 64)]
  else
    [UInt8.ofNat (0xE0 + n / 4096), UInt8.ofNat (0x80 + n / 64 % 64), UInt8.ofNat (0x80 + n % 64)]

def encode (s : String) : List UInt8 :=
  (Utf16.encode s.toList).flatMap group

/-- Whether a byte is `10xxxxxx`, the form of every byte of a group after its first. -/
def isContinuation (b : UInt8) : Bool :=
  0x80 ≤ b && b < 0xC0

/-- The unit in a group `110xxxxx 10xxxxxx`. -/
def unitOfTwo (a b : UInt8) : UInt16 :=
  UInt16.ofNat (a.toNat % 32 * 64 + b.toNat % 64)

/-- The unit in a group `1110xxxx 10xxxxxx 10xxxxxx`. -/
def unitOfThree (a b c : UInt8) : UInt16 :=
  UInt16.ofNat (a.toNat % 16 * 4096 + b.toNat % 64 * 64 + c.toNat % 64)

/-- Reads groups onto `done`, which holds the units read before them, last first. -/
def unitsOnto (done : List UInt16) : List UInt8 → Option (List UInt16)
  | [] => some done.reverse
  | a :: rest =>
    if a = 0 then none
    else if a < 0x80 then unitsOnto (a.toUInt16 :: done) rest
    else if 0xC0 ≤ a ∧ a < 0xE0 then
      match rest with
      | b :: rest =>
        if isContinuation b then unitsOnto (unitOfTwo a b :: done) rest else none
      | [] => none
    else if 0xE0 ≤ a ∧ a < 0xF0 then
      match rest with
      | b :: c :: rest =>
        if isContinuation b && isContinuation c then unitsOnto (unitOfThree a b c :: done) rest
        else none
      | _ => none
    else none

/-- The code units that a sequence of groups carries. -/
def units? (bytes : List UInt8) : Option (List UInt16) :=
  unitsOnto [] bytes

/-- The string that bytes encode, or nothing when they are malformed. -/
def decode? (bytes : List UInt8) : Option String :=
  (units? bytes).bind fun us => (Utf16.decode? us).map String.ofList

end JvmAssembler.Text.ModifiedUtf8
