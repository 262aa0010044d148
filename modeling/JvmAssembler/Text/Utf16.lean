/-!
# UTF-16 code units

A scalar value below `0x10000` is one code unit, and any other is a high surrogate followed by a low
one. `decode?` is strict: it refuses every surrogate that is not part of such a pair.
-/

namespace JvmAssembler.Text.Utf16

/-- The code units of one scalar value. -/
def units (c : Char) : List UInt16 :=
  let n := c.toNat
  if n < 0x10000 then [UInt16.ofNat n]
  else
    [UInt16.ofNat (0xD800 + (n - 0x10000) / 0x400), UInt16.ofNat (0xDC00 + (n - 0x10000) % 0x400)]

def encode (text : List Char) : List UInt16 :=
  text.flatMap units

/-- Whether a unit is the first half of a pair. -/
def isHigh (u : UInt16) : Bool :=
  0xD800 ≤ u && u < 0xDC00

/-- Whether a unit is the second half of a pair. -/
def isLow (u : UInt16) : Bool :=
  0xDC00 ≤ u && u < 0xE000

def join (high low : UInt16) : Char :=
  Char.ofNat (0x10000 + (high.toNat - 0xD800) * 0x400 + (low.toNat - 0xDC00))

/-- Reads units onto `done`, which holds what was read before them, last first. -/
def decodeOnto (done : List Char) : List UInt16 → Option (List Char)
  | [] => some done.reverse
  | u :: rest =>
    if isHigh u then
      match rest with
      | [] => none
      | v :: rest => if isLow v then decodeOnto (join u v :: done) rest else none
    else if isLow u then none
    else decodeOnto (Char.ofNat u.toNat :: done) rest

/-- The text that a sequence of units encodes, or nothing when a surrogate is unpaired. -/
def decode? (us : List UInt16) : Option (List Char) :=
  decodeOnto [] us

end JvmAssembler.Text.Utf16
