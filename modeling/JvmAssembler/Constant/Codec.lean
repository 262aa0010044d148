import JvmAssembler.Decode
import JvmAssembler.Text.ModifiedUtf8

/-!
# The bytes of constants

A constant is its tag byte and then its body: a word for a number or a reference, two for a name and
descriptor, and for a string its length in bytes and its modified UTF-8. Reading a body accepts every
decodable string; writing one always takes the shortest encoding, and refuses a string whose length
does not fit into 16 bits.
-/

namespace JvmAssembler.Constant

open Binary (Bytes Word)
open Text

/-- The bytes of a string behind their number. -/
def encodeText (text : String) : Except Fault Bytes :=
  let bytes := ModifiedUtf8.encode text
  let size := bytes.length
  if size ≤ 65535 then .ok (Word.encode (UInt16.ofNat size) ++ bytes)
  else .error (.utf8TooLong size)

def encodeBody : Constant → Except Fault Bytes
  | .utf8 text => encodeText text
  | .integer value => .ok (Word.encode value)
  | .float value => .ok (Word.encode value)
  | .long value => .ok (Word.encode value)
  | .double value => .ok (Word.encode value)
  | .classRef name => .ok (Word.encode name)
  | .stringRef text => .ok (Word.encode text)
  | .nameAndType name descriptor => .ok (Word.encode name ++ Word.encode descriptor)

def encode (c : Constant) : Except Fault Bytes :=
  (c.tag.toByte :: ·) <$> c.encodeBody

def decodeText : Decode String := do
  let size : UInt16 ← Decode.word
  let bytes ← Decode.bytes size.toNat
  match ModifiedUtf8.decode? bytes with
  | some text => return text
  | none => throw (.malformedUtf8 bytes)

def decodeBody : Tag → Decode Constant
  | .utf8 => .utf8 <$> decodeText
  | .integer => .integer <$> Decode.word
  | .float => .float <$> Decode.word
  | .long => .long <$> Decode.word
  | .double => .double <$> Decode.word
  | .classRef => .classRef <$> Decode.word
  | .stringRef => .stringRef <$> Decode.word
  | .nameAndType => .nameAndType <$> Decode.word <*> Decode.word

def decode : Decode Constant := do
  let byte : UInt8 ← Decode.word
  match Tag.ofByte? byte with
  | some tag => decodeBody tag
  | none => throw (.unknownTag byte)

end JvmAssembler.Constant
