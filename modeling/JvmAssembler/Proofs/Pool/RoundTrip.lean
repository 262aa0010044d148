import JvmAssembler.Pool.Codec
import JvmAssembler.Proofs.Decode
import JvmAssembler.Proofs.Pool.Layout
import JvmAssembler.Proofs.Text.ModifiedUtf8

/-!
# Pools read back

What a pool is written as is read as that pool: its constants come back in order, and since a pool is
determined by them, so does the table of first indices.
-/

namespace JvmAssembler

open Binary (Bytes Word)
open Decode (Reads)

theorem Tag.ofByte?_toByte (tag : Tag) : Tag.ofByte? tag.toByte = some tag := by
  cases tag <;> rfl

namespace Constant

open Text

theorem reads_payload {payload : Bytes} {text : String} (hsize : payload.length ≤ 65535)
    (h : ModifiedUtf8.decode? payload = some text) :
    Reads decodeText (Word.encode (UInt16.ofNat payload.length) ++ payload) text := by
  have hlength : payload.length = (UInt16.ofNat payload.length).toNat := by
    rw [Pool.toNat_ofNat_of_le hsize]
  apply (Decode.reads_word _).bind
  rw [← List.append_nil payload]
  refine (Decode.reads_bytes ?_).bind ?_
  · rw [List.append_nil]
    exact hlength
  · rw [h]
    exact .pure text

theorem reads_text {text : String} {bytes : Bytes} (h : encodeText text = .ok bytes) :
    Reads decodeText bytes text := by
  rw [encodeText] at h
  split at h
  case isFalse => cases h
  case isTrue hsize =>
    cases h
    exact reads_payload hsize (ModifiedUtf8.decode?_encode text)

theorem reads_body {c : Constant} {bytes : Bytes} (h : c.encodeBody = .ok bytes) :
    Reads (decodeBody c.tag) bytes c := by
  cases c with
  | utf8 text => exact (reads_text h).map _
  | integer value => cases h; exact (Decode.reads_word value).map _
  | float value => cases h; exact (Decode.reads_word value).map _
  | long value => cases h; exact (Decode.reads_word value).map _
  | double value => cases h; exact (Decode.reads_word value).map _
  | classRef name => cases h; exact (Decode.reads_word name).map _
  | stringRef text => cases h; exact (Decode.reads_word text).map _
  | nameAndType name descriptor =>
    cases h
    exact ((Decode.reads_word name).map _).bind ((Decode.reads_word descriptor).map _)

theorem encode_eq_ok_iff {c : Constant} {bytes : Bytes} : c.encode = .ok bytes ↔
    ∃ body, c.encodeBody = .ok body ∧ bytes = c.tag.toByte :: body := by
  rw [encode]
  cases c.encodeBody with
  | error fault => simp
  | ok body => simp [eq_comm]

theorem reads_tagged {tag : Tag} {body : Bytes} {c : Constant} (h : Reads (decodeBody tag) body c) :
    Reads decode (tag.toByte :: body) c := by
  rw [← List.singleton_append, ← Word.encode_byte]
  apply (Decode.reads_word tag.toByte).bind
  rw [Tag.ofByte?_toByte]
  exact h

theorem reads_encode {c : Constant} {bytes : Bytes} (h : c.encode = .ok bytes) :
    Reads decode bytes c := by
  obtain ⟨body, hbody, rfl⟩ := encode_eq_ok_iff.mp h
  exact reads_tagged (reads_body hbody)

end Constant

namespace Pool

variable {c : Constant} {cs : List Constant} {pool pool' : Pool} {count : UInt16}

theorem decodeOnto_of_lt {input rest : Bytes} {i : UInt16} (hlt : pool.next < count.toNat)
    (hread : Constant.decode input = .ok (c, rest)) (happend : append c pool = .ok i pool') :
    decodeOnto count pool input = decodeOnto count pool' rest := by
  rw [decodeOnto, dif_pos hlt]
  simp only [hread]
  split
  · next h =>
    rw [happend] at h
    cases h
  · next h =>
    rw [happend] at h
    cases h
    rfl

theorem decodeOnto_of_encode (done : List Constant) {encoded : List Bytes}
    (h : cs.mapM Constant.encode = .ok encoded)
    (hcount : 1 + slotsOf (done ++ cs) = count.toNat) (rest : Bytes) :
    decodeOnto count (ofConstants done) (encoded.flatten ++ rest) =
      .ok (ofConstants (done ++ cs), rest) := by
  have hle : count.toNat ≤ 65535 := Nat.le_of_lt_succ count.toNat_lt
  induction cs generalizing done encoded with
  | nil =>
    cases h
    rw [List.append_nil] at hcount ⊢
    have hnext := next_ofConstants (hcount ▸ hle)
    rw [decodeOnto, dif_neg (by omega)]
    rfl
  | cons c cs ih =>
    rw [List.mapM_cons] at h
    obtain ⟨bytes, hbytes, h⟩ := ok_of_bind h
    obtain ⟨more, hmore, h⟩ := ok_of_bind h
    cases h
    rw [slotsOf_append, slotsOf_cons] at hcount
    have hpos := c.slots_pos
    have hnext : (ofConstants done).next = 1 + slotsOf done := next_ofConstants (by omega)
    have hread := Constant.reads_encode hbytes (more.flatten ++ rest)
    rw [List.flatten_cons, List.append_assoc,
      decodeOnto_of_lt (by omega) hread (append_of_fits (by omega)), ← ofConstants_concat,
      ih _ hmore, List.append_assoc, List.singleton_append]
    rw [slotsOf_append, slotsOf_append, slotsOf_cons, slotsOf_nil]
    omega

theorem Built.encode_eq (h : pool.Built cs) : pool.encode = do
    let encoded ← cs.mapM Constant.encode
    return Word.encode (UInt16.ofNat (1 + slotsOf cs)) ++ encoded.flatten := by
  rw [encode, h.next_eq, ← h.map_snd_toList, List.mapM_map]
  rfl

/-- A pool that can be written is read back from its bytes, and no more is taken than these. -/
theorem Built.reads_encode (h : pool.Built cs) {bytes : Bytes} (hbytes : pool.encode = .ok bytes) :
    Reads decode bytes pool := by
  rw [h.encode_eq] at hbytes
  obtain ⟨encoded, hencoded, hbytes⟩ := ok_of_bind hbytes
  cases hbytes
  refine (Decode.reads_word (UInt16.ofNat (1 + slotsOf cs))).bind fun rest => ?_
  rw [h.1]
  exact decodeOnto_of_encode [] hencoded (toNat_ofNat_of_le h.2).symm rest

end Pool

end JvmAssembler
