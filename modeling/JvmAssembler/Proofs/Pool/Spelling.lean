import JvmAssembler.Proofs.Pool.RoundTrip
import JvmAssembler.Proofs.Text.Groups

/-!
# What a pool can be read from

A pool is read from a count and then from bytes for each of its constants. Only the count and the
bytes of strings are ever more than one thing, so what has been read can be written again, and takes
no more room than before.
-/

namespace JvmAssembler

open Binary (Bytes Word)
open Decode (Reads Takes)
open Text

theorem Tag.toByte_of_ofByte? {byte : UInt8} {tag : Tag} (h : Tag.ofByte? byte = some tag) :
    tag.toByte = byte := by
  rw [ofByte?.eq_def] at h
  split at h <;> cases h <;> rfl

namespace Constant

variable {c : Constant} {piece : Bytes}

/-! ### The bytes of a constant -/

def textPiece (payload : Bytes) : Bytes :=
  Tag.utf8.toByte :: (Word.encode (UInt16.ofNat payload.length) ++ payload)

theorem textPiece_injective : Function.Injective textPiece := by
  intro payload other h
  refine (List.append_inj (List.cons.inj h).2 ?_).2
  rw [Word.length_encode, Word.length_encode]

theorem length_textPiece (payload : Bytes) : (textPiece payload).length = payload.length + 3 := by
  rw [textPiece, List.length_cons, List.length_append, Word.length_encode]
  change 2 + payload.length + 1 = _
  omega

theorem encode_text {text : String} (h : (ModifiedUtf8.encode text).length ≤ 65535) :
    encode (.utf8 text) = .ok (textPiece (ModifiedUtf8.encode text)) := by
  rw [encode_eq_ok_iff]
  exact ⟨_, if_pos h, rfl⟩

theorem condenses_textPiece {short long : Bytes} (h : Condenses short long) :
    Condenses (textPiece short) (textPiece long) := by
  constructor
  · rw [length_textPiece, length_textPiece]
    exact Nat.add_le_add_right h.length_le 3
  · intro hlength
    rw [length_textPiece, length_textPiece] at hlength
    rw [h.eq_of_length_eq (Nat.add_right_cancel hlength)]

/-- The bytes spell the constant: a string in any way that decodes to it, anything else in one. -/
inductive Spelled : Bytes → Constant → Prop
  | text {payload : Bytes} {text : String} (hsize : payload.length ≤ 65535)
    (htext : ModifiedUtf8.decode? payload = some text) : Spelled (textPiece payload) (.utf8 text)
  | plain {piece : Bytes} {c : Constant} (hc : c.tag ≠ .utf8) (hpiece : c.encode = .ok piece) :
    Spelled piece c

theorem Spelled.reads (h : Spelled piece c) : Reads decode piece c := by
  cases h with
  | text hsize htext => exact reads_tagged ((reads_payload hsize htext).map _)
  | plain hc hpiece => exact reads_encode hpiece

theorem takes_payload :
    Takes decodeText fun bytes text => Spelled (Tag.utf8.toByte :: bytes) (.utf8 text) := by
  refine Decode.takes_word.bind fun bytes size hbytes => ?_
  refine (Decode.takes_bytes _).bind fun more payload hmore => ?_
  obtain ⟨rfl, hsize⟩ := hmore
  cases htext : ModifiedUtf8.decode? more with
  | none => exact .throw _
  | some text =>
    refine .pure ?_
    have hsize' : size = UInt16.ofNat more.length := by rw [hsize, UInt16.ofNat_toNat]
    rw [List.append_nil, hbytes, hsize']
    exact .text (hsize ▸ Nat.le_of_lt_succ size.toNat_lt) htext

theorem takes_single {α : Type} [Word α] [Binary.FullWord α] {make : α → Constant} {tag : Tag}
    (htag : tag ≠ .utf8) (hmake : ∀ x, (make x).tag = tag)
    (hencode : ∀ x, (make x).encode = .ok (tag.toByte :: Word.encode x)) :
    Takes (make <$> Decode.word) fun bytes c => Spelled (tag.toByte :: bytes) c := by
  refine (Decode.takes_word.mono ?_).map
  rintro bytes x rfl
  exact .plain (hmake x ▸ htag) (hencode x)

theorem takes_body (tag : Tag) :
    Takes (decodeBody tag) fun bytes c => Spelled (tag.toByte :: bytes) c := by
  cases tag with
  | utf8 => exact takes_payload.map
  | integer => exact takes_single (by decide) (fun _ => rfl) fun _ => rfl
  | float => exact takes_single (by decide) (fun _ => rfl) fun _ => rfl
  | long => exact takes_single (by decide) (fun _ => rfl) fun _ => rfl
  | double => exact takes_single (by decide) (fun _ => rfl) fun _ => rfl
  | classRef => exact takes_single (by decide) (fun _ => rfl) fun _ => rfl
  | stringRef => exact takes_single (by decide) (fun _ => rfl) fun _ => rfl
  | nameAndType =>
    have hname : Takes (Entry.nameAndType <$> (Decode.word : Decode (Ref .utf8)))
        fun bytes make => ∃ name, bytes = Word.encode name ∧ make = Entry.nameAndType name :=
      (Decode.takes_word.mono fun _ name hbytes => ⟨name, hbytes, rfl⟩).map
    refine hname.bind fun bytes make hmake => ?_
    obtain ⟨name, rfl, rfl⟩ := hmake
    refine (Decode.takes_word.mono ?_).map
    rintro more descriptor rfl
    exact .plain (by simp [Entry.tag]) rfl

theorem takes_decode : Takes decode Spelled := by
  refine Decode.takes_word.bind fun bytes byte hbytes => ?_
  cases htag : Tag.ofByte? byte with
  | none => exact .throw _
  | some tag =>
    rw [hbytes, Word.encode_byte, ← Tag.toByte_of_ofByte? htag]
    exact takes_body tag

/-- Reading a constant takes bytes that spell it, and all that do are taken for it. -/
theorem decode_eq_ok_iff {input rest : Bytes} :
    decode input = .ok (c, rest) ↔ ∃ piece, Spelled piece c ∧ input = piece ++ rest := by
  constructor
  · intro h
    obtain ⟨piece, hinput, hpiece⟩ := takes_decode input c rest h
    exact ⟨piece, hpiece, hinput⟩
  · rintro ⟨piece, hpiece, rfl⟩
    exact hpiece.reads rest

/-- What has been read can be written, as what it was read from or as something shorter. It is the
same only for numbers and references, and for strings whose bytes are the ones that are written. -/
theorem Spelled.encode (h : Spelled piece c) : ∃ output, c.encode = .ok output ∧
    Condenses output piece ∧
    (output = piece ↔ ∀ payload, piece = textPiece payload → ModifiedUtf8.Canonical payload) := by
  cases h with
  | @text payload text hsize htext =>
    have hcondenses := ModifiedUtf8.encode_condenses htext
    refine ⟨textPiece (ModifiedUtf8.encode text), encode_text ?_, condenses_textPiece hcondenses,
      ?_⟩
    · exact Nat.le_trans hcondenses.length_le hsize
    · rw [textPiece_injective.eq_iff, ← ModifiedUtf8.canonical_iff htext]
      constructor
      · rintro hcanonical other heq
        rwa [← textPiece_injective heq]
      · exact fun hall => hall payload rfl
  | plain hc hpiece =>
    refine ⟨piece, hpiece, .refl piece, fun _ payload heq => ?_, fun _ => rfl⟩
    obtain ⟨body, -, rfl⟩ := encode_eq_ok_iff.mp hpiece
    have htag := congrArg Tag.ofByte? (List.cons.inj heq).1
    rw [Tag.ofByte?_toByte, Tag.ofByte?_toByte] at htag
    exact absurd (Option.some.inj htag) hc

end Constant

namespace Pool

variable {c : Constant} {cs : List Constant} {pool pool' : Pool} {count : UInt16}
  {input rest : Bytes} {pieces : List Bytes}

/-! ### The bytes of a pool -/

/-- The bytes are a count and then pieces that spell the constants of the pool one after the other.
-/
structure Spelled (pool : Pool) (count : UInt16) (pieces : List Bytes) (bytes : Bytes) : Prop where
  bytes_eq : bytes = Word.encode count ++ pieces.flatten
  pieces_spelled : List.Forall₂ Constant.Spelled pieces (pool.constants.toList.map Prod.snd)

theorem Built.pieces_spelled (h : pool.Built cs) {bytes : Bytes}
    (hspelled : pool.Spelled count pieces bytes) : List.Forall₂ Constant.Spelled pieces cs := by
  have hpieces := hspelled.pieces_spelled
  rwa [h.toList_eq, map_snd_placedFrom] at hpieces

theorem Built.decodeOnto {limit : UInt16} (h : pool.Built cs)
    (hok : decodeOnto limit pool input = .ok (pool', rest)) :
    ∃ ds pieces, pool'.Built (cs ++ ds) ∧ input = pieces.flatten ++ rest ∧
      List.Forall₂ Constant.Spelled pieces ds := by
  fun_induction Pool.decodeOnto limit pool input generalizing cs with
  | case1 pool input hlt fault hfault => cases hok
  | case2 pool input hlt c bytes hread fault pool' hfault => cases hok
  | case3 pool input hlt c bytes hread i pool₁ happend hdec ih =>
    rcases h.append c with ⟨e, herror⟩ | ⟨j, pool₂, happend', hbuilt⟩
    · rw [herror] at happend
      cases happend
    · rw [happend'] at happend
      cases happend
      obtain ⟨piece, hpiece, rfl⟩ := Constant.decode_eq_ok_iff.mp hread
      obtain ⟨ds, pieces, hds, rfl, hpieces⟩ := ih hbuilt hok
      exact ⟨c :: ds, piece :: pieces, List.append_assoc cs [c] ds ▸ hds,
        (List.append_assoc _ _ _).symm, .cons hpiece hpieces⟩
  | case4 pool input hend =>
    cases hok
    exact ⟨[], [], (List.append_nil cs).symm ▸ h, rfl, .nil⟩

theorem decode_eq (input : Bytes) : decode input =
    match Binary.Word.decode? (α := UInt16) input with
    | none => .error .endOfInput
    | some (count, rest) => Pool.decodeOnto count ∅ rest := by
  change (Decode.word (α := UInt16) input >>= fun read => Pool.decodeOnto read.1 ∅ read.2) = _
  rw [Decode.word, Decode.ofOption]
  cases Binary.Word.decode? (α := UInt16) input with
  | none => rfl
  | some read => rfl

theorem spelled_of_decode (h : decode input = .ok (pool, rest)) :
    ∃ cs count pieces bytes, pool.Built cs ∧ pool.Spelled count pieces bytes ∧
      input = bytes ++ rest := by
  rw [decode_eq] at h
  split at h
  · cases h
  next count more hcount =>
    obtain ⟨cs, pieces, hbuilt, rfl, hpieces⟩ := built_empty.decodeOnto h
    refine ⟨cs, count, pieces, _, hbuilt, ⟨rfl, ?_⟩, ?_⟩
    · rwa [hbuilt.toList_eq, map_snd_placedFrom]
    · rw [List.append_assoc]
      exact Word.eq_append_of_decode? hcount

theorem encode_pieces (h : List.Forall₂ Constant.Spelled pieces cs) :
    ∃ outputs, cs.mapM Constant.encode = .ok outputs ∧ List.Forall₂ Condenses outputs pieces ∧
      (outputs = pieces ↔
        ∀ payload, Constant.textPiece payload ∈ pieces → ModifiedUtf8.Canonical payload) := by
  induction h with
  | nil => exact ⟨[], rfl, .nil, by simp⟩
  | @cons piece c pieces cs hpiece _ ih =>
    obtain ⟨output, houtput, hcondenses, hiff⟩ := hpiece.encode
    obtain ⟨outputs, houtputs, hall, hiffs⟩ := ih
    refine ⟨output :: outputs, ?_, .cons hcondenses hall, ?_⟩
    · rw [List.mapM_cons, houtput]
      change (cs.mapM Constant.encode >>= fun outputs => Except.ok (output :: outputs)) = _
      rw [houtputs]
      rfl
    · rw [List.cons.injEq, hiff, hiffs]
      simp only [List.mem_cons, or_imp, forall_and, eq_comm]

/-- Whatever a pool can be read from, it can be written in no more bytes. -/
theorem Built.encode_spelled (h : pool.Built cs) {bytes : Bytes}
    (hspelled : pool.Spelled count pieces bytes) :
    ∃ output, pool.encode = .ok output ∧ output.length ≤ bytes.length ∧
      (output = bytes ↔ count.toNat = pool.next ∧
        ∀ payload, Constant.textPiece payload ∈ pieces → ModifiedUtf8.Canonical payload) := by
  obtain ⟨outputs, houtputs, hcondenses, hiff⟩ := encode_pieces (h.pieces_spelled hspelled)
  have hnext : (UInt16.ofNat pool.next).toNat = pool.next := toNat_ofNat_of_le h.next_le
  have hprefix : (Word.encode (UInt16.ofNat pool.next)).length = (Word.encode count).length := by
    rw [Word.length_encode, Word.length_encode]
  refine ⟨Word.encode (UInt16.ofNat pool.next) ++ outputs.flatten, ?_, ?_, ?_⟩
  · rw [h.encode_eq, houtputs, h.next_eq]
    rfl
  · rw [hspelled.bytes_eq, List.length_append, List.length_append, hprefix]
    exact Nat.add_le_add_left (Condenses.flatten hcondenses).length_le _
  · rw [hspelled.bytes_eq, ← hiff]
    constructor
    · intro heq
      -- No piece is shorter than what is written for it, so equal sums mean equal pieces.
      obtain ⟨hcount, hflatten⟩ := List.append_inj heq hprefix
      refine ⟨?_, Condenses.eq_of_length_flatten_eq hcondenses (congrArg List.length hflatten)⟩
      rw [← Word.encode_injective hcount, hnext]
    · rintro ⟨hcount, rfl⟩
      rw [← hcount, UInt16.ofNat_toNat]

/-- A pool that has been read can be written, in no more bytes than it was read from, and is read
back from these with nothing left over. They are the same bytes if the count was the next index of
the pool and every string was spelled as it is written. -/
theorem decode_normalizes (h : decode input = .ok (pool, rest)) :
    ∃ bytes output, input = bytes ++ rest ∧ pool.encode = .ok output ∧
      output.length ≤ bytes.length ∧ decode output = .ok (pool, []) ∧
      (∃ count pieces, pool.Spelled count pieces bytes) ∧
      ∀ count pieces, pool.Spelled count pieces bytes →
        (output = bytes ↔ count.toNat = pool.next ∧
          ∀ payload, Constant.textPiece payload ∈ pieces → ModifiedUtf8.Canonical payload) := by
  obtain ⟨cs, count, pieces, bytes, hbuilt, hspelled, hinput⟩ := spelled_of_decode h
  obtain ⟨output, houtput, hlength, -⟩ := hbuilt.encode_spelled hspelled
  have hread : decode output = .ok (pool, []) := by
    rw [← List.append_nil output]
    exact hbuilt.reads_encode houtput []
  refine ⟨bytes, output, hinput, houtput, hlength, hread, ⟨count, pieces, hspelled⟩, ?_⟩
  intro count' pieces' hspelled'
  obtain ⟨output', houtput', -, hiff⟩ := hbuilt.encode_spelled hspelled'
  rw [houtput] at houtput'
  cases houtput'
  exact hiff

/-- A string in a group longer than it needs, and then a constant whose second index is not counted.
-/
theorem decode_normalizes_overlong :
    let pieces : List Bytes := [Constant.textPiece [193, 129], [5, 0, 0, 0, 0, 0, 0, 0, 9]]
    let bytes : Bytes := [0, 3, 1, 0, 2, 193, 129, 5, 0, 0, 0, 0, 0, 0, 0, 9]
    let output : Bytes := [0, 4, 1, 0, 1, 65, 5, 0, 0, 0, 0, 0, 0, 0, 9]
    let pool := ofConstants [.utf8 "A", .long 9]
    decode (bytes ++ [7]) = .ok (pool, [7]) ∧ pool.Spelled 3 pieces bytes ∧
      pool.encode = .ok output ∧ output.length ≤ bytes.length ∧ decode output = .ok (pool, []) ∧
      (output = bytes ↔ (3 : UInt16).toNat = pool.next ∧
        ∀ payload, Constant.textPiece payload ∈ pieces → ModifiedUtf8.Canonical payload) := by
  intro pieces bytes output pool
  have hread : decode (bytes ++ [7]) = .ok (pool, [7]) := by
    have hcount : Word.decode? (bytes ++ [7]) =
        some ((3 : UInt16), [1, 0, 2, 193, 129, 5, 0, 0, 0, 0, 0, 0, 0, 9, 7]) := by rfl
    have htext : Constant.decode [1, 0, 2, 193, 129, 5, 0, 0, 0, 0, 0, 0, 0, 9, 7] =
        .ok (.utf8 "A", [5, 0, 0, 0, 0, 0, 0, 0, 9, 7]) := by rfl
    have hlong : Constant.decode [5, 0, 0, 0, 0, 0, 0, 0, 9, 7] = .ok (.long 9, [7]) := by rfl
    have hfirst : append (.utf8 "A") ∅ = .ok 1 (ofConstants [.utf8 "A"]) :=
      append_of_fits (by decide)
    have hsecond : append (.long 9) (ofConstants [.utf8 "A"]) = .ok 2 pool :=
      append_of_fits (by decide)
    rw [decode_eq, hcount]
    dsimp only
    rw [decodeOnto_of_lt (by decide) htext hfirst, decodeOnto_of_lt (by decide) hlong hsecond,
      Pool.decodeOnto, dif_neg (by decide)]
  have hspelled : pool.Spelled 3 pieces bytes := by
    refine ⟨rfl, ?_⟩
    rw [toList_ofConstants (by decide), map_snd_placedFrom]
    exact .cons (.text (by decide) rfl) (.cons (.plain (by decide) rfl) .nil)
  have houtput : pool.encode = .ok output := by
    have hbuilt : pool.Built [.utf8 "A", .long 9] := ⟨rfl, by decide⟩
    rw [hbuilt.encode_eq]
    rfl
  obtain ⟨taken, written, htaken, hwritten, hlength, hdecode, -, hiff⟩ := decode_normalizes hread
  obtain rfl := List.append_cancel_right htaken
  rw [houtput] at hwritten
  cases hwritten
  exact ⟨hread, hspelled, houtput, hlength, hdecode, hiff 3 pieces hspelled⟩

end Pool

end JvmAssembler
