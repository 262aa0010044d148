import JvmAssembler.Proofs.Room

/-!
# Reading attributes

An attribute says how long it is, and the table inside of it how many records it has. The first of these
numbers has 32 bits and the second has 16, and neither is checked to be large enough when it is written.
All records of a table of local variables are written in any case, and are all there for a reader who
knows their number. One who takes it from the front of the table stops early if it has wrapped, and can
tell from what is left over.
-/

namespace JvmAssembler

open Binary (Bytes Word ofBigEndian ofBigEndian_encode encodeCounted)

/-! ### Reading sequences -/

namespace Decode

variable {α : Type} {read : Decode α} {encode : α → Bytes}

def times (read : Decode α) : Nat → Decode (List α)
  | 0 => return []
  | n + 1 => do
    let x ← read
    let xs ← times read n
    return x :: xs

def counted (read : Decode α) : Decode (List α) := do
  let count : UInt16 ← word
  times read count.toNat

/-- The value that is read from all of the input, if it can be and nothing is left over. -/
def whole? (read : Decode α) (input : Bytes) : Option α :=
  match read input with
  | .ok (x, []) => some x
  | .ok (_, _ :: _) | .error _ => none

theorem whole?_of_ok {input : Bytes} {x : α} (h : read input = .ok (x, [])) :
    whole? read input = some x := by
  rw [whole?, h]

theorem whole?_of_rest {input rest : Bytes} {x : α} (h : read input = .ok (x, rest))
    (hrest : rest ≠ []) : whole? read input = none := by
  obtain ⟨b, bytes, rfl⟩ := List.exists_cons_of_ne_nil hrest
  rw [whole?, h]

theorem reads_times (h : ∀ x, Reads read (encode x) x) (xs : List α) :
    Reads (times read xs.length) (xs.flatMap encode) xs := by
  induction xs with
  | nil => exact .pure []
  | cons x xs ih =>
    rw [List.flatMap_cons, ← List.append_nil (xs.flatMap encode)]
    exact (h x).bind (ih.bind (.pure (x :: xs)))

/-- As many elements are read as their number modulo 65536, and the bytes of the others are left. -/
theorem counted_encodeCounted (h : ∀ x, Reads read (encode x) x) (xs : List α) :
    counted read (encodeCounted encode xs) =
      .ok (xs.take (xs.length % 65536), (xs.drop (xs.length % 65536)).flatMap encode) := by
  have hcount : (UInt16.ofNat xs.length).toNat = (xs.take (xs.length % 65536)).length := by
    rw [UInt16.toNat_ofNat', List.length_take]
    omega
  have hsplit : xs.flatMap encode =
      (xs.take (xs.length % 65536)).flatMap encode ++
        (xs.drop (xs.length % 65536)).flatMap encode := by
    rw [← List.flatMap_append, List.take_append_drop]
  rw [encodeCounted, counted, bind_of_ok (reads_word _ _), hcount, hsplit]
  exact reads_times h _ _

/-- All elements are read back just if the number in front of them has not wrapped. If it has, some
elements are left over. -/
theorem whole?_encodeCounted (h : ∀ x, Reads read (encode x) x) (hencode : ∀ x, encode x ≠ [])
    (xs : List α) : whole? (counted read) (encodeCounted encode xs) =
      if xs.length ≤ 65535 then some xs else none := by
  have hcounted := counted_encodeCounted h xs
  split
  next hle =>
    rw [Nat.mod_eq_of_lt (Nat.lt_succ_of_le hle), List.take_length, List.drop_length] at hcounted
    exact whole?_of_ok hcounted
  next hgt =>
    -- The first element that is not read leaves bytes behind.
    refine whole?_of_rest hcounted fun hnil => ?_
    rw [List.flatMap_eq_nil_iff] at hnil
    have hlt : xs.length % 65536 < xs.length := by omega
    rw [List.drop_eq_getElem_cons hlt] at hnil
    exact hencode _ (hnil _ List.mem_cons_self)

end Decode

/-! ### Records and attributes -/

def LocalRecord.decode : Decode LocalRecord := do
  let start ← Decode.word
  let length ← Decode.word
  let name ← Decode.word
  let descriptor ← Decode.word
  let slot ← Decode.word
  return { start, length, name, descriptor, slot }

theorem LocalRecord.reads_encode (r : LocalRecord) : Decode.Reads decode r.encode r := by
  rw [encode, List.append_assoc, List.append_assoc, List.append_assoc,
    ← List.append_nil (Word.encode r.slot)]
  exact (Decode.reads_word r.start).bind ((Decode.reads_word r.length).bind
    ((Decode.reads_word r.name).bind ((Decode.reads_word r.descriptor).bind
      ((Decode.reads_word r.slot).bind (.pure r)))))

theorem LocalRecord.encode_ne_nil (r : LocalRecord) : r.encode ≠ [] := by
  intro hnil
  have hlength := r.length_encode
  rw [hnil] at hlength
  cases hlength

/-- Reads a name and a length of 32 bits, and then as many bytes as that says. -/
def Attribute.decode : Decode Attribute := do
  let name ← Decode.word
  let length : UInt32 ← Decode.word
  let info ← Decode.bytes length.toNat
  return ⟨name, info⟩

namespace Attribute

variable {a : Attribute} {table : List LocalRecord}

/-- What can be read of a table inside of its attribute. -/
structure Tabulates (a : Attribute) (table : List LocalRecord) : Prop where
  length_info : a.info.length = 2 + 10 * table.length
  count_eq : ofBigEndian (a.info.take 2) = table.length % 65536
  records_eq : Decode.times LocalRecord.decode table.length (a.info.drop 2) = .ok (table, [])
  whole?_iff : Decode.whole? (Decode.counted LocalRecord.decode) a.info = some table ↔
    table.length ≤ 65535
  whole?_of_wrapped : 65535 < table.length →
    Decode.whole? (Decode.counted LocalRecord.decode) a.info = none

/-- An attribute is written as the index of its name, the number of bytes inside and these bytes, and a
reader who goes by that number stops where they end. -/
structure Framed (a : Attribute) : Prop where
  encode_eq : ∃ name length, a.encode = name ++ length ++ a.info ∧
    name.length = 2 ∧ ofBigEndian name = a.name.index.toNat ∧
    length.length = 4 ∧ ofBigEndian length = a.info.length
  reads : Decode.Reads Attribute.decode a.encode a

theorem tabulates_of_info (hinfo : a.info = encodeCounted LocalRecord.encode table) :
    a.Tabulates table := by
  have hcount : (Word.encode (UInt16.ofNat table.length)).length = 2 := Word.length_encode _
  have hwhole := Decode.whole?_encodeCounted LocalRecord.reads_encode LocalRecord.encode_ne_nil table
  rw [← hinfo] at hwhole
  constructor
  case length_info => rw [hinfo, Binary.length_encodeCounted LocalRecord.length_encode]
  case count_eq =>
    rw [hinfo, encodeCounted, List.take_left' hcount, ofBigEndian_encode]
    exact UInt16.toNat_ofNat'
  case records_eq =>
    rw [hinfo, encodeCounted, List.drop_left' hcount, ← List.append_nil (table.flatMap _)]
    exact Decode.reads_times LocalRecord.reads_encode table []
  case whole?_iff =>
    rw [hwhole]
    split <;> simp_all
  case whole?_of_wrapped =>
    intro hwrapped
    rw [hwhole, if_neg (Nat.not_le.mpr hwrapped)]

theorem framed_of_lt (hlt : a.info.length < UInt32.size) : a.Framed := by
  have hlength : (UInt32.ofNat a.info.length).toNat = a.info.length :=
    UInt32.toNat_ofNat_of_lt' hlt
  constructor
  case encode_eq =>
    refine ⟨Word.encode a.name, Word.encode (UInt32.ofNat a.info.length), rfl,
      Word.length_encode _, ofBigEndian_encode _, Word.length_encode _, ?_⟩
    rw [ofBigEndian_encode]
    exact hlength
  case reads =>
    have hinfo : Decode.Reads
        (do return ⟨a.name, ← Decode.bytes (UInt32.ofNat a.info.length).toNat⟩) (a.info ++ []) a :=
      (Decode.reads_bytes hlength.symm).bind (.pure a)
    rw [List.append_nil] at hinfo
    rw [encode, List.append_assoc]
    exact (Decode.reads_word a.name).bind ((Decode.reads_word _).bind hinfo)

example : Attribute.encode ⟨⟨9⟩, encodeCounted LocalRecord.encode [⟨2, 0x0104, ⟨1⟩, ⟨2⟩, 3⟩]⟩ =
    [0, 9, 0, 0, 0, 12, 0, 1, 0, 2, 1, 4, 0, 1, 0, 2, 0, 3] := by decide

end Attribute

namespace Emission

/-- Where a pool has the name of the attribute or room for it, a table of any size gets an attribute. All
records are in there as they were, and a reader who takes their number from the first two bytes finds
just the table if it has at most 65535 of them, and is left with bytes if it has more. The attribute as a
whole is read back from its bytes as long as the number of those inside fits into 32 bits. -/
theorem session_reads_attribute {start : Pool} (hstart : Pool.Origin start) (notices : List Notice)
    (tasks : List Task) (table : List LocalRecord) :
    let pool := (performAll perform tasks ⟨start, notices⟩).2.pool
    pool.Has (.utf8 "LocalVariableTable") ∨ pool.next + 1 ≤ 65535 →
      ∃ a pool', localTableAttribute table pool = .ok a pool' ∧
        pool'.utf8At a.name = .ok "LocalVariableTable" ∧ a.Tabulates table ∧
        (a.info.length < UInt32.size → a.Framed) := by
  intro pool hroom
  obtain ⟨cs, hcs⟩ := hstart.built
  obtain ⟨ds, hds⟩ := (performAll_extends tasks (e := ⟨start, notices⟩) hcs.extends).built
  obtain ⟨i, hi⟩ := (hds.intern_ends (.utf8 localTableName)).ok_iff.mpr hroom
  have hname : Pool.internUtf8 localTableName pool = .ok ⟨i⟩ _ := map_of_ok Ref.mk (ok_of_outcome hi)
  obtain ⟨-, -, htext⟩ := hds.internUtf8_ok hname
  exact ⟨⟨⟨i⟩, encodeCounted LocalRecord.encode table⟩, _, bind_of_ok hname, htext,
    Attribute.tabulates_of_info rfl, Attribute.framed_of_lt⟩

/-- A table of 65536 records says that it has none. All of them are there. -/
theorem session_reads_attribute_of_wrapped :
    let r : LocalRecord := ⟨2, 0x0104, ⟨1⟩, ⟨2⟩, 3⟩
    let table := List.replicate 65536 r
    Pool.Origin ∅ ∧ (∅ : Pool).next + 1 ≤ 65535 ∧
      ∃ a pool', localTableAttribute table ∅ = .ok a pool' ∧
        pool'.utf8At a.name = .ok "LocalVariableTable" ∧
        a.info.length = 655362 ∧ ofBigEndian (a.info.take 2) = 0 ∧
        Decode.times LocalRecord.decode 65536 (a.info.drop 2) = .ok (table, []) ∧
        Decode.whole? (Decode.counted LocalRecord.decode) a.info = none ∧ a.Framed := by
  intro r table
  have hlength : table.length = 65536 := List.length_replicate
  have hroom : (∅ : Pool).next + 1 ≤ 65535 := by decide
  obtain ⟨a, pool', ha, htext, htable, hframed⟩ :=
    session_reads_attribute .empty [] [] table (.inr hroom)
  have hinfo := htable.length_info
  have hcount := htable.count_eq
  have hrecords := htable.records_eq
  have hwhole := htable.whole?_of_wrapped
  rw [hlength] at hinfo hcount hrecords hwhole
  have hframed := hframed (by rw [hinfo]; decide)
  exact ⟨.empty, hroom, a, pool', ha, htext, hinfo, hcount, hrecords, hwhole (by decide), hframed⟩

end Emission

end JvmAssembler
