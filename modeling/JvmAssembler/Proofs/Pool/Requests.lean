import JvmAssembler.Code.Table
import JvmAssembler.Pool.Codec
import JvmAssembler.Pool.Loadable
import JvmAssembler.Proofs.Pool.Spelling

/-!
# Requests to pools

What a pool can be asked to intern, the pools that one can start from, and what every sequence of
requests preserves. All requests come down to interning single constants, so it is enough to look at
that.
-/

namespace JvmAssembler

def Entry.refs {ρ : Type} : Entry ρ → List ρ
  | .classRef r | .stringRef r => [r]
  | .nameAndType name descriptor => [name, descriptor]
  | .utf8 _ | .integer _ | .float _ | .long _ | .double _ => []

namespace Pool

open Binary (Bytes)

/-- What a pool can be asked to intern. References need not lead anywhere. -/
inductive Request
  | utf8 (text : String)
  | classRef (name : Ref .utf8)
  | stringRef (text : Ref .utf8)
  | nameAndType (name descriptor : Ref .utf8)
  | binaryName (name : BinaryName)
  | refType (type : RefType)
  | loadable (value : Loadable)
  | localTable (table : List LocalRecord)

/-- The constant that is asked for with references of the caller's own. -/
def Request.given : Request → Option Constant
  | .classRef name => some (.classRef name)
  | .stringRef text => some (.stringRef text)
  | .nameAndType name descriptor => some (.nameAndType name descriptor)
  | .utf8 _ | .binaryName _ | .refType _ | .loadable _ | .localTable _ => none

/-- Interns it, and answers the index of what was asked for: of a table, that of its name. -/
def perform : Request → PoolM UInt16
  | .utf8 text => Ref.index <$> internUtf8 text
  | .classRef name => Ref.index <$> internClass name
  | .stringRef text => Ref.index <$> internString text
  | .nameAndType name descriptor => Ref.index <$> internNameAndType name descriptor
  | .binaryName name => Ref.index <$> internBinaryName name
  | .refType type => Ref.index <$> internRefType type
  | .loadable value => internLoadable value
  | .localTable table => (·.name.index) <$> localTableAttribute table

/-- The pools to start from: the one without constants, and those that are read from bytes. -/
inductive Origin : Pool → Prop
  | empty : Origin ∅
  | decoded {input rest : Bytes} {pool : Pool} (h : decode input = .ok (pool, rest)) : Origin pool

/-- What is preserved by interning what a pool finds the references of by itself: constants without any,
classes by name and string objects by text. -/
structure Kept (I : Pool → Prop) : Prop where
  plain : ∀ c : Constant, c.refs = [] → Preserves I (intern c)
  className : ∀ name, Preserves I (internClassNamed name)
  string : ∀ text, Preserves I (internLoadable (.string text))

theorem kept_of_intern {I : Pool → Prop} (hintern : ∀ c, Preserves I (intern c)) : Kept I where
  plain c _ := hintern c
  className _ := (hintern _).map.bind fun _ => (hintern _).map
  string _ := (hintern _).map.bind fun _ => (hintern _).map.bind fun _ => .pure _

/-- A request can break only what interning the constant breaks whose references it brings along. -/
theorem Kept.perform {I : Pool → Prop} (h : Kept I) (r : Request)
    (hgiven : ∀ c ∈ r.given, Preserves I (intern c)) : Preserves I (perform r) := by
  have hutf8 (text : String) : Preserves I (internUtf8 text) := (h.plain _ rfl).map
  cases r with
  | utf8 text => exact (hutf8 text).map
  | classRef name => exact (hgiven _ rfl).map.map
  | stringRef text => exact (hgiven _ rfl).map.map
  | nameAndType name descriptor => exact (hgiven _ rfl).map.map
  | binaryName name => exact (h.className _).map
  | refType type => exact (h.className _).map
  | localTable table => exact ((hutf8 _).bind fun _ => .pure _).map
  | loadable value =>
    cases value with
    | string text => exact h.string text
    | classOf type => exact (h.className _).bind fun _ => .pure _
    | integer value => exact h.plain _ rfl
    | float value => exact h.plain _ rfl
    | long value => exact h.plain _ rfl
    | double value => exact h.plain _ rfl

/-- What interning a constant preserves, every request preserves. -/
theorem perform_preserves {I : Pool → Prop} (hintern : ∀ c, Preserves I (intern c))
    (r : Request) : Preserves I (perform r) :=
  (kept_of_intern hintern).perform r fun c _ => hintern c

variable {c : Constant} {cs : List Constant} {pool : Pool}

/-- Interning adds the constant if the pool lacks it and has room for it, and else does nothing. -/
theorem Built.intern (h : pool.Built cs) (c : Constant) :
    (outcome (intern c) pool).2 = pool ∨
      c ∉ cs ∧ (outcome (intern c) pool).2.Built (cs ++ [c]) := by
  cases hfirst : pool.firstIndex[c]? with
  | some i =>
    rw [outcome_of_ok (intern_of_some hfirst)]
    exact .inl rfl
  | none =>
    have hnew := h.firstIndex_eq_none_iff.mp hfirst
    have heq : outcome (Pool.intern c) pool = outcome (Pool.append c) pool := by
      rw [outcome, outcome, intern_of_none hfirst]
    rw [heq]
    rcases h.append c with ⟨e, herror⟩ | ⟨i, pool', hok, hbuilt⟩
    · rw [outcome_of_error herror]
      exact .inl rfl
    · rw [outcome_of_ok hok]
      exact .inr ⟨hnew, hbuilt⟩

theorem intern_preserves_built (c : Constant) :
    Preserves (fun pool => ∃ cs, Built pool cs) (intern c) := by
  intro pool hpool
  obtain ⟨cs, h⟩ := hpool
  rcases h.intern c with hsame | ⟨-, hbuilt⟩
  · rw [hsame]
    exact ⟨cs, h⟩
  · exact ⟨cs ++ [c], hbuilt⟩

theorem intern_preserves_distinct (c : Constant) :
    Preserves (fun pool => ∃ cs, Built pool cs ∧ cs.Nodup) (intern c) := by
  intro pool hpool
  obtain ⟨cs, h, hnd⟩ := hpool
  rcases h.intern c with hsame | ⟨hnew, hbuilt⟩
  · rw [hsame]
    exact ⟨cs, h, hnd⟩
  · have hall : (c :: cs).Nodup := List.nodup_cons.mpr ⟨hnew, hnd⟩
    exact ⟨cs ++ [c], hbuilt, (List.perm_append_singleton c cs).nodup_iff.mpr hall⟩

theorem Origin.built (h : Origin pool) : ∃ cs, pool.Built cs := by
  cases h with
  | empty => exact ⟨[], built_empty⟩
  | decoded h =>
    obtain ⟨cs, _, _, _, hbuilt, -⟩ := spelled_of_decode h
    exact ⟨cs, hbuilt⟩

/-- A pool that can be written is one that can be read. -/
theorem Built.origin (h : pool.Built cs) {bytes : Bytes} (hbytes : pool.encode = .ok bytes) :
    Origin pool :=
  .decoded (h.reads_encode hbytes [])

theorem Built.origin_of_encodes (h : pool.Built cs) (hcs : ∀ c ∈ cs, ∃ bytes, c.encode = .ok bytes) :
    Origin pool := by
  obtain ⟨encoded, hencoded⟩ := exists_mapM_eq_ok_iff.mpr hcs
  have hbytes : pool.encode =
      .ok (Binary.Word.encode (UInt16.ofNat (1 + slotsOf cs)) ++ encoded.flatten) := by
    rw [h.encode_eq, hencoded]
    rfl
  exact h.origin hbytes

theorem session_built (h : Origin pool) (requests : List Request) :
    ∃ cs, (performAll perform requests pool).2.Built cs :=
  performAll_preserves (P := fun pool => ∃ cs, Built pool cs)
    (fun r => perform_preserves intern_preserves_built r) requests h.built

theorem session_distinct (requests : List Request) :
    ∃ cs, (performAll perform requests ∅).2.Built cs ∧ cs.Nodup :=
  performAll_preserves (P := fun pool => ∃ cs, Built pool cs ∧ cs.Nodup)
    (fun r => perform_preserves intern_preserves_distinct r) requests
    ⟨[], built_empty, List.nodup_nil⟩

/-! ### What every pool keeps -/

/-- Constants stand one after the other from index 1 on, all indices fit into 16 bits, and the table of
first indices has exactly the constants of the pool, each with the least of its indices. -/
structure Laid (pool : Pool) : Prop where
  head : ∀ p, pool.constants.toList.head? = some p → p.1 = 1
  step : ∀ before p q after, pool.constants.toList = before ++ p :: q :: after →
    q.1 = p.1 + p.2.slots
  next_eq : pool.next = 1 + (pool.constants.toList.map fun p => p.2.slots).sum
  next_le : pool.next ≤ 65535
  toNat_index : ∀ p ∈ pool.constants.toList, (UInt16.ofNat p.1).toNat = p.1
  toNat_next : (UInt16.ofNat pool.next).toNat = pool.next
  mem_iff : ∀ c, c ∈ pool.firstIndex ↔ ∃ n, (n, c) ∈ pool.constants.toList
  first_iff : ∀ (c : Constant) (i : UInt16), pool.firstIndex[c]? = some i ↔
    (i.toNat, c) ∈ pool.constants.toList ∧
      ∀ n, (n, c) ∈ pool.constants.toList → i.toNat ≤ n

theorem Built.toNat_index (h : pool.Built cs) {p : Nat × Constant} (hp : p ∈ placedFrom 1 cs) :
    (UInt16.ofNat p.1).toNat = p.1 := by
  have hbounds := (bounds_of_mem_placedFrom hp).2
  have hle := h.2
  exact toNat_ofNat_of_le (by omega)

theorem Built.first_iff (h : pool.Built cs) (c : Constant) (i : UInt16) :
    pool.firstIndex[c]? = some i ↔
      (i.toNat, c) ∈ placedFrom 1 cs ∧ ∀ n, (n, c) ∈ placedFrom 1 cs → i.toNat ≤ n := by
  rw [h.1, firstIndex_ofConstants h.2, Option.map_eq_some_iff]
  constructor
  · intro hexists
    obtain ⟨p, hp, rfl⟩ := hexists
    obtain ⟨hmem, rfl, hleast⟩ := least_of_find? hp
    rw [h.toNat_index hmem]
    exact ⟨hmem, fun n hn => hleast (n, p.2) hn rfl⟩
  · intro hexists
    obtain ⟨hmem, hleast⟩ := hexists
    obtain ⟨p, hp⟩ := exists_find? hmem
    obtain ⟨hmem', rfl, hleast'⟩ := least_of_find? hp
    have hoffset : p.1 = i.toNat :=
      Nat.le_antisymm (hleast' (i.toNat, p.2) hmem rfl) (hleast p.1 hmem')
    exact ⟨p, hp, by rw [hoffset, UInt16.ofNat_toNat]⟩

theorem Built.laid (h : pool.Built cs) : pool.Laid := by
  constructor
  case head =>
    intro p hp
    rw [h.toList_eq] at hp
    cases cs with
    | nil => cases hp
    | cons c cs =>
      cases hp
      rfl
  case step =>
    intro before p q after heq
    rw [h.toList_eq] at heq
    exact placedFrom_step heq
  case next_eq => rw [h.next_eq, h.toList_eq, sum_slots_placedFrom]
  case next_le => exact h.next_eq ▸ h.2
  case toNat_index =>
    intro p hp
    rw [h.toList_eq] at hp
    exact h.toNat_index hp
  case toNat_next => exact toNat_ofNat_of_le h.next_le
  case mem_iff =>
    intro c
    rw [h.mem_firstIndex_iff, h.toList_eq, mem_iff_mem_placedFrom 1]
  case first_iff =>
    intro c i
    rw [h.toList_eq]
    exact h.first_iff c i

/-- Whatever has been asked of a pool, whether it was granted or not, its constants are laid out and
indexed. If the pool started without constants, no two of them are equal. -/
theorem session_laid {start : Pool} (hstart : Origin start) (requests : List Request) :
    (performAll perform requests start).2.Laid ∧
      (start = ∅ →
        ((performAll perform requests start).2.constants.toList.map Prod.snd).Nodup) := by
  obtain ⟨cs, h⟩ := session_built hstart requests
  refine ⟨h.laid, ?_⟩
  intro heq
  subst heq
  obtain ⟨ds, hds, hnd⟩ := session_distinct requests
  rw [hds.toList_eq, map_snd_placedFrom]
  exact hnd

theorem session_laid_twice :
    Origin ∅ ∧
      (performAll perform [.loadable (.integer 7), .utf8 "a", .loadable (.integer 7)] ∅).2.Laid ∧
      ((performAll perform [.loadable (.integer 7), .utf8 "a",
        .loadable (.integer 7)] ∅).2.constants.toList.map Prod.snd).Nodup :=
  ⟨.empty, (session_laid .empty _).1, (session_laid .empty _).2 rfl⟩

/-- A pool that can be written is read back from its bytes, whatever comes after them, and none of that
is read. It is the same pool, so nobody can tell the two apart. -/
theorem session_reads_back {start : Pool} (hstart : Origin start) (requests : List Request)
    {bytes : Bytes} (hbytes : (performAll perform requests start).2.encode = .ok bytes)
    (rest : Bytes) :
    decode (bytes ++ rest) = .ok ((performAll perform requests start).2, rest) := by
  obtain ⟨cs, h⟩ := session_built hstart requests
  exact h.reads_encode hbytes rest

/-- A pool that was read with the same constant twice, and then got another two. -/
theorem session_reads_back_duplicates :
    let start := ofConstants [.integer 7, .integer 7]
    let requests : List Request := [.loadable (.integer 7), .classRef ⟨9⟩, .loadable (.long (-1))]
    let bytes : Bytes := [0, 6, 3, 0, 0, 0, 7, 3, 0, 0, 0, 7, 7, 0, 9,
      5, 255, 255, 255, 255, 255, 255, 255, 255]
    Origin start ∧ (performAll perform requests start).2.encode = .ok bytes ∧
      decode (bytes ++ [1, 2]) = .ok ((performAll perform requests start).2, [1, 2]) := by
  intro start requests bytes
  have hstart : start.Built [.integer 7, .integer 7] := ⟨rfl, by decide⟩
  have hread : start.encode = .ok [0, 3, 3, 0, 0, 0, 7, 3, 0, 0, 0, 7] := by
    rw [hstart.encode_eq]
    rfl
  have horigin := hstart.origin hread
  have hinteger : perform (.loadable (.integer 7)) start = .ok 1 start :=
    intern_of_some (by rw [firstIndex_ofConstants (by decide)]; rfl)
  have hclass : perform (.classRef ⟨9⟩) start =
      .ok 3 (ofConstants [.integer 7, .integer 7, .classRef ⟨9⟩]) :=
    map_of_ok _ (map_of_ok _ (hstart.intern_new (by decide) (by decide)))
  have hmiddle : (ofConstants [.integer 7, .integer 7, .classRef ⟨9⟩]).Built _ := ⟨rfl, by decide⟩
  have hlong : perform (.loadable (.long (-1))) (ofConstants [.integer 7, .integer 7, .classRef ⟨9⟩]) =
      .ok 4 (ofConstants [.integer 7, .integer 7, .classRef ⟨9⟩, .long (-1)]) :=
    hmiddle.intern_new (by decide) (by decide)
  have hend : (performAll perform requests start).2 =
      ofConstants [.integer 7, .integer 7, .classRef ⟨9⟩, .long (-1)] := by
    rw [performAll_cons, outcome_of_ok hinteger, performAll_cons, outcome_of_ok hclass,
      performAll_cons, outcome_of_ok hlong]
    rfl
  have hbuilt : (performAll perform requests start).2.Built _ := ⟨hend, by decide⟩
  have hbytes : (performAll perform requests start).2.encode = .ok bytes := by
    rw [hbuilt.encode_eq]
    rfl
  exact ⟨horigin, hbytes, session_reads_back horigin requests hbytes [1, 2]⟩

end Pool

end JvmAssembler
