import JvmAssembler.Proofs.Pool.Spelling

/-!
# Input that ends too early

What a reader has taken off an input it needs, all of it: with anything else behind these bytes it reads
the same value and leaves the rest alone, and without the last of them it runs out of input. Words
and counted bytes are read so, since they are looked at only when they are there as a whole, and every
reader that is put together from such readers is of that kind again, however it chooses the next one by
what it has read so far. Pools are read in this way: whether a tag is known, whether a text is well-formed
and whether a constant fits is only asked of bytes that have arrived.
-/

namespace JvmAssembler

open Binary (Bytes Word)

namespace Decode

variable {α β : Type} {read : Decode α} {next : α → Decode β} {bytes more : Bytes} {x : α} {y : β}

/-- The reader takes these bytes for this value whatever comes after them, and where the input ends inside
them it reports just that. -/
structure Needs (read : Decode α) (bytes : Bytes) (x : α) : Prop where
  reads : Reads read bytes x
  starves : ∀ front lost, bytes = front ++ lost → lost ≠ [] → read front = .error .endOfInput

theorem Needs.pure (x : α) : Needs (Pure.pure x) [] x where
  reads := .pure x
  starves _ _ heq hlost := absurd (List.append_eq_nil_iff.mp heq.symm).2 hlost

theorem Needs.bind (h : Needs read bytes x) (hnext : Needs (next x) more y) :
    Needs (read >>= next) (bytes ++ more) y where
  reads := h.reads.bind hnext.reads
  starves front lost heq hlost := by
    -- The input ends in what the second reader needs, or else in what the first one does.
    rcases List.append_eq_append_iff.mp heq with ⟨front', rfl, hmore⟩ | ⟨lost', hbytes, rfl⟩
    · rw [bind_of_ok (h.reads front')]
      exact hnext.starves front' lost hmore hlost
    · by_cases hwhole : lost' = []
      · subst hwhole
        rw [List.append_nil] at hbytes
        subst hbytes
        rw [← List.append_nil bytes, bind_of_ok (h.reads [])]
        exact hnext.starves [] more rfl hlost
      · exact bind_of_error (h.starves front lost' hbytes hwhole)

/-- The reader needs all that it takes. -/
def Frugal (read : Decode α) : Prop := Takes read (Needs read)

theorem Frugal.pure (x : α) : Frugal (Pure.pure x) := Takes.pure (.pure x)

theorem Frugal.throw (fault : Fault) : Frugal (throw fault : Decode α) := Takes.throw fault

theorem Frugal.bind (h : Frugal read) (hnext : ∀ x, Frugal (next x)) : Frugal (read >>= next) :=
  Takes.bind h fun _ x hbytes => (hnext x).mono fun _ _ hmore => hbytes.bind hmore

theorem Frugal.map (f : α → β) (h : Frugal read) : Frugal (f <$> read) := by
  rw [map_eq_pure_bind]
  exact h.bind fun x => .pure (f x)

theorem length_lt_of_append {front lost : Bytes} (heq : bytes = front ++ lost) (hlost : lost ≠ []) :
    front.length < bytes.length := by
  have hpos := List.length_pos_of_ne_nil hlost
  rw [heq, List.length_append]
  omega

theorem frugal_word [Word α] [Binary.LawfulWord α] [Binary.FullWord α] :
    Frugal (word : Decode α) := by
  refine takes_word.mono fun bytes x hbytes => ⟨hbytes ▸ reads_word x, fun front lost heq hlost => ?_⟩
  have hlt := length_lt_of_append heq hlost
  rw [hbytes, Word.length_encode] at hlt
  rw [word, ofOption, Word.decode?, Binary.splitFirst?_of_lt hlt]
  rfl

theorem frugal_bytes (n : Nat) : Frugal (Decode.bytes n) := by
  refine (takes_bytes n).mono fun bytes front h => ?_
  obtain ⟨rfl, hlength⟩ := h
  refine ⟨reads_bytes hlength, fun front lost heq hlost => ?_⟩
  have hlt := length_lt_of_append heq hlost
  rw [Decode.bytes, ofOption, Binary.splitFirst?_of_lt (hlength ▸ hlt)]

end Decode

namespace Constant

open Decode (Frugal)

theorem frugal_text : Frugal decodeText := by
  refine Decode.frugal_word.bind fun size => (Decode.frugal_bytes _).bind fun bytes => ?_
  cases Text.ModifiedUtf8.decode? bytes with
  | none => exact .throw _
  | some text => exact .pure text

theorem frugal_body (tag : Tag) : Frugal (decodeBody tag) := by
  cases tag with
  | utf8 => exact frugal_text.map _
  | integer => exact Decode.frugal_word.map _
  | float => exact Decode.frugal_word.map _
  | long => exact Decode.frugal_word.map _
  | double => exact Decode.frugal_word.map _
  | classRef => exact Decode.frugal_word.map _
  | stringRef => exact Decode.frugal_word.map _
  | nameAndType => exact (Decode.frugal_word.map _).bind fun make => Decode.frugal_word.map make

theorem frugal_decode : Frugal decode := by
  refine Decode.frugal_word.bind fun byte => ?_
  cases Tag.ofByte? byte with
  | none => exact .throw _
  | some tag => exact frugal_body tag

end Constant

namespace Pool

open Decode (Frugal)

variable {count : UInt16} {pool : Pool} {input rest : Bytes}

/-- The reader of what is left of a pool once a constant of it has been read. -/
def decodeAfter (count : UInt16) (pool : Pool) (c : Constant) : Decode Pool :=
  match append c pool with
  | .error fault _ => throw fault
  | .ok _ pool' => decodeOnto count pool'

theorem decodeOnto_eq_bind (hlt : pool.next < count.toNat) :
    decodeOnto count pool = Constant.decode >>= decodeAfter count pool := by
  funext input
  rw [decodeOnto, dif_pos hlt]
  cases hread : Constant.decode input with
  | error fault => rw [Decode.bind_of_error hread]
  | ok r =>
    rw [Decode.bind_of_ok hread]
    dsimp only
    split
    next happend => rw [decodeAfter, happend]; rfl
    next happend => rw [decodeAfter, happend]

theorem frugal_decodeOnto (count : UInt16) (pool : Pool) : Frugal (decodeOnto count pool) := by
  by_cases hlt : pool.next < count.toNat
  · rw [decodeOnto_eq_bind hlt]
    refine Constant.frugal_decode.bind fun c => ?_
    rw [decodeAfter]
    cases happend : append c pool with
    | error fault _ => exact .throw fault
    | ok i pool' =>
      have hfewer := next_lt_of_append hlt happend
      exact frugal_decodeOnto count pool'
  · have hdone : decodeOnto count pool = (Pure.pure pool : Decode Pool) := by
      funext input
      rw [decodeOnto, dif_neg hlt]
      rfl
    rw [hdone]
    exact .pure pool
termination_by count.toNat - pool.next

/-- A pool is read from bytes at the front of the input that tell it alone: whatever comes after them, the
same pool is read and all of that is left. Where the input ends inside them, nothing but its end is
found wrong. -/
theorem decode_needs_taken (h : decode input = .ok (pool, rest)) :
    ∃ taken, input = taken ++ rest ∧ (∀ more, decode (taken ++ more) = .ok (pool, more)) ∧
      ∀ front lost, taken = front ++ lost → lost ≠ [] → decode front = .error .endOfInput := by
  have hfrugal : Frugal decode := Decode.frugal_word.bind fun count => frugal_decodeOnto _ _
  obtain ⟨taken, hinput, hneeds⟩ := hfrugal input pool rest h
  exact ⟨taken, hinput, hneeds.reads, hneeds.starves⟩

/-- A text that is cut between the two bytes of its only character, of which the first alone is malformed. -/
theorem decode_needs_taken_of_text :
    let bytes : Bytes := [0, 2, 1, 0, 2, 193, 129]
    let pool := ofConstants [.utf8 "A"]
    decode (bytes ++ [7]) = .ok (pool, [7]) ∧ decode (bytes ++ [8, 9]) = .ok (pool, [8, 9]) ∧
      decode [0, 2, 1, 0, 2, 193] = .error .endOfInput := by
  intro bytes pool
  have hread : decode (bytes ++ [7]) = .ok (pool, [7]) := by
    have hcount : Word.decode? (bytes ++ [7]) = some ((2 : UInt16), [1, 0, 2, 193, 129, 7]) := by rfl
    have htext : Constant.decode [1, 0, 2, 193, 129, 7] = .ok (.utf8 "A", [7]) := by rfl
    have hfirst : append (.utf8 "A") ∅ = .ok 1 pool := append_of_fits (by decide)
    rw [decode_eq, hcount]
    dsimp only
    rw [decodeOnto_of_lt (by decide) htext hfirst, decodeOnto, dif_neg (by decide)]
  obtain ⟨taken, hinput, hmore, hcut⟩ := decode_needs_taken hread
  obtain rfl : bytes = taken := List.append_cancel_right hinput
  exact ⟨hread, hmore [8, 9], hcut [0, 2, 1, 0, 2, 193] [129] rfl (by simp)⟩

end Pool

end JvmAssembler
