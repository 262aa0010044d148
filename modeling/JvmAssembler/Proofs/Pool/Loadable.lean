import JvmAssembler.Proofs.Descriptor
import JvmAssembler.Proofs.Pool.Growth

/-!
# Loadable values in a pool

A loadable value is found again at the index that interning answers for it: following the constant
there leads back to the value. Two values therefore never share an index, and since a pool that has
a value answers its index at once, one value never has two.
-/

namespace JvmAssembler

def Loadable.value : Loadable → Value
  | .string text => .stringRef text
  | .classOf type => .classRef type.constantName
  | .integer value => .integer value
  | .float value => .float value
  | .long value => .long value
  | .double value => .double value

theorem Loadable.value_injective {d e : Loadable} (h : d.value = e.value) : d = e := by
  cases d with
  | classOf t =>
    cases e with
    | classOf u => rw [RefType.constantName_injective (Entry.classRef.inj h)]
    | _ => cases h
  | _ => cases e <;> simp_all [value]

namespace Pool

variable {c : Constant} {cs : List Constant} {pool pool' : Pool} {i : UInt16} {v : Value}

/-! ### Standing answers -/

/-- From this pool on the request is granted with this answer, and for nothing. -/
def Standing {α : Type} (act : PoolM α) (x : α) (pool : Pool) : Prop :=
  ∀ pool', Extends pool pool' → act pool' = .ok x pool'

section Standing

variable {α β : Type} {act : PoolM α} {next : α → PoolM β} {x : α} {y : β}

theorem Standing.mono (h : Standing act x pool) (hext : Extends pool pool') :
    Standing act x pool' := fun q hq => h q (hext.trans hq)

theorem Standing.bind (h : Standing act x pool) (hnext : Standing (next x) y pool) :
    Standing (act >>= next) y pool := by
  intro q hq
  rw [bind_of_ok (h q hq)]
  exact hnext q hq

theorem Standing.map (h : Standing act x pool) (f : α → β) : Standing (f <$> act) (f x) pool :=
  fun q hq => map_of_ok f (h q hq)

end Standing

theorem standing_intern (hi : pool.firstIndex[c]? = some i) : Standing (intern c) i pool :=
  fun _ hq => intern_of_some (hq.firstIndex hi)

/-- Interning answers the first index that the constant has from then on. -/
theorem Built.intern_ok (h : pool.Built cs) (hok : Pool.intern c pool = .ok i pool') :
    Extends pool pool' ∧ pool'.firstIndex[c]? = some i := by
  have hext := intern_extends c pool pool h.extends
  rw [outcome_of_ok hok] at hext
  refine ⟨hext, ?_⟩
  cases hfirst : pool.firstIndex[c]? with
  | some j =>
    rw [intern_of_some hfirst] at hok
    cases hok
    exact hfirst
  | none =>
    rw [intern_of_none hfirst, Pool.append] at hok
    split at hok
    · cases hok
      rw [Pool.add, Std.ExtHashMap.getElem?_insertIfNew]
      simp [Std.ExtHashMap.mem_iff_isSome_getElem?, hfirst]
    · cases hok

theorem Built.internUtf8_ok (h : pool.Built cs) {text : String} {r : Ref .utf8}
    (hok : internUtf8 text pool = .ok r pool') :
    Extends pool pool' ∧ pool'.firstIndex[(.utf8 text : Constant)]? = some r.index ∧
      pool'.utf8At r = .ok text := by
  obtain ⟨i, hi, rfl⟩ := exists_of_map_ok hok
  obtain ⟨hext, hfirst⟩ := h.intern_ok hi
  obtain ⟨ds, hds⟩ := hext.built
  refine ⟨hext, hfirst, ?_⟩
  rw [utf8At, hds.get_of_firstIndex hfirst]
  rfl

theorem Built.internBinaryName_ok (h : pool.Built cs) {name : BinaryName} {r : Ref .classRef}
    (hok : internBinaryName name pool = .ok r pool') :
    r.index ≠ 0 ∧ pool'.classNameAt r = .ok name.text := by
  obtain ⟨u, middle, hutf8, hclass⟩ := exists_of_bind_ok hok
  obtain ⟨i, hi, rfl⟩ := exists_of_map_ok hclass
  obtain ⟨hext, -, htext⟩ := h.internUtf8_ok hutf8
  obtain ⟨ds, hds⟩ := hext.built
  obtain ⟨hext', hfirst⟩ := hds.intern_ok hi
  obtain ⟨es, hes⟩ := hext'.built
  have hget := hes.get_of_firstIndex hfirst
  refine ⟨ne_zero_of_get hget, ?_⟩
  rw [classNameAt, hget]
  exact hext'.utf8At htext

theorem internBinaryName_empty (name : BinaryName) :
    internBinaryName name ∅ = .ok ⟨2⟩ (ofConstants [.utf8 name.text, .classRef ⟨1⟩]) := by
  have hname : internUtf8 name.text ∅ = .ok ⟨1⟩ (ofConstants [.utf8 name.text]) :=
    map_of_ok _ (built_empty.intern_new (by simp) (by simp [Entry.slots]))
  have hclass : internClass ⟨1⟩ (ofConstants [.utf8 name.text]) =
      .ok ⟨2⟩ (ofConstants [.utf8 name.text, .classRef ⟨1⟩]) :=
    map_of_ok _ (intern_ofConstants (by simp) (by simp [Entry.slots]))
  exact (bind_of_ok hname).trans hclass

/-! ### Following -/

def Resolves (pool : Pool) (i : UInt16) (v : Value) : Prop :=
  (pool.get i >>= pool.resolve) = .ok v

theorem Resolves.mono (h : pool.Resolves i v) (hext : Extends pool pool') : pool'.Resolves i v := by
  obtain ⟨c, hget, hv⟩ := ok_of_bind h
  rw [Resolves, hext.get hget]
  exact Entry.follow_mono (fun _ _ => hext.utf8At) hv

/-! ### Interning values -/

def internNamed (make : Ref .utf8 → Constant) (text : String) : PoolM UInt16 := do
  intern (make (← internUtf8 text))

theorem internNamed_of_utf8 {make : Ref .utf8 → Constant} {text : String}
    (h : intern (.utf8 text) pool = .ok i pool') :
    internNamed make text pool = intern (make ⟨i⟩) pool' :=
  bind_of_ok (map_of_ok Ref.mk h)

theorem internClassNamed_eq (name : String) :
    internClassNamed name = Ref.mk <$> internNamed .classRef name := by
  simp [internClassNamed, internClass, internNamed]

theorem internLoadable_string (text : String) :
    internLoadable (.string text) = internNamed .stringRef text := by
  simp [internLoadable, internString, internNamed]

theorem internLoadable_classOf (type : RefType) :
    internLoadable (.classOf type) = internNamed .classRef type.constantName := by
  simp [internLoadable, internRefType, internClassNamed, internClass, internNamed]

/-- What interning a value leaves behind. -/
structure Granted (act : PoolM UInt16) (v : Value) (pool : Pool) (i : UInt16) (pool' : Pool) :
    Prop where
  extends_pool : Extends pool pool'
  standing : Standing act i pool'
  resolves : pool'.Resolves i v

theorem Built.intern_granted (h : pool.Built cs) (hok : Pool.intern c pool = .ok i pool')
    (hv : pool'.resolve c = .ok v) : Granted (Pool.intern c) v pool i pool' := by
  obtain ⟨hext, hfirst⟩ := h.intern_ok hok
  obtain ⟨ds, hds⟩ := hext.built
  refine ⟨hext, standing_intern hfirst, ?_⟩
  rw [Resolves, hds.get_of_firstIndex hfirst]
  exact hv

theorem Built.internNamed_granted {make : Ref .utf8 → Constant} {value : String → Value}
    (hmake : ∀ (u : Ref .utf8) (q : Pool), q.resolve (make u) = value <$> q.utf8At u)
    (h : pool.Built cs) {text : String} (hok : internNamed make text pool = .ok i pool') :
    Granted (internNamed make text) (value text) pool i pool' := by
  obtain ⟨u, middle, hutf8, hok⟩ := exists_of_bind_ok hok
  obtain ⟨hext, hfirst, htext⟩ := h.internUtf8_ok hutf8
  obtain ⟨ds, hds⟩ := hext.built
  obtain ⟨hext', -⟩ := hds.intern_ok hok
  have hgranted := hds.intern_granted hok (v := value text)
    (by rw [hmake, hext'.utf8At htext]; rfl)
  refine ⟨hext.trans hext', ?_, hgranted.resolves⟩
  exact (((standing_intern hfirst).map Ref.mk).mono hext').bind hgranted.standing

theorem Built.internLoadable_granted (h : pool.Built cs) {d : Loadable}
    (hok : internLoadable d pool = .ok i pool') :
    Granted (internLoadable d) d.value pool i pool' := by
  cases d with
  | string text =>
    rw [internLoadable_string] at hok ⊢
    exact h.internNamed_granted (fun _ _ => rfl) hok
  | classOf type =>
    rw [internLoadable_classOf] at hok ⊢
    exact h.internNamed_granted (fun _ _ => rfl) hok
  | integer value => exact h.intern_granted hok rfl
  | float value => exact h.intern_granted hok rfl
  | long value => exact h.intern_granted hok rfl
  | double value => exact h.intern_granted hok rfl

/-- Two loadable values that are interned into a pool, with whatever requests between them, get the
same index if they are the same value and else do not, and each is found at its index. A value that
has been interned is granted again without adding anything. -/
theorem session_interns_loadable {start : Pool} (hstart : Origin start)
    (before between : List Request) {d e : Loadable} {i j : UInt16} {p q : Pool}
    (hd : internLoadable d (performAll perform before start).2 = .ok i p)
    (he : internLoadable e (performAll perform between p).2 = .ok j q) :
    (i = j ↔ d = e) ∧
      p.Resolves i d.value ∧ q.Resolves i d.value ∧ q.Resolves j e.value ∧
      internLoadable d (performAll perform between p).2 =
        .ok i (performAll perform between p).2 := by
  obtain ⟨cs, hcs⟩ := session_built hstart before
  have hfirst := hcs.internLoadable_granted hd
  have hbetween := performAll_extends between hfirst.extends_pool.right
  obtain ⟨ds, hds⟩ := hbetween.built
  have hsecond := hds.internLoadable_granted he
  have hagain := hfirst.standing _ hbetween
  have hfound := (hfirst.resolves.mono hbetween).mono hsecond.extends_pool
  refine ⟨⟨?_, ?_⟩, hfirst.resolves, hfound, hsecond.resolves, hagain⟩
  · -- Both values are found in the last pool, and there one index leads to one value.
    rintro rfl
    apply Loadable.value_injective
    exact Except.ok.inj (hfound.symm.trans hsecond.resolves)
  · rintro rfl
    rw [hagain] at he
    cases he
    rfl

/-- An array type and then a string that both need the same constant, of which a pool was read with
two copies. -/
theorem session_interns_array_and_string :
    let start := ofConstants [.utf8 "[I", .utf8 "[I"]
    let array : Loadable := .classOf (.baseArray .int 0)
    let p := ofConstants [.utf8 "[I", .utf8 "[I", .classRef ⟨1⟩]
    let q := ofConstants [.utf8 "[I", .utf8 "[I", .classRef ⟨1⟩, .classRef ⟨9⟩, .stringRef ⟨1⟩]
    Origin start ∧ internLoadable array start = .ok 3 p ∧
      internLoadable (.string "[I") (performAll perform [.classRef ⟨9⟩] p).2 = .ok 5 q ∧
      p.Resolves 3 (.classRef "[I") ∧ q.Resolves 3 (.classRef "[I") ∧
      q.Resolves 5 (.stringRef "[I") ∧ (((3 : UInt16) = 5) ↔ array = .string "[I") := by
  intro start array p q
  have hstart : start.Built [.utf8 "[I", .utf8 "[I"] := ⟨rfl, by decide⟩
  have hread : start.encode = .ok [0, 3, 1, 0, 2, 91, 73, 1, 0, 2, 91, 73] := by
    rw [hstart.encode_eq]
    rfl
  have horigin := hstart.origin hread
  have hp : p.Built [.utf8 "[I", .utf8 "[I", .classRef ⟨1⟩] := ⟨rfl, by decide⟩
  have hmiddle : (ofConstants [.utf8 "[I", .utf8 "[I", .classRef ⟨1⟩, .classRef ⟨9⟩]).Built _ :=
    ⟨rfl, by decide⟩
  have hutf8 : intern (.utf8 "[I") start = .ok 1 start :=
    intern_of_some (by rw [firstIndex_ofConstants (by decide)]; rfl)
  have harray : internLoadable array start = .ok 3 p := by
    rw [internLoadable_classOf]
    exact (internNamed_of_utf8 hutf8).trans (hstart.intern_new (by decide) (by decide))
  have hbetween : (performAll perform [.classRef ⟨9⟩] p).2 =
      ofConstants [.utf8 "[I", .utf8 "[I", .classRef ⟨1⟩, .classRef ⟨9⟩] := by
    have hclass : perform (.classRef ⟨9⟩) p = .ok 4 (ofConstants _) :=
      map_of_ok _ (map_of_ok _ (hp.intern_new (by decide) (by decide)))
    rw [performAll_cons, outcome_of_ok hclass]
    rfl
  have hutf8' : intern (.utf8 "[I") (performAll perform [.classRef ⟨9⟩] p).2 =
      .ok 1 (performAll perform [.classRef ⟨9⟩] p).2 :=
    intern_of_some (by rw [hbetween, firstIndex_ofConstants (by decide)]; rfl)
  have hstring : internLoadable (.string "[I") (performAll perform [.classRef ⟨9⟩] p).2 =
      .ok 5 q := by
    rw [internLoadable_string, internNamed_of_utf8 hutf8', hbetween]
    exact hmiddle.intern_new (by decide) (by decide)
  obtain ⟨hiff, hfound, hstill, hfound', -⟩ :=
    session_interns_loadable horigin [] [.classRef ⟨9⟩] harray hstring
  exact ⟨horigin, harray, hstring, hfound, hstill, hfound', hiff⟩

end Pool

end JvmAssembler
