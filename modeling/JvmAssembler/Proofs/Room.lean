import JvmAssembler.Proofs.Repetition

/-!
# Room in pools

Whether a constant can be interned is settled by the pool as it is: either it is there, or its slots
have to end at the last index. A constant of two slots may thus be refused where one of a single slot
still fits. Where it is refused, nothing has happened. Classes by name and strings by text take two
constants, and where only the first of them has room, this is all that is left behind, for others to
use.
-/

namespace JvmAssembler

namespace Pool

variable {c : Constant} {cs : List Constant} {pool pool' : Pool} {make : Ref .utf8 → Constant}
  {text : String} {fault : Fault}

def Has (pool : Pool) (c : Constant) : Prop := ∃ n, (n, c) ∈ pool.constants.toList

theorem Built.has_iff (h : pool.Built cs) : pool.Has c ↔ c ∈ cs := by
  rw [Has, h.toList_eq, mem_iff_mem_placedFrom 1]

/-! ### Single constants -/

/-- The fault is that the pool lacks the constant and that it does not fit, at the index that it would
have. -/
structure Overflows (c : Constant) (pool : Pool) (fault : Fault) : Prop where
  lacks : ¬pool.Has c
  full : 65535 < pool.next + c.slots
  fault_eq : ∃ i, fault = .poolOverflow c i ∧ i.toNat = pool.next

/-- How interning a constant ends. -/
structure InternEnds (c : Constant) (pool : Pool) (answer : Except Fault UInt16) (pool' : Pool) :
    Prop where
  ok_iff : (∃ i, answer = .ok i) ↔ pool.Has c ∨ pool.next + c.slots ≤ 65535
  found : ∀ n, (n, c) ∈ pool.constants.toList →
    pool' = pool ∧ ∃ i, answer = .ok i ∧ pool.get i = .ok c ∧ i.toNat ≤ n
  added : ∀ i, answer = .ok i → ¬pool.Has c →
    i.toNat = pool.next ∧ pool'.constants.toList = pool.constants.toList ++ [(pool.next, c)]
  refused : ∀ fault, answer = .error fault → pool' = pool ∧ Overflows c pool fault

theorem Built.intern_ends (h : pool.Built cs) (c : Constant) :
    InternEnds c pool (outcome (Pool.intern c) pool).1 (outcome (Pool.intern c) pool).2 := by
  cases hfirst : pool.firstIndex[c]? with
  | some i =>
    obtain ⟨hmem, hleast⟩ := (h.first_iff c i).mp hfirst
    rw [← h.toList_eq] at hmem hleast
    have hhas : pool.Has c := ⟨_, hmem⟩
    rw [outcome_of_ok (intern_of_some hfirst)]
    constructor
    case ok_iff => exact iff_of_true ⟨i, rfl⟩ (.inl hhas)
    case found => exact fun n hn => ⟨rfl, i, rfl, h.get_of_firstIndex hfirst, hleast n hn⟩
    case added => exact fun _ _ hlacks => absurd hhas hlacks
    case refused => rintro fault ⟨⟩
  | none =>
    have hlacks : ¬pool.Has c := mt h.has_iff.mp (h.firstIndex_eq_none_iff.mp hfirst)
    by_cases hfits : pool.next + c.slots ≤ 65535
    · rw [outcome_of_ok ((intern_of_none hfirst).trans (append_of_fits hfits))]
      constructor
      case ok_iff => exact iff_of_true ⟨_, rfl⟩ (.inr hfits)
      case found => exact fun n hn => absurd ⟨n, hn⟩ hlacks
      case added =>
        rintro i ⟨⟩ -
        exact ⟨h.laid.toNat_next, toList_add hfits⟩
      case refused => rintro fault ⟨⟩
    · have hfull := Nat.lt_of_not_le hfits
      rw [outcome_of_error ((intern_of_none hfirst).trans (append_of_full h.next_le hfull))]
      constructor
      case ok_iff => exact iff_of_false (by simp) fun hor => hor.elim hlacks hfits
      case found => exact fun n hn => absurd ⟨n, hn⟩ hlacks
      case added => rintro i ⟨⟩
      case refused =>
        rintro fault ⟨⟩
        exact ⟨rfl, hlacks, hfull, _, rfl, h.laid.toNat_next⟩

/-! ### Constants that refer to a text -/

/-- The text has been added to the pool, and nothing else. From then on, whatever is emitted, it is
found there, and what refers to it takes a single constant. -/
structure LeavesText (text : String) (pool pool' : Pool) : Prop where
  lacks : ¬pool.Has (.utf8 text)
  toList_eq : pool'.constants.toList = pool.constants.toList ++ [(pool.next, .utf8 text)]
  reused : ∃ i : UInt16, i.toNat = pool.next ∧ ∀ (tasks : List Emission.Task) (notices : List Notice),
    let later := (performAll Emission.perform tasks ⟨pool', notices⟩).2.pool
    internUtf8 text later = .ok ⟨i⟩ later ∧
      ∀ make, internNamed make text later = intern (make ⟨i⟩) later

/-- How interning a text and a constant that refers to it fails. -/
structure NamedFails (make : Ref .utf8 → Constant) (text : String) (pool : Pool) (fault : Fault)
    (pool' : Pool) : Prop where
  overflows : ∃ c, (c = .utf8 text ∨ ∃ ref, c = make ref) ∧ Overflows c pool' fault
  residue : pool' = pool ∨ LeavesText text pool pool'

theorem Built.leavesText (h : pool.Built cs) {i : UInt16}
    (hok : Pool.intern (.utf8 text) pool = .ok i pool') (hlacks : ¬pool.Has (.utf8 text)) :
    LeavesText text pool pool' := by
  have hends := h.intern_ends (.utf8 text)
  rw [outcome_of_ok hok] at hends
  obtain ⟨hi, htoList⟩ := hends.added i rfl hlacks
  obtain ⟨hext, hfirst⟩ := h.intern_ok hok
  refine ⟨hlacks, htoList, i, hi, fun tasks notices => ?_⟩
  have hlater : pool'.Extends (performAll Emission.perform tasks ⟨pool', notices⟩).2.pool :=
    Emission.performAll_extends tasks hext.right
  have hagain := intern_of_some (hlater.firstIndex hfirst)
  exact ⟨map_of_ok _ hagain, fun make => internNamed_of_utf8 hagain⟩

theorem Built.internNamed_fails (h : pool.Built cs)
    (herror : internNamed make text pool = .error fault pool') :
    NamedFails make text pool fault pool' := by
  have hends := h.intern_ends (.utf8 text)
  cases hutf8 : Pool.intern (.utf8 text) pool with
  | error fault' middle =>
    rw [outcome_of_error hutf8] at hends
    obtain ⟨hsame, hoverflows⟩ := hends.refused fault' rfl
    have hfail : internNamed make text pool = .error fault' middle :=
      bind_of_error (map_of_error Ref.mk hutf8)
    rw [hfail] at herror
    cases herror
    cases hsame
    exact ⟨⟨_, .inl rfl, hoverflows⟩, .inl rfl⟩
  | ok i middle =>
    rw [outcome_of_ok hutf8] at hends
    obtain ⟨hext, -⟩ := h.intern_ok hutf8
    obtain ⟨ds, hds⟩ := hext.built
    have hends' := hds.intern_ends (make ⟨i⟩)
    rw [internNamed_of_utf8 hutf8] at herror
    rw [outcome_of_error herror] at hends'
    obtain ⟨hsame, hoverflows⟩ := hends'.refused fault rfl
    cases hsame
    refine ⟨⟨_, .inr ⟨_, rfl⟩, hoverflows⟩, ?_⟩
    by_cases hhas : pool.Has (.utf8 text)
    · obtain ⟨n, hn⟩ := hhas
      exact .inl (hends.found n hn).1
    · exact .inr (h.leavesText hutf8 hhas)

/-! ### Requests -/

/-- What a request comes down to: one constant, or a text and a constant that refers to it. -/
inductive Demand
  | single (c : Constant)
  | named (make : Ref .utf8 → Constant) (text : String)

def Demand.intern : Demand → PoolM UInt16
  | .single c => Pool.intern c
  | .named make text => internNamed make text

def demandOfLoadable : Loadable → Demand
  | .string text => .named .stringRef text
  | .classOf type => .named .classRef type.constantName
  | .integer value => .single (.integer value)
  | .float value => .single (.float value)
  | .long value => .single (.long value)
  | .double value => .single (.double value)

def Request.demand : Request → Demand
  | .utf8 text => .single (.utf8 text)
  | .classRef name => .single (.classRef name)
  | .stringRef text => .single (.stringRef text)
  | .nameAndType name descriptor => .single (.nameAndType name descriptor)
  | .binaryName name => .named .classRef name.text
  | .refType type => .named .classRef type.constantName
  | .loadable value => demandOfLoadable value
  | .localTable _ => .single (.utf8 localTableName)

theorem internLoadable_eq (value : Loadable) :
    internLoadable value = (demandOfLoadable value).intern := by
  cases value with
  | string text => exact internLoadable_string text
  | classOf type => exact internLoadable_classOf type
  | _ => rfl

theorem perform_eq (r : Request) : perform r = r.demand.intern := by
  cases r with
  | utf8 text => simp [perform, Request.demand, Demand.intern, internUtf8]
  | classRef name => simp [perform, Request.demand, Demand.intern, internClass]
  | stringRef text => simp [perform, Request.demand, Demand.intern, internString]
  | nameAndType name descriptor => simp [perform, Request.demand, Demand.intern, internNameAndType]
  | binaryName name =>
    simp [perform, Request.demand, Demand.intern, internBinaryName, internClassNamed_eq]
  | refType type => simp [perform, Request.demand, Demand.intern, internRefType, internClassNamed_eq]
  | loadable value => exact internLoadable_eq value
  | localTable table => simp [perform, Request.demand, Demand.intern, localTableAttribute, internUtf8]

/-- How interning what is demanded ends. -/
def Demand.Ends : Demand → Pool → Except Fault UInt16 → Pool → Prop
  | .single c, pool, answer, pool' => InternEnds c pool answer pool'
  | .named make text, pool, answer, pool' =>
    ∀ fault, answer = .error fault → NamedFails make text pool fault pool'

theorem Built.demand_ends (h : pool.Built cs) (d : Demand) :
    d.Ends pool (outcome d.intern pool).1 (outcome d.intern pool).2 := by
  cases d with
  | single c => exact h.intern_ends c
  | named make text =>
    intro fault hfault
    cases hend : internNamed make text pool with
    | ok i pool' =>
      rw [Demand.intern, outcome_of_ok hend] at hfault
      cases hfault
    | error fault' pool' =>
      rw [Demand.intern, outcome_of_error hend] at hfault ⊢
      cases hfault
      exact h.internNamed_fails hend

/-! ### A pool with room for one more constant -/

def crowded : Pool := ofConstants (List.replicate 65533 (.integer 7))

theorem built_crowded : crowded.Built (List.replicate 65533 (.integer 7)) := by
  refine ⟨rfl, ?_⟩
  rw [slotsOf_replicate]
  decide

theorem next_crowded : crowded.next = 65534 := by
  rw [built_crowded.next_eq, slotsOf_replicate]
  rfl

theorem next_add_crowded : (crowded.add (.utf8 "a")).next = 65535 := by
  have hfits : crowded.next + (.utf8 "a" : Constant).slots ≤ 65535 := by rw [next_crowded]; decide
  rw [next_add hfits, next_crowded]
  rfl

theorem origin_crowded : Origin crowded := by
  refine built_crowded.origin_of_encodes fun c hc => ?_
  rw [List.eq_of_mem_replicate hc]
  exact ⟨_, rfl⟩

theorem firstIndex_crowded {c : Constant} (hc : c ≠ .integer 7) : crowded.firstIndex[c]? = none := by
  rw [built_crowded.firstIndex_eq_none_iff, List.mem_replicate]
  exact fun h => hc h.2

theorem has_crowded : crowded.Has (.integer 7) := by
  rw [built_crowded.has_iff, List.mem_replicate]
  exact ⟨Nat.succ_ne_zero 65532, rfl⟩

theorem internNamed_crowded : internNamed .stringRef "a" crowded =
    .error (.poolOverflow (.stringRef ⟨65534⟩) 65535) (crowded.add (.utf8 "a")) := by
  have htext : intern (.utf8 "a") crowded = .ok 65534 (crowded.add (.utf8 "a")) := by
    rw [intern_of_none (firstIndex_crowded (by decide)),
      append_of_fits (by rw [next_crowded]; decide), next_crowded]
    rfl
  have hstring : (crowded.add (.utf8 "a")).firstIndex[(.stringRef ⟨65534⟩ : Constant)]? = none := by
    rw [add, Std.ExtHashMap.getElem?_insertIfNew, if_neg (by simp)]
    exact firstIndex_crowded (by decide)
  rw [internNamed_of_utf8 htext, intern_of_none hstring,
    append_of_full (by rw [next_add_crowded]) (by rw [next_add_crowded]; decide), next_add_crowded]
  rfl

end Pool

namespace Emission

open Pool

/-- Whatever has been emitted into a pool, a request for one constant answers where that is, if it is
there. If not, the constant gets the next index, unless it does not fit, which is the fault, and then
nothing is changed. A request for a constant that refers to a text can leave the text behind when it
fails, and nothing else. -/
theorem session_interns_or_overflows {start : Pool} (hstart : Pool.Origin start) (tasks : List Task)
    (notices : List Notice) (r : Pool.Request) :
    let pool := (performAll perform tasks ⟨start, notices⟩).2.pool
    r.demand.Ends pool (outcome (Pool.perform r) pool).1 (outcome (Pool.perform r) pool).2 := by
  intro pool
  obtain ⟨cs, hcs⟩ := hstart.built
  have hext : start.Extends pool := performAll_extends tasks hcs.extends
  obtain ⟨ds, hds⟩ := hext.built
  rw [Pool.perform_eq]
  exact hds.demand_ends r.demand

/-- In a pool with room for one more constant, an integer that is there is found, a `long` is refused
without a trace, and a string leaves its text behind. -/
theorem session_interns_or_overflows_crowded :
    Origin crowded ∧ crowded.next = 65534 ∧
      (∃ i, (outcome (Pool.perform (.loadable (.integer 7))) crowded).1 = .ok i ∧
        crowded.get i = .ok (.integer 7)) ∧
      (∃ fault, Pool.perform (.loadable (.long 7)) crowded = .error fault crowded ∧
        Overflows (.long 7) crowded fault) ∧
      ∃ pool', Pool.perform (.loadable (.string "a")) crowded =
          .error (.poolOverflow (.stringRef ⟨65534⟩) 65535) pool' ∧ LeavesText "a" crowded pool' := by
  have hends (r : Pool.Request) : r.demand.Ends crowded (outcome (Pool.perform r) crowded).1
      (outcome (Pool.perform r) crowded).2 := by
    simpa only [performAll] using session_interns_or_overflows origin_crowded [] [] r
  refine ⟨origin_crowded, next_crowded, ?_, ?_, ?_⟩
  · have hinteger := hends (.loadable (.integer 7))
    obtain ⟨n, hn⟩ := has_crowded
    obtain ⟨-, i, hok, hget, -⟩ := InternEnds.found hinteger n hn
    exact ⟨i, hok, hget⟩
  · have hlong := hends (.loadable (.long 7))
    have herror : Pool.perform (.loadable (.long 7)) crowded =
        .error (.poolOverflow (.long 7) 65534) crowded := by
      refine (intern_of_none (firstIndex_crowded (by decide))).trans ?_
      rw [append_of_full (by rw [next_crowded]; decide) (by rw [next_crowded]; decide), next_crowded]
      rfl
    rw [outcome_of_error herror] at hlong
    exact ⟨_, herror, (InternEnds.refused hlong _ rfl).2⟩
  · have hstring := hends (.loadable (.string "a"))
    have herror : Pool.perform (.loadable (.string "a")) crowded = _ :=
      (congrFun (internLoadable_string "a") crowded).trans internNamed_crowded
    rw [outcome_of_error herror] at hstring
    refine ⟨_, herror, (hstring _ rfl).residue.resolve_left fun hsame => ?_⟩
    have hnext := congrArg Pool.next hsame
    rw [next_add_crowded, next_crowded] at hnext
    exact absurd hnext (by decide)

end Emission

end JvmAssembler
