import JvmAssembler.Proofs.Code.Roll
import Mathlib.Order.Bounds.Basic

/-!
# The slots that local variables need

The slot of a variable is checked when it is added and when it is moved, but the variable may be given
another type, and with it another width, at any time. As no type takes more than two slots, the last of
them stays close enough to the bound on the first for the number of slots to fit into 16 bits, whatever
has been done with the method before.
-/

namespace JvmAssembler

/-! ### Variables -/

theorem FieldType.slots_le_two (t : FieldType) : t.slots ≤ 2 := by
  cases t with
  | base type => cases type <;> decide
  | ref type => exact Nat.le_succ 1

theorem le_of_checkSlot {slot : Int} {n : UInt16} (h : checkSlot slot = .ok n) :
    n.toNat ≤ maxLocalSlot := by
  rw [checkSlot] at h
  split at h
  next hrange =>
    cases h
    have hle : slot.toNat ≤ maxLocalSlot := Int.toNat_le.mpr hrange.2
    have hlt : slot.toNat < UInt16.size := Nat.lt_of_le_of_lt hle (by decide)
    rwa [UInt16.toNat_ofNat_of_lt' hlt]
  · cases h

def LocalVar.InRange (v : LocalVar) : Prop := v.slot.toNat ≤ maxLocalSlot

namespace LocalVar

variable {v : LocalVar}

theorem InRange.add_width_le (hv : v.InRange) : v.slot.toNat + v.width ≤ maxLocalSlot + 2 :=
  Nat.add_le_add hv v.type.slots_le_two

theorem InRange.setStart (hv : v.InRange) (start : Option Handle) :
    Answers InRange (v.setStart start) := .andThen fun _ => .pure hv

theorem InRange.setStop (hv : v.InRange) (stop : Option Handle) :
    Answers InRange (v.setStop stop) := .andThen fun _ => .pure hv

theorem InRange.substitute (hv : v.InRange) (old new : Handle) :
    Answers InRange (v.substitute old new) :=
  substitute_answers (fun _ _ h => h) (fun _ _ h => h) old new hv

theorem inRange_setSlot (slot : Int) (v : LocalVar) : Answers InRange (v.setSlot slot) :=
  .bind (.ofExcept fun _ hn => le_of_checkSlot hn) fun _ hn => .pure hn

theorem inRange_create (slot : Int) (name : UnqualifiedName) (type : FieldType)
    (start stop : Option Handle) : Answers InRange (create slot name type start stop) := by
  refine .bind (.ofExcept fun n hn => le_of_checkSlot hn) fun n hn => .andThen fun _ =>
    .andThen fun id => ?_
  refine .bind (InRange.setStart ?_ start) fun w hw => hw.setStop stop
  exact hn

end LocalVar

theorem LocalEdit.keeps_inRange (e : LocalEdit) {v : LocalVar} (hv : v.InRange) :
    Answers LocalVar.InRange (e.apply v) := by
  cases e with
  | setStart start => exact hv.setStart start
  | setStop stop => exact hv.setStop stop
  | setSlot slot => exact v.inRange_setSlot slot
  | setName name => exact .pure hv
  | setType type => exact .pure hv
  | substitute old new => exact hv.substitute old new
  | release => exact .bind (hv.setStart none) fun w hw => hw.setStop none

namespace Method

/-! ### All variables of a method -/

variable {α : Type}

def InRange (m : Method) : Prop := ∀ v ∈ m.locals, v.InRange

theorem onBody_keeps_inRange (act : BodyM α) : Preserves InRange (onBody act) :=
  onBody_preserves (fun _ _ hm => hm) act

theorem addLocal_keeps_inRange (slot : Int) (name : UnqualifiedName) (type : FieldType)
    (start stop : Option Handle) : Preserves InRange (addLocal slot name type start stop) := by
  refine .bind_answer (onBody_keeps_inRange _)
    (onBody_answers (LocalVar.inRange_create slot name type start stop)) fun v hv => ?_
  refine .bind (.modify fun m hm => ?_) fun _ => .pure v.id
  exact List.forall_mem_append.mpr ⟨hm, List.forall_mem_singleton.mpr hv⟩

theorem editLocal_keeps_inRange {edit : LocalVar → BodyM LocalVar}
    (hedit : ∀ v, v.InRange → Answers LocalVar.InRange (edit v)) (t : HolderId) :
    Preserves InRange (editLocal t edit) := by
  refine editLocal_preserves (P := LocalVar.InRange) (fun _ => onBody_keeps_inRange _) ?_
    fun m w hm hw => ?_
  · exact fun m v hm hfind => hedit v (hm v (List.mem_of_find?_eq_some hfind))
  · refine List.forall_mem_map.mpr fun v hv => ?_
    split
    · exact hw
    · exact hm v hv

theorem removeLocal_keeps_inRange (t : HolderId) : Preserves InRange (removeLocal t) := by
  refine .bind .get fun m => ?_
  split
  · exact .throw _
  · refine .bind (.modify fun m hm v hv => ?_) fun _ => onBody_keeps_inRange _
    exact hm v (List.mem_of_mem_filter hv)

theorem addCatch_keeps_inRange (first last handler : Handle) (caught : Option BinaryName) :
    Preserves InRange (addCatch first last handler caught) :=
  (onBody_keeps_inRange _).bind fun r => .bind (.modify fun _ hm => hm) fun _ => .pure r.id

theorem editCatch_keeps_inRange (edit : CatchRange → BodyM CatchRange) (t : HolderId) :
    Preserves InRange (editCatch t edit) :=
  editCatch_preserves (fun _ => onBody_keeps_inRange _) (fun _ x _ _ => .any (edit x))
    fun _ _ hm _ => hm

theorem removeCatch_keeps_inRange (t : HolderId) : Preserves InRange (removeCatch t) := by
  refine .bind .get fun m => ?_
  split
  · exact .throw _
  · exact .bind (.modify fun _ hm => hm) fun _ => onBody_keeps_inRange _

theorem substitute_keeps_inRange (old new : Handle) (t : HolderId) :
    Preserves InRange (substitute old new t) :=
  substitute_preserves (editLocal_keeps_inRange (fun _ hv => hv.substitute old new) t)
    (editCatch_keeps_inRange _ t)

theorem perform_keeps_inRange (o : Operation) : Preserves InRange (perform o) := by
  cases o with
  | call c => exact (onBody_keeps_inRange _).map
  | addLocal slot name type start stop =>
    exact (addLocal_keeps_inRange slot name type start stop).map
  | editLocal t e => exact (editLocal_keeps_inRange (fun _ hv => e.keeps_inRange hv) t).map
  | removeLocal t => exact (removeLocal_keeps_inRange t).map
  | addCatch first last handler caught =>
    exact (addCatch_keeps_inRange first last handler caught).map
  | removeCatch t => exact (removeCatch_keeps_inRange t).map
  | reroute old new => exact (reroute_preserves (substitute_keeps_inRange old new)).map
  | removeInstruction h =>
    exact (removeInstruction_preserves (onBody_keeps_inRange _) substitute_keeps_inRange).map

theorem inRange_performAll (operations : List Operation) :
    (performAll perform operations ∅).2.InRange :=
  performAll_preserves perform_keeps_inRange operations fun _ hv => nomatch hv

/-! ### Counting slots -/

/-- The slots that variables need before their number is cut to 16 bits. -/
def slotCount (m : Method) : Nat := (m.locals.map fun v => v.slot.toNat + v.width).foldl max 0

theorem slotCount_le_iff {m : Method} {n : Nat} :
    m.slotCount ≤ n ↔ ∀ v ∈ m.locals, v.slot.toNat + v.width ≤ n := by
  have hmax : (0 :: m.locals.map fun v => v.slot.toNat + v.width).max? = some m.slotCount :=
    List.max?_cons'
  rw [List.max?_le_iff hmax, List.forall_mem_cons, List.forall_mem_map]
  exact and_iff_right (Nat.zero_le n)

theorem slotCount_isLeast (m : Method) :
    IsLeast {n | ∀ v ∈ m.locals, v.slot.toNat + v.width ≤ n} m.slotCount :=
  ⟨slotCount_le_iff.mp (Nat.le_refl _), fun _ hn => slotCount_le_iff.mpr hn⟩

theorem InRange.slotCount_le {m : Method} (hm : m.InRange) : m.slotCount ≤ maxLocalSlot + 2 :=
  slotCount_le_iff.mpr fun v hv => (hm v hv).add_width_le

theorem InRange.toNat_localSlots {m : Method} (hm : m.InRange) : m.localSlots.toNat = m.slotCount :=
  UInt16.toNat_ofNat_of_lt' (Nat.lt_of_le_of_lt hm.slotCount_le (by decide))

/-- Whatever has been done with a method, all its variables are in slots that can be told. The number
of slots that it is said to need is the least that is enough for each variable, and is never cut. -/
theorem session_needs_slots (operations : List Operation) :
    let m := (performAll perform operations ∅).2
    (∀ v ∈ m.locals, v.slot.toNat ≤ 32767) ∧
      IsLeast {n | ∀ v ∈ m.locals, v.slot.toNat + v.width ≤ n} m.localSlots.toNat ∧
      (m.locals = [] → m.localSlots = 0) ∧ m.localSlots.toNat ≤ 32769 := by
  intro m
  have hrange : m.InRange := inRange_performAll operations
  refine ⟨hrange, ?_, ?_, ?_⟩
  · rw [hrange.toNat_localSlots]
    exact m.slotCount_isLeast
  · intro hnil
    rw [localSlots, hnil]
    rfl
  · rw [hrange.toNat_localSlots]
    exact hrange.slotCount_le

/-- The bound is reached by a variable in the last slot that is given a wider type. -/
example : (performAll perform [.addLocal 32767 ⟨"x", by decide⟩ (.base .int) none none,
    .editLocal ⟨0⟩ (.setType (.base .long))] ∅).2.localSlots = 32769 := by decide +kernel

end Method

end JvmAssembler
