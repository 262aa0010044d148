import JvmAssembler.Proofs.Accounts

/-!
# The roll of a method

Everything that can be done with a method, and who of its variables and handlers is left, told from
outside: by the identities that were answered when they were added, without those that were removed.
Neither edits of the body, with registrations of whatever kind, nor edits of the variables, rerouting or
the removal of instructions change who is left, or in which order.
-/

namespace JvmAssembler

/-- The identities of the variables and handlers that are left, each in the order in which they were
added. -/
structure Roll where
  locals : List HolderId
  catches : List HolderId

namespace Method

/-- What can be done with a method. The calls on its body include bare registrations. -/
inductive Operation
  | call (c : Call)
  | addLocal (slot : Int) (name : UnqualifiedName) (type : FieldType) (start stop : Option Handle)
  | editLocal (t : HolderId) (e : LocalEdit)
  | removeLocal (t : HolderId)
  | addCatch (first last handler : Handle) (caught : Option BinaryName)
  | removeCatch (t : HolderId)
  | reroute (old new : Handle)
  | removeInstruction (h : Handle)

def perform : Operation → MethodM (Option HolderId)
  | .call c => (fun _ => none) <$> onBody (Body.call c)
  | .addLocal slot name type start stop => some <$> addLocal slot name type start stop
  | .editLocal t e => (fun _ => none) <$> editLocal t e.apply
  | .removeLocal t => (fun _ => none) <$> removeLocal t
  | .addCatch first last handler caught => some <$> addCatch first last handler caught
  | .removeCatch t => (fun _ => none) <$> removeCatch t
  | .reroute old new => (fun _ => none) <$> reroute old new
  | .removeInstruction h => (fun _ => none) <$> removeInstruction h

/-- What an operation with this answer makes of the roll. -/
def Operation.enroll : Operation → Except Fault (Option HolderId) → Roll → Roll
  | .addLocal .., .ok (some t), roll => { roll with locals := roll.locals ++ [t] }
  | .removeLocal t, .ok _, roll => { roll with locals := roll.locals.filter (· ≠ t) }
  | .addCatch .., .ok (some t), roll => { roll with catches := roll.catches ++ [t] }
  | .removeCatch t, .ok _, roll => { roll with catches := roll.catches.filter (· ≠ t) }
  | _, _, roll => roll

/-- What a session with these answers makes of the roll. -/
def rollCall : List Operation → List (Except Fault (Option HolderId)) → Roll → Roll
  | o :: operations, answer :: answers, roll => rollCall operations answers (o.enroll answer roll)
  | _, _, roll => roll

def roll (m : Method) : Roll := ⟨m.locals.map LocalVar.id, m.catches.map CatchRange.id⟩

section Keyed

variable {τ : Type} {key : τ → HolderId} {xs : List τ} {t : HolderId}

theorem map_key_replace {y : τ} (hy : key y = t) :
    (xs.map fun x => if key x = t then y else x).map key = xs.map key := by
  rw [List.map_map]
  refine List.map_congr_left fun x _ => ?_
  by_cases hx : key x = t
  · simp [hx, hy]
  · simp [hx]

theorem map_key_filter : (xs.filter fun x => key x ≠ t).map key = (xs.map key).filter (· ≠ t) := by
  rw [List.filter_map]
  rfl

end Keyed

end Method

/-! ### Identities are kept -/

/-- What does not depend on the scope still holds of a variable that is pointed elsewhere. -/
theorem LocalVar.substitute_answers {P : LocalVar → Prop} {v : LocalVar}
    (hstart : ∀ v start, P v → P { v with start }) (hstop : ∀ v stop, P v → P { v with stop })
    (old new : Handle) (hv : P v) : Answers P (v.substitute old new) := by
  by_cases hold : v.holds old
  · rw [substitute_eq hold]
    refine .bind (P := P) ?_ fun w hw => ?_
    · split
      · exact .andThen fun _ => .pure (hstart v _ hv)
      · exact .pure hv
    · split
      · exact .andThen fun _ => .pure (hstop w _ hw)
      · exact .pure hw
  · rw [substitute, if_pos (by simp [hold])]
    exact .bind (P := fun _ => False) (.throw _) fun _ h => h.elim

theorem LocalVar.substitute_keeps_id (old new : Handle) (v : LocalVar) :
    Answers (fun w => w.id = v.id) (v.substitute old new) :=
  substitute_answers (fun _ _ h => h) (fun _ _ h => h) old new rfl

theorem CatchRange.substitute_keeps_id (old new : Handle) (r : CatchRange) :
    Answers (fun s => s.id = r.id) (r.substitute old new) := by
  by_cases hold : r.holds old
  · rw [substitute_eq hold]
    refine .bind (P := fun s => s.id = r.id) ?_ fun s hs =>
      .bind (P := fun s => s.id = r.id) ?_ fun s hs => ?_
    · split
      · exact .andThen fun _ => .pure rfl
      · exact .pure rfl
    · split
      · exact .andThen fun _ => .pure hs
      · exact .pure hs
    · split
      · exact .andThen fun _ => .pure hs
      · exact .pure hs
  · rw [substitute, if_pos (by simp [hold])]
    exact .bind (P := fun _ => False) (.throw _) fun _ h => h.elim

theorem LocalEdit.keeps_id (e : LocalEdit) (v : LocalVar) :
    Answers (fun w => w.id = v.id) (e.apply v) := by
  cases e with
  | setStart start => exact .andThen fun _ => .pure rfl
  | setStop stop => exact .andThen fun _ => .pure rfl
  | setSlot slot => exact .andThen fun _ => .pure rfl
  | setName name => exact .pure rfl
  | setType type => exact .pure rfl
  | substitute old new => exact v.substitute_keeps_id old new
  | release =>
    exact .bind (P := fun w => w.id = v.id) (.andThen fun _ => .pure rfl)
      fun w hw => .andThen fun _ => .pure hw

namespace Method

variable {α : Type} {m : Method} {t : HolderId} {r : Roll}

/-- What does not depend on the body survives whatever is done with it. -/
theorem onBody_preserves {I : Method → Prop} (hI : ∀ m b, I m → I { m with body := b })
    (act : BodyM α) : Preserves I (onBody act) := by
  intro m hm
  cases hact : act m.body with
  | ok x b =>
    rw [outcome, onBody, hact]
    exact hI m b hm
  | error fault b =>
    rw [outcome, onBody, hact]
    exact hI m b hm

theorem onBody_keeps_roll (act : BodyM α) : Preserves (fun m => m.roll = r) (onBody act) :=
  onBody_preserves (fun _ _ hm => hm) act

theorem onBody_answers {P : α → Prop} {act : BodyM α} (h : Answers P act) : Answers P (onBody act) := by
  intro m x m' hok
  rw [onBody] at hok
  split at hok
  next hact =>
    cases hok
    exact h _ _ _ hact
  · cases hok

/-- The variable that is edited is one of the method's, and what the edit makes of it takes its place. -/
theorem editLocal_preserves {I : Method → Prop} {P : LocalVar → Prop}
    {edit : LocalVar → BodyM LocalVar} (hbody : ∀ v, Preserves I (onBody (edit v)))
    (hedit : ∀ m v, I m → m.local? t = some v → Answers P (edit v))
    (hput : ∀ m w, I m → P w →
      I { m with locals := m.locals.map fun v => if v.id = t then w else v }) :
    Preserves I (editLocal t edit) := by
  refine .inspect fun m hm => ?_
  split
  · exact .throw _
  next v hfind =>
    exact .bind_answer (hbody v) (onBody_answers (hedit m v hm hfind)) fun w hw =>
      .modify fun m hm => hput m w hm hw

theorem editCatch_preserves {I : Method → Prop} {P : CatchRange → Prop}
    {edit : CatchRange → BodyM CatchRange} (hbody : ∀ x, Preserves I (onBody (edit x)))
    (hedit : ∀ m x, I m → m.catch? t = some x → Answers P (edit x))
    (hput : ∀ m y, I m → P y →
      I { m with catches := m.catches.map fun x => if x.id = t then y else x }) :
    Preserves I (editCatch t edit) := by
  refine .inspect fun m hm => ?_
  split
  · exact .throw _
  next x hfind =>
    exact .bind_answer (hbody x) (onBody_answers (hedit m x hm hfind)) fun y hy =>
      .modify fun m hm => hput m y hm hy

theorem editLocal_keeps_roll {edit : LocalVar → BodyM LocalVar}
    (hedit : ∀ v, Answers (fun w => w.id = v.id) (edit v)) (t : HolderId) :
    Preserves (fun m => m.roll = r) (editLocal t edit) := by
  refine editLocal_preserves (P := fun w => w.id = t) (fun _ => onBody_keeps_roll _) ?_
    fun m w hm hw => ?_
  · intro m v _ hfind
    have hid : v.id = t := by simpa using List.find?_some hfind
    exact hid ▸ hedit v
  · rw [← hm, roll, roll, map_key_replace hw]

theorem editCatch_keeps_roll {edit : CatchRange → BodyM CatchRange}
    (hedit : ∀ r, Answers (fun s => s.id = r.id) (edit r)) (t : HolderId) :
    Preserves (fun m => m.roll = r) (editCatch t edit) := by
  refine editCatch_preserves (P := fun y => y.id = t) (fun _ => onBody_keeps_roll _) ?_
    fun m y hm hy => ?_
  · intro m x _ hfind
    have hid : x.id = t := by simpa using List.find?_some hfind
    exact hid ▸ hedit x
  · rw [← hm, roll, roll, map_key_replace hy]

/-- What edits of variables and handlers preserve is preserved by pointing one of them elsewhere. -/
theorem substitute_preserves {I : Method → Prop} {old new : Handle}
    (hlocal : Preserves I (editLocal t (LocalVar.substitute old new)))
    (hcatch : Preserves I (editCatch t (CatchRange.substitute old new))) :
    Preserves I (substitute old new t) := by
  refine .bind .get fun m => ?_
  split
  · exact hlocal
  · exact hcatch

theorem substitute_keeps_roll (old new : Handle) (t : HolderId) :
    Preserves (fun m => m.roll = r) (substitute old new t) :=
  substitute_preserves (editLocal_keeps_roll (LocalVar.substitute_keeps_id old new) t)
    (editCatch_keeps_roll (CatchRange.substitute_keeps_id old new) t)

/-- What each substitution preserves is preserved by rerouting. -/
theorem reroute_preserves {I : Method → Prop} {old new : Handle}
    (hsub : ∀ t, Preserves I (substitute old new t)) : Preserves I (reroute old new) := by
  refine .bind .get fun m => ?_
  have hall : Preserves I ((m.body.holders old).forM (substitute old new)) := .forM hsub _
  dsimp only
  split
  · refine .bind (.throw _) fun _ => ?_
    split
    · exact .throw _
    · exact hall
  · split
    · exact .throw _
    · exact hall

/-- What substitutions and the removal from the body preserve is preserved by removing an instruction. -/
theorem removeInstruction_preserves {I : Method → Prop} {h : Handle}
    (herase : Preserves I (onBody (Body.erase h)))
    (hsub : ∀ old new t, Preserves I (substitute old new t)) :
    Preserves I (removeInstruction h) := by
  refine .bind .get fun m => ?_
  dsimp only
  split
  · split
    · exact (reroute_preserves (hsub h _)).bind fun _ => herase
    · exact herase
  · exact herase

theorem reroute_keeps_roll (old new : Handle) :
    Preserves (fun m => m.roll = r) (reroute old new) :=
  reroute_preserves (substitute_keeps_roll old new)

theorem removeInstruction_keeps_roll (h : Handle) :
    Preserves (fun m => m.roll = r) (removeInstruction h) :=
  removeInstruction_preserves (onBody_keeps_roll _) substitute_keeps_roll

/-! ### Adding and removing -/

def Enrolls (o : Operation) (m : Method) : Prop :=
  (outcome (perform o) m).2.roll = o.enroll (outcome (perform o) m).1 m.roll

/-- What is made on the body and then entered either is not made, and nobody is entered, or answers its
identity and is entered under it. -/
theorem roll_of_create {τ : Type} (create : BodyM τ) (insert : τ → Method → Method)
    (key : τ → HolderId) (m : Method) :
    let act : MethodM HolderId := do
      let x ← onBody create
      modify (insert x)
      return key x
    (∃ fault m', act m = .error fault m' ∧ m'.roll = m.roll) ∨
      ∃ x m', act m = .ok (key x) (insert x m') ∧ m'.roll = m.roll := by
  cases hcreate : create m.body with
  | error fault b =>
    have hbody : onBody create m = .error fault { m with body := b } := by rw [onBody, hcreate]
    exact .inl ⟨fault, _, bind_of_error hbody, rfl⟩
  | ok x b =>
    have hbody : onBody create m = .ok x { m with body := b } := by rw [onBody, hcreate]
    exact .inr ⟨x, _, bind_of_ok hbody, rfl⟩

theorem addLocal_enrolls (slot : Int) (name : UnqualifiedName) (type : FieldType)
    (start stop : Option Handle) (m : Method) :
    Enrolls (.addLocal slot name type start stop) m := by
  rcases roll_of_create (LocalVar.create slot name type start stop)
    (fun v m => { m with locals := m.locals ++ [v] }) LocalVar.id m with
    ⟨fault, m', hadd, hroll⟩ | ⟨v, m', hadd, hroll⟩
  · rw [Enrolls, perform, addLocal, outcome_of_error (map_of_error some hadd)]
    exact hroll
  · rw [Enrolls, perform, addLocal, outcome_of_ok (map_of_ok some hadd), ← hroll]
    change Roll.mk ((m'.locals ++ [v]).map _) _ = _
    rw [List.map_append]
    rfl

theorem addCatch_enrolls (first last handler : Handle) (caught : Option BinaryName) (m : Method) :
    Enrolls (.addCatch first last handler caught) m := by
  rcases roll_of_create (CatchRange.create first last handler caught)
    (fun x m => { m with catches := m.catches ++ [x] }) CatchRange.id m with
    ⟨fault, m', hadd, hroll⟩ | ⟨x, m', hadd, hroll⟩
  · rw [Enrolls, perform, addCatch, outcome_of_error (map_of_error some hadd)]
    exact hroll
  · rw [Enrolls, perform, addCatch, outcome_of_ok (map_of_ok some hadd), ← hroll]
    change Roll.mk _ ((m'.catches ++ [x]).map _) = _
    rw [List.map_append]
    rfl

theorem surely_giveUp (t : HolderId) (old : Option Handle) (b : Body) :
    Surely (Body.rebind t old none) b fun _ _ => True :=
  ⟨(), _, Body.rebind_of_live (by simp) t old, trivial⟩

theorem surely_releaseLocal (v : LocalVar) (b : Body) : Surely v.release b fun _ _ => True := by
  refine ((surely_giveUp _ _ b).bind fun _ b _ => .pure trivial).bind (Q := fun _ _ => True) ?_
  exact fun w b _ => (surely_giveUp _ _ b).bind fun _ b _ => .pure trivial

theorem surely_releaseCatch (x : CatchRange) (b : Body) : Surely x.release b fun _ _ => True := by
  rw [CatchRange.release]
  generalize x.held = hs
  induction hs generalizing b with
  | nil => exact .pure trivial
  | cons h hs ih => exact (surely_giveUp x.id (some h) b).bind fun _ b _ => ih b

theorem removeLocal_enrolls (t : HolderId) (m : Method) : Enrolls (.removeLocal t) m := by
  cases hfind : m.local? t with
  | none =>
    have hremove : removeLocal t m = .error (.unknownHolder t) m := by
      rw [removeLocal, bind_of_ok (get_apply m), hfind]
      rfl
    rw [Enrolls, perform, outcome_of_error (map_of_error _ hremove)]
    rfl
  | some v =>
    obtain ⟨w, _, hrelease, b, rfl, -⟩ := surely_onBody
      (m := { m with locals := m.locals.filter (·.id ≠ t) }) (surely_releaseLocal v m.body)
    have hremove : removeLocal t m =
        .ok w { m with body := b, locals := m.locals.filter (·.id ≠ t) } := by
      rw [removeLocal, bind_of_ok (get_apply m), hfind]
      exact hrelease
    rw [Enrolls, perform, outcome_of_ok (map_of_ok _ hremove)]
    change Roll.mk ((m.locals.filter _).map _) _ = _
    rw [map_key_filter]
    rfl

theorem removeCatch_enrolls (t : HolderId) (m : Method) : Enrolls (.removeCatch t) m := by
  cases hfind : m.catch? t with
  | none =>
    have hremove : removeCatch t m = .error (.unknownHolder t) m := by
      rw [removeCatch, bind_of_ok (get_apply m), hfind]
      rfl
    rw [Enrolls, perform, outcome_of_error (map_of_error _ hremove)]
    rfl
  | some x =>
    obtain ⟨_, _, hrelease, b, rfl, -⟩ := surely_onBody
      (m := { m with catches := m.catches.filter (·.id ≠ t) }) (surely_releaseCatch x m.body)
    have hremove : removeCatch t m =
        .ok () { m with body := b, catches := m.catches.filter (·.id ≠ t) } := by
      rw [removeCatch, bind_of_ok (get_apply m), hfind]
      exact hrelease
    rw [Enrolls, perform, outcome_of_ok (map_of_ok _ hremove)]
    change Roll.mk _ ((m.catches.filter _).map _) = _
    rw [map_key_filter]
    rfl

/-! ### Sessions -/

theorem perform_enrolls (o : Operation) (m : Method) : Enrolls o m := by
  have hkeep {α : Type} {act : MethodM α} (h : Preserves (fun m' => m'.roll = m.roll) act)
      (f : α → Option HolderId) : (outcome (f <$> act) m).2.roll = m.roll := by
    rw [snd_outcome_map]
    exact h m rfl
  cases o with
  | call c => exact hkeep (onBody_keeps_roll _) _
  | addLocal slot name type start stop => exact addLocal_enrolls slot name type start stop m
  | editLocal t e => exact hkeep (editLocal_keeps_roll e.keeps_id t) _
  | removeLocal t => exact removeLocal_enrolls t m
  | addCatch first last handler caught => exact addCatch_enrolls first last handler caught m
  | removeCatch t => exact removeCatch_enrolls t m
  | reroute old new => exact hkeep (reroute_keeps_roll old new) _
  | removeInstruction h => exact hkeep (removeInstruction_keeps_roll h) _

/-- Who is left after a session can be told from its answers. -/
theorem roll_performAll (operations : List Operation) (m : Method) :
    (performAll perform operations m).2.roll =
      rollCall operations (performAll perform operations m).1 m.roll := by
  induction operations generalizing m with
  | nil => rfl
  | cons o operations ih => rw [performAll_cons, ih, perform_enrolls o m, rollCall]

end Method

end JvmAssembler
