import JvmAssembler.Proofs.Code.Roll

/-!
# Identities in order

A method lists its variables and its handlers in the order in which they were added. This is the order
of their identities too, so that the lists say what maps with these as keys would say: identities are
numbered in the order in which they are given out, none is given out twice, and who is added gets a new
one.
-/

namespace JvmAssembler

/-! ### Giving out identities -/

namespace Body

variable {α τ : Type} {key : τ → HolderId}

/-- The computation does not take back identities that were given out. -/
def Advances (act : BodyM α) : Prop := ∀ n, Preserves (fun b => n ≤ b.nextHolder) act

theorem advances_stepwise : Stepwise fun α (act : BodyM α) => Advances act where
  pure x _ := .pure x
  throw e _ := .throw e
  bind h hnext n := (h n).bind fun x => hnext x n

theorem requireLive_advances (handles : List Handle) : Advances (requireLive handles) := by
  refine fun n => .bind .get fun b => ?_
  split
  · exact .throw _
  · exact .pure ()

theorem rebind_advances (t : HolderId) (old new : Option Handle) : Advances (rebind t old new) :=
  fun n => (requireLive_advances _ n).bind fun _ => .modify fun _ hb => hb

theorem edit_advances (change : Chain Line → Except Handle (α × Chain Line)) :
    Advances (edit change) := by
  intro n b hb
  cases hchange : change b.lines with
  | error dead => rwa [outcome_of_error (edit_of_error hchange)]
  | ok result =>
    rw [outcome_of_ok (edit_of_ok hchange)]
    exact hb

theorem moveAfter_advances (h : Handle) (after : Option Handle) : Advances (moveAfter h after) := by
  intro n b hb
  cases hmove : b.lines.moveAfter h after with
  | error dead => rwa [outcome_of_error (moveAfter_of_error hmove)]
  | ok lines =>
    rw [outcome_of_ok (moveAfter_of_ok hmove)]
    exact hb

theorem replace_advances (h : Handle) (i : Instruction) : Advances (replace h i) := by
  intro n b hb
  rw [outcome, replace]
  cases b.lines.modify h fun line => { line with instruction := i } with
  | error dead => exact hb
  | ok result => exact hb

theorem erase_advances (h : Handle) : Advances (erase h) := by
  intro n
  refine .bind .get fun b => ?_
  dsimp only
  split
  · exact .bind (.throw _) fun _ => (edit_advances _ n).bind fun _ => .pure _
  · exact (edit_advances _ n).bind fun _ => .pure _

theorem freshHolder_advances : Advances freshHolder := fun _ _ hb => Nat.le_succ_of_le hb

theorem layOut_advances : Advances layOut := fun _ _ hb => hb

theorem call_advances (c : Call) : Advances (call c) := by
  have hmap {α β : Type} {act : BodyM α} (h : Advances act) (f : α → β) : Advances (f <$> act) :=
    advances_stepwise.map h f
  cases c with
  | rebind t old new => exact hmap (rebind_advances t old new) _
  | edit e =>
    cases e with
    | append i => exact hmap (edit_advances _) _
    | insertBefore h i => exact hmap (edit_advances _) _
    | insertAfter h i => exact hmap (edit_advances _) _
    | moveAfter h after => exact hmap (moveAfter_advances h after) _
    | replace h i => exact hmap (replace_advances h i) _
    | erase h => exact hmap (erase_advances h) _
    | freshHolder => exact hmap freshHolder_advances _
    | layOut => exact hmap layOut_advances _

/-- The computation makes something whose identity was not given out before, and is now. -/
structure Numbers (key : τ → HolderId) (act : BodyM τ) : Prop where
  advances : Advances act
  is_new : ∀ b x b', act b = .ok x b' → b.nextHolder ≤ (key x).id ∧ (key x).id < b'.nextHolder

theorem Numbers.after {act : BodyM α} {next : α → BodyM τ} (hact : Advances act)
    (hnext : ∀ x, Numbers key (next x)) : Numbers key (act >>= next) := by
  refine ⟨advances_stepwise.bind hact fun x => (hnext x).advances, fun b y b' hok => ?_⟩
  obtain ⟨x, b₁, hx, hy⟩ := exists_of_bind_ok hok
  obtain ⟨hle, hlt⟩ := (hnext x).is_new b₁ y b' hy
  exact ⟨Nat.le_trans ((hact b.nextHolder).ok hx (Nat.le_refl _)) hle, hlt⟩

theorem numbers_fresh {next : HolderId → BodyM τ} (hnext : ∀ t, Advances (next t))
    (hkey : ∀ t, Answers (fun x => key x = t) (next t)) : Numbers key (freshHolder >>= next) := by
  refine ⟨advances_stepwise.bind freshHolder_advances hnext, fun b x b' hok => ?_⟩
  obtain ⟨t, b₁, ht, hx⟩ := exists_of_bind_ok hok
  cases ht
  rw [hkey _ _ _ _ hx]
  exact ⟨Nat.le_refl _, (hnext _ _).ok hx (Nat.le_refl _)⟩

end Body

namespace LocalVar

open Body

theorem setStart_advances (start : Option Handle) (v : LocalVar) : Advances (v.setStart start) :=
  advances_stepwise.bind (rebind_advances _ _ _) fun _ => advances_stepwise.pure _

theorem setStop_advances (stop : Option Handle) (v : LocalVar) : Advances (v.setStop stop) :=
  advances_stepwise.bind (rebind_advances _ _ _) fun _ => advances_stepwise.pure _

theorem release_advances (v : LocalVar) : Advances v.release :=
  advances_stepwise.bind (setStart_advances none v) (setStop_advances none)

theorem substitute_advances (old new : Handle) (v : LocalVar) : Advances (v.substitute old new) := by
  by_cases hold : v.holds old
  · rw [substitute_eq hold]
    refine advances_stepwise.bind ?_ fun w => ?_
    · split
      · exact setStart_advances _ v
      · exact advances_stepwise.pure v
    · split
      · exact setStop_advances _ w
      · exact advances_stepwise.pure w
  · rw [substitute, if_pos (by simp [hold])]
    exact fun _ _ hb => hb

theorem create_numbers (slot : Int) (name : UnqualifiedName) (type : FieldType)
    (start stop : Option Handle) : Numbers LocalVar.id (create slot name type start stop) := by
  refine .after (advances_stepwise.ofExcept _) fun slot => .after (requireLive_advances _) fun _ =>
    numbers_fresh (fun t => ?_) fun t => ?_
  · exact advances_stepwise.bind (setStart_advances start _) (setStop_advances stop)
  · exact .bind (P := fun v => v.id = t) (.andThen fun _ => .pure rfl) fun v hv =>
      .andThen fun _ => .pure hv

end LocalVar

theorem LocalEdit.advances (e : LocalEdit) (v : LocalVar) : Body.Advances (e.apply v) := by
  cases e with
  | setStart start => exact v.setStart_advances start
  | setStop stop => exact v.setStop_advances stop
  | setSlot slot =>
    exact Body.advances_stepwise.bind (Body.advances_stepwise.ofExcept _) fun _ =>
      Body.advances_stepwise.pure _
  | setName name => exact Body.advances_stepwise.pure _
  | setType type => exact Body.advances_stepwise.pure _
  | substitute old new => exact v.substitute_advances old new
  | release => exact v.release_advances

namespace CatchRange

open Body

theorem setFirst_advances (first : Handle) (r : CatchRange) : Advances (r.setFirst first) :=
  advances_stepwise.bind (rebind_advances _ _ _) fun _ => advances_stepwise.pure _

theorem setLast_advances (last : Handle) (r : CatchRange) : Advances (r.setLast last) :=
  advances_stepwise.bind (rebind_advances _ _ _) fun _ => advances_stepwise.pure _

theorem setHandler_advances (handler : Handle) (r : CatchRange) : Advances (r.setHandler handler) :=
  advances_stepwise.bind (rebind_advances _ _ _) fun _ => advances_stepwise.pure _

theorem release_advances (r : CatchRange) : Advances r.release :=
  fun n => .forM (fun h => rebind_advances r.id (some h) none n) r.held

theorem substitute_advances (old new : Handle) (r : CatchRange) :
    Advances (r.substitute old new) := by
  by_cases hold : r.holds old
  · rw [substitute_eq hold]
    refine advances_stepwise.bind ?_ fun s => advances_stepwise.bind ?_ fun s => ?_
    · split
      · exact setFirst_advances _ r
      · exact advances_stepwise.pure r
    · split
      · exact setLast_advances _ s
      · exact advances_stepwise.pure s
    · split
      · exact setHandler_advances _ s
      · exact advances_stepwise.pure s
  · rw [substitute, if_pos (by simp [hold])]
    exact fun _ _ hb => hb

theorem create_numbers (first last handler : Handle) (caught : Option BinaryName) :
    Numbers CatchRange.id (create first last handler caught) := by
  refine .after (requireLive_advances _) fun _ => numbers_fresh (fun t n => ?_) fun t => ?_
  · exact .bind (.forM (fun h => rebind_advances t none (some h) n) _) fun _ => .pure _
  · exact .andThen fun _ => .pure rfl

end CatchRange

namespace Method

/-! ### The next identity of a method -/

variable {t : HolderId} {n : Nat} {m m' : Method}

/-- At least `n` identities have been given out. -/
def Past (n : Nat) (m : Method) : Prop := n ≤ m.body.nextHolder

theorem onBody_stays_past {act : BodyM α} (hact : Body.Advances act) :
    Preserves (Past n) (onBody act) := by
  intro m hm
  have hend := hact n m.body hm
  rw [outcome, onBody]
  cases h : act m.body with
  | ok x b => rwa [outcome_of_ok h] at hend
  | error fault b => rwa [outcome_of_error h] at hend

theorem editLocal_stays_past {edit : LocalVar → BodyM LocalVar}
    (hedit : ∀ v, Body.Advances (edit v)) (t : HolderId) : Preserves (Past n) (editLocal t edit) :=
  editLocal_preserves (fun v => onBody_stays_past (hedit v)) (fun _ v _ _ => .any (edit v))
    fun _ _ hm _ => hm

theorem editCatch_stays_past {edit : CatchRange → BodyM CatchRange}
    (hedit : ∀ x, Body.Advances (edit x)) (t : HolderId) : Preserves (Past n) (editCatch t edit) :=
  editCatch_preserves (fun x => onBody_stays_past (hedit x)) (fun _ x _ _ => .any (edit x))
    fun _ _ hm _ => hm

theorem substitute_stays_past (old new : Handle) (t : HolderId) :
    Preserves (Past n) (substitute old new t) :=
  substitute_preserves (editLocal_stays_past (LocalVar.substitute_advances old new) t)
    (editCatch_stays_past (CatchRange.substitute_advances old new) t)

theorem removeLocal_stays_past (t : HolderId) : Preserves (Past n) (removeLocal t) := by
  refine .bind .get fun m => ?_
  split
  · exact .throw _
  next v _ =>
    exact .bind (.modify fun _ hm => hm) fun _ => onBody_stays_past v.release_advances

theorem removeCatch_stays_past (t : HolderId) : Preserves (Past n) (removeCatch t) := by
  refine .bind .get fun m => ?_
  split
  · exact .throw _
  next x _ =>
    exact .bind (.modify fun _ hm => hm) fun _ => onBody_stays_past x.release_advances

theorem addLocal_stays_past (slot : Int) (name : UnqualifiedName) (type : FieldType)
    (start stop : Option Handle) : Preserves (Past n) (addLocal slot name type start stop) :=
  (onBody_stays_past (LocalVar.create_numbers slot name type start stop).advances).bind fun v =>
    .bind (.modify fun _ hm => hm) fun _ => .pure v.id

theorem addCatch_stays_past (first last handler : Handle) (caught : Option BinaryName) :
    Preserves (Past n) (addCatch first last handler caught) :=
  (onBody_stays_past (CatchRange.create_numbers first last handler caught).advances).bind fun r =>
    .bind (.modify fun _ hm => hm) fun _ => .pure r.id

theorem perform_stays_past (o : Operation) : Preserves (Past n) (perform o) := by
  cases o with
  | call c => exact (onBody_stays_past (Body.call_advances c)).map
  | addLocal slot name type start stop =>
    exact (addLocal_stays_past slot name type start stop).map
  | editLocal t e => exact (editLocal_stays_past e.advances t).map
  | removeLocal t => exact (removeLocal_stays_past t).map
  | addCatch first last handler caught =>
    exact (addCatch_stays_past first last handler caught).map
  | removeCatch t => exact (removeCatch_stays_past t).map
  | reroute old new => exact (reroute_preserves (substitute_stays_past old new)).map
  | removeInstruction h =>
    exact (removeInstruction_preserves (onBody_stays_past (Body.erase_advances h))
      substitute_stays_past).map

/-- What is made on the body and then entered has a new identity, which is answered. -/
theorem is_new_of_create {τ : Type} {create : BodyM τ} {key : τ → HolderId}
    (hcreate : Body.Numbers key create) (insert : τ → Method → Method)
    (hinsert : ∀ x m, (insert x m).body = m.body)
    (hok : (do let x ← onBody create; modify (insert x); return key x : MethodM HolderId) m =
      .ok t m') : m.body.nextHolder ≤ t.id ∧ t.id < m'.body.nextHolder := by
  obtain ⟨x, m₁, hx, hok⟩ := exists_of_bind_ok hok
  cases hok
  rw [onBody] at hx
  split at hx
  next y b hy =>
    cases hx
    rw [hinsert]
    exact hcreate.is_new m.body x b hy
  · cases hx

theorem addLocal_is_new {slot : Int} {name : UnqualifiedName} {type : FieldType}
    {start stop : Option Handle} (hok : addLocal slot name type start stop m = .ok t m') :
    m.body.nextHolder ≤ t.id ∧ t.id < m'.body.nextHolder :=
  is_new_of_create (LocalVar.create_numbers slot name type start stop)
    (fun v m => { m with locals := m.locals ++ [v] }) (fun _ _ => rfl) hok

theorem addCatch_is_new {first last handler : Handle} {caught : Option BinaryName}
    (hok : addCatch first last handler caught m = .ok t m') :
    m.body.nextHolder ≤ t.id ∧ t.id < m'.body.nextHolder :=
  is_new_of_create (CatchRange.create_numbers first last handler caught)
    (fun x m => { m with catches := m.catches ++ [x] }) (fun _ _ => rfl) hok

/-! ### The order -/

/-- Identities in the order in which they were given out, all of them before the next `n`. -/
def Ascending (n : Nat) (ts : List HolderId) : Prop :=
  ts.Pairwise (·.id < ·.id) ∧ ∀ t ∈ ts, t.id < n

variable {k : Nat} {ts : List HolderId}

theorem Ascending.mono (h : Ascending n ts) (hle : n ≤ k) : Ascending k ts :=
  ⟨h.1, fun t ht => Nat.lt_of_lt_of_le (h.2 t ht) hle⟩

theorem Ascending.filter (h : Ascending n ts) (p : HolderId → Bool) : Ascending n (ts.filter p) :=
  ⟨h.1.filter p, fun t ht => h.2 t (List.mem_of_mem_filter ht)⟩

theorem Ascending.concat (h : Ascending n ts) (hle : n ≤ t.id) (hlt : t.id < k) :
    Ascending k (ts ++ [t]) := by
  have hbefore (s : HolderId) (hs : s ∈ ts) : s.id < t.id := Nat.lt_of_lt_of_le (h.2 s hs) hle
  constructor
  · refine List.pairwise_append.mpr ⟨h.1, List.pairwise_singleton _ t, fun s hs u hu => ?_⟩
    rw [List.mem_singleton.mp hu]
    exact hbefore s hs
  · refine List.forall_mem_append.mpr ⟨fun s hs => ?_, List.forall_mem_singleton.mpr hlt⟩
    exact Nat.lt_trans (hbefore s hs) hlt

/-- Variables and handlers are in the order of their identities, like maps that these are the keys of. -/
def InOrder (m : Method) : Prop :=
  Ascending m.body.nextHolder m.roll.locals ∧ Ascending m.body.nextHolder m.roll.catches

/-- What an operation takes out leaves the order as it is, and what it adds comes last. -/
theorem perform_inOrder (o : Operation) : Preserves InOrder (perform o) := by
  intro m hm
  have hpast : m.body.nextHolder ≤ (outcome (perform o) m).2.body.nextHolder :=
    perform_stays_past o m (Nat.le_refl _)
  obtain ⟨hlocals, hcatches⟩ := hm
  have hlocals' := hlocals.mono hpast
  have hcatches' := hcatches.mono hpast
  rw [InOrder, perform_enrolls o m]
  cases o with
  | addLocal slot name type start stop =>
    cases hadd : addLocal slot name type start stop m with
    | error fault m' =>
      rw [perform, outcome_of_error (map_of_error some hadd)] at hlocals' hcatches' ⊢
      exact ⟨hlocals', hcatches'⟩
    | ok t m' =>
      rw [perform, outcome_of_ok (map_of_ok some hadd)] at hlocals' hcatches' ⊢
      obtain ⟨hle, hlt⟩ := addLocal_is_new hadd
      exact ⟨hlocals.concat hle hlt, hcatches'⟩
  | addCatch first last handler caught =>
    cases hadd : addCatch first last handler caught m with
    | error fault m' =>
      rw [perform, outcome_of_error (map_of_error some hadd)] at hlocals' hcatches' ⊢
      exact ⟨hlocals', hcatches'⟩
    | ok t m' =>
      rw [perform, outcome_of_ok (map_of_ok some hadd)] at hlocals' hcatches' ⊢
      obtain ⟨hle, hlt⟩ := addCatch_is_new hadd
      exact ⟨hlocals', hcatches.concat hle hlt⟩
  | removeLocal t =>
    cases (outcome (perform (.removeLocal t)) m).1 with
    | error fault => exact ⟨hlocals', hcatches'⟩
    | ok answer => exact ⟨hlocals'.filter _, hcatches'⟩
  | removeCatch t =>
    cases (outcome (perform (.removeCatch t)) m).1 with
    | error fault => exact ⟨hlocals', hcatches'⟩
    | ok answer => exact ⟨hlocals', hcatches'.filter _⟩
  | _ => exact ⟨hlocals', hcatches'⟩

/-- Whatever has been done with a method, the order of its variables and that of its handlers is the order
of their identities. -/
theorem inOrder_performAll (operations : List Operation) :
    (performAll perform operations ∅).2.InOrder :=
  performAll_preserves perform_inOrder operations
    ⟨⟨.nil, fun _ ht => nomatch ht⟩, .nil, fun _ ht => nomatch ht⟩

end Method

end JvmAssembler
