import JvmAssembler.Proofs.Session
import Mathlib.Data.List.Forall2

/-!
# Atomic computations

How computations on a state go together, and the two ways in which an operation is expected to end.
An operation that first checks everything and then does what can no longer fail is atomic: where it
fails, it has done nothing.
-/

namespace JvmAssembler

variable {ε σ τ α β : Type} {act : EStateM ε σ α} {next : α → EStateM ε σ β} {s s' : σ} {x : α}
  {e : ε}

/-! ### Sequencing -/

theorem map_of_ok (f : α → β) (h : act s = .ok x s') : (f <$> act) s = .ok (f x) s' := by
  change EStateM.map f act s = _
  rw [EStateM.map, h]

theorem map_of_error (f : α → β) (h : act s = .error e s') : (f <$> act) s = .error e s' := by
  change EStateM.map f act s = _
  rw [EStateM.map, h]

theorem get_apply (s : σ) : (get : EStateM ε σ σ) s = .ok s s := rfl

theorem bind_of_ok (h : act s = .ok x s') : (act >>= next) s = next x s' := by
  change EStateM.bind act next s = _
  rw [EStateM.bind, h]

theorem bind_of_error (h : act s = .error e s') : (act >>= next) s = .error e s' := by
  change EStateM.bind act next s = _
  rw [EStateM.bind, h]

theorem exists_of_bind_ok {y : β} {s'' : σ} (h : (act >>= next) s = .ok y s'') :
    ∃ x s', act s = .ok x s' ∧ next x s' = .ok y s'' := by
  cases hact : act s with
  | error e s' =>
    rw [bind_of_error hact] at h
    cases h
  | ok x s' =>
    rw [bind_of_ok hact] at h
    exact ⟨x, s', rfl, h⟩

theorem cases_of_bind_error {s'' : σ} (h : (act >>= next) s = .error e s'') :
    act s = .error e s'' ∨ ∃ x s', act s = .ok x s' ∧ next x s' = .error e s'' := by
  cases hact : act s with
  | error e' s' =>
    rw [bind_of_error hact] at h
    cases h
    exact .inl rfl
  | ok x s' =>
    rw [bind_of_ok hact] at h
    exact .inr ⟨x, s', rfl, h⟩

theorem exists_of_map_ok {f : α → β} {y : β} (h : (f <$> act) s = .ok y s') :
    ∃ x, act s = .ok x s' ∧ f x = y := by
  cases hact : act s with
  | error e s'' =>
    rw [map_of_error f hact] at h
    cases h
  | ok x s'' =>
    rw [map_of_ok f hact] at h
    cases h
    exact ⟨x, rfl, rfl⟩

theorem exists_of_ofExcept_bind_ok {r : Except ε α} {y : β}
    (h : ((ofExcept r : EStateM ε σ α) >>= next) s = .ok y s') :
    ∃ x, r = .ok x ∧ next x s = .ok y s' := by
  cases r with
  | error e => cases h
  | ok x => exact ⟨x, rfl, h⟩

theorem cases_of_ofExcept_bind_error {r : Except ε α}
    (h : ((ofExcept r : EStateM ε σ α) >>= next) s = .error e s') :
    r = .error e ∧ s' = s ∨ ∃ x, r = .ok x ∧ next x s = .error e s' := by
  cases r with
  | error e' =>
    cases h
    exact .inl ⟨rfl, rfl⟩
  | ok x => exact .inr ⟨x, rfl, h⟩

theorem ofExcept_bind (r : Except ε α) (f : α → Except ε β) :
    (ofExcept (r >>= f) : EStateM ε σ β) = ofExcept r >>= fun x => ofExcept (f x) := by
  cases r <;> rfl

/-! ### Ends -/

/-- The computation succeeds, and `Q` holds of what it answers and of the state that it leaves. -/
def Surely (act : EStateM ε σ α) (s : σ) (Q : α → σ → Prop) : Prop :=
  ∃ x s', act s = .ok x s' ∧ Q x s'

/-- The computation fails and leaves the state as it was, or it succeeds, and `Q` holds of what it
answers and of the state that it leaves. -/
def Atomically (act : EStateM ε σ α) (s : σ) (Q : α → σ → Prop) : Prop :=
  (∃ e, act s = .error e s) ∨ Surely act s Q

variable {P Q : α → σ → Prop} {R : β → σ → Prop}

theorem Surely.atomically (h : Surely act s Q) : Atomically act s Q := .inr h

theorem Surely.mono (h : Surely act s P) (hPQ : ∀ x s', P x s' → Q x s') : Surely act s Q := by
  obtain ⟨x, s', hok, hP⟩ := h
  exact ⟨x, s', hok, hPQ x s' hP⟩

theorem Atomically.mono (h : Atomically act s P) (hPQ : ∀ x s', P x s' → Q x s') :
    Atomically act s Q := by
  rcases h with herror | hsurely
  · exact .inl herror
  · exact .inr (hsurely.mono hPQ)

theorem Surely.recall (h : Surely act s Q) :
    Surely act s fun x s' => act s = .ok x s' ∧ Q x s' := by
  obtain ⟨x, s', hok, hQ⟩ := h
  exact ⟨x, s', hok, hok, hQ⟩

theorem Surely.pure (h : Q x s) : Surely (Pure.pure x : EStateM ε σ α) s Q := ⟨x, s, rfl, h⟩

theorem Surely.bind (h : Surely act s Q) (hnext : ∀ x s', Q x s' → Surely (next x) s' R) :
    Surely (act >>= next) s R := by
  obtain ⟨x, s', hok, hQ⟩ := h
  rw [Surely, bind_of_ok hok]
  exact hnext x s' hQ

theorem Surely.map {f : α → β} (h : Surely act s fun x => R (f x)) : Surely (f <$> act) s R := by
  obtain ⟨x, s', hok, hR⟩ := h
  exact ⟨f x, s', map_of_ok f hok, hR⟩

theorem Atomically.throw (e : ε) : Atomically (throw e : EStateM ε σ α) s Q := .inl ⟨e, rfl⟩

theorem Atomically.ofExcept {r : Except ε α} (h : ∀ x, r = .ok x → Q x s) :
    Atomically (ofExcept r : EStateM ε σ α) s Q := by
  cases r with
  | error e => exact .inl ⟨e, rfl⟩
  | ok x => exact .inr ⟨x, s, rfl, h x rfl⟩

/-- Once the first step of an atomic computation is done, the others must not fail. -/
theorem Atomically.bind (h : Atomically act s Q)
    (hnext : ∀ x s', Q x s' → Surely (next x) s' R) : Atomically (act >>= next) s R := by
  rcases h with ⟨e, herror⟩ | hsurely
  · exact .inl ⟨e, bind_of_error herror⟩
  · exact .inr (hsurely.bind hnext)

/-- A first step that only looks at the state leaves the others free to fail. -/
theorem Atomically.check {C : α → Prop} (h : Atomically act s fun x s' => s' = s ∧ C x)
    (hnext : ∀ x, C x → Atomically (next x) s R) : Atomically (act >>= next) s R := by
  rcases h with ⟨e, herror⟩ | ⟨x, s', hok, rfl, hC⟩
  · exact .inl ⟨e, bind_of_error herror⟩
  · rw [Atomically, Surely, bind_of_ok hok]
    exact hnext x hC

theorem Atomically.get {next : σ → EStateM ε σ β} (h : Atomically (next s) s R) :
    Atomically (get >>= next) s R := h

theorem Atomically.map {f : α → β} (h : Atomically act s fun x => R (f x)) :
    Atomically (f <$> act) s R := by
  rcases h with ⟨e, herror⟩ | hsurely
  · exact .inl ⟨e, map_of_error f herror⟩
  · exact .inr hsurely.map

theorem Atomically.of_map {f : α → β} {P : σ → Prop} (h : Atomically (f <$> act) s fun _ => P) :
    Atomically act s fun _ => P := by
  cases hact : act s with
  | error e s' =>
    rw [Atomically, Surely, map_of_error f hact] at h
    rcases h with ⟨e', herror⟩ | ⟨x, s'', hok, -⟩
    · cases herror
      exact .inl ⟨e, hact⟩
    · cases hok
  | ok x s' =>
    rw [Atomically, Surely, map_of_ok f hact] at h
    rcases h with ⟨e', herror⟩ | ⟨y, s'', hok, hP⟩
    · cases herror
    · cases hok
      exact .inr ⟨x, s', hact, hP⟩

/-- A predicate that an atomic computation establishes where it succeeds survives its failure. -/
theorem Atomically.preserves {P : σ → Prop} (h : Atomically act s fun _ => P) (hs : P s) :
    P (outcome act s).2 := by
  rcases h with ⟨e, herror⟩ | ⟨x, s', hok, hP⟩
  · rwa [outcome_of_error herror]
  · rwa [outcome_of_ok hok]

/-! ### Answers -/

/-- Whatever the state, `P` holds of what the computation answers where it succeeds. -/
def Answers (P : α → Prop) (act : EStateM ε σ α) : Prop := ∀ s x s', act s = .ok x s' → P x

namespace Answers

variable {P : α → Prop} {R : β → Prop}

theorem pure (h : P x) : Answers P (Pure.pure x : EStateM ε σ α) := by
  intro s y s' hok
  cases hok
  exact h

theorem throw (e : ε) : Answers P (throw e : EStateM ε σ α) := by
  intro s x s' h
  cases h

theorem ofExcept {r : Except ε α} (h : ∀ x, r = .ok x → P x) :
    Answers P (ofExcept r : EStateM ε σ α) := by
  cases r with
  | error e => exact .throw e
  | ok x => exact .pure (h x rfl)

theorem bind (h : Answers P act) (hnext : ∀ x, P x → Answers R (next x)) :
    Answers R (act >>= next) := by
  intro s y s' hok
  obtain ⟨x, s₁, hact, hok⟩ := exists_of_bind_ok hok
  exact hnext x (h s x s₁ hact) s₁ y s' hok

theorem any (act : EStateM ε σ α) : Answers (fun _ => True) act := fun _ _ _ _ => trivial

theorem andThen (hnext : ∀ x, Answers R (next x)) : Answers R (act >>= next) :=
  bind (any act) fun x _ => hnext x

end Answers

/-! ### Invariants -/

theorem snd_outcome_map (f : α → β) (act : EStateM ε σ α) (s : σ) :
    (outcome (f <$> act) s).2 = (outcome act s).2 := by
  cases hend : act s with
  | error e s' => rw [outcome_of_error hend, outcome_of_error (map_of_error f hend)]
  | ok x s' => rw [outcome_of_ok hend, outcome_of_ok (map_of_ok f hend)]

/-- What holds of the state before the computation holds after it, whether or not it fails. -/
def Preserves (I : σ → Prop) (act : EStateM ε σ α) : Prop := ∀ s, I s → I (outcome act s).2

namespace Preserves

variable {I : σ → Prop}

theorem pure (x : α) : Preserves I (Pure.pure x : EStateM ε σ α) := fun _ hs => hs

/-- The steps that follow may rely on what is known of the answer. -/
theorem bind_answer {P : α → Prop} (h : Preserves I act) (hanswer : Answers P act)
    (hnext : ∀ x, P x → Preserves I (next x)) : Preserves I (act >>= next) := by
  intro s hs
  have hact := h s hs
  cases hend : act s with
  | error e s' =>
    rw [outcome_of_error hend] at hact
    rwa [outcome_of_error (bind_of_error hend)]
  | ok x s' =>
    rw [outcome_of_ok hend] at hact
    rw [outcome, bind_of_ok hend]
    exact hnext x (hanswer s x s' hend) s' hact

theorem bind (h : Preserves I act) (hnext : ∀ x, Preserves I (next x)) :
    Preserves I (act >>= next) :=
  bind_answer h (.any act) fun x _ => hnext x

theorem map {f : α → β} (h : Preserves I act) : Preserves I (f <$> act) := by
  intro s hs
  rw [snd_outcome_map]
  exact h s hs

theorem get : Preserves I (get : EStateM ε σ σ) := fun _ hs => hs

/-- The steps that follow may rely on the invariant for the state that is looked at. -/
theorem inspect {next : σ → EStateM ε σ β} (hnext : ∀ s, I s → Preserves I (next s)) :
    Preserves I (MonadState.get >>= next) := fun s hs => hnext s hs s hs

theorem modify {f : σ → σ} (hf : ∀ s, I s → I (f s)) : Preserves I (modify f : EStateM ε σ Unit) :=
  hf

theorem throw (e : ε) : Preserves I (throw e : EStateM ε σ α) := fun _ hs => hs

theorem ok (h : Preserves I act) (hok : act s = .ok x s') (hs : I s) : I s' := by
  have hend := h s hs
  rwa [outcome_of_ok hok] at hend

theorem mapM {τ : Type} {f : τ → EStateM ε σ α} (hf : ∀ t, Preserves I (f t)) (ts : List τ) :
    Preserves I (ts.mapM f) := by
  induction ts with
  | nil => exact .pure []
  | cons t ts ih =>
    rw [List.mapM_cons]
    exact (hf t).bind fun _ => ih.bind fun _ => .pure _

theorem forM {τ : Type} {f : τ → EStateM ε σ PUnit} (hf : ∀ t, Preserves I (f t)) (ts : List τ) :
    Preserves I (ts.forM f) := by
  induction ts with
  | nil => exact .pure _
  | cons t ts ih => exact (hf t).bind fun _ => ih

end Preserves

/-! ### Steps -/

/-- A property that computations have if all the steps that they are put together from have it. -/
structure Stepwise (P : (α : Type) → EStateM ε σ α → Prop) : Prop where
  pure {α : Type} (x : α) : P α (pure x)
  throw {α : Type} (e : ε) : P α (throw e)
  bind {α β : Type} {act : EStateM ε σ α} {next : α → EStateM ε σ β} (h : P α act)
    (hnext : ∀ x, P β (next x)) : P β (act >>= next)

namespace Stepwise

variable {P : (α : Type) → EStateM ε σ α → Prop}

theorem ofExcept (hP : Stepwise P) (r : Except ε α) : P α (ofExcept r) := by
  cases r with
  | error e => exact hP.throw e
  | ok x => exact hP.pure x

theorem map (hP : Stepwise P) (h : P α act) (f : α → β) : P β (f <$> act) := by
  rw [map_eq_pure_bind]
  exact hP.bind h fun x => hP.pure (f x)

theorem mapM {κ : Type} (hP : Stepwise P) {f : κ → EStateM ε σ α} (hf : ∀ k, P α (f k))
    (ks : List κ) : P (List α) (ks.mapM f) := by
  induction ks with
  | nil => exact hP.pure []
  | cons k ks ih =>
    rw [List.mapM_cons]
    exact hP.bind (hf k) fun _ => hP.bind ih fun _ => hP.pure _

end Stepwise

theorem preserves_stepwise (I : σ → Prop) :
    Stepwise fun α (act : EStateM ε σ α) => Preserves I act :=
  ⟨Preserves.pure, Preserves.throw, Preserves.bind⟩

/-! ### Faults -/

theorem ok_of_bind {r : Except ε α} {f : α → Except ε β} {y : β} (h : r >>= f = .ok y) :
    ∃ x, r = .ok x ∧ f x = .ok y := by
  cases r with
  | error e => cases h
  | ok x => exact ⟨x, rfl, h⟩

theorem error_of_bind {r : Except ε α} {f : α → Except ε β} (h : r >>= f = .error e) :
    r = .error e ∨ ∃ x, r = .ok x ∧ f x = .error e := by
  cases r with
  | error e' =>
    cases h
    exact .inl rfl
  | ok x => exact .inr ⟨x, rfl, h⟩

theorem discard_eq_ok_iff {r : Except ε α} : discard r = .ok () ↔ ∃ x, r = .ok x := by
  cases r with
  | error e => simp [discard, Functor.discard, Functor.mapConst, Except.map]
  | ok x => exact ⟨fun _ => ⟨x, rfl⟩, fun _ => rfl⟩

theorem discard_eq_error_iff {r : Except ε α} : discard r = .error e ↔ r = .error e := by
  cases r with
  | error e' => simp [discard, Functor.discard, Functor.mapConst, Except.map]
  | ok x =>
    constructor
    · intro h
      cases h
    · intro h
      cases h

theorem seq_eq_ok_iff {r : Except ε Unit} {q : Except ε β} {y : β} :
    (do r; q) = .ok y ↔ r = .ok () ∧ q = .ok y := by
  cases r with
  | error e => simp [bind, Except.bind]
  | ok _ => exact ⟨fun h => ⟨rfl, h⟩, fun h => h.2⟩

theorem forM_eq_ok_iff {f : α → Except ε Unit} {xs : List α} :
    xs.forM f = .ok () ↔ ∀ x ∈ xs, f x = .ok () := by
  induction xs with
  | nil => simp [pure, Except.pure]
  | cons x xs ih => rw [List.forM, seq_eq_ok_iff, ih, List.forall_mem_cons]

/-- A pass over a list fails with what the first of the elements fails with that do. -/
theorem forM_eq_error_iff {f : α → Except ε Unit} {xs : List α} :
    xs.forM f = .error e ↔ ∃ before x after, xs = before ++ x :: after ∧ f x = .error e ∧
      ∀ y ∈ before, f y = .ok () := by
  constructor
  · intro h
    induction xs with
    | nil => cases h
    | cons x xs ih =>
      rcases error_of_bind h with hx | ⟨⟨⟩, hx, h⟩
      · exact ⟨[], x, xs, rfl, hx, by simp⟩
      · obtain ⟨before, y, after, rfl, hy, hbefore⟩ := ih h
        exact ⟨x :: before, y, after, rfl, hy, List.forall_mem_cons.mpr ⟨hx, hbefore⟩⟩
  · rintro ⟨before, x, after, rfl, hx, hbefore⟩
    induction before with
    | nil =>
      show (f x >>= fun _ => after.forM f) = _
      rw [hx]
      rfl
    | cons y before ih =>
      obtain ⟨hy, hbefore⟩ := List.forall_mem_cons.mp hbefore
      show (f y >>= fun _ => (before ++ x :: after).forM f) = _
      rw [hy]
      exact ih hbefore

theorem mapM_eq_ok_iff {f : α → Except ε β} {xs : List α} {ys : List β} :
    xs.mapM f = .ok ys ↔ List.Forall₂ (fun x y => f x = .ok y) xs ys := by
  constructor
  · intro h
    induction xs generalizing ys with
    | nil =>
      cases h
      exact .nil
    | cons x xs ih =>
      rw [List.mapM_cons] at h
      obtain ⟨y, hy, h⟩ := ok_of_bind h
      obtain ⟨ys', hys, h⟩ := ok_of_bind h
      cases h
      exact .cons hy (ih hys)
  · intro h
    induction h with
    | nil => rfl
    | cons hy _ ih =>
      rw [List.mapM_cons, hy]
      change (List.mapM f _ >>= fun ys => Except.ok (_ :: ys)) = _
      rw [ih]
      rfl

theorem exists_of_mapM_error {f : α → Except ε β} {xs : List α} (h : xs.mapM f = .error e) :
    ∃ x ∈ xs, f x = .error e := by
  induction xs with
  | nil => cases h
  | cons x xs ih =>
    rw [List.mapM_cons] at h
    rcases error_of_bind h with hx | ⟨y, -, h⟩
    · exact ⟨x, List.mem_cons_self, hx⟩
    rcases error_of_bind h with hxs | ⟨ys, -, h⟩
    · obtain ⟨z, hz, he⟩ := ih hxs
      exact ⟨z, List.mem_cons_of_mem x hz, he⟩
    · cases h

theorem mapM_of_error {f : α → Except ε β} {xs : List α} {x : α} (hx : x ∈ xs)
    (he : f x = .error e) : ∃ e', xs.mapM f = .error e' := by
  induction xs with
  | nil => cases hx
  | cons z xs ih =>
    rw [List.mapM_cons]
    cases hz : f z with
    | error e₁ => exact ⟨e₁, rfl⟩
    | ok y =>
      rcases List.mem_cons.mp hx with rfl | hx
      · rw [he] at hz
        cases hz
      · obtain ⟨e', he'⟩ := ih hx
        exact ⟨e', by rw [he']; rfl⟩

theorem exists_mapM_eq_ok_iff {f : α → Except ε β} {xs : List α} :
    (∃ ys, xs.mapM f = .ok ys) ↔ ∀ x ∈ xs, ∃ y, f x = .ok y := by
  constructor
  · rintro ⟨ys, hys⟩ x hx
    cases hf : f x with
    | ok y => exact ⟨y, rfl⟩
    | error e =>
      obtain ⟨e', he'⟩ := mapM_of_error hx hf
      rw [hys] at he'
      cases he'
  · intro h
    cases hmap : xs.mapM f with
    | ok ys => exact ⟨ys, rfl⟩
    | error e =>
      obtain ⟨x, hx, he⟩ := exists_of_mapM_error hmap
      obtain ⟨y, hy⟩ := h x hx
      rw [hy] at he
      cases he

/-- Whatever the state, all that the computation can fail with are faults of which `F` holds. -/
def FaultsAre (F : ε → Prop) (act : EStateM ε σ α) : Prop :=
  ∀ s e s', act s = .error e s' → F e

namespace FaultsAre

variable {F : ε → Prop}

theorem mono {G : ε → Prop} (h : FaultsAre F act) (hFG : ∀ e, F e → G e) : FaultsAre G act :=
  fun s e s' he => hFG e (h s e s' he)

theorem pure (x : α) : FaultsAre F (Pure.pure x : EStateM ε σ α) := by
  intro s e s' h
  cases h

theorem throw (h : F e) : FaultsAre F (throw e : EStateM ε σ α) := by
  intro s e' s' he
  cases he
  exact h

theorem ofExcept {r : Except ε α} (h : ∀ e, r = .error e → F e) :
    FaultsAre F (ofExcept r : EStateM ε σ α) := by
  cases r with
  | error e => exact .throw (h e rfl)
  | ok x => exact .pure x

theorem bind (h : FaultsAre F act) (hnext : ∀ x, FaultsAre F (next x)) :
    FaultsAre F (act >>= next) := by
  intro s e s' he
  rcases cases_of_bind_error he with hact | ⟨x, s₁, -, he⟩
  · exact h s e s' hact
  · exact hnext x s₁ e s' he

theorem map {f : α → β} (h : FaultsAre F act) : FaultsAre F (f <$> act) := by
  intro s e s' he
  cases hact : act s with
  | error e' s₁ =>
    rw [map_of_error f hact] at he
    cases he
    exact h s e s' hact
  | ok x s₁ =>
    rw [map_of_ok f hact] at he
    cases he

end FaultsAre

end JvmAssembler
