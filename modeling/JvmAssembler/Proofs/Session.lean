import Mathlib.Algebra.BigOperators.Group.List.Basic
import Mathlib.Algebra.Order.Ring.Nat

/-!
# Sessions

A session is a sequence of calls on one state. A call that fails does not end the session: the next
one is made on the state that it left. What holds of every state of every session follows from what
one call preserves, and two machines that answer one call alike answer whole sessions alike.
-/

namespace JvmAssembler

variable {κ ε σ τ α : Type}

/-- What a computation answers, and the state that it leaves whether or not it fails. -/
def outcome (act : EStateM ε σ α) (s : σ) : Except ε α × σ :=
  match act s with
  | .ok a s => (.ok a, s)
  | .error e s => (.error e, s)

theorem outcome_of_ok {act : EStateM ε σ α} {s s' : σ} {a : α} (h : act s = .ok a s') :
    outcome act s = (.ok a, s') := by
  rw [outcome, h]

theorem outcome_of_error {act : EStateM ε σ α} {s s' : σ} {e : ε} (h : act s = .error e s') :
    outcome act s = (.error e, s') := by
  rw [outcome, h]

theorem ok_of_outcome {act : EStateM ε σ α} {s : σ} {a : α} (h : (outcome act s).1 = .ok a) :
    act s = .ok a (outcome act s).2 := by
  rw [outcome] at h ⊢
  cases hact : act s with
  | error e s' =>
    rw [hact] at h
    cases h
  | ok b s' =>
    rw [hact] at h
    cases h
    rfl

/-- The only fault that there can be is the one that is answered. -/
theorem error_iff_of_unique {P : ε → Prop} {e : ε} (he : P e) (hunique : ∀ e', P e' → e = e')
    (e' : ε) : (.error e : Except ε α) = .error e' ↔ P e' := by
  constructor
  · rintro ⟨⟩
    exact he
  · intro he'
    rw [hunique e' he']

/-- The answers to the calls of a session, in order, and the state at its end. -/
def performAll (perform : κ → EStateM ε σ α) : List κ → σ → List (Except ε α) × σ
  | [], s => ([], s)
  | call :: calls, s =>
    let (answer, s) := outcome (perform call) s
    let (answers, s) := performAll perform calls s
    (answer :: answers, s)

theorem performAll_cons (perform : κ → EStateM ε σ α) (call : κ) (calls : List κ) (s : σ) :
    performAll perform (call :: calls) s =
      ((outcome (perform call) s).1 ::
        (performAll perform calls (outcome (perform call) s).2).1,
        (performAll perform calls (outcome (perform call) s).2).2) := rfl

theorem performAll_append (perform : κ → EStateM ε σ α) (calls more : List κ) (s : σ) :
    performAll perform (calls ++ more) s =
      ((performAll perform calls s).1 ++ (performAll perform more (performAll perform calls s).2).1,
        (performAll perform more (performAll perform calls s).2).2) := by
  induction calls generalizing s with
  | nil => rfl
  | cons call calls ih =>
    rw [List.cons_append, performAll_cons, ih]
    rfl

theorem performAll_preserves {perform : κ → EStateM ε σ α} {P : σ → Prop}
    (step : ∀ call s, P s → P (outcome (perform call) s).2) (calls : List κ) {s : σ} (hs : P s) :
    P (performAll perform calls s).2 := by
  induction calls generalizing s with
  | nil => exact hs
  | cons call calls ih => exact ih (step call s hs)

theorem performAll_simulates {perform : κ → EStateM ε σ α} {perform' : κ → EStateM ε τ α}
    {R : σ → τ → Prop}
    (step : ∀ call s t, R s t → (outcome (perform call) s).1 = (outcome (perform' call) t).1 ∧
      R (outcome (perform call) s).2 (outcome (perform' call) t).2)
    (calls : List κ) {s : σ} {t : τ} (hst : R s t) :
    (performAll perform calls s).1 = (performAll perform' calls t).1 ∧
      R (performAll perform calls s).2 (performAll perform' calls t).2 := by
  induction calls generalizing s t with
  | nil => exact ⟨rfl, hst⟩
  | cons call calls ih =>
    obtain ⟨hanswer, hnext⟩ := step call s t hst
    obtain ⟨hanswers, hend⟩ := ih hnext
    rw [performAll_cons, performAll_cons, hanswer, hanswers]
    exact ⟨rfl, hend⟩

end JvmAssembler
