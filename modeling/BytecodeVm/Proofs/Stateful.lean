/- # Computations with a state

Frames, cursors and loading are computations that carry a state and can fail.  How such a
computation ends tells how its parts ended.
-/
import Mathlib.Tactic.Common

namespace BytecodeVm.Stateful

variable {ε ς α β : Type} {s s' : ς} {e : ε} {b : β}

theorem pure_ok_iff {b₀ : β} : (pure b₀ : EStateM ε ς β) s = .ok b s' ↔ b = b₀ ∧ s' = s := by
  constructor
  · intro h
    cases h
    exact ⟨rfl, rfl⟩
  · rintro ⟨rfl, rfl⟩
    rfl

theorem bind_ok_iff {x : EStateM ε ς α} {k : α → EStateM ε ς β} :
    (x >>= k) s = .ok b s' ↔ ∃ a s₁, x s = .ok a s₁ ∧ k a s₁ = .ok b s' := by
  simp only [bind, EStateM.bind]
  cases x s with
  | ok a s₁ => simp
  | error e s₁ => simp

theorem bind_error_iff {x : EStateM ε ς α} {k : α → EStateM ε ς β} :
    (x >>= k) s = .error e s' ↔
      x s = .error e s' ∨ ∃ a s₁, x s = .ok a s₁ ∧ k a s₁ = .error e s' := by
  simp only [bind, EStateM.bind]
  cases x s with
  | ok a s₁ => simp
  | error e s₁ => simp

theorem map_ok_iff {x : EStateM ε ς α} {k : α → β} :
    (k <$> x) s = .ok b s' ↔ ∃ a, x s = .ok a s' ∧ b = k a := by
  simp only [Functor.map, EStateM.map]
  cases x s with
  | ok a s₁ => simp [eq_comm, and_comm]
  | error e s₁ => simp

theorem map_error_iff {x : EStateM ε ς α} {k : α → β} :
    (k <$> x) s = .error e s' ↔ x s = .error e s' := by
  simp only [Functor.map, EStateM.map]
  cases x s with
  | ok a s₁ => simp
  | error e s₁ => simp

/-! Two runs of one computation from states that are related. -/

section Related

variable {R : ς → ς → Prop}

/-- Two results with the same value, or the same fault, and with states that are related. -/
inductive Agree (R : ς → ς → Prop) :
    EStateM.Result ε ς α → EStateM.Result ε ς α → Prop where
  | ok {s s' : ς} (a : α) (h : R s s') : Agree R (.ok a s) (.ok a s')
  | error {s s' : ς} (e : ε) (h : R s s') : Agree R (.error e s) (.error e s')

theorem Agree.ok_or_error {r r' : EStateM.Result ε ς α} (h : Agree R r r') :
    (∃ a s s', r = .ok a s ∧ r' = .ok a s' ∧ R s s') ∨
      ∃ e s s', r = .error e s ∧ r' = .error e s' ∧ R s s' := by
  cases h with
  | ok a h => exact .inl ⟨a, _, _, rfl, rfl, h⟩
  | error e h => exact .inr ⟨e, _, _, rfl, rfl, h⟩

/-- From states that are related, the computation comes to the same. -/
def Respects (R : ς → ς → Prop) (x : EStateM ε ς α) : Prop :=
  ∀ ⦃s s' : ς⦄, R s s' → Agree R (x s) (x s')

theorem Respects.pure (a : α) : Respects R (pure a : EStateM ε ς α) :=
  fun _ _ h => .ok a h

theorem Respects.throw (e : ε) : Respects R (throw e : EStateM ε ς α) :=
  fun _ _ h => .error e h

theorem Respects.bind {x : EStateM ε ς α} {k : α → EStateM ε ς β} (hx : Respects R x)
    (hk : ∀ a, Respects R (k a)) : Respects R (x >>= k) := by
  intro s s' h
  simp only [Bind.bind, EStateM.bind]
  rcases (hx h).ok_or_error with ⟨a, s₁, s₁', heq, heq', hs⟩ | ⟨e, s₁, s₁', heq, heq', hs⟩
  · simp only [heq, heq']
    exact hk a hs
  · simp only [heq, heq']
    exact .error e hs

theorem Respects.map {x : EStateM ε ς α} (hx : Respects R x) (k : α → β) :
    Respects R (k <$> x) := by
  intro s s' h
  simp only [Functor.map, EStateM.map]
  rcases (hx h).ok_or_error with ⟨a, s₁, s₁', heq, heq', hs⟩ | ⟨e, s₁, s₁', heq, heq', hs⟩
  · simp only [heq, heq']
    exact .ok (k a) hs
  · simp only [heq, heq']
    exact .error e hs

end Related

end BytecodeVm.Stateful
