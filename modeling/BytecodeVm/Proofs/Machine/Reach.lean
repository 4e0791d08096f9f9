/- # What a machine comes to

`Machine.Reaches r r'`: from the step result `r`, steps lead to `r'`.  A configuration of a run is a
`running` result that its start reaches, and its end is a `finished` one, so that one relation
speaks of both.

* `Machine.Reaches.invariant`, `Machine.Reaches.running_invariant`: what holds at the start and is
  kept by every step holds throughout;
* `Machine.exists_invoke_iff`: an invocation ends in some number of steps exactly when its start
  reaches that end.
-/
import BytecodeVm.Machine.Run
import Mathlib.Tactic.Common

namespace BytecodeVm

variable {σ : Type}

/-- All activations of a configuration, the running one first. -/
def Config.active (c : Config σ) : List Activation :=
  c.current :: c.callers

namespace Machine

/-! ## 1. Steps, one after another -/

/-- What the next instruction of the running activation does to its frame. -/
def next (m : Machine σ) (c : Config σ) : EStateM.Result Trap Frame Request :=
  Frame.advance m.literal c.state.heap c.current.frame

theorem step_of_next {m : Machine σ} {c : Config σ} {request : Request} {f : Frame}
    (h : m.next c = .ok request f) :
    m.step c = m.serve c.state { c.current with frame := f } c.callers request := by
  simp only [next] at h
  simp only [step, h]

theorem step_of_next_error {m : Machine σ} {c : Config σ} {trap : Trap} {f : Frame}
    (h : m.next c = .error trap f) : m.step c = .finished (.trapped trap) c.state := by
  simp only [next] at h
  simp only [step, h]

/-- From one step result, steps lead to another. -/
inductive Reaches (m : Machine σ) : StepResult σ → StepResult σ → Prop
  | refl (r : StepResult σ) : Reaches m r r
  | head {c : Config σ} {r : StepResult σ} : Reaches m (m.step c) r → Reaches m (.running c) r

namespace Reaches

variable {m : Machine σ}

theorem trans {r₁ r₂ r₃ : StepResult σ} (h : m.Reaches r₁ r₂) (h' : m.Reaches r₂ r₃) :
    m.Reaches r₁ r₃ := by
  induction h with
  | refl _ => exact h'
  | head _ ih => exact .head (ih h')

/-- One more step at the end. -/
theorem tail {r : StepResult σ} {c : Config σ} (h : m.Reaches r (.running c)) :
    m.Reaches r (m.step c) :=
  h.trans (.head (.refl _))

/-- **The invariant rule.**  What every step keeps, every run keeps. -/
theorem invariant {P : StepResult σ → Prop} {r r' : StepResult σ} (h : m.Reaches r r')
    (start : P r) (step : ∀ c, P (.running c) → P (m.step c)) : P r' := by
  induction h with
  | refl _ => exact start
  | head _ ih => exact ih (step _ start)

/-- **The invariant rule for configurations.**  What holds where a run starts and is kept by every
step that goes on holds in every configuration that the run comes to. -/
theorem running_invariant {P : Config σ → Prop} {r : StepResult σ} {c : Config σ}
    (h : m.Reaches r (.running c)) (start : ∀ c, r = .running c → P c)
    (step : ∀ c c', m.Reaches r (.running c) → P c → m.step c = .running c' → P c') : P c := by
  have key : m.Reaches r (.running c) ∧ ∀ c', StepResult.running c = .running c' → P c' := by
    refine h.invariant (P := fun r' => m.Reaches r r' ∧ ∀ c', r' = .running c' → P c')
      ⟨.refl r, start⟩ ?_
    rintro c₁ ⟨hr, hc₁⟩
    exact ⟨hr.tail, fun c' hs => step c₁ c' hr (hc₁ c₁ rfl) hs⟩
  exact key.2 c rfl

/-- Nothing comes after an end. -/
theorem eq_of_finished {r : StepResult σ} {o : Outcome} {s : State σ}
    (h : m.Reaches (.finished o s) r) : r = .finished o s := by
  cases h
  rfl

/-- An end is there from the beginning, or a step leads to it. -/
theorem finished_cases {r : StepResult σ} {o : Outcome} {s : State σ}
    (h : m.Reaches r (.finished o s)) :
    r = .finished o s ∨ ∃ c, m.Reaches r (.running c) ∧ m.step c = .finished o s := by
  generalize StepResult.finished o s = r' at h
  induction h with
  | refl r => exact .inl rfl
  | @head c r' _ ih =>
    rcases ih with hs | ⟨c', hc', hs⟩
    · exact .inr ⟨c, .refl _, hs⟩
    · exact .inr ⟨c', .head hc', hs⟩

end Reaches

/-- Whether a run ends within the given number of steps and a condition holds in all of its
configurations. -/
def everywhere (m : Machine σ) (P : Config σ → Bool) : Nat → StepResult σ → Bool
  | _, .finished _ _ => true
  | 0, .running _ => false
  | fuel + 1, .running c => P c && everywhere m P fuel (m.step c)

theorem of_everywhere {m : Machine σ} {P : Config σ → Bool} {fuel : Nat} {r : StepResult σ}
    {c : Config σ} (h : m.everywhere P fuel r = true) (hc : m.Reaches r (.running c)) :
    P c = true := by
  generalize hr : StepResult.running c = r' at hc
  induction hc generalizing fuel with
  | refl r =>
    subst hr
    cases fuel with
    | zero => simp [everywhere] at h
    | succ fuel => exact (Bool.and_eq_true_iff.mp h).1
  | head _ ih =>
    cases fuel with
    | zero => simp [everywhere] at h
    | succ fuel => exact ih (Bool.and_eq_true_iff.mp h).2 hr

/-- Whether a run is in a configuration with the given property after the given number of steps. -/
def comesTo (m : Machine σ) (P : Config σ → Bool) : Nat → StepResult σ → Bool
  | 0, .running c => P c
  | n + 1, .running c => comesTo m P n (m.step c)
  | _, .finished _ _ => false

theorem exists_of_comesTo {m : Machine σ} {P : Config σ → Bool} {n : Nat} {r : StepResult σ}
    (h : m.comesTo P n r = true) : ∃ c, m.Reaches r (.running c) ∧ P c = true := by
  induction n generalizing r with
  | zero =>
    cases r with
    | running c => exact ⟨c, .refl _, h⟩
    | finished o s => cases h
  | succ n ih =>
    cases r with
    | running c =>
      obtain ⟨c', hreach, hP⟩ := ih h
      exact ⟨c', .head hreach, hP⟩
    | finished o s => cases h

/-- A machine for the given bodies, with the default settings and without constants or natives. -/
def ofBodies (bodies : List Body) : Machine Unit where
  program := { major := 1, minor := 0, imports := [], constants := #[], types := [], bodies }
  settings := .default
  host := ⟨fun id _ heap s => ⟨.error (.unknownNative id), heap, s, []⟩⟩

/-! ## 2. Runs of a given length -/

/-- Goes on from a step result, for at most the given number of steps. -/
def complete (m : Machine σ) (fuel : Nat) : StepResult σ → Option (Outcome × State σ)
  | .running c => m.run fuel c
  | .finished outcome s => some (outcome, s)

@[simp] theorem complete_finished (m : Machine σ) (fuel : Nat) (o : Outcome) (s : State σ) :
    m.complete fuel (.finished o s) = some (o, s) :=
  rfl

@[simp] theorem complete_zero_running (m : Machine σ) (c : Config σ) :
    m.complete 0 (.running c) = none :=
  rfl

@[simp] theorem complete_succ_running (m : Machine σ) (fuel : Nat) (c : Config σ) :
    m.complete (fuel + 1) (.running c) = m.complete fuel (m.step c) := by
  cases hs : m.step c with
  | running c' => simp only [complete, run, hs]
  | finished o s => simp only [complete, run, hs]

theorem invoke_eq_complete (m : Machine σ) (fuel : Nat) (s : State σ) (index : UInt16)
    (args : List Value) : m.invoke fuel s index args = m.complete fuel (m.start s index args) := by
  cases hs : m.start s index args with
  | running c => simp only [invoke, complete, hs]
  | finished o s' => simp only [invoke, complete, hs]

theorem runEntry_eq_complete (m : Machine σ) (fuel : Nat) (s : State σ) :
    m.runEntry fuel s =
      (m.complete fuel (m.startEntry s)).map fun e => (entryResult e.2 e.1, e.2) := by
  cases hs : m.startEntry s with
  | running c => simp only [runEntry, complete, hs, Option.map_eq_map]
  | finished o s' => simp only [runEntry, complete, hs, Option.map_some]

theorem reaches_of_complete {m : Machine σ} {fuel : Nat} {r : StepResult σ} {o : Outcome}
    {s : State σ} (h : m.complete fuel r = some (o, s)) : m.Reaches r (.finished o s) := by
  induction fuel generalizing r with
  | zero =>
    cases r with
    | running c => simp at h
    | finished o' s' =>
      simp only [complete_finished, Option.some.injEq, Prod.mk.injEq] at h
      obtain ⟨rfl, rfl⟩ := h
      exact .refl _
  | succ fuel ih =>
    cases r with
    | running c => exact .head (ih (by simpa using h))
    | finished o' s' => exact ih (by simpa using h)

theorem exists_complete_of_reaches {m : Machine σ} {r : StepResult σ} {o : Outcome} {s : State σ}
    (h : m.Reaches r (.finished o s)) : ∃ fuel, m.complete fuel r = some (o, s) := by
  generalize hr : StepResult.finished o s = r' at h
  induction h with
  | refl _ => exact ⟨0, by rw [← hr]; rfl⟩
  | head _ ih =>
    obtain ⟨fuel, hf⟩ := ih hr
    exact ⟨fuel + 1, by rw [complete_succ_running, hf]⟩

/-- **An invocation ends in some number of steps exactly when its start reaches that end.** -/
theorem exists_invoke_iff (m : Machine σ) (s s' : State σ) (index : UInt16) (args : List Value)
    (o : Outcome) :
    (∃ fuel, m.invoke fuel s index args = some (o, s')) ↔
      m.Reaches (m.start s index args) (.finished o s') := by
  constructor
  · rintro ⟨fuel, h⟩
    rw [invoke_eq_complete] at h
    exact reaches_of_complete h
  · intro h
    obtain ⟨fuel, hf⟩ := exists_complete_of_reaches h
    exact ⟨fuel, by rw [invoke_eq_complete, hf]⟩

end Machine

end BytecodeVm
