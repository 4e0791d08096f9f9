/- # Raising the limit

A machine that is allowed more activations at a time does the same as before, step by step, up to the
call that was one too many.  So an invocation that never makes such a call is the same under every
higher limit, and one that does has asked the host for nothing that it does not ask for under a higher
limit too.

* `Machine.limited`: the same machine under another limit;
* `Machine.step_limited`: a step is the same under a higher limit, unless it hits the lower one;
* `Machine.nativeCalls`: what the host is asked for in a number of steps, and what it answers;
* `Machine.limit_transparent`: invocations under two limits.
-/
import BytecodeVm.Proofs.Machine.Recursive

namespace BytecodeVm.Machine

variable {σ : Type} {m : Machine σ} {d d' : Nat}

/-! ## 1. Steps -/

/-- The same machine under another limit. -/
def limited (m : Machine σ) (d : Nat) : Machine σ :=
  { m with settings.maxDepth := d }

/-- A call is the same under a higher limit, unless it hits the lower one. -/
theorem dispatch_limited (hd : d ≤ d') (s : State σ) (index : UInt16) (args : List Value)
    (keep : Bool) (depth : Nat) (callers : List Activation) :
    (m.limited d).dispatch s index args keep depth callers =
        (m.limited d').dispatch s index args keep depth callers ∨
      (m.limited d).dispatch s index args keep depth callers =
        .finished (.trapped (.depthExceeded d)) s := by
  rcases Nat.lt_or_ge depth d with hlt | hge
  · left
    have hlow : ¬ (m.limited d).settings.maxDepth ≤ depth := Nat.not_le.mpr hlt
    have hhigh : ¬ (m.limited d').settings.maxDepth ≤ depth :=
      Nat.not_le.mpr (Nat.lt_of_lt_of_le hlt hd)
    rw [dispatch, dispatch, activate, activate, if_neg hlow, if_neg hhigh]
    rfl
  · right
    rw [dispatch, activate_of_tooDeep (m := m.limited d) hge]
    rfl

/-- **A step is the same under a higher limit**, unless it hits the lower one. -/
theorem step_limited (hd : d ≤ d') (c : Config σ) :
    (m.limited d).step c = (m.limited d').step c ∨
      (m.limited d).step c = .finished (.trapped (.depthExceeded d)) c.state := by
  -- the limit is not in the way of an instruction, but only of serving a call
  cases hn : m.next c with
  | error trap f =>
    left
    rw [step_of_next_error (m := m.limited d) hn, step_of_next_error (m := m.limited d') hn]
  | ok request f =>
    rw [step_of_next (m := m.limited d) hn, step_of_next (m := m.limited d') hn]
    cases request with
    | call index args keep =>
      rw [serve_call, serve_call]
      exact dispatch_limited hd _ _ _ _ _ _
    | _ => exact .inl rfl

/-! ## 2. Runs -/

/-- **A run that does not hit its limit** is the same under a higher one. -/
theorem complete_limited (hd : d ≤ d') {fuel : Nat} {r : StepResult σ} {o : Outcome} {s : State σ}
    (h : (m.limited d).complete fuel r = some (o, s)) (ho : o ≠ .trapped (.depthExceeded d)) :
    (m.limited d').complete fuel r = some (o, s) := by
  induction fuel generalizing r with
  | zero =>
    cases r with
    | running c => simp at h
    | finished _ _ => exact h
  | succ fuel ih =>
    cases r with
    | running c =>
      rw [complete_succ_running] at h ⊢
      rcases step_limited hd c with hsame | hhit
      · exact ih (hsame ▸ h)
      · rw [hhit, complete_finished, Option.some.injEq, Prod.mk.injEq] at h
        exact absurd h.1.symm ho
    | finished _ _ => exact h

/-- A native call: what the host is asked for, and its answer. -/
structure NativeCall (σ : Type) where
  id : UInt16
  args : List Value
  reply : HostReply σ

/-- The native call that the next instruction makes, if it makes one. -/
def nativeCall? (m : Machine σ) (c : Config σ) : Option (NativeCall σ) :=
  match m.next c with
  | .ok (.native id args) _ => some ⟨id, args, m.host.call id args c.state.heap c.state.host⟩
  | _ => none

/-- The native calls that are made from a step result on, in the given number of steps. -/
def nativeCalls (m : Machine σ) : Nat → StepResult σ → List (NativeCall σ)
  | fuel + 1, .running c => (m.nativeCall? c).toList ++ nativeCalls m fuel (m.step c)
  | _, _ => []

theorem nativeCalls_succ_running (fuel : Nat) (c : Config σ) :
    m.nativeCalls (fuel + 1) (.running c) =
      (m.nativeCall? c).toList ++ m.nativeCalls fuel (m.step c) :=
  rfl

@[simp] theorem nativeCalls_finished (fuel : Nat) (o : Outcome) (s : State σ) :
    m.nativeCalls fuel (.finished o s) = [] := by
  cases fuel <;> rfl

/-- A run that has ended makes no more native calls. -/
theorem nativeCalls_of_complete {fuel : Nat} {r : StepResult σ} {e : Outcome × State σ}
    (h : m.complete fuel r = some e) (n : Nat) : m.nativeCalls n r <+: m.nativeCalls fuel r := by
  induction fuel generalizing r n with
  | zero =>
    cases r with
    | running c => simp at h
    | finished _ _ => simp
  | succ fuel ih =>
    cases r with
    | finished _ _ => simp
    | running c =>
      cases n with
      | zero => exact List.nil_prefix
      | succ n =>
        rw [complete_succ_running] at h
        rw [nativeCalls_succ_running, nativeCalls_succ_running, List.prefix_append_right_inj]
        exact ih h n

/-- **The native calls of a run come first among those of a longer run under a higher limit.** -/
theorem nativeCalls_limited (hd : d ≤ d') {fuel fuel' : Nat} (hfuel : fuel ≤ fuel')
    (r : StepResult σ) :
    (m.limited d).nativeCalls fuel r <+: (m.limited d').nativeCalls fuel' r := by
  induction fuel generalizing fuel' r with
  | zero => exact List.nil_prefix
  | succ fuel ih =>
    obtain ⟨fuel', rfl⟩ : ∃ n, fuel' = n + 1 := ⟨fuel' - 1, by omega⟩
    cases r with
    | finished _ _ =>
      rw [nativeCalls_finished]
      exact List.nil_prefix
    | running c =>
      have hcall : (m.limited d).nativeCall? c = (m.limited d').nativeCall? c := rfl
      rw [nativeCalls_succ_running, nativeCalls_succ_running, hcall, List.prefix_append_right_inj]
      rcases step_limited hd c with hsame | hhit
      · rw [hsame]
        exact ih (by omega) _
      · rw [hhit, nativeCalls_finished]
        exact List.nil_prefix

/-! ## 3. Invocations -/

/-- **The limit is transparent until it is hit.**  Take the same machine under a lower and a higher
limit.  An invocation that ends under the lower one, and not because it hits it, ends in the same way
and in the same state under the higher one.  If it does hit the lower limit, then all the native calls
that it has made, with their answers, come first among those made under the higher limit, where the
run has been followed for as many steps or more. -/
theorem limit_transparent (m : Machine σ) (hd : d ≤ d') (s : State σ) (index : UInt16)
    (args : List Value) :
    (∀ fuel o s', (m.limited d).invoke fuel s index args = some (o, s') →
      o ≠ .trapped (.depthExceeded d) →
        (m.limited d').invoke fuel s index args = some (o, s')) ∧
    ∀ fuel s', (m.limited d).invoke fuel s index args = some (.trapped (.depthExceeded d), s') →
      ∀ n, ∀ fuel' ≥ fuel, (m.limited d).nativeCalls n ((m.limited d).start s index args) <+:
        (m.limited d').nativeCalls fuel' ((m.limited d').start s index args) := by
  have hstart := dispatch_limited (m := m) hd { s with handlers := [] } index args true 0 []
  refine ⟨?_, ?_⟩
  · intro fuel o s' h ho
    rw [invoke_eq_complete, start_eq_dispatch] at h ⊢
    rcases hstart with hsame | hhit
    · exact hsame ▸ complete_limited hd h ho
    · rw [hhit, complete_finished, Option.some.injEq, Prod.mk.injEq] at h
      exact absurd h.1.symm ho
  · intro fuel s' h n fuel' hfuel
    rw [invoke_eq_complete] at h
    refine (nativeCalls_of_complete h n).trans ?_
    rw [start_eq_dispatch, start_eq_dispatch]
    rcases hstart with hsame | hhit
    · exact hsame ▸ nativeCalls_limited hd hfuel _
    · rw [hhit, nativeCalls_finished]
      exact List.nil_prefix

/-- A method that calls itself for as long as the host says so, which counts down. -/
def countdown : Machine Nat where
  program := (ofBodies [ ⟨0, 0, (Instr.assemble [.callNative 7 0, .jmpFalse 13, .call 0 0,
    .ret]).toArray⟩ ]).program
  settings := .default
  host := ⟨fun _ _ heap n => ⟨.ok (.bool (n != 0)), heap, n - 1, []⟩⟩

/-- With two activations, one can count down from one, and so one can with three.  Counting down from
four makes two native calls before it fails, and these are also made with three activations. -/
theorem countdown_limit :
    (∃ s, (countdown.limited 2).invoke 20 (State.initial 1) 0 [] = some (.returned .null, s) ∧
      (countdown.limited 3).invoke 20 (State.initial 1) 0 [] = some (.returned .null, s)) ∧
    (∃ s, (countdown.limited 2).invoke 20 (State.initial 4) 0 [] =
      some (.trapped (.depthExceeded 2), s)) ∧
    (countdown.limited 2).nativeCalls 20 ((countdown.limited 2).start (State.initial 4) 0 []) <+:
      (countdown.limited 3).nativeCalls 20 ((countdown.limited 3).start (State.initial 4) 0 []) ∧
    ((countdown.limited 2).nativeCalls 20 ((countdown.limited 2).start (State.initial 4) 0 [])).map
      (fun call => (call.id, call.reply.result.toOption, call.reply.state)) =
        [(7, some (.bool true), 3), (7, some (.bool true), 2)] := by
  have hends : ((countdown.limited 2).invoke 20 (State.initial 1) 0 []).map Prod.fst =
      some (.returned .null) := by
    decide +kernel
  have hhits : ((countdown.limited 2).invoke 20 (State.initial 4) 0 []).map Prod.fst =
      some (.trapped (.depthExceeded 2)) := by
    decide +kernel
  obtain ⟨⟨o, s⟩, hlow, rfl⟩ := Option.map_eq_some_iff.mp hends
  obtain ⟨⟨o', s'⟩, hlow', rfl⟩ := Option.map_eq_some_iff.mp hhits
  have hlimit : 2 ≤ 3 := by decide
  exact ⟨⟨s, hlow, (limit_transparent countdown hlimit _ 0 []).1 20 _ s hlow nofun⟩, ⟨s', hlow'⟩,
    (limit_transparent countdown hlimit _ 0 []).2 20 s' hlow' 20 20 (Nat.le_refl _),
    by decide +kernel⟩

end BytecodeVm.Machine
