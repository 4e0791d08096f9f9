/- # Calls as recursion

The machine runs all activations in one loop over an explicit stack.  Here a call is evaluated the
way it is understood: the callee is evaluated to its end, one level deeper, and its outcome is given
to the caller, which takes a result, lands an abort or passes it on.

* `Machine.Evaluates`: the recursive evaluation, rule by rule;
* `Machine.realizes_of_evaluates`: the loop does what the evaluation says, over any callers;
* `Machine.decomposes`: a loop that ends has evaluated its running activation on the way;
* `Machine.invoke_iff_evaluates`: an invocation ends exactly as its evaluation does.
-/
import BytecodeVm.Proofs.Machine.Transition

namespace BytecodeVm

variable {σ : Type}

/-! ## 1. The evaluation -/

/-- The value of a constant, built from its entry in the pool. -/
def Program.literal (p : Program) (index : UInt16) : Except Trap Value :=
  match p.constant? index with
  | some ⟨_, .number, _, some x⟩ => .ok (.number x)
  | some c => .ok (.string c.name)
  | none => .error (.constantOutOfRange index p.constants.size)

/-- A frame with a value on top of its stack. -/
def Frame.pushed (f : Frame) (v : Value) : Frame :=
  { f with stack := v :: f.stack }

/-- A frame at the start of a handler, with the aborted value on top of its stack. -/
def Frame.landed (f : Frame) (v : Value) (target : UInt16) : Frame :=
  { f with stack := v :: f.stack, ip := target.toNat }

namespace State

/-- The state in which an abort has been raised by the given activation. -/
def aborted (s : State σ) (id : Nat) (v : Value) : State σ :=
  s.log (.aborted id (s.heap.render v))

/-- The state in which an abort has landed in the given activation. -/
def landed (s : State σ) (id : Nat) (target : UInt16) (rest : List Handler) : State σ :=
  { s.log (.landed id target) with handlers := rest }

end State

namespace Machine

/-- What is evaluated: a call made while `depth` activations are there, or what is left to do in the
activation with serial number `id`. -/
inductive Task where
  | call (index : UInt16) (args : List Value) (depth : Nat)
  | resume (id depth : Nat) (frame : Frame)

/-- What the next instruction of a frame does to it. -/
def effect (m : Machine σ) (s : State σ) (f : Frame) : EStateM.Result Trap Frame Request :=
  Frame.advance m.program.literal s.heap f

/-- **The recursive evaluation** of a task, from a state to an outcome and a state. -/
inductive Evaluates (m : Machine σ) : Task → State σ → Outcome → State σ → Prop
  -- a call: the limit, the callee, the serial number, the frame, and then the instructions
  | tooDeep {index args depth s} : m.settings.maxDepth ≤ depth →
      Evaluates m (.call index args depth) s (.trapped (.depthExceeded m.settings.maxDepth)) s
  | missing {index args depth s} :
      depth < m.settings.maxDepth → m.program.callee? index = none →
      Evaluates m (.call index args depth) s (.trapped (.missingBody index)) s
  | undecodable {index args depth s callee trap} :
      depth < m.settings.maxDepth → m.program.callee? index = some callee →
      Frame.create callee.code callee.slots args = .error trap →
      Evaluates m (.call index args depth) s (.trapped trap)
        (s.enroll index callee args.length depth)
  | start {index args depth s callee f o s'} :
      depth < m.settings.maxDepth → m.program.callee? index = some callee →
      Frame.create callee.code callee.slots args = .ok f →
      Evaluates m (.resume s.nextFrame depth f) (s.enroll index callee args.length depth) o s' →
      Evaluates m (.call index args depth) s o s'
  -- an instruction that concerns its own frame, the heap, the host or the handlers
  | trap {id depth f f' s trap} : m.effect s f = .error trap f' →
      Evaluates m (.resume id depth f) s (.trapped trap) s
  | proceed {id depth f f' s o s'} : m.effect s f = .ok .proceed f' →
      Evaluates m (.resume id depth f') s o s' →
      Evaluates m (.resume id depth f) s o s'
  | allocate {id depth f f' s type o s'} : m.effect s f = .ok (.allocate type) f' →
      Evaluates m (.resume id depth (f'.pushed (.object s.heap.nextObject)))
        { s with heap := s.heap.allocate type } o s' →
      Evaluates m (.resume id depth f) s o s'
  | store {id depth f f' s place field v o s'} : m.effect s f = .ok (.store place field v) f' →
      Evaluates m (.resume id depth f') { s with heap := s.heap.setField place field v } o s' →
      Evaluates m (.resume id depth f) s o s'
  | native {id depth f f' s function args reply v o s'} :
      m.effect s f = .ok (.native function args) f' →
      m.host.call function args s.heap s.host = reply → reply.result = .ok v →
      Evaluates m (.resume id depth (f'.pushed v))
        { s.logAll reply.events with heap := reply.heap, host := reply.state } o s' →
      Evaluates m (.resume id depth f) s o s'
  | nativeTraps {id depth f f' s function args reply trap} :
      m.effect s f = .ok (.native function args) f' →
      m.host.call function args s.heap s.host = reply → reply.result = .error trap →
      Evaluates m (.resume id depth f) s (.trapped trap)
        { s.logAll reply.events with heap := reply.heap, host := reply.state }
  | enter {id depth f f' s target o s'} : m.effect s f = .ok (.enter target) f' →
      Evaluates m (.resume id depth f') { s with handlers := ⟨id, target⟩ :: s.handlers } o s' →
      Evaluates m (.resume id depth f) s o s'
  | leave {id depth f f' s handler rest o s'} : m.effect s f = .ok .leave f' →
      s.handlers = handler :: rest →
      Evaluates m (.resume id depth f') { s with handlers := rest } o s' →
      Evaluates m (.resume id depth f) s o s'
  | leaveTraps {id depth f f' s} : m.effect s f = .ok .leave f' → s.handlers = [] →
      Evaluates m (.resume id depth f) s (.trapped (.noHandler f'.opOffset)) s
  -- the end of the frame
  | ret {id depth f f' s v} : m.effect s f = .ok (.ret v) f' →
      Evaluates m (.resume id depth f) s (.returned v) s
  -- an abort of the frame itself
  | abortLands {id depth f f' s v target rest o s'} : m.effect s f = .ok (.abort v) f' →
      s.handlers = ⟨id, target⟩ :: rest →
      Evaluates m (.resume id depth (f'.landed v target))
        ((s.aborted id v).landed id target rest) o s' →
      Evaluates m (.resume id depth f) s o s'
  | abortEscapes {id depth f f' s v} : m.effect s f = .ok (.abort v) f' → ¬ s.OwnsLatest id →
      Evaluates m (.resume id depth f) s (.unwound v) (s.aborted id v)
  -- a call, by the outcome of its callee, whose serial number is the next one
  | callReturns {id depth f f' s index args keep v s₁ o s'} :
      m.effect s f = .ok (.call index args keep) f' →
      Evaluates m (.call index args (depth + 1)) s (.returned v) s₁ →
      Evaluates m (.resume id depth (if keep then f'.pushed v else f'))
        (s₁.log (.returned s.nextFrame (depth + 1))) o s' →
      Evaluates m (.resume id depth f) s o s'
  | callLands {id depth f f' s index args keep v s₁ target rest o s'} :
      m.effect s f = .ok (.call index args keep) f' →
      Evaluates m (.call index args (depth + 1)) s (.unwound v) s₁ →
      s₁.handlers = ⟨id, target⟩ :: rest →
      Evaluates m (.resume id depth (f'.landed v target)) (s₁.landed id target rest) o s' →
      Evaluates m (.resume id depth f) s o s'
  | callEscapes {id depth f f' s index args keep v s₁} :
      m.effect s f = .ok (.call index args keep) f' →
      Evaluates m (.call index args (depth + 1)) s (.unwound v) s₁ → ¬ s₁.OwnsLatest id →
      Evaluates m (.resume id depth f) s (.unwound v) s₁
  | callTraps {id depth f f' s index args keep trap s₁} :
      m.effect s f = .ok (.call index args keep) f' →
      Evaluates m (.call index args (depth + 1)) s (.trapped trap) s₁ →
      Evaluates m (.resume id depth f) s (.trapped trap) s₁

/-! ## 2. The two sides meet -/

/-- The table of literals holds what the pool entries give. -/
theorem literal_eq (m : Machine σ) : m.literal = m.program.literal := by
  funext index
  simp only [literal, Program.literal, Program.constant?, m.literals_eq, Array.getElem?_map,
    Array.size_map]
  cases m.program.constants[index.toNat]? with
  | none => rfl
  | some c =>
    obtain ⟨i, kind, name, number⟩ := c
    cases kind <;> cases number <;> rfl

theorem next_eq_effect (m : Machine σ) (c : Config σ) :
    m.next c = m.effect c.state c.current.frame := by
  simp only [next, effect, literal_eq]

/-- What the outcome of an activation does to the callers beneath it, which only see its serial
number and depth, and whether its result is wanted. -/
def deliver (s : State σ) (id depth : Nat) (keep : Bool) (callers : List Activation) :
    Outcome → StepResult σ
  | .returned v =>
    match callers with
    | [] => .finished (.returned v) s
    | caller :: below =>
      .running ⟨s.log (.returned id depth), if keep then caller.push v else caller, below⟩
  | .unwound v =>
    match callers with
    | [] => .finished (.unwound v) s
    | caller :: below => unwind v s caller below
  | .trapped trap => .finished (.trapped trap) s

/-- What a call leads to over the given callers. -/
def dispatch (m : Machine σ) (s : State σ) (index : UInt16) (args : List Value) (keep : Bool)
    (depth : Nat) (callers : List Activation) : StepResult σ :=
  match m.activate s index args keep depth with
  | (.ok callee, s) => .running ⟨s, callee, callers⟩
  | (.error trap, s) => .finished (.trapped trap) s

theorem serve_call (m : Machine σ) (s : State σ) (a : Activation) (callers : List Activation)
    (index : UInt16) (args : List Value) (keep : Bool) :
    m.serve s a callers (.call index args keep) =
      m.dispatch s index args keep (a.depth + 1) (a :: callers) :=
  rfl

theorem start_eq_dispatch (m : Machine σ) (s : State σ) (index : UInt16) (args : List Value) :
    m.start s index args = m.dispatch { s with handlers := [] } index args true 0 [] :=
  rfl

theorem serve_ret (m : Machine σ) (s : State σ) (a : Activation) (callers : List Activation)
    (v : Value) :
    m.serve s a callers (.ret v) = deliver s a.id a.depth a.keepResult callers (.returned v) :=
  rfl

/-- An abort lands in the activation that owns the latest handler. -/
theorem unwind_of_owner {v : Value} {s : State σ} {a : Activation} {callers : List Activation}
    {target : UInt16} {rest : List Handler} (h : s.handlers = ⟨a.id, target⟩ :: rest) :
    unwind v s a callers = .running ⟨s.landed a.id target rest, a.land v target, callers⟩ := by
  unfold unwind
  simp only [h, if_true]
  rfl

/-- An abort that an activation does not land is given to its caller. -/
theorem unwind_of_not_ownsLatest {v : Value} {s : State σ} {a : Activation} {callers : List Activation}
    (h : ¬ s.OwnsLatest a.id) :
    unwind v s a callers = deliver s a.id a.depth a.keepResult callers (.unwound v) := by
  unfold unwind
  cases hs : s.handlers with
  | nil =>
    cases callers with
    | nil => rfl
    | cons caller below =>
      simp only [deliver]
      unfold unwind
      simp only [hs]
  | cons handler rest =>
    have hid : handler.frame ≠ a.id := fun he => h ⟨handler, by simp [hs], he⟩
    simp only [if_neg hid]
    rfl

/-- If an activation owns the latest handler, that handler names it. -/
theorem handlers_of_ownsLatest {s : State σ} {id : Nat} (h : s.OwnsLatest id) :
    ∃ target rest, s.handlers = ⟨id, target⟩ :: rest := by
  obtain ⟨handler, hh, rfl⟩ := h
  cases hs : s.handlers with
  | nil => simp [hs] at hh
  | cons first rest =>
    obtain rfl : first = handler := by simpa [hs] using hh
    exact ⟨first.target, rest, rfl⟩

/-! ## 3. The loop does what the evaluation says -/

/-- An instruction of the running activation, and what serving it leads to. -/
theorem reaches_of_effect {m : Machine σ} {s : State σ} {id depth : Nat} {f f' : Frame}
    {keep : Bool} {callers : List Activation} {request : Request} {r : StepResult σ}
    (h : m.effect s f = .ok request f')
    (hr : m.Reaches (m.serve s ⟨id, depth, f', keep⟩ callers request) r) :
    m.Reaches (.running ⟨s, ⟨id, depth, f, keep⟩, callers⟩) r := by
  refine .head ?_
  rw [step_of_next (c := ⟨s, ⟨id, depth, f, keep⟩, callers⟩) ((next_eq_effect m _).trans h)]
  exact hr

/-- The loop carries out a task: over any callers, it comes to what the outcome does to them. -/
def Realizes (m : Machine σ) (s : State σ) (o : Outcome) (s' : State σ) : Task → Prop
  | .call index args depth => ∀ keep callers,
      m.Reaches (m.dispatch s index args keep depth callers)
        (deliver s' s.nextFrame depth keep callers o)
  | .resume id depth f => ∀ keep callers,
      m.Reaches (.running ⟨s, ⟨id, depth, f, keep⟩, callers⟩) (deliver s' id depth keep callers o)

/-- **The loop does what the evaluation says**, over any callers. -/
theorem realizes_of_evaluates {m : Machine σ} {t : Task} {s s' : State σ} {o : Outcome}
    (h : m.Evaluates t s o s') : m.Realizes s o s' t := by
  induction h with
  | tooDeep hd =>
    intro keep callers
    rw [dispatch, activate_of_tooDeep hd]
    exact .refl _
  | missing hd hc =>
    intro keep callers
    rw [dispatch, activate_of_missing hd hc]
    exact .refl _
  | undecodable hd hc hf =>
    intro keep callers
    rw [dispatch, activate_of_create_error hd hc hf]
    exact .refl _
  | start hd hc hf _ ih =>
    intro keep callers
    rw [dispatch, activate_of_create hd hc hf]
    exact ih keep callers
  | @trap id depth f f' s trap he =>
    intro keep callers
    refine .head ?_
    rw [step_of_next_error (c := ⟨s, ⟨id, depth, f, keep⟩, callers⟩)
      ((next_eq_effect m _).trans he)]
    exact .refl _
  | proceed he _ ih => exact fun keep callers => reaches_of_effect he (ih keep callers)
  | allocate he _ ih => exact fun keep callers => reaches_of_effect he (ih keep callers)
  | store he _ ih => exact fun keep callers => reaches_of_effect he (ih keep callers)
  | native he hreply hv _ ih =>
    intro keep callers
    refine reaches_of_effect he ?_
    simp only [serve, hreply, hv]
    exact ih keep callers
  | nativeTraps he hreply ht =>
    intro keep callers
    refine reaches_of_effect he ?_
    simp only [serve, hreply, ht]
    exact .refl _
  | enter he _ ih => exact fun keep callers => reaches_of_effect he (ih keep callers)
  | leave he hh _ ih =>
    intro keep callers
    refine reaches_of_effect he ?_
    simp only [serve, hh]
    exact ih keep callers
  | leaveTraps he hh =>
    intro keep callers
    refine reaches_of_effect he ?_
    simp only [serve, hh]
    exact .refl _
  | ret he => exact fun keep callers => reaches_of_effect he (.refl _)
  | @abortLands id depth f f' s v target rest o s' he hh _ ih =>
    intro keep callers
    refine reaches_of_effect he ?_
    simp only [serve]
    rw [unwind_of_owner (s := s.log _) (a := ⟨id, depth, f', keep⟩) hh]
    exact ih keep callers
  | @abortEscapes id depth f f' s v he hn =>
    intro keep callers
    refine reaches_of_effect he ?_
    simp only [serve]
    rw [unwind_of_not_ownsLatest (s := s.log _) (a := ⟨id, depth, f', keep⟩) hn]
    exact .refl _
  | @callReturns id depth f f' s index args keep' v s₁ o s' he _ _ ihc ih =>
    intro keep callers
    refine reaches_of_effect he ((ihc keep' (⟨id, depth, f', keep⟩ :: callers)).trans ?_)
    cases keep' with
    | true => exact ih keep callers
    | false => exact ih keep callers
  | @callLands id depth f f' s index args keep' v s₁ target rest o s' he _ hh _ ihc ih =>
    intro keep callers
    refine reaches_of_effect he ((ihc keep' (⟨id, depth, f', keep⟩ :: callers)).trans ?_)
    simp only [deliver]
    rw [unwind_of_owner (a := ⟨id, depth, f', keep⟩) hh]
    exact ih keep callers
  | @callEscapes id depth f f' s index args keep' v s₁ he _ hn ihc =>
    intro keep callers
    refine reaches_of_effect he ((ihc keep' (⟨id, depth, f', keep⟩ :: callers)).trans ?_)
    simp only [deliver]
    rw [unwind_of_not_ownsLatest (a := ⟨id, depth, f', keep⟩) hn]
    exact .refl _
  | @callTraps id depth f f' s index args keep' trap s₁ he _ ihc =>
    intro keep callers
    exact reaches_of_effect he (ihc keep' (⟨id, depth, f', keep⟩ :: callers))

/-! ## 4. A loop that ends has evaluated its activations -/

/-- A loop that ends within `n` steps evaluates the running activation in the first few of them, and
in the others goes on with what the outcome does to the callers. -/
def Decomposes (m : Machine σ) (n : Nat) : Prop :=
  ∀ (s : State σ) (id depth : Nat) (f : Frame) (keep : Bool) (callers : List Activation)
    (result : Outcome × State σ),
    m.complete n (.running ⟨s, ⟨id, depth, f, keep⟩, callers⟩) = some result →
    ∃ o s₁ k, k < n ∧ m.Evaluates (.resume id depth f) s o s₁ ∧
      m.complete k (deliver s₁ id depth keep callers o) = some result

/-- The same for a call: it is refused, or its activation is evaluated. -/
theorem Decomposes.call {m : Machine σ} {n : Nat} (hn : m.Decomposes n) {s : State σ}
    {index : UInt16} {args : List Value} {keep : Bool} {depth : Nat} {callers : List Activation}
    {result : Outcome × State σ}
    (h : m.complete n (m.dispatch s index args keep depth callers) = some result) :
    ∃ o s₁ k, k ≤ n ∧ m.Evaluates (.call index args depth) s o s₁ ∧
      m.complete k (deliver s₁ s.nextFrame depth keep callers o) = some result := by
  rcases Nat.lt_or_ge depth m.settings.maxDepth with hd | hd
  · cases hc : m.program.callee? index with
    | none =>
      rw [dispatch, activate_of_missing hd hc] at h
      exact ⟨_, s, n, Nat.le_refl n, .missing hd hc, h⟩
    | some callee =>
      cases hf : Frame.create callee.code callee.slots args with
      | error trap =>
        rw [dispatch, activate_of_create_error hd hc hf] at h
        exact ⟨_, _, n, Nat.le_refl n, .undecodable hd hc hf, h⟩
      | ok f =>
        rw [dispatch, activate_of_create hd hc hf] at h
        obtain ⟨o, s₁, k, hk, he, hr⟩ := hn _ _ _ _ _ _ _ h
        exact ⟨o, s₁, k, Nat.le_of_lt hk, .start hd hc hf he, hr⟩
  · rw [dispatch, activate_of_tooDeep hd] at h
    exact ⟨_, s, n, Nat.le_refl n, .tooDeep hd, h⟩

/-- **A loop that ends has evaluated its running activation on the way.** -/
theorem decomposes (m : Machine σ) (n : Nat) : m.Decomposes n := by
  -- strong induction: after a call has been evaluated, fewer steps are left for its caller
  induction n using Nat.strongRecOn with
  | ind n ih =>
  intro s id depth f keep callers result h
  cases n with
  | zero => simp at h
  | succ n =>
    rw [complete_succ_running] at h
    cases he : m.effect s f with
    | error trap f' =>
      rw [step_of_next_error (c := ⟨s, ⟨id, depth, f, keep⟩, callers⟩)
        ((next_eq_effect m _).trans he)] at h
      exact ⟨_, s, n, Nat.lt_succ_self n, .trap he, h⟩
    | ok request f' =>
      rw [step_of_next (c := ⟨s, ⟨id, depth, f, keep⟩, callers⟩)
        ((next_eq_effect m _).trans he)] at h
      have hlt : n < n + 1 := Nat.lt_succ_self n
      cases request with
      | proceed =>
        obtain ⟨o, s₁, k, hk, hev, hr⟩ := ih n hlt _ _ _ _ _ _ _ h
        exact ⟨o, s₁, k, by omega, .proceed he hev, hr⟩
      | allocate type =>
        obtain ⟨o, s₁, k, hk, hev, hr⟩ := ih n hlt _ _ _ _ _ _ _ h
        exact ⟨o, s₁, k, by omega, .allocate he hev, hr⟩
      | store place field v =>
        obtain ⟨o, s₁, k, hk, hev, hr⟩ := ih n hlt _ _ _ _ _ _ _ h
        exact ⟨o, s₁, k, by omega, .store he hev, hr⟩
      | call index args keep' =>
        rw [serve_call] at h
        obtain ⟨o, s₁, k, hk, hcall, hr⟩ := (ih n hlt).call h
        cases o with
        | returned v =>
          have hr' : m.complete k (.running ⟨s₁.log (.returned s.nextFrame (depth + 1)),
              ⟨id, depth, if keep' then f'.pushed v else f', keep⟩, callers⟩) = some result := by
            cases keep' <;> exact hr
          obtain ⟨o', s₂, k', hk', hev, hr'⟩ := ih k (by omega) _ _ _ _ _ _ _ hr'
          exact ⟨o', s₂, k', by omega, .callReturns he hcall hev, hr'⟩
        | unwound v =>
          simp only [deliver] at hr
          by_cases hown : s₁.OwnsLatest id
          · obtain ⟨target, rest, hh⟩ := handlers_of_ownsLatest hown
            rw [unwind_of_owner (a := ⟨id, depth, f', keep⟩) hh] at hr
            obtain ⟨o', s₂, k', hk', hev, hr'⟩ := ih k (by omega) _ _ _ _ _ _ _ hr
            exact ⟨o', s₂, k', by omega, .callLands he hcall hh hev, hr'⟩
          · rw [unwind_of_not_ownsLatest (a := ⟨id, depth, f', keep⟩) hown] at hr
            exact ⟨_, s₁, k, by omega, .callEscapes he hcall hown, hr⟩
        | trapped trap => exact ⟨_, s₁, k, by omega, .callTraps he hcall, hr⟩
      | native function args =>
        simp only [serve] at h
        split at h
        · rename_i v hv
          obtain ⟨o, s₁, k, hk, hev, hr⟩ := ih n hlt _ _ _ _ _ _ _ h
          exact ⟨o, s₁, k, by omega, .native he rfl hv hev, hr⟩
        · rename_i trap ht
          exact ⟨_, _, n, hlt, .nativeTraps he rfl ht, h⟩
      | ret v =>
        rw [serve_ret] at h
        exact ⟨_, s, n, hlt, .ret he, h⟩
      | abort v =>
        simp only [serve] at h
        by_cases hown : s.OwnsLatest id
        · obtain ⟨target, rest, hh⟩ := handlers_of_ownsLatest hown
          rw [unwind_of_owner (s := s.log _) (a := ⟨id, depth, f', keep⟩) hh] at h
          obtain ⟨o, s₁, k, hk, hev, hr⟩ := ih n hlt _ _ _ _ _ _ _ h
          exact ⟨o, s₁, k, by omega, .abortLands he hh hev, hr⟩
        · rw [unwind_of_not_ownsLatest (s := s.log _) (a := ⟨id, depth, f', keep⟩) hown] at h
          exact ⟨_, _, n, hlt, .abortEscapes he hown, h⟩
      | enter target =>
        obtain ⟨o, s₁, k, hk, hev, hr⟩ := ih n hlt _ _ _ _ _ _ _ h
        exact ⟨o, s₁, k, by omega, .enter he hev, hr⟩
      | leave =>
        simp only [serve] at h
        split at h
        · rename_i handler rest hh
          obtain ⟨o, s₁, k, hk, hev, hr⟩ := ih n hlt _ _ _ _ _ _ _ h
          exact ⟨o, s₁, k, by omega, .leave he hh hev, hr⟩
        · rename_i hh
          exact ⟨_, s, n, hlt, .leaveTraps he hh, h⟩

/-! ## 5. Invocations -/

/-- Without callers, an outcome is the end. -/
theorem deliver_nil (s : State σ) (id depth : Nat) (keep : Bool) (o : Outcome) :
    deliver s id depth keep [] o = .finished o s := by
  cases o <;> rfl

/-- **The loop and the recursion agree.**  An invocation ends, with an outcome and a state, exactly
when the recursive evaluation of its call at depth 0 does: the same value returned, the same value
unwound or the same trap, and the same heap, host, handlers, next serial number and log. -/
theorem invoke_iff_evaluates (m : Machine σ) (s s' : State σ) (index : UInt16) (args : List Value)
    (o : Outcome) :
    (∃ fuel, m.invoke fuel s index args = some (o, s')) ↔
      m.Evaluates (.call index args 0) { s with handlers := [] } o s' := by
  constructor
  · rintro ⟨fuel, h⟩
    rw [invoke_eq_complete, start_eq_dispatch] at h
    obtain ⟨o', s₁, k, -, he, hr⟩ := (m.decomposes fuel).call h
    rw [deliver_nil, complete_finished, Option.some.injEq, Prod.mk.injEq] at hr
    obtain ⟨rfl, rfl⟩ := hr
    exact he
  · intro h
    rw [exists_invoke_iff, start_eq_dispatch]
    have hr := realizes_of_evaluates h true []
    rw [deliver_nil] at hr
    exact hr

end Machine

end BytecodeVm
