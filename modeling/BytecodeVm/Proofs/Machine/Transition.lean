/- # What one step can do

The step function is opened here, and only here: a step either moves to another configuration, in
one of six ways, or ends the invocation, in one of six ways.  What holds along a run is proved from
these two lists.

* `Machine.move_of_step`: the ways in which a configuration moves on (`Machine.Move`);
* `Machine.ends_of_step`: the ways in which an invocation ends (`Machine.Ends`);
* `Machine.unwind_cases`: where an abort lands, if it lands at all.
-/
import BytecodeVm.Proofs.Machine.Reach

namespace BytecodeVm

variable {σ : Type}

namespace State

/-- The latest handler belongs to the given activation. -/
def OwnsLatest (s : State σ) (id : Nat) : Prop :=
  ∃ h ∈ s.handlers.head?, h.frame = id

/-- Some handler belongs to the given activation. -/
def OwnsSome (s : State σ) (id : Nat) : Prop :=
  ∃ h ∈ s.handlers, h.frame = id

instance (s : State σ) (id : Nat) : Decidable (s.OwnsLatest id) :=
  inferInstanceAs (Decidable (∃ h ∈ s.handlers.head?, h.frame = id))

instance (s : State σ) (id : Nat) : Decidable (s.OwnsSome id) :=
  inferInstanceAs (Decidable (∃ h ∈ s.handlers, h.frame = id))

end State

/-- The state after the host has answered a native call. -/
def State.replied (s : State σ) (reply : HostReply σ) : State σ :=
  { s.logAll reply.events with heap := reply.heap, host := reply.state }

/-- Whether a request is served without touching activations, handlers or serial numbers. -/
def Request.isLocal : Request → Bool
  | proceed | allocate _ | store .. | native .. => true
  | _ => false

/-! ## 1. Activating a callee -/

/-- The state after a call was let in: the call has taken a serial number and is logged. -/
def State.enroll (s : State σ) (index : UInt16) (callee : Callee) (argc depth : Nat) : State σ :=
  { (s.logAll (callee.events index)).log (.called index s.nextFrame argc depth) with
    nextFrame := s.nextFrame + 1 }

@[simp] theorem State.enroll_nextFrame (s : State σ) (index : UInt16) (callee : Callee)
    (argc depth : Nat) : (s.enroll index callee argc depth).nextFrame = s.nextFrame + 1 :=
  rfl

namespace Machine

section Activate

variable {m : Machine σ} {s : State σ} {index : UInt16} {args : List Value} {keep : Bool}
  {depth : Nat}

theorem activate_of_tooDeep (h : m.settings.maxDepth ≤ depth) :
    m.activate s index args keep depth = (.error (.depthExceeded m.settings.maxDepth), s) := by
  simp only [activate, if_pos h]

theorem activate_of_missing (h : depth < m.settings.maxDepth)
    (hc : m.program.callee? index = none) :
    m.activate s index args keep depth = (.error (.missingBody index), s) := by
  simp only [activate, if_neg (Nat.not_le.mpr h), hc]

theorem activate_of_create_error {callee : Callee} {trap : Trap}
    (h : depth < m.settings.maxDepth) (hc : m.program.callee? index = some callee)
    (hf : Frame.create callee.code callee.slots args = .error trap) :
    m.activate s index args keep depth =
      (.error trap, s.enroll index callee args.length depth) := by
  simp only [activate, if_neg (Nat.not_le.mpr h), hc, hf]
  rfl

theorem activate_of_create {callee : Callee} {frame : Frame}
    (h : depth < m.settings.maxDepth) (hc : m.program.callee? index = some callee)
    (hf : Frame.create callee.code callee.slots args = .ok frame) :
    m.activate s index args keep depth =
      (.ok ⟨s.nextFrame, depth, frame, keep⟩, s.enroll index callee args.length depth) := by
  simp only [activate, if_neg (Nat.not_le.mpr h), hc, hf]
  rfl

/-- A call that succeeds was not too deep, has a callee, and its code decodes. -/
theorem activate_ok_inv {a : Activation} {s' : State σ}
    (h : m.activate s index args keep depth = (.ok a, s')) :
    depth < m.settings.maxDepth ∧ ∃ callee frame, m.program.callee? index = some callee ∧
      Frame.create callee.code callee.slots args = .ok frame ∧
      a = ⟨s.nextFrame, depth, frame, keep⟩ ∧ s' = s.enroll index callee args.length depth := by
  rcases Nat.lt_or_ge depth m.settings.maxDepth with hd | hd
  · refine ⟨hd, ?_⟩
    cases hc : m.program.callee? index with
    | none => rw [activate_of_missing hd hc] at h; cases h
    | some callee =>
      cases hf : Frame.create callee.code callee.slots args with
      | error trap => rw [activate_of_create_error hd hc hf] at h; cases h
      | ok frame =>
        rw [activate_of_create hd hc hf] at h
        cases h
        exact ⟨callee, frame, rfl, hf, rfl, rfl⟩
  · rw [activate_of_tooDeep hd] at h
    cases h

/-- A call that fails is too deep, has no callee, or its code does not decode. -/
theorem activate_error_inv {trap : Trap} {s' : State σ}
    (h : m.activate s index args keep depth = (.error trap, s')) :
    trap = .depthExceeded m.settings.maxDepth ∨ trap = .missingBody index ∨
      ∃ callee, m.program.callee? index = some callee ∧
        Frame.create callee.code callee.slots args = .error trap := by
  rcases Nat.lt_or_ge depth m.settings.maxDepth with hd | hd
  · cases hc : m.program.callee? index with
    | none =>
      rw [activate_of_missing hd hc] at h
      cases h
      exact .inr (.inl rfl)
    | some callee =>
      cases hf : Frame.create callee.code callee.slots args with
      | error trap' =>
        rw [activate_of_create_error hd hc hf] at h
        cases h
        exact .inr (.inr ⟨callee, rfl, hf⟩)
      | ok frame =>
        rw [activate_of_create hd hc hf] at h
        cases h
  · rw [activate_of_tooDeep hd] at h
    cases h
    exact .inl rfl

end Activate

/-! ## 2. Where an abort lands -/

/-- **Where an abort lands.**  Either the latest handler belongs to an activation, and the abort
lands in the first such one from the top, or it belongs to none, and the invocation ends. -/
theorem unwind_cases (v : Value) (s : State σ) (current : Activation) (callers : List Activation) :
    (∃ discarded a below target rest, s.handlers = ⟨a.id, target⟩ :: rest ∧
      current :: callers = discarded ++ a :: below ∧ (∀ d ∈ discarded, d.id ≠ a.id) ∧
      unwind v s current callers =
        .running ⟨{ s.log (.landed a.id target) with handlers := rest }, a.land v target, below⟩) ∨
    ((∀ h ∈ s.handlers.head?, ∀ a ∈ current :: callers, h.frame ≠ a.id) ∧
      unwind v s current callers = .finished (.unwound v) s) := by
  cases hs : s.handlers with
  | nil =>
    refine .inr ⟨by simp, ?_⟩
    unfold unwind
    simp only [hs]
  | cons handler rest =>
    -- the induction goes down the stack of activations, past those that do not own the handler
    induction callers generalizing current with
    | nil =>
      unfold unwind
      simp only [hs]
      split
      · rename_i hid
        exact .inl ⟨[], current, [], handler.target, rest, by rw [← hid], rfl, by simp, rfl⟩
      · rename_i hid
        exact .inr ⟨by simpa using hid, rfl⟩
    | cons caller below ih =>
      unfold unwind
      simp only [hs]
      split
      · rename_i hid
        exact .inl ⟨[], current, caller :: below, handler.target, rest, by rw [← hid], rfl,
          by simp, rfl⟩
      · rename_i hid
        rcases ih caller with ⟨discarded, a, low, target, rest', hh, hsplit, hd, hu⟩ | ⟨hn, hu⟩
        · refine .inl ⟨current :: discarded, a, low, target, rest', hh, by rw [hsplit]; rfl, ?_, hu⟩
          intro d hmem
          rcases List.mem_cons.mp hmem with rfl | hmem
          · have : handler.frame = a.id := by rw [(List.cons.inj hh).1]
            exact fun he => hid (this.trans he.symm)
          · exact hd d hmem
        · refine .inr ⟨?_, hu⟩
          intro h hh a ha
          rcases List.mem_cons.mp ha with rfl | ha
          · obtain rfl : handler = h := by simpa using hh
            exact hid
          · exact hn h hh a ha

/-! ## 3. Moving on -/

/-- The ways in which a configuration moves on. -/
inductive Move (m : Machine σ) (c : Config σ) : Config σ → Prop
  /-- The running activation goes on, with a new stack at most. -/
  | inside {request : Request} {f : Frame} {s : State σ} (stack : OperandStack)
      (next : m.next c = .ok request f) (isLocal : request.isLocal)
      (handlers : s.handlers = c.state.handlers) (nextFrame : s.nextFrame = c.state.nextFrame) :
      Move m c ⟨s, { c.current with frame := { f with stack } }, c.callers⟩
  /-- A call is let in, and its activation is put on top. -/
  | call {index : UInt16} {args : List Value} {keep : Bool} {f : Frame} {callee : Callee}
      {frame : Frame} (next : m.next c = .ok (.call index args keep) f)
      (depth : c.current.depth + 1 < m.settings.maxDepth)
      (resolve : m.program.callee? index = some callee)
      (create : Frame.create callee.code callee.slots args = .ok frame) :
      Move m c ⟨c.state.enroll index callee args.length (c.current.depth + 1),
        ⟨c.state.nextFrame, c.current.depth + 1, frame, keep⟩,
        { c.current with frame := f } :: c.callers⟩
  /-- The running activation is over, and its caller goes on. -/
  | ret {v : Value} {f : Frame} {caller : Activation} {below : List Activation}
      (next : m.next c = .ok (.ret v) f) (callers : c.callers = caller :: below) :
      Move m c ⟨c.state.log (.returned c.current.id c.current.depth),
        if c.current.keepResult then caller.push v else caller, below⟩
  /-- An abort lands in the first activation from the top that owns the latest handler. -/
  | land {v : Value} {f : Frame} {discarded below : List Activation} {a : Activation}
      {target : UInt16} {rest : List Handler} (next : m.next c = .ok (.abort v) f)
      (handlers : c.state.handlers = ⟨a.id, target⟩ :: rest)
      (split : { c.current with frame := f } :: c.callers = discarded ++ a :: below)
      (notOwner : ∀ d ∈ discarded, d.id ≠ a.id) :
      Move m c ⟨{ (c.state.log (.aborted c.current.id (c.state.heap.render v))).log
          (.landed a.id target) with handlers := rest }, a.land v target, below⟩
  /-- An attempt begins. -/
  | enter {target : UInt16} {f : Frame} (next : m.next c = .ok (.enter target) f) :
      Move m c ⟨{ c.state with handlers := ⟨c.current.id, target⟩ :: c.state.handlers },
        { c.current with frame := f }, c.callers⟩
  /-- The latest handler is dropped, whoever it belongs to. -/
  | leave {handler : Handler} {rest : List Handler} {f : Frame} (next : m.next c = .ok .leave f)
      (handlers : c.state.handlers = handler :: rest) :
      Move m c ⟨{ c.state with handlers := rest }, { c.current with frame := f }, c.callers⟩

/-- **A step that does not end the invocation is one of the moves.** -/
theorem move_of_step {m : Machine σ} {c c' : Config σ} (h : m.step c = .running c') :
    m.Move c c' := by
  cases hn : m.next c with
  | error trap f => rw [step_of_next_error hn] at h; cases h
  | ok request f =>
    rw [step_of_next hn] at h
    cases request with
    | proceed =>
      cases h
      exact .inside f.stack hn rfl rfl rfl
    | allocate type =>
      cases h
      exact .inside (_ :: f.stack) hn rfl rfl rfl
    | store place field v =>
      cases h
      exact .inside f.stack hn rfl rfl rfl
    | call index args keep =>
      simp only [serve] at h
      split at h
      · rename_i callee s' hact
        cases h
        obtain ⟨hd, callee, frame, hc, hf, rfl, rfl⟩ := activate_ok_inv hact
        exact .call hn hd hc hf
      · cases h
    | native id args =>
      simp only [serve] at h
      split at h
      · cases h
        exact .inside (_ :: f.stack) hn rfl rfl rfl
      · cases h
    | ret v =>
      simp only [serve] at h
      split at h
      · cases h
      · rename_i caller below hcallers
        cases h
        exact .ret hn hcallers
    | abort v =>
      simp only [serve] at h
      rcases unwind_cases v (c.state.log (.aborted c.current.id (c.state.heap.render v)))
        { c.current with frame := f } c.callers with
        ⟨discarded, a, below, target, rest, hh, hsplit, hd, hu⟩ | ⟨-, hu⟩
      · rw [hu] at h
        cases h
        exact .land hn hh hsplit hd
      · rw [hu] at h
        cases h
    | enter target =>
      cases h
      exact .enter hn
    | leave =>
      simp only [serve] at h
      split at h
      · rename_i handler rest hh
        cases h
        exact .leave hn hh
      · cases h

/-! ## 4. Ending -/

/-- The ways in which an invocation ends. -/
inductive Ends (m : Machine σ) (c : Config σ) : Outcome → State σ → Prop
  /-- The first activation returns. -/
  | returned {v : Value} {f : Frame} (next : m.next c = .ok (.ret v) f) (callers : c.callers = []) :
      Ends m c (.returned v) c.state
  /-- An abort finds the latest handler in no activation. -/
  | unwound {v : Value} {f : Frame} (next : m.next c = .ok (.abort v) f)
      (handlers : ∀ h ∈ c.state.handlers.head?, ∀ a ∈ c.active, h.frame ≠ a.id) :
      Ends m c (.unwound v) (c.state.log (.aborted c.current.id (c.state.heap.render v)))
  /-- The instruction itself traps. -/
  | instruction {trap : Trap} {f : Frame} (next : m.next c = .error trap f) :
      Ends m c (.trapped trap) c.state
  /-- The callee cannot be activated. -/
  | call {index : UInt16} {args : List Value} {keep : Bool} {f : Frame} {trap : Trap} {s : State σ}
      (next : m.next c = .ok (.call index args keep) f)
      (activate : m.activate c.state index args keep (c.current.depth + 1) = (.error trap, s)) :
      Ends m c (.trapped trap) s
  /-- The host traps. -/
  | native {id : UInt16} {args : List Value} {f : Frame} {trap : Trap}
      (next : m.next c = .ok (.native id args) f)
      (host : (m.host.call id args c.state.heap c.state.host).result = .error trap) :
      Ends m c (.trapped trap)
        (c.state.replied (m.host.call id args c.state.heap c.state.host))
  /-- There is no attempt to leave. -/
  | leave {f : Frame} (next : m.next c = .ok .leave f) (handlers : c.state.handlers = []) :
      Ends m c (.trapped (.noHandler f.opOffset)) c.state

/-- **A step that ends the invocation does so in one of these ways.** -/
theorem ends_of_step {m : Machine σ} {c : Config σ} {o : Outcome} {s : State σ}
    (h : m.step c = .finished o s) : m.Ends c o s := by
  cases hn : m.next c with
  | error trap f =>
    rw [step_of_next_error hn] at h
    cases h
    exact .instruction hn
  | ok request f =>
    rw [step_of_next hn] at h
    cases request with
    | proceed => cases h
    | allocate type => cases h
    | store place field v => cases h
    | call index args keep =>
      simp only [serve] at h
      split at h
      · cases h
      · rename_i trap s' hact
        cases h
        exact .call hn hact
    | native id args =>
      simp only [serve] at h
      split at h
      · cases h
      · rename_i trap hhost
        cases h
        exact .native hn hhost
    | ret v =>
      simp only [serve] at h
      split at h
      · rename_i hcallers
        cases h
        exact .returned hn hcallers
      · cases h
    | abort v =>
      simp only [serve] at h
      rcases unwind_cases v (c.state.log (.aborted c.current.id (c.state.heap.render v)))
        { c.current with frame := f } c.callers with
        ⟨discarded, a, below, target, rest, hh, hsplit, hd, hu⟩ | ⟨hnone, hu⟩
      · rw [hu] at h
        cases h
      · rw [hu] at h
        cases h
        refine .unwound hn ?_
        intro h hh a ha
        rcases List.mem_cons.mp ha with rfl | ha
        · exact hnone h hh { c.current with frame := f } List.mem_cons_self
        · exact hnone h hh a (List.mem_cons_of_mem _ ha)
    | enter target => cases h
    | leave =>
      simp only [serve] at h
      split at h
      · cases h
      · rename_i hh
        cases h
        exact .leave hn hh

/-- A call leaves the handlers as they are, whether or not it is let in, and takes no serial number
back. -/
theorem activate_state (m : Machine σ) (s : State σ) (index : UInt16) (args : List Value)
    (keep : Bool) (depth : Nat) : (m.activate s index args keep depth).2.handlers = s.handlers ∧
      s.nextFrame ≤ (m.activate s index args keep depth).2.nextFrame := by
  rcases Nat.lt_or_ge depth m.settings.maxDepth with hd | hd
  · cases hc : m.program.callee? index with
    | none =>
      rw [activate_of_missing hd hc]
      exact ⟨rfl, Nat.le_refl _⟩
    | some callee =>
      cases hf : Frame.create callee.code callee.slots args with
      | error trap =>
        rw [activate_of_create_error hd hc hf]
        exact ⟨rfl, Nat.le_succ _⟩
      | ok frame =>
        rw [activate_of_create hd hc hf]
        exact ⟨rfl, Nat.le_succ _⟩
  · rw [activate_of_tooDeep hd]
    exact ⟨rfl, Nat.le_refl _⟩

/-- The end of an invocation leaves the handlers as they are, and takes no serial number back. -/
theorem Ends.state {m : Machine σ} {c : Config σ} {o : Outcome} {s : State σ} (h : m.Ends c o s) :
    s.handlers = c.state.handlers ∧ c.state.nextFrame ≤ s.nextFrame := by
  cases h with
  | @call index args keep f trap s hn hact =>
    have hstate := m.activate_state c.state index args keep (c.current.depth + 1)
    rw [hact] at hstate
    exact hstate
  | returned hn hcallers | unwound hn hnone | instruction hn | native hn hhost | leave hn hh =>
    exact ⟨rfl, Nat.le_refl _⟩

/-! ## 5. Along an invocation -/

/-- The configuration that an invocation starts in. -/
theorem start_running_inv {m : Machine σ} {s : State σ} {index : UInt16} {args : List Value}
    {c : Config σ} (h : m.start s index args = .running c) :
    ∃ callee frame, m.program.callee? index = some callee ∧
      Frame.create callee.code callee.slots args = .ok frame ∧
      c = ⟨State.enroll { s with handlers := [] } index callee args.length 0,
        ⟨s.nextFrame, 0, frame, true⟩, []⟩ := by
  simp only [start] at h
  split at h
  · rename_i a s' hact
    cases h
    obtain ⟨-, callee, frame, hc, hf, rfl, rfl⟩ := activate_ok_inv hact
    exact ⟨callee, frame, hc, hf, rfl⟩
  · cases h

/-- A start that ends at once has trapped: the first call failed. -/
theorem start_finished_inv {m : Machine σ} {s s' : State σ} {index : UInt16} {args : List Value}
    {o : Outcome} (h : m.start s index args = .finished o s') : ∃ trap, o = .trapped trap ∧
      m.activate { s with handlers := [] } index args true 0 = (.error trap, s') := by
  simp only [start] at h
  split at h
  · cases h
  · rename_i trap s₁ hact
    cases h
    exact ⟨trap, rfl, hact⟩

/-- What holds where an invocation starts and is kept by every move holds in every configuration
that the invocation comes to. -/
theorem Reaches.config_invariant {m : Machine σ} {P : Config σ → Prop} {r : StepResult σ}
    {c : Config σ} (h : m.Reaches r (.running c)) (start : ∀ c, r = .running c → P c)
    (move : ∀ c c', m.Reaches r (.running c) → P c → m.Move c c' → P c') : P c :=
  h.running_invariant start fun c c' hr hc hs => move c c' hr hc (move_of_step hs)

end Machine

end BytecodeVm
