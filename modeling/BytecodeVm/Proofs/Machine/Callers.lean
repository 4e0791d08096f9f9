/- # A call and its caller

A call puts a new activation on top of its caller.  Whatever that one does, the calls that it makes
itself included, happens above the caller: a move changes the stack of activations at its top only.
So the caller is left alone until the callee is gone, and then it either has the result, or an abort
has landed in it, or an abort has passed it by and it is gone too.

* `Machine.Move.reshapes`: what a move does to the stack of activations;
* `Machine.Move.beneath`, `Machine.Reaches.beneath`: for as long as an activation is there, those
  beneath it are as they were;
* `Machine.Move.leaves`: how an activation comes to be gone, and what its caller is left with;
* `Machine.call_protocol`: a call, from its start to its end.
-/
import BytecodeVm.Proofs.Machine.Landing
import BytecodeVm.Proofs.Machine.Recursive

namespace BytecodeVm

variable {σ : Type}

/-- The running activation behind the call that it is at, with the given stack. -/
def Config.calling (c : Config σ) (stack : OperandStack) : Activation :=
  { c.current with
    frame := { c.current.frame with
      ip := c.current.frame.ip + 5, opOffset := c.current.frame.ip, stack } }

/-- Where two splits of one list meet: the second one is made behind the first, or before it. -/
theorem split_cases {α : Type} {l₁ l₂ r₁ r₂ : List α} {x y : α}
    (h : l₁ ++ x :: r₁ = l₂ ++ y :: r₂) :
    (∃ between, x :: r₁ = between ++ y :: r₂) ∨
      ∃ between, l₁ = l₂ ++ y :: between ∧ r₂ = between ++ x :: r₁ := by
  rcases List.append_eq_append_iff.mp h with ⟨between, -, hrest⟩ | ⟨between, hl, hrest⟩
  · exact .inl ⟨between, hrest⟩
  · cases between with
    | nil => exact .inl ⟨[], hrest.symm⟩
    | cons first between =>
      obtain ⟨rfl, hr⟩ := List.cons.inj hrest
      exact .inr ⟨between, hl, hr⟩

/-- The serial number of an activation is not that of one beneath it. -/
theorem Config.Ordered.id_notMem_below {c : Config σ} (h : c.Ordered)
    {above below : List Activation} {a : Activation} (hactive : c.active = above ++ a :: below) :
    a.id ∉ below.map Activation.id := by
  have hids : c.ids = above.map Activation.id ++ a.id :: below.map Activation.id := by
    rw [Config.ids, hactive, List.map_append, List.map_cons]
  exact (h.notMem_of_split hids).2

namespace Machine

variable {m : Machine σ} {c c' : Config σ}

/-! ## 1. Making a call -/

/-- **A call** is made on the arguments that are bound, over the caller behind it. -/
theorem step_call {index count : UInt16} {popped : List Value} {keepResult : Bool}
    {stack : OperandStack}
    (hinstr : c.current.frame.code.InstrsAt c.current.frame.ip
      [if keepResult then .call index count else .callCtor index count])
    (hlength : popped.length = count.toNat)
    (hstack : c.current.frame.stack = popped.reverse ++ stack) :
    m.step c = m.dispatch c.state index (Frame.boundArgs keepResult popped stack) keepResult
      (c.current.depth + 1) (c.calling stack :: c.callers) := by
  have hcalls := Frame.calls_of_instrsAt hinstr hlength hstack
  rw [step_of_next (Frame.advance_of_calls hcalls m.literal c.state.heap)]
  rfl

/-- A call of something whose code decodes, with room for it, starts on a fresh frame. -/
theorem dispatch_of_scanSlots {index : UInt16} {callee : Callee} {named depth : Nat}
    (hcallee : m.program.callee? index = some callee) (hscan : callee.code.scanSlots = .ok named)
    (hroom : depth < m.settings.maxDepth) (s : State σ) (args : List Value) (keep : Bool) :
    ∃ s' frame, frame.Fresh callee.code (max callee.slots named) args ∧ ∀ callers,
      m.dispatch s index args keep depth callers =
        .running ⟨s', ⟨s.nextFrame, depth, frame, keep⟩, callers⟩ := by
  have hcreate : Frame.create callee.code callee.slots args = .ok _ :=
    Frame.create_ok_iff.mpr ⟨named, hscan, rfl⟩
  refine ⟨s.enroll index callee args.length depth, _, Frame.fresh_of_create hscan hcreate, ?_⟩
  intro callers
  rw [dispatch, activate_of_create hroom hcallee hcreate]

/-! ## 2. The stack of activations -/

/-- **A move changes the stack of activations at its top only.**  It takes some off or puts one on,
and the activation at the top of the others may get another frame. -/
theorem Move.reshapes (h : m.Move c c') : ∃ gone fresh b b' below,
    c.active = gone ++ b :: below ∧ c'.active = fresh ++ b' :: below ∧ b'.id = b.id ∧
      b'.keepResult = b.keepResult ∧ (gone = [] ∨ fresh = []) := by
  cases h with
  | inside stack hn hl hh hnext => exact ⟨[], [], _, _, _, rfl, rfl, rfl, rfl, .inl rfl⟩
  | call hn hd hcallee hf => exact ⟨[], [_], c.current, _, c.callers, rfl, rfl, rfl, rfl, .inl rfl⟩
  | @ret v f caller below hn hcallers =>
    refine ⟨[c.current], [], caller, _, below, ?_, rfl, ?_, ?_, .inr rfl⟩
    · rw [Config.active, hcallers]
      rfl
    · split <;> rfl
    · split <;> rfl
  | @land v f discarded below a target rest hn hh hsplit hd =>
    cases discarded with
    | nil =>
      obtain ⟨rfl, rfl⟩ := List.cons.inj hsplit
      exact ⟨[], [], c.current, _, c.callers, rfl, rfl, rfl, rfl, .inl rfl⟩
    | cons first discarded =>
      obtain ⟨-, hcallers⟩ := List.cons.inj hsplit
      refine ⟨c.current :: discarded, [], a, _, below, ?_, rfl, rfl, rfl, .inr rfl⟩
      rw [Config.active, hcallers]
      rfl
  | enter hn => exact ⟨[], [], _, _, _, rfl, rfl, rfl, rfl, .inl rfl⟩
  | leave hn hh => exact ⟨[], [], _, _, _, rfl, rfl, rfl, rfl, .inl rfl⟩

/-- **While an activation is there, those beneath it are as they were.** -/
theorem Move.beneath (h : m.Move c c') (hordered : c.Ordered) {above below : List Activation}
    {a : Activation} (hactive : c.active = above ++ a :: below) (hid : a.id ∈ c'.ids) :
    ∃ above' a', c'.active = above' ++ a' :: below ∧ a'.id = a.id ∧
      a'.keepResult = a.keepResult := by
  obtain ⟨gone, fresh, b, b', low, hbefore, hafter, hsame, hkeep, hempty⟩ := h.reshapes
  rcases split_cases (hbefore.symm.trans hactive) with ⟨between, hrest⟩ | ⟨between, hgone, hbelow⟩
  · cases between with
    | nil =>
      obtain ⟨rfl, rfl⟩ := List.cons.inj hrest
      exact ⟨fresh, b', hafter, hsame, hkeep⟩
    | cons first between =>
      obtain ⟨rfl, rfl⟩ := List.cons.inj hrest
      exact ⟨fresh ++ b' :: between, a, by rw [hafter, List.append_assoc]; rfl, rfl, rfl⟩
  · -- the activation would be one of those that were taken off
    obtain rfl : fresh = [] := hempty.resolve_left (by simp [hgone])
    rw [Config.ids, hafter, List.nil_append, List.map_cons, hsame] at hid
    refine absurd ?_ (hordered.id_notMem_below hactive)
    rw [hbelow, List.map_append, List.map_cons]
    exact List.mem_append_right _ hid

/-- The same along a run. -/
theorem Reaches.beneath {above below : List Activation} {a : Activation}
    (h : m.Reaches (.running c) (.running c'))
    (hordered : ∀ c₁, m.Reaches (.running c) (.running c₁) → c₁.Ordered)
    (hactive : c.active = above ++ a :: below) (hid : a.id ∈ c'.ids) :
    ∃ above' a', c'.active = above' ++ a' :: below ∧ a'.id = a.id ∧
      a'.keepResult = a.keepResult := by
  have key : a.id < c'.state.nextFrame ∧ (a.id ∈ c'.ids → ∃ above' a',
      c'.active = above' ++ a' :: below ∧ a'.id = a.id ∧ a'.keepResult = a.keepResult) := by
    refine h.config_invariant (P := fun c' => a.id < c'.state.nextFrame ∧ (a.id ∈ c'.ids →
      ∃ above' a', c'.active = above' ++ a' :: below ∧ a'.id = a.id ∧
        a'.keepResult = a.keepResult)) ?_ ?_
    · intro c₁ hc₁
      obtain rfl : c = c₁ := StepResult.running.inj hc₁
      refine ⟨(hordered c (.refl _)).ids_lt a.id (Config.mem_ids ?_),
        fun _ => ⟨above, a, hactive, rfl, rfl⟩⟩
      rw [hactive]
      simp
    · rintro c₁ c₂ hreach ⟨hlt, hbeneath⟩ hmove
      refine ⟨Nat.lt_of_lt_of_le hlt hmove.nextFrame_le, ?_⟩
      intro hid₂
      -- the serial number was given out before, so that the activation is the same one
      have hid₁ : a.id ∈ c₁.ids := (hmove.mem_ids hid₂).resolve_right (Nat.ne_of_lt hlt)
      obtain ⟨above₁, a₁, hactive₁, hsame₁, hkeep₁⟩ := hbeneath hid₁
      rw [← hsame₁] at hid₂
      obtain ⟨above₂, a₂, hactive₂, hsame₂, hkeep₂⟩ :=
        hmove.beneath (hordered c₁ hreach) hactive₁ hid₂
      exact ⟨above₂, a₂, hactive₂, hsame₂.trans hsame₁, hkeep₂.trans hkeep₁⟩
  exact key.2 hid

/-- **How an activation comes to be gone.**  It returns to its caller, which gets the result if that is
kept; or an abort lands in the caller; or an abort passes the caller by, which is gone as well. -/
theorem Move.leaves (h : m.Move c c') (hordered : c.Ordered) {above below : List Activation}
    {a b : Activation} (hactive : c.active = above ++ a :: b :: below) (hid : a.id ∉ c'.ids) :
    (∃ v f, m.next c = .ok (.ret v) f ∧ c.current = a ∧
      c'.current = (if a.keepResult then b.push v else b) ∧ c'.callers = below) ∨
    ∃ w f, m.next c = .ok (.abort w) f ∧
      ((∃ target rest, c.state.handlers = ⟨b.id, target⟩ :: rest ∧ c'.current = b.land w target ∧
        c'.callers = below) ∨ b.id ∉ c'.ids) := by
  have hmem : a.id ∈ c.ids := by
    rw [Config.ids, hactive]
    simp
  cases h with
  | inside stack hn hl hh hnext => exact absurd hmem hid
  | call hn hd hcallee hf => exact absurd (List.mem_cons_of_mem _ hmem) hid
  | @ret v f caller low hn hcallers =>
    refine .inl ?_
    rw [Config.active, hcallers] at hactive
    rw [Config.ids_resumed] at hid
    cases above with
    | nil =>
      obtain ⟨rfl, hrest⟩ := List.cons.inj hactive
      obtain ⟨rfl, rfl⟩ := List.cons.inj hrest
      exact ⟨v, f, hn, rfl, rfl, rfl⟩
    | cons first above =>
      refine absurd (List.mem_map_of_mem ?_) hid
      rw [(List.cons.inj hactive).2]
      simp
  | @land w f discarded low x target rest hn hh hsplit hd =>
    refine .inr ⟨w, f, hn, ?_⟩
    -- the frame of the aborting activation has changed, which may be the one that is gone
    obtain ⟨above', a', hactive', hsame⟩ : ∃ above' a', { c.current with frame := f } :: c.callers =
        above' ++ a' :: b :: below ∧ a'.id = a.id := by
      cases above with
      | nil =>
        obtain ⟨rfl, hcallers⟩ := List.cons.inj hactive
        exact ⟨[], { c.current with frame := f }, by rw [hcallers]; rfl, rfl⟩
      | cons first above =>
        obtain ⟨rfl, hcallers⟩ := List.cons.inj hactive
        exact ⟨{ c.current with frame := f } :: above, a, by rw [hcallers]; rfl, rfl⟩
    have hids : a'.id ∉ (x :: low).map Activation.id := hsame ▸ hid
    rcases split_cases (hsplit.symm.trans hactive') with ⟨between, hrest⟩ | ⟨between, -, hrest⟩
    · refine absurd (List.mem_map_of_mem ?_) hids
      rw [hrest]
      simp
    · cases between with
      | nil =>
        obtain ⟨rfl, rfl⟩ := List.cons.inj hrest
        exact .inl ⟨target, rest, hh, rfl, rfl⟩
      | cons second between =>
        -- the abort lands beneath the caller
        obtain ⟨-, hbelow⟩ := List.cons.inj hrest
        rw [List.append_cons] at hactive
        refine .inr fun hb => hordered.id_notMem_below hactive ?_
        rw [hbelow, List.append_eq, List.map_append]
        exact List.mem_append_right _ hb
  | enter hn => exact absurd hmem hid
  | leave hn hh => exact absurd hmem hid

/-! ## 3. A call, from its start to its end -/

/-- **A call and its caller.**  Take any configuration of an invocation in which the running activation
is at a call, of a method or of a constructor, with the arguments on top of its stack.  Let the callee
be there, and let there be room for one more activation.  If the code of the callee does not decode,
the invocation ends with the trap that says so.  Otherwise the callee starts on a fresh frame, with the
arguments that are bound, and:

* for as long as it is there, the caller lies beneath it behind the call, with all that it held but
  the arguments, and so do those beneath the caller;
* when it is gone, and the invocation goes on, then either it has returned, and the caller is running
  as it was, with the value that was returned on top of its stack if the result is kept; or an abort
  has landed in the caller, which is at the target of the handler, with the aborted value on top of
  its stack; or an abort has passed it by, and the caller is gone too. -/
theorem call_protocol (m : Machine σ) (s : State σ) (entry : UInt16) (args : List Value)
    (c : Config σ) (hreach : m.Reaches (m.start s entry args) (.running c)) (index count : UInt16)
    (keepResult : Bool) (popped : List Value) (stack : OperandStack)
    (hinstr : c.current.frame.code.InstrsAt c.current.frame.ip
      [if keepResult then .call index count else .callCtor index count])
    (hlength : popped.length = count.toNat)
    (hstack : c.current.frame.stack = popped.reverse ++ stack) (callee : Callee)
    (hcallee : m.program.callee? index = some callee)
    (hroom : c.active.length < m.settings.maxDepth) :
    (∀ trap, callee.code.scanSlots = .error trap →
      ∃ s', m.step c = .finished (.trapped trap) s') ∧
    ∀ named, callee.code.scanSlots = .ok named → ∃ c₁, m.step c = .running c₁ ∧
      c₁.current.frame.Fresh callee.code (max callee.slots named)
        (Frame.boundArgs keepResult popped stack) ∧
      c₁.callers = c.calling stack :: c.callers ∧
      ∀ c₂, m.Reaches (.running c₁) (.running c₂) → c₁.current.id ∈ c₂.ids →
        (∃ above a, a.id = c₁.current.id ∧
          c₂.active = above ++ a :: c.calling stack :: c.callers) ∧
        ∀ c₃, m.step c₂ = .running c₃ → c₁.current.id ∉ c₃.ids →
          (∃ v, c₂.current.id = c₁.current.id ∧ c₂.current.frame.Returns v ∧
            c₃.current = c.calling (if keepResult then v :: stack else stack) ∧
            c₃.callers = c.callers) ∨
          ∃ w, c₂.current.frame.Aborts w ∧
            ((∃ target rest, c₂.state.handlers = ⟨c.current.id, target⟩ :: rest ∧
              c₃.current = { c.calling stack with
                frame := { (c.calling stack).frame with
                  ip := target.toNat, stack := w :: stack } } ∧
              c₃.callers = c.callers) ∨
            c.current.id ∉ c₃.ids) := by
  have hdepth : c.current.depth + 1 < m.settings.maxDepth :=
    hreach.levelled.length_active ▸ hroom
  have hstep := step_call (m := m) hinstr hlength hstack
  refine ⟨?_, ?_⟩
  · intro trap hscan
    rw [dispatch, activate_of_create_error hdepth hcallee (Frame.create_error_iff.mpr hscan)]
      at hstep
    exact ⟨_, hstep⟩
  · intro named hscan
    obtain ⟨s₁, frame, hfresh, hdispatch⟩ := dispatch_of_scanSlots hcallee hscan hdepth c.state
      (Frame.boundArgs keepResult popped stack) keepResult
    rw [hdispatch] at hstep
    refine ⟨_, hstep, hfresh, rfl, ?_⟩
    intro c₂ hreach₂ hid₂
    have hstart : ∀ c', m.Reaches (.running _) (.running c') → c'.Ordered :=
      fun c' h => (hreach.tail.trans (hstep ▸ h)).ordered
    obtain ⟨above, a, hactive, hid, hkeep⟩ :=
      @Reaches.beneath _ _ _ _ [] (c.calling stack :: c.callers) _ hreach₂ hstart rfl hid₂
    refine ⟨⟨above, a, hid, hactive⟩, ?_⟩
    intro c₃ hstep₃ hid₃
    rcases (move_of_step hstep₃).leaves (hstart c₂ hreach₂) hactive (hid ▸ hid₃) with
      ⟨v, f, hnext, hcurrent, hresumed, hcallers⟩ | ⟨w, f, hnext, hcaller⟩
    · refine .inl ⟨v, hcurrent ▸ hid, Frame.returns_of_advance m.literal_error hnext, ?_, hcallers⟩
      rw [hresumed, hkeep]
      cases keepResult <;> rfl
    · exact .inr ⟨w, Frame.aborts_of_advance m.literal_error hnext, hcaller⟩

/-- A run that is at a call, in a callee, in it for the last time, and behind it. -/
theorem exists_call_of_comesTo {P Q R S : Config σ → Bool} {n k : Nat} {r : StepResult σ}
    (h : m.comesTo (fun c => P c && m.comesTo (fun c₁ => Q c₁ && m.comesTo (fun c₂ => R c₂ &&
      m.comesTo S 0 (m.step c₂)) k (.running c₁)) 0 (m.step c)) n r = true) :
    ∃ c c₁ c₂ c₃, m.Reaches r (.running c) ∧ P c = true ∧ m.step c = .running c₁ ∧ Q c₁ = true ∧
      m.Reaches (.running c₁) (.running c₂) ∧ R c₂ = true ∧ m.step c₂ = .running c₃ ∧
      S c₃ = true := by
  have hnow : ∀ {T : Config σ → Bool} {r : StepResult σ}, m.comesTo T 0 r = true →
      ∃ c, r = .running c ∧ T c = true := by
    intro T r hT
    cases r with
    | running c => exact ⟨c, rfl, hT⟩
    | finished o s => cases hT
  obtain ⟨c, hreach, hc⟩ := exists_of_comesTo h
  obtain ⟨hP, hc⟩ := Bool.and_eq_true_iff.mp hc
  obtain ⟨c₁, hstep, hc₁⟩ := hnow hc
  obtain ⟨hQ, hc₁⟩ := Bool.and_eq_true_iff.mp hc₁
  obtain ⟨c₂, hreach₂, hc₂⟩ := exists_of_comesTo hc₁
  obtain ⟨hR, hc₂⟩ := Bool.and_eq_true_iff.mp hc₂
  obtain ⟨c₃, hstep₃, hS⟩ := hnow hc₂
  exact ⟨c, c₁, c₂, c₃, hreach, hP, hstep, hQ, hreach₂, hR, hstep₃, hS⟩

/-- A method that makes an object and has a constructor called on it with an argument, which calls a
method with that argument and returns what it gets. -/
def constructsThrough : Machine Unit :=
  .ofBodies
    [ ⟨0, 0, (Instr.assemble [.newObj 7, .loadTrue, .callCtor 1 1, .ret]).toArray⟩,
      ⟨1, 0, (Instr.assemble [.loadLocal 1, .call 2 1, .ret]).toArray⟩,
      ⟨2, 0, (Instr.assemble [.loadLocal 0, .ret]).toArray⟩ ]

/-- The constructor is given the object and the argument, and its result is dropped.  The callee of
`abortsBelow`, however, is given null, and is gone when the abort of its own callee lands. -/
theorem constructsThrough_protocol :
    (∃ c c₁ c₂ c₃, constructsThrough.step c = .running c₁ ∧
      (∃ code, c₁.current.frame.Fresh code 2 [.object 0, .bool true]) ∧
      constructsThrough.Reaches (.running c₁) (.running c₂) ∧
      c₂.current.frame.stack = [.bool true] ∧ constructsThrough.step c₂ = .running c₃ ∧
      c₃.current = c.calling [.object 0]) ∧
    ∃ c c₁ c₂ c₃, abortsBelow.step c = .running c₁ ∧
      (∃ code, c₁.current.frame.Fresh code 1 [.null]) ∧
      abortsBelow.Reaches (.running c₁) (.running c₂) ∧ c₂.ids = [2, 1, 0] ∧
      abortsBelow.step c₂ = .running c₃ ∧
      c₃.current = { c.calling [.bool false] with
        frame := { (c.calling [.bool false]).frame with
          ip := 11, stack := [.bool true, .bool false] } } := by
  refine ⟨?_, ?_⟩
  · have hcomes : constructsThrough.comesTo (fun c => decide (c.active.length = 1 ∧
        c.current.frame.code =
          (Instr.assemble [.newObj 7, .loadTrue, .callCtor 1 1, .ret]).toArray ∧
        c.current.frame.ip = 4 ∧ c.current.frame.stack = [.bool true, .object 0]) &&
        constructsThrough.comesTo (fun c₁ => decide (c₁.current.id = 1) &&
        constructsThrough.comesTo (fun c₂ => decide (c₂.ids = [1, 0] ∧
          c₂.current.frame.code.opcode? c₂.current.frame.ip = some .ret ∧
          c₂.current.frame.stack = [.bool true]) &&
        constructsThrough.comesTo (fun c₃ => decide (c₃.ids = [0])) 0 (constructsThrough.step c₂)) 4
          (.running c₁)) 0 (constructsThrough.step c)) 2
        (constructsThrough.start (.initial ()) 0 []) = true := by
      decide +kernel
    obtain ⟨c, c₁, c₂, c₃, hreach, hc, hstep, hc₁, hreach₂, hc₂, hstep₃, hc₃⟩ :=
      exists_call_of_comesTo hcomes
    obtain ⟨hactive, hcode, hip, hstack⟩ := of_decide_eq_true hc
    obtain ⟨hids₂, hret, hstack₂⟩ := of_decide_eq_true hc₂
    have hid : c₁.current.id = 1 := of_decide_eq_true hc₁
    have hids₃ : c₃.ids = [0] := of_decide_eq_true hc₃
    have hinstr : c.current.frame.code.InstrsAt c.current.frame.ip [.callCtor 1 1] := by
      rw [hcode, hip]
      exact ⟨Instr.assemble [.newObj 7, .loadTrue], Instr.assemble [.ret], by decide, by decide⟩
    have hroom : c.active.length < constructsThrough.settings.maxDepth := by
      rw [hactive]
      decide
    obtain ⟨c₁', hstep', hfresh, -, hrun⟩ := (call_protocol constructsThrough _ 0 [] c hreach 1 1 false
      [.bool true] [.object 0] hinstr rfl hstack _ rfl hroom).2 2 (by decide +kernel)
    obtain rfl : c₁ = c₁' := StepResult.running.inj (hstep.symm.trans hstep')
    have hgone := (hrun c₂ hreach₂ (by simp [hid, hids₂])).2 c₃ hstep₃ (by simp [hid, hids₃])
    rcases hgone with ⟨v, -, -, hresumed, -⟩ | ⟨w, ⟨habort, -⟩, -⟩
    · exact ⟨c, c₁, c₂, c₃, hstep, ⟨_, hfresh⟩, hreach₂, hstack₂, hstep₃, hresumed⟩
    · rw [hret] at habort
      cases habort
  · have hcomes : abortsBelow.comesTo (fun c => decide (c.active.length = 1 ∧ c.current.id = 0 ∧
        c.current.frame.code = (Instr.assemble [.loadFalse, .enterAttempt 11, .loadNull, .call 1 1,
          .ret, .ret]).toArray ∧
        c.current.frame.ip = 5 ∧ c.current.frame.stack = [.null, .bool false]) &&
        abortsBelow.comesTo (fun c₁ => decide (c₁.current.id = 1) &&
        abortsBelow.comesTo (fun c₂ => decide (c₂.ids = [2, 1, 0] ∧ c₂.current.id = 2 ∧
          c₂.state.handlers = [⟨0, 11⟩] ∧ c₂.current.frame.stack = [.bool true]) &&
        abortsBelow.comesTo (fun c₃ => decide (c₃.ids = [0])) 0 (abortsBelow.step c₂)) 2
          (.running c₁)) 0 (abortsBelow.step c)) 3 (abortsBelow.start (.initial ()) 0 []) = true := by
      decide +kernel
    obtain ⟨c, c₁, c₂, c₃, hreach, hc, hstep, hc₁, hreach₂, hc₂, hstep₃, hc₃⟩ :=
      exists_call_of_comesTo hcomes
    obtain ⟨hactive, hcaller, hcode, hip, hstack⟩ := of_decide_eq_true hc
    obtain ⟨hids₂, hid₂, hhandlers, hstack₂⟩ := of_decide_eq_true hc₂
    have hid : c₁.current.id = 1 := of_decide_eq_true hc₁
    have hids₃ : c₃.ids = [0] := of_decide_eq_true hc₃
    have hinstr : c.current.frame.code.InstrsAt c.current.frame.ip [.call 1 1] := by
      rw [hcode, hip]
      exact ⟨Instr.assemble [.loadFalse, .enterAttempt 11, .loadNull], Instr.assemble [.ret, .ret],
        by decide, by decide⟩
    have hroom : c.active.length < abortsBelow.settings.maxDepth := by
      rw [hactive]
      decide
    obtain ⟨c₁', hstep', hfresh, -, hrun⟩ := (call_protocol abortsBelow _ 0 [] c hreach 1 1 true
      [.null] [.bool false] hinstr rfl hstack _ rfl hroom).2 1 (by decide +kernel)
    obtain rfl : c₁ = c₁' := StepResult.running.inj (hstep.symm.trans hstep')
    have hgone := (hrun c₂ hreach₂ (by simp [hid, hids₂])).2 c₃ hstep₃ (by simp [hid, hids₃])
    rcases hgone with ⟨v, hsame, -⟩ | ⟨w, ⟨-, hw⟩, ⟨target, rest, hh, hlands, -⟩ | hpassed⟩
    · rw [hid₂, hid] at hsame
      cases hsame
    · rw [hhandlers, hcaller] at hh
      rw [hstack₂] at hw
      cases hh
      cases hw
      exact ⟨c, c₁, c₂, c₃, hstep, ⟨_, hfresh⟩, hreach₂, hids₂, hstep₃, hlands⟩
    · exact absurd (by simp [hcaller, hids₃]) hpassed

end Machine

end BytecodeVm
