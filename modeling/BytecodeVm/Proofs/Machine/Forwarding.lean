/- # Forwarding a call

A body that loads its arguments, calls another callable on them and returns what comes back stands
for that callable: the host can invoke either.  It costs one activation more, so it is run under a
limit that is one higher.  Beneath the call there is then one more activation, which does not show:

* how deep a call is made matters only in comparison with the limit, so a call that is made one
  level deeper under a limit that is one higher comes to the same, but for the log;
* an activation sees nothing of those beneath it, and the one beneath owns no handler.

The main statements:

* `Machine.step_deeper`, `Machine.complete_deeper`: one level deeper, under a limit one higher;
* `Machine.reaches_forwarded`: how the arguments get to the callee;
* `Machine.invoke_forwarding`: forwarding agrees with invoking directly.
-/
import BytecodeVm.Proofs.Frame.Assembled
import BytecodeVm.Proofs.Machine.RaisedLimit
import BytecodeVm.Proofs.Machine.Renumbering

namespace BytecodeVm

open Stateful

variable {σ : Type}

/-! ## 1. One level deeper -/

/-- States that are the same, whatever has been logged. -/
structure State.SameButLog (s₁ s₂ : State σ) : Prop where
  heap : s₁.heap = s₂.heap
  host : s₁.host = s₂.host
  handlers : s₁.handlers = s₂.handlers
  nextFrame : s₁.nextFrame = s₂.nextFrame

/-- The same outcome, but for the limit that a call one too many has hit. -/
def Outcome.SameButLimit (d : Nat) (o₁ o₂ : Outcome) : Prop :=
  o₁ = o₂ ∨ o₁ = .trapped (.depthExceeded (d + 1)) ∧ o₂ = .trapped (.depthExceeded d)

/-- The activation, with one more beneath it. -/
def Activation.deeper (a : Activation) : Activation :=
  { a with depth := a.depth + 1 }

/-- Step results of which the first lies one level deeper. -/
inductive StepResult.Deeper (d : Nat) : StepResult σ → StepResult σ → Prop
  | running {s₁ s₂ : State σ} {a : Activation} {callers : List Activation} :
      s₁.SameButLog s₂ →
      Deeper d (.running ⟨s₁, a.deeper, callers.map .deeper⟩) (.running ⟨s₂, a, callers⟩)
  | finished {o₁ o₂ : Outcome} {s₁ s₂ : State σ} :
      o₁.SameButLimit d o₂ → s₁.SameButLog s₂ → Deeper d (.finished o₁ s₁) (.finished o₂ s₂)

namespace State.SameButLog

variable {s₁ s₂ : State σ}

theorem log (h : s₁.SameButLog s₂) (event₁ event₂ : Event) :
    (s₁.log event₁).SameButLog (s₂.log event₂) :=
  ⟨h.heap, h.host, h.handlers, h.nextFrame⟩

theorem enroll (h : s₁.SameButLog s₂) (index : UInt16) (callee : Callee)
    (argc depth₁ depth₂ : Nat) :
    (s₁.enroll index callee argc depth₁).SameButLog (s₂.enroll index callee argc depth₂) :=
  ⟨h.heap, h.host, h.handlers, congrArg (· + 1) h.nextFrame⟩

theorem ownsLatest_iff (h : s₁.SameButLog s₂) (id : Nat) : s₁.OwnsLatest id ↔ s₂.OwnsLatest id := by
  rw [State.OwnsLatest, State.OwnsLatest, h.handlers]

/-- What has been logged does not matter for the correspondence of states. -/
theorem renumbered {n₁ n₂ : Nat} {s₃ : State σ} (h : s₁.SameButLog s₂)
    (hs : s₂.Renumbered n₁ n₂ s₃) : s₁.Renumbered n₁ n₂ s₃ where
  heap := h.heap.trans hs.heap
  host := h.host.trans hs.host
  handlers := h.handlers ▸ hs.handlers
  nextFrame := h.nextFrame ▸ hs.nextFrame

end State.SameButLog

namespace Machine

variable {m : Machine σ} {d : Nat} {s₁ s₂ : State σ}

/-- A call that is made one level deeper. -/
theorem dispatch_deeper (hs : s₁.SameButLog s₂) (index : UInt16) (args : List Value) (keep : Bool)
    (depth : Nat) (callers : List Activation) :
    StepResult.Deeper d
      ((m.limited (d + 1)).dispatch s₁ index args keep (depth + 1) (callers.map .deeper))
      ((m.limited d).dispatch s₂ index args keep depth callers) := by
  rcases Nat.lt_or_ge depth d with hd | hd
  · have hd₁ : depth + 1 < (m.limited (d + 1)).settings.maxDepth := Nat.succ_lt_succ hd
    have hd₂ : depth < (m.limited d).settings.maxDepth := hd
    cases hc : m.program.callee? index with
    | none =>
      rw [dispatch, dispatch, activate_of_missing hd₁ hc, activate_of_missing hd₂ hc]
      exact .finished (.inl rfl) hs
    | some callee =>
      cases hf : Frame.create callee.code callee.slots args with
      | error trap =>
        rw [dispatch, dispatch, activate_of_create_error hd₁ hc hf,
          activate_of_create_error hd₂ hc hf]
        exact .finished (.inl rfl) (hs.enroll index callee _ _ _)
      | ok frame =>
        rw [dispatch, dispatch, activate_of_create hd₁ hc hf, activate_of_create hd₂ hc hf,
          hs.nextFrame]
        exact .running (a := ⟨s₂.nextFrame, depth, frame, keep⟩) (hs.enroll index callee _ _ _)
  · have hd₁ : (m.limited (d + 1)).settings.maxDepth ≤ depth + 1 := Nat.succ_le_succ hd
    have hd₂ : (m.limited d).settings.maxDepth ≤ depth := hd
    rw [dispatch, dispatch, activate_of_tooDeep hd₁, activate_of_tooDeep hd₂]
    exact .finished (.inr ⟨rfl, rfl⟩) hs

/-- An abort that one activation lands is landed by it one level deeper too. -/
theorem land_deeper {a : Activation} (v : Value) (hs : s₁.SameButLog s₂)
    (callers : List Activation) (howns : s₂.OwnsLatest a.id) :
    StepResult.Deeper d (unwind v s₁ a.deeper (callers.map .deeper)) (unwind v s₂ a callers) := by
  obtain ⟨target, rest, hlatest⟩ := handlers_of_ownsLatest howns
  rw [unwind_of_owner (a := a.deeper) (hs.handlers.trans hlatest), unwind_of_owner hlatest]
  exact .running (a := a.land v target) ⟨hs.heap, hs.host, rfl, hs.nextFrame⟩

/-- An abort lands in the same activation one level deeper, or in none. -/
theorem unwind_deeper (v : Value) (hs : s₁.SameButLog s₂) (a : Activation)
    (callers : List Activation) :
    StepResult.Deeper d (unwind v s₁ a.deeper (callers.map .deeper)) (unwind v s₂ a callers) := by
  induction callers generalizing a with
  | nil =>
    by_cases howns : s₂.OwnsLatest a.id
    · exact land_deeper v hs [] howns
    · have howns₁ : ¬ s₁.OwnsLatest a.deeper.id := mt (hs.ownsLatest_iff a.id).mp howns
      rw [unwind_of_not_ownsLatest howns, unwind_of_not_ownsLatest howns₁]
      exact .finished (.inl rfl) hs
  | cons caller below ih =>
    by_cases howns : s₂.OwnsLatest a.id
    · exact land_deeper v hs (caller :: below) howns
    · have howns₁ : ¬ s₁.OwnsLatest a.deeper.id := mt (hs.ownsLatest_iff a.id).mp howns
      rw [unwind_of_not_ownsLatest howns, unwind_of_not_ownsLatest howns₁]
      exact ih caller

/-- What an activation asks for is served alike one level deeper. -/
theorem serve_deeper (hs : s₁.SameButLog s₂) (a : Activation) (callers : List Activation)
    (request : Request) :
    StepResult.Deeper d ((m.limited (d + 1)).serve s₁ a.deeper (callers.map .deeper) request)
      ((m.limited d).serve s₂ a callers request) := by
  cases request with
  | proceed => exact .running hs
  | allocate type =>
    simp only [serve, hs.heap]
    exact .running (a := a.push _) ⟨rfl, hs.host, hs.handlers, hs.nextFrame⟩
  | store place field v =>
    simp only [serve, hs.heap]
    exact .running ⟨rfl, hs.host, hs.handlers, hs.nextFrame⟩
  | call index args keep =>
    rw [serve_call, serve_call]
    exact dispatch_deeper hs index args keep (a.depth + 1) (a :: callers)
  | native id args =>
    have hcall : (m.limited (d + 1)).host.call = (m.limited d).host.call := rfl
    simp only [serve, hcall, hs.heap, hs.host]
    split
    · exact .running (a := a.push _) ⟨rfl, rfl, hs.handlers, hs.nextFrame⟩
    · exact .finished (.inl rfl) ⟨rfl, rfl, hs.handlers, hs.nextFrame⟩
  | ret v =>
    have hkeep : a.deeper.keepResult = a.keepResult := rfl
    cases callers with
    | nil => exact .finished (.inl rfl) hs
    | cons caller below =>
      simp only [serve, List.map_cons, hkeep]
      split
      · exact .running (a := caller.push v) (hs.log _ _)
      · exact .running (hs.log _ _)
  | abort v => exact unwind_deeper v (hs.log _ _) a callers
  | enter target =>
    exact .running ⟨hs.heap, hs.host, congrArg (⟨a.id, target⟩ :: ·) hs.handlers, hs.nextFrame⟩
  | leave =>
    simp only [serve, hs.handlers]
    split
    · exact .running ⟨hs.heap, hs.host, rfl, hs.nextFrame⟩
    · exact .finished (.inl rfl) hs

/-- **A step one level deeper**, under a limit that is one higher, does the same. -/
theorem step_deeper (hs : s₁.SameButLog s₂) (a : Activation) (callers : List Activation) :
    StepResult.Deeper d ((m.limited (d + 1)).step ⟨s₁, a.deeper, callers.map .deeper⟩)
      ((m.limited d).step ⟨s₂, a, callers⟩) := by
  -- an instruction sees its frame, the heap and the constants, and not how deep it is
  have hnext : (m.limited (d + 1)).next ⟨s₁, a.deeper, callers.map .deeper⟩ =
      (m.limited d).next ⟨s₂, a, callers⟩ := by
    simp only [next, hs.heap]
    rfl
  cases hn : (m.limited d).next ⟨s₂, a, callers⟩ with
  | ok request f =>
    rw [step_of_next hn, step_of_next (hnext.trans hn)]
    exact serve_deeper hs { a with frame := f } callers request
  | error trap f =>
    rw [step_of_next_error hn, step_of_next_error (hnext.trans hn)]
    exact .finished (.inl rfl) hs

/-- **A run one level deeper**, under a limit that is one higher, ends alike, or both go on. -/
theorem complete_deeper {r₁ r₂ : StepResult σ} (fuel : Nat) (hr : StepResult.Deeper d r₁ r₂) :
    Option.Rel (fun e₁ e₂ => e₁.1.SameButLimit d e₂.1 ∧ e₁.2.SameButLog e₂.2)
      ((m.limited (d + 1)).complete fuel r₁) ((m.limited d).complete fuel r₂) := by
  induction fuel generalizing r₁ r₂ with
  | zero =>
    cases hr with
    | running hs => exact .none
    | finished ho hs => exact .some ⟨ho, hs⟩
  | succ fuel ih =>
    cases hr with
    | @running _ _ a callers hs =>
      rw [complete_succ_running, complete_succ_running]
      exact ih (step_deeper hs a callers)
    | finished ho hs => exact .some ⟨ho, hs⟩

/-- **A call from beneath agrees with an invocation by the host.**  The call is made by the only
activation that is there, under a limit that is one higher, in a state with the same heap and the
same host. -/
theorem complete_call_renumbered (fuel : Nat) (hheap : s₁.heap = s₂.heap)
    (hhost : s₁.host = s₂.host) (hhandlers : s₁.handlers = []) (index : UInt16)
    (args : List Value) :
    Option.Rel (fun e₁ e₂ => e₁.1.SameButLimit d e₂.1 ∧
        e₁.2.Renumbered s₁.nextFrame s₂.nextFrame e₂.2)
      ((m.limited (d + 1)).complete fuel ((m.limited (d + 1)).dispatch s₁ index args true 1 []))
      ((m.limited d).invoke fuel s₂ index args) := by
  have hs : State.Renumbered s₁.nextFrame s₂.nextFrame s₁ { s₂ with handlers := [] } :=
    ⟨hheap, hhost, by rw [hhandlers]; exact .nil, Nat.add_comm _ _⟩
  -- one level up first, and then from the one state to the other
  have hup : StepResult.Deeper d ((m.limited (d + 1)).dispatch s₁ index args true 1 [])
      ((m.limited d).dispatch s₁ index args true 0 []) :=
    dispatch_deeper ⟨rfl, rfl, rfl, rfl⟩ index args true 0 []
  have hover := dispatch_renumbered (m := m.limited d) hs .nil index args true 0
  rw [invoke_eq_complete, start_eq_dispatch]
  generalize hr₂ : (m.limited d).dispatch s₁ index args true 0 [] = r₂ at hup hover
  have hends := complete_deeper (m := m) fuel hup
  have hends' := complete_renumbered (m := m.limited d) fuel hover
  generalize (m.limited d).complete fuel r₂ = e₂ at hends hends'
  generalize (m.limited (d + 1)).complete fuel _ = e₁ at hends ⊢
  generalize (m.limited d).complete fuel _ = e₃ at hends' ⊢
  cases hends with
  | none =>
    cases hends'
    exact .none
  | some h =>
    cases hends' with
    | some h' => exact .some ⟨h'.1 ▸ h.1, h.2.renumbered h'.2⟩

/-- A call that is made without handlers leaves none for activations that were there before. -/
theorem not_ownsLatest_of_complete {fuel : Nat} {s s' : State σ} {index : UInt16}
    {args : List Value} {keep : Bool} {depth : Nat} {o : Outcome} {id : Nat}
    (h : m.complete fuel (m.dispatch s index args keep depth []) = some (o, s'))
    (hhandlers : s.handlers = []) (hid : id < s.nextFrame) : ¬ s'.OwnsLatest id := by
  -- the same call could have been made with serial numbers that count from zero
  have hs : State.Renumbered s.nextFrame 0 s { s with nextFrame := 0 } :=
    ⟨rfl, rfl, by rw [hhandlers]; exact .nil, Nat.add_comm _ _⟩
  have hends := complete_renumbered (m := m) fuel
    (dispatch_renumbered (m := m) hs .nil index args keep depth)
  rw [h] at hends
  generalize m.complete fuel (m.dispatch { s with nextFrame := 0 } _ _ _ _ _) = e at hends
  cases hends with
  | some hend =>
    intro howns
    obtain ⟨target, rest, hlatest⟩ := handlers_of_ownsLatest howns
    have hcorrespond := hend.2.handlers
    rw [hlatest] at hcorrespond
    obtain ⟨other, -, hfirst, -, -⟩ := List.forall₂_cons_left_iff.mp hcorrespond
    have hframe : id + 0 = other.frame + s.nextFrame := hfirst.frame
    omega

end Machine

/-! ## 2. Handing on the arguments -/

/-- Instructions that load the first local slots, call a callable on them and return its result. -/
def Instr.forwarding (callee count : UInt16) : List Instr :=
  ((List.range count.toNat).map UInt16.ofNat).map .loadLocal ++ [.call callee count, .ret]

/-- A body for one callable that hands its arguments on to another one. -/
def Body.forwarding (callable callee count : UInt16) : Body :=
  ⟨callable, count, (Instr.assemble (Instr.forwarding callee count)).toArray⟩

namespace Frame

variable {f : Frame} {rest : List Instr}

theorem advance_loadLocal {slot : UInt16} {v : Value}
    (h : f.code.InstrsAt f.ip (.loadLocal slot :: rest)) (hv : f.locals[slot.toNat]? = some v)
    (literal : UInt16 → Except Trap Value) (heap : Heap) :
    ∃ ip, f.code.InstrsAt ip rest ∧ advance literal heap f =
      .ok .proceed { f with ip, opOffset := f.ip, stack := v :: f.stack } := by
  refine ⟨f.ip + (Instr.loadLocal slot).opcode.encodedLength, h.tail, ?_⟩
  have hget : ∀ ip, getLocal slot { f with ip, opOffset := f.ip } =
      .ok v { f with ip, opOffset := f.ip } := by
    intro ip
    simp only [getLocal, hv]
  rw [advance_of_instrsAt h]
  exact bind_ok_iff.mpr ⟨v, _, hget _, rfl⟩

theorem advance_call {callee count : UInt16} {args : List Value}
    (h : f.code.InstrsAt f.ip (.call callee count :: rest)) (hstack : f.stack = args.reverse)
    (hargs : args.length = count.toNat) (literal : UInt16 → Except Trap Value) (heap : Heap) :
    ∃ ip, f.code.InstrsAt ip rest ∧ advance literal heap f =
      .ok (.call callee args true) { f with ip, opOffset := f.ip, stack := [] } := by
  have hpop : OperandStack.popMany? f.stack count.toNat = some (args, []) := by
    simp [OperandStack.popMany?, hstack, ← hargs, List.take_of_length_le]
  refine ⟨_, h.tail, ?_⟩
  rw [advance_of_instrsAt h]
  refine bind_ok_iff.mpr ⟨args, _, ?_, rfl⟩
  simp only [popArgs, hpop]

theorem advance_ret {v : Value} {stack : OperandStack} (h : f.code.InstrsAt f.ip (.ret :: rest))
    (hstack : f.stack = v :: stack) (literal : UInt16 → Except Trap Value) (heap : Heap) :
    ∃ f', advance literal heap f = .ok (.ret v) f' := by
  have hpop : ∀ ip, popAny { f with ip, opOffset := f.ip } =
      .ok (some v) { f with ip, opOffset := f.ip, stack } := by
    intro ip
    simp only [popAny, hstack]
  rw [advance_of_instrsAt h]
  exact ⟨_, bind_ok_iff.mpr ⟨some v, _, hpop _, rfl⟩⟩

end Frame

namespace Machine

variable {m : Machine σ}

/-- Loading slots, one after another, puts their values on the stack. -/
theorem reaches_loaded {slots : List UInt16} {values : List Value} {locals : Array Value}
    (hvalues : List.Forall₂ (fun slot v => locals[slot.toNat]? = some v) slots values)
    {rest : List Instr} {s : State σ} {id depth : Nat} {f : Frame} {keep : Bool}
    {callers : List Activation} (hlocals : f.locals = locals)
    (h : f.code.InstrsAt f.ip (slots.map .loadLocal ++ rest)) :
    ∃ ip opOffset, f.code.InstrsAt ip rest ∧ m.Reaches (.running ⟨s, ⟨id, depth, f, keep⟩, callers⟩)
      (.running ⟨s, ⟨id, depth, { f with ip, opOffset, stack := values.reverse ++ f.stack }, keep⟩,
        callers⟩) := by
  induction hvalues generalizing f with
  | nil => exact ⟨f.ip, f.opOffset, h, .refl _⟩
  | @cons slot v slots values hv _ ih =>
    rw [← hlocals] at hv
    obtain ⟨ip, hnext, hload⟩ := Frame.advance_loadLocal h hv m.program.literal s.heap
    obtain ⟨ip', opOffset, hrest, hreaches⟩ :=
      ih (f := { f with ip, opOffset := f.ip, stack := v :: f.stack }) hlocals hnext
    rw [List.reverse_cons, List.append_assoc]
    exact ⟨ip', opOffset, hrest, reaches_of_effect hload hreaches⟩

/-- The slots that a forwarding body loads hold its arguments. -/
theorem forall₂_slots {count : UInt16} {args : List Value} (hargs : args.length = count.toNat)
    {size : Nat} (hsize : args.length ≤ size) :
    List.Forall₂ (fun slot v => (Frame.bindArguments size args)[slot.toNat]? = some v)
      ((List.range count.toNat).map UInt16.ofNat) args := by
  refine List.forall₂_iff_get.mpr ⟨by simp [hargs], ?_⟩
  intro i hi hi'
  have hlt : i < UInt16.size := by
    rw [hargs] at hi'
    exact Nat.lt_trans hi' count.toNat_lt
  have hslot : (UInt16.ofNat i).toNat = i := UInt16.toNat_ofNat_of_lt hlt
  have hget : ((List.range count.toNat).map UInt16.ofNat).get ⟨i, hi⟩ = UInt16.ofNat i := by simp
  rw [hget, hslot, Frame.getElem?_bindArguments (Nat.lt_of_lt_of_le hi' hsize),
    List.getElem?_eq_getElem hi']
  rfl

/-- A frame at the start of a forwarding body calls the callee, and can then only return. -/
theorem reaches_call_of_forwarding {callee count : UInt16} {args : List Value} {f : Frame}
    (h : f.code.InstrsAt f.ip (Instr.forwarding callee count)) (hstack : f.stack = [])
    (hlocals : ∃ size, args.length ≤ size ∧ f.locals = Frame.bindArguments size args)
    (hargs : args.length = count.toNat) (s : State σ) (id depth : Nat) (keep : Bool)
    (callers : List Activation) :
    ∃ f', f'.code.InstrsAt f'.ip [.ret] ∧ m.Reaches (.running ⟨s, ⟨id, depth, f, keep⟩, callers⟩)
      (m.dispatch s callee args true (depth + 1) (⟨id, depth, f', keep⟩ :: callers)) := by
  obtain ⟨size, hsize, hlocals⟩ := hlocals
  obtain ⟨ip, opOffset, hcode, hloaded⟩ := reaches_loaded (forall₂_slots hargs hsize) hlocals h
  rw [hstack, List.append_nil] at hloaded
  obtain ⟨ip', hcode', hcall⟩ := Frame.advance_call
    (f := { f with ip, opOffset, stack := args.reverse }) hcode rfl hargs m.program.literal s.heap
  refine ⟨_, ?_, hloaded.trans (reaches_of_effect hcall (.refl _))⟩
  exact hcode'

/-- A forwarding body decodes, and its arguments are bound to its slots. -/
theorem create_forwarding (callable callee : UInt16) {count : UInt16} {args : List Value}
    (hargs : args.length = count.toNat) :
    ∃ f, Frame.create (Body.forwarding callable callee count).code count.toNat args = .ok f ∧
      f.code.InstrsAt f.ip (Instr.forwarding callee count) ∧ f.stack = [] ∧
      ∃ size, args.length ≤ size ∧ f.locals = Frame.bindArguments size args := by
  have hscan := Code.scanSlots_assemble (Instr.forwarding callee count)
  refine ⟨_, Frame.create_ok_iff.mpr ⟨_, hscan, rfl⟩, Code.instrsAt_assemble _, rfl, _, ?_, rfl⟩
  rw [hargs]
  exact Nat.le_max_left _ _

/-- **A forwarding body calls its callee on its own arguments**, and can then only return. -/
theorem reaches_forwarded {wrapper callee count : UInt16} {args : List Value}
    (hbody : m.program.body? wrapper = some (.forwarding wrapper callee count))
    (hargs : args.length = count.toNat) (hd : 0 < m.settings.maxDepth) (s : State σ) :
    ∃ f s', f.code.InstrsAt f.ip [.ret] ∧
      s'.SameButLog { s with handlers := [], nextFrame := s.nextFrame + 1 } ∧
      m.Reaches (m.start s wrapper args)
        (m.dispatch s' callee args true 1 [⟨s.nextFrame, 0, f, true⟩]) := by
  have hcallee : m.program.callee? wrapper = some (.body (.forwarding wrapper callee count)) := by
    simp only [Program.callee?, hbody]
  obtain ⟨f, hcreate, hcode, hstack, hlocals⟩ := create_forwarding wrapper callee hargs
  have hstart : m.start s wrapper args = .running ⟨State.enroll { s with handlers := [] } wrapper
      (.body (.forwarding wrapper callee count)) args.length 0, ⟨s.nextFrame, 0, f, true⟩, []⟩ := by
    rw [start_eq_dispatch, dispatch, activate_of_create hd hcallee hcreate]
  rw [hstart]
  generalize hs' : State.enroll _ _ _ _ _ = s'
  have hsame : s'.SameButLog { s with handlers := [], nextFrame := s.nextFrame + 1 } :=
    hs' ▸ ⟨rfl, rfl, rfl, rfl⟩
  obtain ⟨f', hret, hcall⟩ :=
    reaches_call_of_forwarding (m := m) hcode hstack hlocals hargs s' s.nextFrame 0 true []
  exact ⟨f', s', hret, hsame, hcall⟩

/-! ## 3. Forwarding agrees with invoking -/

/-- What ends goes on to its end from everything that it comes to. -/
theorem Reaches.finished_of_reaches {r r' : StepResult σ} {o : Outcome} {s : State σ}
    (h : m.Reaches r r') (hend : m.Reaches r (.finished o s)) : m.Reaches r' (.finished o s) := by
  induction h with
  | refl _ => exact hend
  | head _ ih =>
    cases hend with
    | head hend => exact ih hend

/-- An activation that can only return, and that owns no handler, hands on the outcome of its
call. -/
theorem reaches_deliver_ret {id depth : Nat} {f : Frame} {s : State σ} (o : Outcome)
    (hret : f.code.InstrsAt f.ip [.ret]) (howns : ¬ s.OwnsLatest id) :
    ∃ s', s'.SameButLog s ∧ m.Reaches
      (deliver s (id + 1) (depth + 1) true [⟨id, depth, f, true⟩] o) (.finished o s') := by
  cases o with
  | returned v =>
    obtain ⟨f', hadvance⟩ := Frame.advance_ret (f := f.pushed v) hret rfl m.program.literal s.heap
    exact ⟨s.log (.returned (id + 1) (depth + 1)), ⟨rfl, rfl, rfl, rfl⟩,
      reaches_of_effect hadvance (.refl _)⟩
  | unwound v =>
    refine ⟨s, ⟨rfl, rfl, rfl, rfl⟩, ?_⟩
    rw [deliver, unwind_of_not_ownsLatest howns, deliver_nil]
    exact .refl _
  | trapped trap => exact ⟨s, ⟨rfl, rfl, rfl, rfl⟩, .refl _⟩

/-- A call over callers comes to what the outcome of the same call over none does to them. -/
theorem complete_call_of_callers {fuel : Nat} {s s' : State σ} {index : UInt16} {args : List Value}
    {keep : Bool} {depth : Nat} {callers : List Activation} {o : Outcome}
    (h : m.complete fuel (m.dispatch s index args keep depth callers) = some (o, s')) :
    ∃ n o₁ s₁, m.complete n (m.dispatch s index args keep depth []) = some (o₁, s₁) ∧
      m.Reaches (deliver s₁ s.nextFrame depth keep callers o₁) (.finished o s') := by
  obtain ⟨o₁, s₁, k, -, hevaluates, hrest⟩ := (m.decomposes fuel).call h
  have halone := realizes_of_evaluates hevaluates keep []
  rw [deliver_nil] at halone
  obtain ⟨n, hn⟩ := exists_complete_of_reaches halone
  exact ⟨n, o₁, s₁, hn, reaches_of_complete hrest⟩

theorem reaches_call_of_complete {fuel : Nat} {s s' : State σ} {index : UInt16} {args : List Value}
    {keep : Bool} {depth : Nat} {o : Outcome} (callers : List Activation)
    (h : m.complete fuel (m.dispatch s index args keep depth []) = some (o, s')) :
    m.Reaches (m.dispatch s index args keep depth callers)
      (deliver s' s.nextFrame depth keep callers o) := by
  obtain ⟨o₁, s₁, k, -, hevaluates, hrest⟩ := (m.decomposes fuel).call h
  rw [deliver_nil, complete_finished, Option.some.injEq, Prod.mk.injEq] at hrest
  obtain ⟨rfl, rfl⟩ := hrest
  exact realizes_of_evaluates hevaluates keep callers

/-- **Forwarding agrees with invoking.**  Let a callable have a body that hands its arguments on to
another one, and take any arguments, as many as it has slots.  It is invoked under a limit that is
one higher than the one under which the other callable is invoked, in states with the same heap and
the same host.  If one of the two invocations ends then so does the other, with the same outcome,
but for the limit that a call one too many is said to have hit.  They leave the same heap and the same
host, and as many handlers with the same targets, whose serial numbers differ as if the forwarding
activation had been there before. -/
theorem invoke_forwarding (m : Machine σ) {wrapper callee count : UInt16}
    (hbody : m.program.body? wrapper = some (.forwarding wrapper callee count)) {args : List Value}
    (hargs : args.length = count.toNat) (d : Nat) (s₁ s₂ : State σ) (hheap : s₁.heap = s₂.heap)
    (hhost : s₁.host = s₂.host) :
    (∀ fuel o₁ s₁', (m.limited (d + 1)).invoke fuel s₁ wrapper args = some (o₁, s₁') →
      ∃ fuel' o₂ s₂', (m.limited d).invoke fuel' s₂ callee args = some (o₂, s₂') ∧
        o₁.SameButLimit d o₂ ∧ s₁'.Renumbered (s₁.nextFrame + 1) s₂.nextFrame s₂') ∧
    ∀ fuel o₂ s₂', (m.limited d).invoke fuel s₂ callee args = some (o₂, s₂') →
      ∃ fuel' o₁ s₁', (m.limited (d + 1)).invoke fuel' s₁ wrapper args = some (o₁, s₁') ∧
        o₁.SameButLimit d o₂ ∧ s₁'.Renumbered (s₁.nextFrame + 1) s₂.nextFrame s₂' := by
  obtain ⟨f, s, hret, hs, hstart⟩ :=
    reaches_forwarded (m := m.limited (d + 1)) hbody hargs (Nat.succ_pos d) s₁
  -- what the call comes to where nothing lies beneath it, and what the forwarding body makes of it
  have hcall : ∀ fuel, Option.Rel (fun e₁ e₂ => e₁.1.SameButLimit d e₂.1 ∧
      e₁.2.Renumbered (s₁.nextFrame + 1) s₂.nextFrame e₂.2)
      ((m.limited (d + 1)).complete fuel ((m.limited (d + 1)).dispatch s callee args true 1 []))
      ((m.limited d).invoke fuel s₂ callee args) := by
    intro fuel
    have hrel := complete_call_renumbered (m := m) (d := d) fuel (hs.heap.trans hheap)
      (hs.host.trans hhost) hs.handlers callee args
    rwa [hs.nextFrame] at hrel
  have hdeliver : ∀ fuel o s', (m.limited (d + 1)).complete fuel
      ((m.limited (d + 1)).dispatch s callee args true 1 []) = some (o, s') →
      ∃ s'', s''.SameButLog s' ∧ (m.limited (d + 1)).Reaches
        (deliver s' s.nextFrame 1 true [⟨s₁.nextFrame, 0, f, true⟩] o) (.finished o s'') := by
    intro fuel o s' h
    have hid : s₁.nextFrame < s.nextFrame := hs.nextFrame ▸ Nat.lt_succ_self _
    have howns := not_ownsLatest_of_complete h hs.handlers hid
    rw [hs.nextFrame]
    exact reaches_deliver_ret o hret howns
  constructor
  · intro fuel o₁ s₁' h
    have hend : (m.limited (d + 1)).Reaches _ (.finished o₁ s₁') :=
      (exists_invoke_iff _ _ _ _ _ _).mp ⟨fuel, h⟩
    obtain ⟨n, hn⟩ := exists_complete_of_reaches (hstart.finished_of_reaches hend)
    obtain ⟨k, o, s', hk, hrest⟩ := complete_call_of_callers hn
    obtain ⟨s'', hlog, hreaches⟩ := hdeliver k o s' hk
    have heq := (hreaches.finished_of_reaches hrest).eq_of_finished
    cases heq
    have hrel := hcall k
    rw [hk] at hrel
    generalize hinvoke : (m.limited d).invoke k s₂ callee args = e at hrel
    cases hrel with
    | @some _ e h => exact ⟨k, e.1, e.2, hinvoke, h.1, hlog.renumbered h.2⟩
  · intro fuel o₂ s₂' h
    have hrel := hcall fuel
    rw [h] at hrel
    generalize hcomplete : (m.limited (d + 1)).complete fuel _ = e at hrel
    cases hrel with
    | @some e _ h =>
      obtain ⟨s', hlog, hreaches⟩ := hdeliver fuel e.1 e.2 hcomplete
      have hend := hstart.trans ((reaches_call_of_complete _ hcomplete).trans hreaches)
      obtain ⟨fuel', hinvoke⟩ := (exists_invoke_iff _ _ _ _ _ _).mpr hend
      exact ⟨fuel', e.1, s', hinvoke, h.1, hlog.renumbered h.2⟩

/-- A method that hands on two arguments to one that returns the second in an attempt. -/
def handsOn : Machine Unit :=
  .ofBodies [.forwarding 0 1 2,
    ⟨1, 2, (Instr.assemble [.enterAttempt 9, .loadLocal 1, .ret]).toArray⟩]

/-- The method that hands on its arguments returns the second with two activations at a time, and so
does the other one with a single activation; both leave the handler of the attempt behind. -/
theorem handsOn_agrees :
    ∃ s₁ s₂ fuel,
      (handsOn.limited 2).invoke 9 (State.initial ()) 0 [.null, .bool true] =
        some (.returned (.bool true), s₁) ∧ s₁.handlers = [⟨1, 9⟩] ∧
      (handsOn.limited 1).invoke fuel (State.initial ()) 1 [.null, .bool true] =
        some (.returned (.bool true), s₂) ∧ s₂.handlers = [⟨0, 9⟩] := by
  have hrun : ((handsOn.limited 2).invoke 9 (State.initial ()) 0 [.null, .bool true]).map
      (fun e => (e.1, e.2.handlers)) = some (.returned (.bool true), [⟨1, 9⟩]) := by
    decide +kernel
  obtain ⟨⟨o, s₁⟩, hwrapper, heq⟩ := Option.map_eq_some_iff.mp hrun
  simp only [Prod.mk.injEq] at heq
  obtain ⟨rfl, hhandlers⟩ := heq
  obtain ⟨fuel, o₂, s₂, hcallee, ho, hs⟩ := (invoke_forwarding handsOn rfl rfl 1 (State.initial ())
    (State.initial ()) rfl rfl).1 9 _ s₁ hwrapper
  obtain ⟨rest, hhandlers₂, hrest⟩ := hs.latest rfl hhandlers
  cases hrest
  rcases ho with rfl | ⟨ho, -⟩
  · exact ⟨s₁, s₂, fuel, hwrapper, hhandlers, hcallee, hhandlers₂⟩
  · cases ho

end Machine

end BytecodeVm
