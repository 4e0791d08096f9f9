/- # Invocations do not depend on what came before

Earlier runs leave handlers behind, and they have used up serial numbers.  Handlers are dropped when
an invocation starts.  Serial numbers are only ever compared with each other, and those that are
compared were given out by the same invocation.  So two machines that have been used differently do
the same on the same heap with the same host, step by step, up to the serial numbers: these differ by
as much as they did at the start.

* `State.Renumbered`, `Config.Renumbered`: the same up to serial numbers;
* `Machine.step_renumbered`: steps keep this;
* `Machine.invoke_renumbered`: invocations that start in different states end alike.
-/
import BytecodeVm.Proofs.Machine.Recursive
import Mathlib.Data.List.Forall2

namespace BytecodeVm

variable {σ : Type}

/-! ## 1. The same up to serial numbers

Of two serial numbers, one counts from `n₁` and the other from `n₂`.  They correspond if they are
equally far from there, which is said without subtraction. -/

/-- Handlers that correspond. -/
structure Handler.Renumbered (n₁ n₂ : Nat) (h₁ h₂ : Handler) : Prop where
  frame : h₁.frame + n₂ = h₂.frame + n₁
  target : h₁.target = h₂.target

/-- Activations that correspond. -/
structure Activation.Renumbered (n₁ n₂ : Nat) (a₁ a₂ : Activation) : Prop where
  id : a₁.id + n₂ = a₂.id + n₁
  depth : a₁.depth = a₂.depth
  frame : a₁.frame = a₂.frame
  keepResult : a₁.keepResult = a₂.keepResult

/-- States that correspond, whatever has been logged. -/
structure State.Renumbered (n₁ n₂ : Nat) (s₁ s₂ : State σ) : Prop where
  heap : s₁.heap = s₂.heap
  host : s₁.host = s₂.host
  handlers : List.Forall₂ (Handler.Renumbered n₁ n₂) s₁.handlers s₂.handlers
  nextFrame : s₁.nextFrame + n₂ = s₂.nextFrame + n₁

/-- Configurations that correspond. -/
structure Config.Renumbered (n₁ n₂ : Nat) (c₁ c₂ : Config σ) : Prop where
  state : c₁.state.Renumbered n₁ n₂ c₂.state
  current : c₁.current.Renumbered n₁ n₂ c₂.current
  callers : List.Forall₂ (Activation.Renumbered n₁ n₂) c₁.callers c₂.callers

/-- Step results that correspond: both go on, or both end with the same outcome. -/
inductive StepResult.Renumbered (n₁ n₂ : Nat) : StepResult σ → StepResult σ → Prop
  | running {c₁ c₂ : Config σ} :
      c₁.Renumbered n₁ n₂ c₂ → Renumbered n₁ n₂ (.running c₁) (.running c₂)
  | finished {o : Outcome} {s₁ s₂ : State σ} :
      s₁.Renumbered n₁ n₂ s₂ → Renumbered n₁ n₂ (.finished o s₁) (.finished o s₂)

variable {n₁ n₂ : Nat}

theorem Handler.Renumbered.symm {h₁ h₂ : Handler} (h : h₁.Renumbered n₁ n₂ h₂) :
    h₂.Renumbered n₂ n₁ h₁ :=
  ⟨h.frame.symm, h.target.symm⟩

theorem Activation.Renumbered.push {a₁ a₂ : Activation} (h : a₁.Renumbered n₁ n₂ a₂) (v : Value) :
    (a₁.push v).Renumbered n₁ n₂ (a₂.push v) :=
  ⟨h.id, h.depth, by simp only [Activation.push, h.frame], h.keepResult⟩

theorem Activation.Renumbered.land {a₁ a₂ : Activation} (h : a₁.Renumbered n₁ n₂ a₂) (v : Value)
    (target : UInt16) : (a₁.land v target).Renumbered n₁ n₂ (a₂.land v target) :=
  ⟨h.id, h.depth, by simp only [Activation.land, h.frame], h.keepResult⟩

namespace State.Renumbered

variable {s₁ s₂ : State σ}

theorem symm (h : s₁.Renumbered n₁ n₂ s₂) : s₂.Renumbered n₂ n₁ s₁ where
  heap := h.heap.symm
  host := h.host.symm
  handlers := (h.handlers.imp fun _ _ hh => hh.symm).flip
  nextFrame := h.nextFrame.symm

/-- What is logged does not matter. -/
theorem log (h : s₁.Renumbered n₁ n₂ s₂) (event₁ event₂ : Event) :
    (s₁.log event₁).Renumbered n₁ n₂ (s₂.log event₂) :=
  ⟨h.heap, h.host, h.handlers, h.nextFrame⟩

/-- A call that is let in takes corresponding serial numbers. -/
theorem enroll (h : s₁.Renumbered n₁ n₂ s₂) (index : UInt16) (callee : Callee) (argc depth : Nat) :
    (s₁.enroll index callee argc depth).Renumbered n₁ n₂ (s₂.enroll index callee argc depth) where
  heap := h.heap
  host := h.host
  handlers := h.handlers
  nextFrame := by
    have hnext := h.nextFrame
    simp only [State.enroll_nextFrame]
    omega

/-- If the latest handler of one state names an activation, that of the other names the activation
that corresponds to it, with the same target. -/
theorem latest {id₁ id₂ : Nat} {target : UInt16} {rest₁ : List Handler}
    (h : s₁.Renumbered n₁ n₂ s₂) (hid : id₁ + n₂ = id₂ + n₁)
    (hlatest : s₁.handlers = ⟨id₁, target⟩ :: rest₁) :
    ∃ rest₂, s₂.handlers = ⟨id₂, target⟩ :: rest₂ ∧
      List.Forall₂ (Handler.Renumbered n₁ n₂) rest₁ rest₂ := by
  have hhandlers := h.handlers
  rw [hlatest] at hhandlers
  obtain ⟨⟨frame, target'⟩, rest₂, hh, hrest, heq⟩ := List.forall₂_cons_left_iff.mp hhandlers
  have hframe : id₁ + n₂ = frame + n₁ := hh.frame
  obtain rfl : frame = id₂ := by omega
  obtain rfl : target = target' := hh.target
  exact ⟨rest₂, heq, hrest⟩

theorem ownsLatest {id₁ id₂ : Nat} (h : s₁.Renumbered n₁ n₂ s₂) (hid : id₁ + n₂ = id₂ + n₁)
    (howns : s₁.OwnsLatest id₁) : s₂.OwnsLatest id₂ := by
  obtain ⟨target, rest₁, hlatest⟩ := Machine.handlers_of_ownsLatest howns
  obtain ⟨rest₂, hlatest₂, -⟩ := h.latest hid hlatest
  exact ⟨⟨id₂, target⟩, by rw [hlatest₂]; rfl, rfl⟩

end State.Renumbered

/-! ## 2. Steps -/

namespace Machine

variable {m : Machine σ} {s₁ s₂ : State σ} {a₁ a₂ : Activation} {callers₁ callers₂ : List Activation}

/-- A call comes to the same in corresponding states. -/
theorem dispatch_renumbered (hs : s₁.Renumbered n₁ n₂ s₂)
    (hcallers : List.Forall₂ (Activation.Renumbered n₁ n₂) callers₁ callers₂) (index : UInt16)
    (args : List Value) (keep : Bool) (depth : Nat) :
    StepResult.Renumbered n₁ n₂ (m.dispatch s₁ index args keep depth callers₁)
      (m.dispatch s₂ index args keep depth callers₂) := by
  rcases Nat.lt_or_ge depth m.settings.maxDepth with hd | hd
  · cases hc : m.program.callee? index with
    | none =>
      rw [dispatch, dispatch, activate_of_missing hd hc, activate_of_missing hd hc]
      exact .finished hs
    | some callee =>
      cases hf : Frame.create callee.code callee.slots args with
      | error trap =>
        rw [dispatch, dispatch, activate_of_create_error hd hc hf,
          activate_of_create_error hd hc hf]
        exact .finished (hs.enroll index callee args.length depth)
      | ok frame =>
        rw [dispatch, dispatch, activate_of_create hd hc hf, activate_of_create hd hc hf]
        exact .running ⟨hs.enroll index callee args.length depth, ⟨hs.nextFrame, rfl, rfl, rfl⟩,
          hcallers⟩
  · rw [dispatch, dispatch, activate_of_tooDeep hd, activate_of_tooDeep hd]
    exact .finished hs

/-- An abort that one activation lands is landed by the corresponding one, at the same target. -/
theorem land_renumbered (v : Value) (hs : s₁.Renumbered n₁ n₂ s₂) (ha : a₁.Renumbered n₁ n₂ a₂)
    (hcallers : List.Forall₂ (Activation.Renumbered n₁ n₂) callers₁ callers₂)
    (howns : s₁.OwnsLatest a₁.id) :
    StepResult.Renumbered n₁ n₂ (unwind v s₁ a₁ callers₁) (unwind v s₂ a₂ callers₂) := by
  obtain ⟨target, rest₁, hlatest₁⟩ := handlers_of_ownsLatest howns
  obtain ⟨rest₂, hlatest₂, hrest⟩ := hs.latest ha.id hlatest₁
  rw [unwind_of_owner hlatest₁, unwind_of_owner hlatest₂]
  exact .running ⟨⟨hs.heap, hs.host, hrest, hs.nextFrame⟩, ha.land v target, hcallers⟩

/-- An abort lands in corresponding activations, or in none. -/
theorem unwind_renumbered (v : Value) (hs : s₁.Renumbered n₁ n₂ s₂)
    (ha : a₁.Renumbered n₁ n₂ a₂)
    (hcallers : List.Forall₂ (Activation.Renumbered n₁ n₂) callers₁ callers₂) :
    StepResult.Renumbered n₁ n₂ (unwind v s₁ a₁ callers₁) (unwind v s₂ a₂ callers₂) := by
  -- both go down their stacks together, for as long as the latest handler is not found
  induction hcallers generalizing a₁ a₂ with
  | nil =>
    by_cases howns : s₁.OwnsLatest a₁.id
    · exact land_renumbered v hs ha .nil howns
    · have howns₂ : ¬ s₂.OwnsLatest a₂.id := mt (hs.symm.ownsLatest ha.id.symm) howns
      rw [unwind_of_not_ownsLatest howns, unwind_of_not_ownsLatest howns₂]
      exact .finished hs
  | cons hcaller hbelow ih =>
    by_cases howns : s₁.OwnsLatest a₁.id
    · exact land_renumbered v hs ha (.cons hcaller hbelow) howns
    · have howns₂ : ¬ s₂.OwnsLatest a₂.id := mt (hs.symm.ownsLatest ha.id.symm) howns
      rw [unwind_of_not_ownsLatest howns, unwind_of_not_ownsLatest howns₂]
      exact ih hcaller

/-- What an activation asks for is served alike. -/
theorem serve_renumbered (hs : s₁.Renumbered n₁ n₂ s₂) (ha : a₁.Renumbered n₁ n₂ a₂)
    (hcallers : List.Forall₂ (Activation.Renumbered n₁ n₂) callers₁ callers₂) (request : Request) :
    StepResult.Renumbered n₁ n₂ (m.serve s₁ a₁ callers₁ request)
      (m.serve s₂ a₂ callers₂ request) := by
  cases request with
  | proceed => exact .running ⟨hs, ha, hcallers⟩
  | allocate type =>
    simp only [serve, hs.heap]
    exact .running ⟨⟨rfl, hs.host, hs.handlers, hs.nextFrame⟩, ha.push _, hcallers⟩
  | store place field v =>
    simp only [serve, hs.heap]
    exact .running ⟨⟨rfl, hs.host, hs.handlers, hs.nextFrame⟩, ha, hcallers⟩
  | call index args keep =>
    rw [serve_call, serve_call, ha.depth]
    exact dispatch_renumbered hs (.cons ha hcallers) index args keep _
  | native id args =>
    simp only [serve, hs.heap, hs.host]
    split
    · exact .running ⟨⟨rfl, rfl, hs.handlers, hs.nextFrame⟩, ha.push _, hcallers⟩
    · exact .finished ⟨rfl, rfl, hs.handlers, hs.nextFrame⟩
  | ret v =>
    simp only [serve]
    cases hcallers with
    | nil => exact .finished hs
    | cons hcaller hbelow =>
      simp only [ha.keepResult]
      split
      · exact .running ⟨hs.log _ _, hcaller.push v, hbelow⟩
      · exact .running ⟨hs.log _ _, hcaller, hbelow⟩
  | abort v => exact unwind_renumbered v (hs.log _ _) ha hcallers
  | enter target =>
    exact .running ⟨⟨hs.heap, hs.host, .cons ⟨ha.id, rfl⟩ hs.handlers, hs.nextFrame⟩, ha, hcallers⟩
  | leave =>
    have hhandlers := hs.handlers
    cases h₁ : s₁.handlers with
    | nil =>
      rw [h₁] at hhandlers
      have h₂ := List.forall₂_nil_left_iff.mp hhandlers
      simp only [serve, h₁, h₂, ha.frame]
      exact .finished hs
    | cons handler rest =>
      rw [h₁] at hhandlers
      obtain ⟨_, rest', -, hrest, h₂⟩ := List.forall₂_cons_left_iff.mp hhandlers
      simp only [serve, h₁, h₂]
      exact .running ⟨⟨hs.heap, hs.host, hrest, hs.nextFrame⟩, ha, hcallers⟩

/-- **A step keeps configurations in correspondence**, and they end together. -/
theorem step_renumbered {c₁ c₂ : Config σ} (hc : c₁.Renumbered n₁ n₂ c₂) :
    StepResult.Renumbered n₁ n₂ (m.step c₁) (m.step c₂) := by
  -- an instruction sees its frame, the heap and the constants, and no serial number
  have hnext : m.next c₂ = m.next c₁ := by
    simp only [next, hc.state.heap, hc.current.frame]
  cases hn : m.next c₁ with
  | ok request f =>
    have ha : Activation.Renumbered n₁ n₂ { c₁.current with frame := f }
        { c₂.current with frame := f } :=
      ⟨hc.current.id, hc.current.depth, rfl, hc.current.keepResult⟩
    rw [step_of_next hn, step_of_next (hnext.trans hn)]
    exact serve_renumbered hc.state ha hc.callers request
  | error trap f =>
    rw [step_of_next_error hn, step_of_next_error (hnext.trans hn)]
    exact .finished hc.state

/-! ## 3. Runs -/

/-- **Runs end alike**, or both go on. -/
theorem complete_renumbered {r₁ r₂ : StepResult σ} (fuel : Nat)
    (hr : StepResult.Renumbered n₁ n₂ r₁ r₂) :
    Option.Rel (fun e₁ e₂ => e₁.1 = e₂.1 ∧ e₁.2.Renumbered n₁ n₂ e₂.2) (m.complete fuel r₁)
      (m.complete fuel r₂) := by
  induction fuel generalizing r₁ r₂ with
  | zero =>
    cases hr with
    | running hc => exact .none
    | finished hs => exact .some ⟨rfl, hs⟩
  | succ fuel ih =>
    cases hr with
    | running hc =>
      rw [complete_succ_running, complete_succ_running]
      exact ih (step_renumbered hc)
    | finished hs => exact .some ⟨rfl, hs⟩

/-- **Invocations do not depend on what came before.**  Take two states with the same heap and the
same host, whatever handlers are left in them and whatever serial number comes next.  Invocations of
the same callable on the same arguments both take more than the given number of steps, or both end
with the same outcome.  Then they leave the same heap and the same host, and as many handlers with the
same targets, whose serial numbers differ by as much as the next ones did at the start. -/
theorem invoke_renumbered (m : Machine σ) (fuel : Nat) (s₁ s₂ : State σ)
    (hheap : s₁.heap = s₂.heap) (hhost : s₁.host = s₂.host) (index : UInt16) (args : List Value) :
    Option.Rel (fun e₁ e₂ => e₁.1 = e₂.1 ∧ e₁.2.Renumbered s₁.nextFrame s₂.nextFrame e₂.2)
      (m.invoke fuel s₁ index args) (m.invoke fuel s₂ index args) := by
  -- the handlers are dropped first, and then the states correspond
  have hs : State.Renumbered s₁.nextFrame s₂.nextFrame { s₁ with handlers := [] }
      { s₂ with handlers := [] } :=
    ⟨hheap, hhost, .nil, Nat.add_comm _ _⟩
  rw [invoke_eq_complete, invoke_eq_complete, start_eq_dispatch, start_eq_dispatch]
  exact complete_renumbered fuel (dispatch_renumbered hs .nil index args true 0)

/-- A method that lands its own abort, and returns in another attempt. -/
def returnsInAttempt : Machine Unit :=
  .ofBodies [ ⟨0, 0, (Instr.assemble [.enterAttempt 5, .loadTrue, .abort, .enterAttempt 0,
    .ret]).toArray⟩ ]

/-- A second invocation does what the first one did, from what that one left behind. -/
theorem returnsInAttempt_again :
    ∃ s₁ s₂, returnsInAttempt.invoke 9 (State.initial ()) 0 [] = some (.returned (.bool true), s₁) ∧
      s₁.handlers = [⟨0, 0⟩] ∧
      returnsInAttempt.invoke 9 s₁ 0 [] = some (.returned (.bool true), s₂) ∧
      s₂.handlers = [⟨1, 0⟩] ∧ s₁.Renumbered 0 1 s₂ := by
  have hrun : (returnsInAttempt.invoke 9 (State.initial ()) 0 []).map
      (fun e => (e.1, e.2.heap, e.2.handlers, e.2.nextFrame)) =
        some (.returned (.bool true), .empty, [⟨0, 0⟩], 1) := by
    decide +kernel
  obtain ⟨⟨o, s₁⟩, hfirst, heq⟩ := Option.map_eq_some_iff.mp hrun
  simp only [Prod.mk.injEq] at heq
  obtain ⟨rfl, hheap, hhandlers, hnext⟩ := heq
  have hrel := invoke_renumbered returnsInAttempt 9 (State.initial ()) s₁ hheap.symm rfl 0 []
  rw [hfirst, hnext] at hrel
  generalize hsecond : returnsInAttempt.invoke 9 s₁ 0 [] = second at hrel
  cases hrel with
  | @some _ e₂ h =>
    obtain ⟨o₂, s₂⟩ := e₂
    obtain ⟨rfl, hs⟩ := h
    have hserial : 0 + 1 = 1 + 0 := rfl
    obtain ⟨rest, hhandlers₂, hrest⟩ := hs.latest hserial hhandlers
    cases hrest
    exact ⟨s₁, s₂, hfirst, hhandlers, hsecond, hhandlers₂, hs⟩

end Machine

end BytecodeVm
