/- # Calling a constructor

A constructor is called on an object that lies beneath its arguments and stays there.  Some callers
push the object once more as the first argument, others do not: the constructor is given it once in
either case, so that both styles make the same call.  And what a call does is settled by the call: the
activations beneath it come into play only when it is over.

* `Machine.after`: what comes of a step result after a number of steps;
* `Machine.step_detached`: a step of a call does the same over any callers;
* `Machine.course_running`, `Machine.course_dispatch`: so does all of a call;
* `Machine.step_of_constructsOn`: both styles of calling a constructor make the same call;
* `Machine.constructor_styles_agree`: and so they agree in all that follows.
-/
import BytecodeVm.Proofs.Machine.Callers

namespace BytecodeVm

variable {σ : Type}

namespace Machine

variable {m : Machine σ}

/-! ## 1. A call, whatever lies beneath it -/

/-- What comes of a step result after a number of steps. -/
def after (m : Machine σ) : Nat → StepResult σ → StepResult σ
  | 0, r => r
  | _ + 1, .finished outcome s => .finished outcome s
  | n + 1, .running c => after m n (m.step c)

/-- The activation at the bottom of those of a call, the topmost of which is given first. -/
def bottom : Activation → List Activation → Activation
  | a, [] => a
  | _, first :: own => bottom first own

/-- What a step result comes to depends on the callers only in that they lie beneath.  The activations
of a call, with `b` at their bottom, are at work, or the call is over and the callers are given its
outcome. -/
inductive Detached (b : Activation) (r : List Activation → StepResult σ) : Prop
  | working (s : State σ) (a : Activation) (own : List Activation) (f : Frame)
      (bottom : bottom a own = { b with frame := f })
      (running : ∀ callers, r callers = .running ⟨s, a, own ++ callers⟩) : Detached b r
  | ended (o : Outcome) (s : State σ)
      (delivers : ∀ callers, r callers = deliver s b.id b.depth b.keepResult callers o) :
      Detached b r

/-- A new frame at the top may be one at the bottom, but changes nothing else there. -/
theorem bottom_with_frame (own : List Activation) (a : Activation) (f : Frame) :
    ∃ f', bottom { a with frame := f } own = { bottom a own with frame := f' } := by
  cases own with
  | nil => exact ⟨f, rfl⟩
  | cons first own => exact ⟨(bottom first own).frame, rfl⟩

/-- The frame at the bottom is nothing that the callers could see. -/
theorem Detached.of_frame {b : Activation} {f : Frame} {r : List Activation → StepResult σ}
    (h : Detached { b with frame := f } r) : Detached b r := by
  cases h with
  | working s a own f' hbottom hrunning => exact .working s a own f' hbottom hrunning
  | ended o s hdelivers => exact .ended o s hdelivers

/-- An abort lands in an activation of the call that owns the latest handler. -/
theorem unwind_detached_of_owner {s : State σ} {a : Activation} (howns : s.OwnsLatest a.id)
    (v : Value) (own : List Activation) :
    Detached (bottom a own) (fun callers => unwind v s a (own ++ callers)) := by
  obtain ⟨target, rest, hlatest⟩ := handlers_of_ownsLatest howns
  obtain ⟨f', hbottom⟩ := bottom_with_frame own a (a.land v target).frame
  exact .working _ (a.land v target) own f' hbottom fun callers => unwind_of_owner hlatest

/-- An abort lands in an activation of the call, or leaves the call. -/
theorem unwind_detached (v : Value) (s : State σ) (a : Activation) (own : List Activation) :
    Detached (bottom a own) (fun callers => unwind v s a (own ++ callers)) := by
  -- the abort goes down the activations of the call, past those that do not own the latest handler
  induction own generalizing a with
  | nil =>
    by_cases howns : s.OwnsLatest a.id
    · exact unwind_detached_of_owner howns v []
    · exact .ended (.unwound v) s fun callers => unwind_of_not_ownsLatest howns
  | cons first own ih =>
    by_cases howns : s.OwnsLatest a.id
    · exact unwind_detached_of_owner howns v (first :: own)
    · have hpassed : (fun callers => unwind v s a (first :: own ++ callers)) =
          fun callers => unwind v s first (own ++ callers) := by
        funext callers
        exact unwind_of_not_ownsLatest howns
      rw [hpassed]
      exact ih first

/-- What an activation of the call asks for is served above the callers. -/
theorem serve_detached (s : State σ) (a : Activation) (own : List Activation) (f : Frame)
    (request : Request) :
    Detached (bottom a own)
      (fun callers => m.serve s { a with frame := f } (own ++ callers) request) := by
  have hworking : ∀ (s' : State σ) (stack : OperandStack),
      Detached (bottom a own) (fun callers =>
        .running (σ := σ) ⟨s', { a with frame := { f with stack } }, own ++ callers⟩) := by
    intro s' stack
    obtain ⟨f', hbottom⟩ := bottom_with_frame own a { f with stack }
    exact .working s' _ own f' hbottom fun callers => rfl
  cases request with
  | proceed => exact hworking s f.stack
  | allocate type => exact hworking _ (_ :: f.stack)
  | store place field v => exact hworking _ f.stack
  | call index args keep =>
    obtain ⟨f', hbottom⟩ := bottom_with_frame own a f
    cases hactivate : m.activate s index args keep (a.depth + 1) with
    | mk result s' =>
      cases result with
      | ok callee =>
        refine .working s' callee ({ a with frame := f } :: own) f' hbottom fun callers => ?_
        rw [serve_call, dispatch, hactivate]
        rfl
      | error trap =>
        refine .ended (.trapped trap) s' fun callers => ?_
        rw [serve_call, dispatch, hactivate]
        rfl
  | native id args =>
    cases hreply : (m.host.call id args s.heap s.host).result with
    | ok v =>
      simp only [serve, hreply]
      exact hworking _ (v :: f.stack)
    | error trap =>
      simp only [serve, hreply]
      exact .ended (.trapped trap) _ fun callers => rfl
  | ret v =>
    cases own with
    | nil => exact .ended (.returned v) s fun callers => serve_ret ..
    | cons first own =>
      cases hkeep : a.keepResult with
      | true =>
        obtain ⟨f', hbottom⟩ := bottom_with_frame own first (first.push v).frame
        refine .working (s.log (.returned a.id a.depth)) (first.push v) own f' hbottom
          fun callers => ?_
        simp only [serve]
        rfl
      | false =>
        refine .working (s.log (.returned a.id a.depth)) first own _ rfl fun callers => ?_
        simp only [serve]
        rfl
  | abort v =>
    obtain ⟨f', hbottom⟩ := bottom_with_frame own a f
    have hunwind := unwind_detached v (s.log (.aborted a.id (s.heap.render v)))
      { a with frame := f } own
    rw [hbottom] at hunwind
    exact hunwind.of_frame
  | enter target => exact hworking _ f.stack
  | leave =>
    cases hhandlers : s.handlers with
    | nil =>
      simp only [serve, hhandlers]
      exact .ended (.trapped _) _ fun callers => rfl
    | cons handler rest =>
      simp only [serve, hhandlers]
      exact hworking _ f.stack

/-- **A step of a call** does the same over any callers. -/
theorem step_detached (m : Machine σ) (s : State σ) (a : Activation) (own : List Activation) :
    Detached (bottom a own) (fun callers => m.step ⟨s, a, own ++ callers⟩) := by
  cases hn : Frame.advance m.literal s.heap a.frame with
  | error trap f =>
    exact .ended (.trapped trap) s fun callers => step_of_next_error (c := ⟨s, a, own ++ callers⟩) hn
  | ok request f =>
    have hserve : (fun callers => m.step ⟨s, a, own ++ callers⟩) =
        fun callers => m.serve s { a with frame := f } (own ++ callers) request := by
      funext callers
      exact step_of_next (c := ⟨s, a, own ++ callers⟩) hn
    rw [hserve]
    exact serve_detached s a own f request

/-- What a call comes to over any callers: after so many steps its activations are at work, or it was
over at some step before. -/
inductive Course (m : Machine σ) (id depth : Nat) (keep : Bool)
    (r : List Activation → StepResult σ) (n : Nat) : Prop
  | working (s : State σ) (a : Activation) (own : List Activation)
      (running : ∀ callers, m.after n (r callers) = .running ⟨s, a, own ++ callers⟩) :
      Course m id depth keep r n
  | ended (k : Nat) (before : k ≤ n) (o : Outcome) (s : State σ)
      (delivers : ∀ callers, m.after k (r callers) = deliver s id depth keep callers o) :
      Course m id depth keep r n

/-- **A call takes the same course over any callers.** -/
theorem course_running (m : Machine σ) (n : Nat) (s : State σ) (a : Activation)
    (own : List Activation) {b : Activation} {f : Frame}
    (hbottom : bottom a own = { b with frame := f }) :
    m.Course b.id b.depth b.keepResult (fun callers => .running ⟨s, a, own ++ callers⟩) n := by
  -- a step leaves the activation at the bottom what it is, but for its frame
  induction n generalizing s a own f with
  | zero => exact .working s a own fun callers => rfl
  | succ n ih =>
    have hstep := step_detached m s a own
    rw [hbottom] at hstep
    cases hstep.of_frame with
    | working s' a' own' f' hbottom' hrunning =>
      cases ih s' a' own' hbottom' with
      | working s'' a'' own'' hrunning' =>
        refine .working s'' a'' own'' fun callers => ?_
        rw [after, hrunning, hrunning']
      | ended k hk o s'' hdelivers =>
        refine .ended (k + 1) (Nat.succ_le_succ hk) o s'' fun callers => ?_
        rw [after, hrunning, hdelivers]
    | ended o s' hdelivers =>
      refine .ended 1 (Nat.succ_pos n) o s' fun callers => ?_
      rw [after, hdelivers]
      rfl

/-- The same from the start of a call, which may fail at once. -/
theorem course_dispatch (m : Machine σ) (n : Nat) (s : State σ) (index : UInt16)
    (args : List Value) (keep : Bool) (depth : Nat) :
    m.Course s.nextFrame depth keep (m.dispatch s index args keep depth) n := by
  cases hactivate : m.activate s index args keep depth with
  | mk result s' =>
    cases result with
    | ok callee =>
      obtain ⟨-, -, frame, -, -, rfl, -⟩ := activate_ok_inv hactivate
      have hdispatch : m.dispatch s index args keep depth =
          fun callers => .running ⟨s', ⟨s.nextFrame, depth, frame, keep⟩, [] ++ callers⟩ := by
        funext callers
        rw [dispatch, hactivate]
        rfl
      rw [hdispatch]
      exact course_running m n s' _ [] (b := ⟨s.nextFrame, depth, frame, keep⟩) rfl
    | error trap =>
      refine .ended 0 (Nat.zero_le n) (.trapped trap) s' fun callers => ?_
      rw [after, dispatch, hactivate]
      rfl

end Machine

/-! ## 2. Calling a constructor -/

namespace Frame

/-- A receiver that was pushed as the first argument too is bound once. -/
theorem boundArgs_again (place : Nat) (args : List Value) (stack : OperandStack) :
    boundArgs false (.object place :: args) (.object place :: stack) = .object place :: args := by
  simp [boundArgs, bindReceiver, Value.equal]

/-- A receiver that was not is put in front of the arguments. -/
theorem boundArgs_once {place : Nat} {args : List Value} (h : args.head? ≠ some (.object place))
    (stack : OperandStack) :
    boundArgs false args (.object place :: stack) = .object place :: args := by
  cases args with
  | nil => rfl
  | cons first args =>
    have hfirst : first.equal (.object place) = false := by
      cases first with
      | object other =>
        have hother : other ≠ place := fun he => h (by rw [he]; rfl)
        simpa [Value.equal] using hother
      | null | bool b | number x | string t | array other => rfl
    simp [boundArgs, bindReceiver, hfirst]

/-- Without an object beneath the arguments, there is no receiver. -/
theorem boundArgs_unbound {stack : OperandStack} (h : ∀ place, stack.head? ≠ some (.object place))
    (keepResult : Bool) (popped : List Value) : boundArgs keepResult popped stack = popped := by
  unfold boundArgs
  split
  · rename_i place rest
    exact absurd rfl (h place)
  · rfl

end Frame

/-- The running activation is at the call of a constructor, with the arguments on top of its stack. -/
structure Config.Constructs (c : Config σ) (index : UInt16) (popped : List Value)
    (stack : OperandStack) : Prop where
  count : popped.length < UInt16.size
  instr : c.current.frame.code.InstrsAt c.current.frame.ip
    [.callCtor index (.ofNat popped.length)]
  operands : c.current.frame.stack = popped.reverse ++ stack

/-- The running activation calls a constructor on an object, in either style: the object lies beneath
the arguments, and may have been pushed once more as the first of them. -/
structure Config.ConstructsOn (c : Config σ) (s : State σ) (depth : Nat) (index : UInt16)
    (place : Nat) (args : List Value) (stack : OperandStack) : Prop where
  state : c.state = s
  depth : c.current.depth = depth
  style : c.Constructs index (.object place :: args) (.object place :: stack) ∨
    c.Constructs index args (.object place :: stack)

namespace Machine

variable {m : Machine σ} {c : Config σ}

theorem step_of_constructs {index : UInt16} {popped : List Value} {stack : OperandStack}
    (h : c.Constructs index popped stack) :
    m.step c = m.dispatch c.state index (Frame.boundArgs false popped stack) false
      (c.current.depth + 1) (c.calling stack :: c.callers) :=
  step_call h.instr (UInt16.toNat_ofNat_of_lt' h.count).symm h.operands

/-- **Both styles make the same call.** -/
theorem step_of_constructsOn {s : State σ} {depth : Nat} {index : UInt16} {place : Nat}
    {args : List Value} {stack : OperandStack} (h : c.ConstructsOn s depth index place args stack)
    (hfirst : args.head? ≠ some (.object place)) :
    m.step c = m.dispatch s index (.object place :: args) false (depth + 1)
      (c.calling (.object place :: stack) :: c.callers) := by
  obtain ⟨rfl, rfl, hagain | honce⟩ := h
  · rw [step_of_constructs hagain, Frame.boundArgs_again]
  · rw [step_of_constructs honce, Frame.boundArgs_once hfirst]

/-- **The two styles of calling a constructor agree.**  Take any state and depth, an object, and
arguments the first of which is not that object.  Whoever calls the constructor on them, over whatever
lies beneath, in one style or the other:

* if the constructor can be run, then it starts as the same activation, on a frame that has the object
  in its first slot and the arguments behind it;
* after any number of steps, the same activations are at work above the caller, in the same state; or
  the call was over before, at the same step, with the same outcome and in the same state.  If it has
  returned, then the caller has the object on top of its stack, and nothing of the result.

And where no object lies beneath the arguments, these are bound as they are. -/
theorem constructor_styles_agree (m : Machine σ) (s : State σ) (depth : Nat) (index : UInt16) :
    (∀ (place : Nat) (args : List Value), args.head? ≠ some (.object place) →
      (∀ callee named, m.program.callee? index = some callee →
        callee.code.scanSlots = .ok named → depth + 1 < m.settings.maxDepth →
        ∃ s' a, a.frame.Fresh callee.code (max callee.slots named) (.object place :: args) ∧
          ∀ c stack, c.ConstructsOn s depth index place args stack →
            m.step c = .running ⟨s', a, c.calling (.object place :: stack) :: c.callers⟩) ∧
      ∀ n,
        (∃ s' a own, ∀ c stack, c.ConstructsOn s depth index place args stack →
          m.after (n + 1) (.running c) =
            .running ⟨s', a, own ++ c.calling (.object place :: stack) :: c.callers⟩) ∨
        ∃ k ≤ n, ∃ o s', ∀ c stack, c.ConstructsOn s depth index place args stack →
          m.after (k + 1) (.running c) = deliver s' s.nextFrame (depth + 1) false
            (c.calling (.object place :: stack) :: c.callers) o ∧
          ∀ v, o = .returned v → m.after (k + 1) (.running c) =
            .running ⟨s'.log (.returned s.nextFrame (depth + 1)),
              c.calling (.object place :: stack), c.callers⟩) ∧
    ∀ (popped : List Value) (stack : OperandStack), (∀ place, stack.head? ≠ some (.object place)) →
      ∀ callee named, m.program.callee? index = some callee →
        callee.code.scanSlots = .ok named → depth + 1 < m.settings.maxDepth →
        ∃ s' a, a.frame.Fresh callee.code (max callee.slots named) popped ∧
          ∀ c, c.state = s → c.current.depth = depth → c.Constructs index popped stack →
            m.step c = .running ⟨s', a, c.calling stack :: c.callers⟩ := by
  refine ⟨fun place args hfirst => ⟨?_, ?_⟩, ?_⟩
  · intro callee named hcallee hscan hroom
    obtain ⟨s', frame, hfresh, hdispatch⟩ :=
      dispatch_of_scanSlots hcallee hscan hroom s (.object place :: args) false
    refine ⟨s', ⟨s.nextFrame, depth + 1, frame, false⟩, hfresh, ?_⟩
    intro c stack hc
    rw [step_of_constructsOn hc hfirst, hdispatch]
  · intro n
    cases m.course_dispatch n s index (.object place :: args) false (depth + 1) with
    | working s' a own hrunning =>
      refine .inl ⟨s', a, own, ?_⟩
      intro c stack hc
      rw [after, step_of_constructsOn hc hfirst, hrunning]
    | ended k hk o s' hdelivers =>
      refine .inr ⟨k, hk, o, s', ?_⟩
      intro c stack hc
      rw [after, step_of_constructsOn hc hfirst, hdelivers]
      refine ⟨rfl, ?_⟩
      rintro v rfl
      rfl
  · intro popped stack hunbound callee named hcallee hscan hroom
    obtain ⟨s', frame, hfresh, hdispatch⟩ :=
      dispatch_of_scanSlots hcallee hscan hroom s popped false
    refine ⟨s', ⟨s.nextFrame, depth + 1, frame, false⟩, hfresh, ?_⟩
    rintro c rfl rfl hc
    rw [step_of_constructs hc, Frame.boundArgs_unbound hunbound, hdispatch]

/-- A caller, in the first activation of an invocation that has made one object, at the given call of a
constructor and with the given stack. -/
def atConstructor (index count : UInt16) (stack : OperandStack) : Config Unit :=
  let code := (Instr.assemble [.callCtor index count, .ret]).toArray
  ⟨{ State.initial () with heap := Heap.empty.allocate 7, nextFrame := 1 },
    ⟨0, 0, ⟨code, 0, 0, #[], stack⟩, true⟩, []⟩

/-- Both styles start the same constructor, which is over within six steps.  On null instead of an
object, it is given the argument alone. -/
theorem constructsThrough_styles :
    let again := atConstructor 1 2 [.bool true, .object 0, .object 0]
    let once := atConstructor 1 1 [.bool true, .object 0]
    let unbound := atConstructor 1 1 [.bool true, .null]
    (∃ s a code, a.frame.Fresh code 2 [.object 0, .bool true] ∧
      constructsThrough.step again = .running ⟨s, a, [again.calling [.object 0]]⟩ ∧
      constructsThrough.step once = .running ⟨s, a, [once.calling [.object 0]]⟩) ∧
    (∃ k ≤ 5, ∃ o s,
      constructsThrough.after (k + 1) (.running again) =
        deliver s 1 1 false [again.calling [.object 0]] o ∧
      constructsThrough.after (k + 1) (.running once) =
        deliver s 1 1 false [once.calling [.object 0]] o) ∧
    ∃ s a code, a.frame.Fresh code 2 [.bool true] ∧
      constructsThrough.step unbound = .running ⟨s, a, [unbound.calling [.null]]⟩ := by
  intro again once unbound
  obtain ⟨hstyles, hunbound⟩ :=
    constructor_styles_agree constructsThrough again.state 0 1
  obtain ⟨hstart, hcourse⟩ := hstyles 0 [.bool true] (by decide)
  have hagain : again.ConstructsOn again.state 0 1 0 [.bool true] [] :=
    ⟨rfl, rfl, .inl ⟨by decide, ⟨[], Instr.assemble [.ret], rfl, rfl⟩, rfl⟩⟩
  have honce : once.ConstructsOn again.state 0 1 0 [.bool true] [] :=
    ⟨rfl, rfl, .inr ⟨by decide, ⟨[], Instr.assemble [.ret], rfl, rfl⟩, rfl⟩⟩
  refine ⟨?_, ?_, ?_⟩
  · obtain ⟨s, a, hfresh, hstep⟩ := hstart _ 2 rfl (by decide +kernel) (by decide)
    exact ⟨s, a, _, hfresh, hstep again [] hagain, hstep once [] honce⟩
  · rcases hcourse 5 with ⟨s, a, own, hworking⟩ | ⟨k, hk, o, s, hover⟩
    · have hdone : (match constructsThrough.after 6 (.running again) with
          | .running c => c.callers.length
          | .finished _ _ => 0) = 0 := by
        decide +kernel
      rw [hworking again [] hagain] at hdone
      simp at hdone
    · exact ⟨k, hk, o, s, (hover again [] hagain).1, (hover once [] honce).1⟩
  · obtain ⟨s, a, hfresh, hstep⟩ :=
      hunbound [.bool true] [.null] (by simp) _ 2 rfl (by decide +kernel) (by decide)
    exact ⟨s, a, _, hfresh, hstep unbound rfl rfl
      ⟨by decide, ⟨[], Instr.assemble [.ret], rfl, rfl⟩, rfl⟩⟩

end Machine

end BytecodeVm
