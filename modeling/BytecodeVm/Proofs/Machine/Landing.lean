/- # What an abort does

An abort goes to the activation that the latest handler names, if that one is active: it is running
again, at the handler, and what it held is still there, with the aborted value on top.  If the latest
handler names no activation that is active, the whole invocation ends, whatever handlers lie beneath.

* `Machine.Awaits`: an activation waits for a call that it made, and is as the call left it;
* `Machine.Reaches.awaits`: so does every activation but the running one;
* `Config.aborting`: the running activation, once it has popped the value that it aborts with;
* `Machine.abort_effect`: what an abort does, in every configuration of an invocation.
-/
import BytecodeVm.Proofs.Frame.Calls
import BytecodeVm.Proofs.Machine.Origins

namespace BytecodeVm

variable {σ : Type}

namespace Machine

variable {m : Machine σ} {c c' : Config σ} {r : StepResult σ} {a : Activation}

/-! ## 1. Waiting -/

/-- In the run from `r`, an activation of `c` has made a call.  It has waited for the call since, and
is as it was when it had popped the arguments. -/
def Awaits (m : Machine σ) (r : StepResult σ) (c : Config σ) (a : Activation) : Prop :=
  ∃ c₀ c₁ index count popped keepResult, m.Reaches r (.running c₀) ∧
    c₀.current.frame.Calls index count popped keepResult a.frame ∧
    a = { c₀.current with frame := a.frame } ∧ m.step c₀ = .running c₁ ∧
    c₁.callers = a :: c₀.callers ∧ m.Through (fun c => a ∈ c.callers) c₁ c

/-- An activation that waits after a move waited before, as it was, or it has just made a call. -/
theorem Move.caller (h : m.Move c c') (ha : a ∈ c'.callers) :
    a ∈ c.callers ∨ ∃ index args keepResult, m.next c = .ok (.call index args keepResult) a.frame ∧
      a = { c.current with frame := a.frame } ∧ c'.callers = a :: c.callers := by
  cases h with
  | inside stack hn hl hh hnext => exact .inl ha
  | call hn hd hcallee hf =>
    rcases List.mem_cons.mp ha with rfl | ha
    · exact .inr ⟨_, _, _, hn, rfl, rfl⟩
    · exact .inl ha
  | ret hn hcallers =>
    rw [hcallers]
    exact .inl (List.mem_cons_of_mem _ ha)
  | @land v f discarded below b target rest hn hh hsplit hd =>
    have hsuffix : b :: below <:+ { c.current with frame := f } :: c.callers :=
      ⟨discarded, hsplit.symm⟩
    refine .inl ?_
    rcases List.suffix_cons_iff.mp hsuffix with heq | hbelow
    · obtain ⟨-, rfl⟩ := List.cons.inj heq
      exact ha
    · exact hbelow.subset (List.mem_cons_of_mem _ ha)
  | enter hn => exact .inl ha
  | leave hn hh => exact .inl ha

/-- **Every activation but the running one waits for a call that it made.** -/
theorem Reaches.awaits {s : State σ} {index : UInt16} {args : List Value}
    (h : m.Reaches (m.start s index args) (.running c)) :
    ∀ a ∈ c.callers, m.Awaits (m.start s index args) c a := by
  refine h.running_invariant (P := fun c => ∀ a ∈ c.callers, m.Awaits _ c a) ?_ ?_
  · intro c hs a ha
    obtain ⟨callee, frame, -, -, rfl⟩ := start_running_inv hs
    cases ha
  · intro c c' hreach hc hs a ha
    rcases (move_of_step hs).caller ha with hwaited | ⟨index', args', keep, hn, heq, hcallers⟩
    · obtain ⟨c₀, c₁, index', count, popped, keep, hreach₀, hcalls, heq, hs₀, hcallers, hthrough⟩ :=
        hc a hwaited
      exact ⟨c₀, c₁, index', count, popped, keep, hreach₀, hcalls, heq, hs₀, hcallers,
        hthrough.tail hs ha⟩
    · obtain ⟨count, popped, hcalls, -⟩ := Frame.calls_of_advance m.literal_error hn
      exact ⟨c, c', index', count, popped, keep, hreach, hcalls, heq, hs, hcallers, .refl ha⟩

end Machine

/-! ## 2. Aborting -/

/-- The running activation, once it has popped the value that it aborts with. -/
def Config.aborting (c : Config σ) (stack : OperandStack) : Activation :=
  { c.current with
    frame := { c.current.frame with
      ip := c.current.frame.ip + 1, opOffset := c.current.frame.ip, stack } }

/-- The heap, the host and the serial numbers are the same. -/
structure State.SameStore (s s' : State σ) : Prop where
  heap : s'.heap = s.heap
  host : s'.host = s.host
  nextFrame : s'.nextFrame = s.nextFrame

namespace Machine

variable {m : Machine σ} {c : Config σ} {v : Value} {stack : OperandStack}

/-- An abort looks for its handler from the running activation downwards. -/
theorem step_abort (hop : c.current.frame.code.opcode? c.current.frame.ip = some .abort)
    (hstack : c.current.frame.stack = v :: stack) :
    m.step c = unwind v (c.state.log (.aborted c.current.id (c.state.heap.render v)))
      (c.aborting stack) c.callers :=
  step_of_next (Frame.advance_abort hop hstack m.literal c.state.heap)

/-- **An abort lands** in the one activation that the latest handler names. -/
theorem step_abort_of_mem (hordered : c.Ordered)
    (hop : c.current.frame.code.opcode? c.current.frame.ip = some .abort)
    (hstack : c.current.frame.stack = v :: stack) {h : Handler} {rest : List Handler}
    (hh : c.state.handlers = h :: rest) (hmem : h.frame ∈ c.ids) :
    ∃ above a below s', c.aborting stack :: c.callers = above ++ a :: below ∧ a.id = h.frame ∧
      (∀ b ∈ above ++ below, b.id ≠ h.frame) ∧
      m.step c = .running ⟨s', a.land v h.target, below⟩ ∧
      s'.handlers = rest ∧ c.state.SameStore s' := by
  rw [step_abort hop hstack]
  rcases unwind_cases v (c.state.log (.aborted c.current.id (c.state.heap.render v)))
      (c.aborting stack) c.callers with
    ⟨above, a, below, target, rest', hhandlers, hsplit, -, hunwind⟩ | ⟨hnone, -⟩
  · obtain ⟨rfl, rfl⟩ := List.cons.inj (hh.symm.trans hhandlers)
    obtain ⟨habove, hbelow⟩ := hordered.notMem_of_split (Config.ids_of_split hsplit)
    refine ⟨above, a, below, _, hsplit, rfl, ?_, hunwind, rfl, ⟨rfl, rfl, rfl⟩⟩
    intro b hb hid
    have hmem' : a.id ∈ above.map Activation.id ++ below.map Activation.id := by
      rw [← List.map_append]
      exact List.mem_map.mpr ⟨b, hb, hid⟩
    exact (List.mem_append.mp hmem').elim habove hbelow
  · obtain ⟨a, ha, hid⟩ : ∃ a ∈ c.aborting stack :: c.callers, a.id = h.frame :=
      List.mem_map.mp hmem
    exact absurd hid.symm (hnone h (by simp [State.log, hh]) a ha)

/-- **An abort ends the invocation** if the latest handler names no activation that is there. -/
theorem step_abort_of_notMem
    (hop : c.current.frame.code.opcode? c.current.frame.ip = some .abort)
    (hstack : c.current.frame.stack = v :: stack)
    (hnone : ∀ h ∈ c.state.handlers.head?, h.frame ∉ c.ids) :
    ∃ s', m.step c = .finished (.unwound v) s' ∧ s'.handlers = c.state.handlers ∧
      c.state.SameStore s' := by
  rw [step_abort hop hstack]
  rcases unwind_cases v (c.state.log (.aborted c.current.id (c.state.heap.render v)))
      (c.aborting stack) c.callers with
    ⟨above, a, below, target, rest, hhandlers, hsplit, -⟩ | ⟨-, hunwind⟩
  · have hhead : (⟨a.id, target⟩ : Handler) ∈ c.state.handlers.head? := by
      rw [show c.state.handlers = _ from hhandlers]
      rfl
    have hmem : a.id ∈ c.ids := by
      rw [Config.ids_of_split hsplit]
      simp
    exact absurd hmem (hnone _ hhead)
  · exact ⟨_, hunwind, rfl, ⟨rfl, rfl, rfl⟩⟩

/-- **What an abort does.**  Take any configuration of an invocation in which the running activation
is at an abort, with a value on top of its stack.

* If the latest handler names an activation that is active, then there is exactly one such.  All the
  activations above it are gone, and those beneath it are as they were.  It is running, at the target
  of the handler, with the aborted value on top of what it held: of what the abort left, if it is the
  aborting one, and otherwise of what the call left that it has been waiting for.  Its code, its slots
  and its serial number are the same, and of the handlers just the latest is gone.
* If there is no handler, or the latest one names no activation that is active, the invocation ends
  with the aborted value, and all handlers stay.

The heap, the host and the serial numbers are left alone in either case. -/
theorem abort_effect (m : Machine σ) (s : State σ) (index : UInt16) (args : List Value)
    (c : Config σ) (v : Value) (stack : OperandStack)
    (hreach : m.Reaches (m.start s index args) (.running c))
    (hop : c.current.frame.code.opcode? c.current.frame.ip = some .abort)
    (hstack : c.current.frame.stack = v :: stack) :
    (∀ h rest, c.state.handlers = h :: rest → h.frame ∈ c.ids →
      ∃ above a below s', c.aborting stack :: c.callers = above ++ a :: below ∧ a.id = h.frame ∧
        (∀ b ∈ above ++ below, b.id ≠ h.frame) ∧
        (above = [] ∧ a = c.aborting stack ∨ m.Awaits (m.start s index args) c a) ∧
        m.step c = .running
          { state := s', callers := below
            current := { a with
              frame := { a.frame with ip := h.target.toNat, stack := v :: a.frame.stack } } } ∧
        s'.handlers = rest ∧ c.state.SameStore s') ∧
    ((∀ h ∈ c.state.handlers.head?, h.frame ∉ c.ids) →
      ∃ s', m.step c = .finished (.unwound v) s' ∧ s'.handlers = c.state.handlers ∧
        c.state.SameStore s' ∧ ∃ fuel, m.invoke fuel s index args = some (.unwound v, s')) := by
  refine ⟨?_, ?_⟩
  · intro h rest hh hmem
    obtain ⟨above, a, below, s', hsplit, hid, hunique, hstep, hrest, hstore⟩ :=
      step_abort_of_mem hreach.ordered hop hstack hh hmem
    refine ⟨above, a, below, s', hsplit, hid, hunique, ?_, hstep, hrest, hstore⟩
    cases above with
    | nil => exact .inl ⟨rfl, (List.cons.inj hsplit).1.symm⟩
    | cons first above =>
      obtain ⟨-, hcallers⟩ := List.cons.inj hsplit
      refine .inr (hreach.awaits a ?_)
      rw [hcallers]
      simp
  · intro hnone
    obtain ⟨s', hstep, hhandlers, hstore⟩ := step_abort_of_notMem hop hstack hnone
    refine ⟨s', hstep, hhandlers, hstore, (exists_invoke_iff m s s' index args _).mpr ?_⟩
    rw [← hstep]
    exact hreach.tail

/-- A method that holds a value and attempts a call, whose callee calls another method, which
aborts. -/
def abortsBelow : Machine Unit :=
  .ofBodies
    [ ⟨0, 0, (Instr.assemble [.loadFalse, .enterAttempt 11, .loadNull, .call 1 1, .ret,
        .ret]).toArray⟩,
      ⟨1, 0, (Instr.assemble [.call 2 0, .ret]).toArray⟩,
      ⟨2, 0, (Instr.assemble [.loadTrue, .abort]).toArray⟩ ]

/-- The abort lands in the outermost of three activations, which still holds its value.  The abort of
`leftBehind`, however, ends the invocation, because the latest handler is that of a callee that has
returned, although the running activation has a handler of its own beneath it. -/
theorem abortsBelow_effect :
    (∃ c c', abortsBelow.Reaches (abortsBelow.start (.initial ()) 0 []) (.running c) ∧
      c.ids = [2, 1, 0] ∧ c.state.handlers = [⟨0, 11⟩] ∧ abortsBelow.step c = .running c' ∧
      c'.ids = [0] ∧ c'.state.handlers = [] ∧ c'.current.frame.ip = 11 ∧
      c'.current.frame.stack = [.bool true, .bool false]) ∧
    ∃ c s, leftBehind.Reaches (leftBehind.start (.initial ()) 0 []) (.running c) ∧
      c.ids = [0] ∧ c.state.handlers = [⟨1, 4⟩, ⟨0, 9⟩] ∧ s.handlers = [⟨1, 4⟩, ⟨0, 9⟩] ∧
      ∃ fuel, leftBehind.invoke fuel (.initial ()) 0 [] = some (.unwound (.bool true), s) := by
  refine ⟨?_, ?_⟩
  · have hcomes : abortsBelow.comesTo (fun c => decide (c.ids = [2, 1, 0] ∧
        c.state.handlers = [⟨0, 11⟩] ∧
        c.current.frame.code.opcode? c.current.frame.ip = some .abort ∧
        c.current.frame.stack = [.bool true] ∧
        (c.aborting [] :: c.callers).map (fun a => (a.id, a.frame.stack)) =
          [(2, []), (1, []), (0, [.bool false])])) 6
        (abortsBelow.start (.initial ()) 0 []) = true := by
      decide +kernel
    obtain ⟨c, hreach, hc⟩ := exists_of_comesTo hcomes
    obtain ⟨hids, hhandlers, hop, hstack, hstacks⟩ := of_decide_eq_true hc
    have hmem : 0 ∈ c.ids := by simp [hids]
    obtain ⟨above, a, below, s', hsplit, hid, -, -, hstep, hrest, -⟩ :=
      (abort_effect abortsBelow _ 0 [] c _ _ hreach hop hstack).1 ⟨0, 11⟩ [] hhandlers hmem
    -- of the three activations, only the outermost has the serial number of the handler
    have hlands : below = [] ∧ a.frame.stack = [.bool false] := by
      rw [hsplit] at hstacks
      rcases above with _ | ⟨first, _ | ⟨second, _ | ⟨third, above⟩⟩⟩ <;> simp [hid] at hstacks
      exact ⟨hstacks.2.2.2, hstacks.2.2.1⟩
    obtain ⟨rfl, hheld⟩ := hlands
    exact ⟨c, _, hreach, hids, hhandlers, hstep, by simp [Config.ids, Config.active, hid], hrest, rfl,
      by simp [hheld]⟩
  · have hcomes : leftBehind.comesTo (fun c => decide (c.ids = [0] ∧
        c.state.handlers = [⟨1, 4⟩, ⟨0, 9⟩] ∧
        c.current.frame.code.opcode? c.current.frame.ip = some .abort ∧
        c.current.frame.stack = [.bool true])) 5 (leftBehind.start (.initial ()) 0 []) = true := by
      decide +kernel
    obtain ⟨c, hreach, hc⟩ := exists_of_comesTo hcomes
    obtain ⟨hids, hhandlers, hop, hstack⟩ := of_decide_eq_true hc
    have hnone : ∀ h ∈ c.state.handlers.head?, h.frame ∉ c.ids := by simp [hhandlers, hids]
    obtain ⟨s', -, hkept, -, hinvoke⟩ :=
      (abort_effect leftBehind _ 0 [] c _ _ hreach hop hstack).2 hnone
    exact ⟨c, s', hreach, hids, hhandlers, hkept.trans hhandlers, hinvoke⟩

end Machine

end BytecodeVm
