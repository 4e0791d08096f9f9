/- # Code that does not decode

A frame is created only for code that decodes from its start to its end, whether or not control
would ever come to all of it.  So a call of code that holds a byte which names no operation is
stopped before anything is done, and no activation is ever in such code.

* `Machine.activate_of_hasUnknown`: a call of such code;
* `Machine.Reaches.decodes`: the code of every activation decodes;
* `Machine.scan_exact`: what the scan finds, and what follows for calls.
-/
import BytecodeVm.Proofs.Code.Slots
import BytecodeVm.Proofs.Machine.Origins

namespace BytecodeVm

variable {σ : Type}

/-- Heap, host and handlers are as they were. -/
structure State.Undisturbed (s s' : State σ) : Prop where
  heap : s'.heap = s.heap
  host : s'.host = s.host
  handlers : s'.handlers = s.handlers

theorem State.undisturbed_enroll (s : State σ) (index : UInt16) (callee : Callee)
    (argc depth : Nat) : s.Undisturbed (s.enroll index callee argc depth) :=
  ⟨rfl, rfl, rfl⟩

theorem Program.callee?_of_body? {p : Program} {index : UInt16} {b : Body}
    (h : p.body? index = some b) : p.callee? index = some (.body b) := by
  rw [callee?, h]

namespace Machine

variable {m : Machine σ} {c c' : Config σ} {index : UInt16} {b : Body} {byte : UInt8} {offset : Nat}

/-! ## 1. Calls of code that does not decode -/

/-- **A call of code that does not decode** is stopped at the byte that names no operation. -/
theorem activate_of_hasUnknown (hbody : m.program.body? index = some b)
    (hunknown : b.code.HasUnknown byte offset) {depth : Nat}
    (hdepth : depth < m.settings.maxDepth) (s : State σ) (args : List Value) (keep : Bool) :
    m.activate s index args keep depth = (.error (.unknownOpcode byte offset),
      s.enroll index (.body b) args.length depth) :=
  activate_of_create_error hdepth (Program.callee?_of_body? hbody)
    (Frame.create_error_iff.mpr hunknown.scanSlots)

theorem start_of_hasUnknown (hbody : m.program.body? index = some b)
    (hunknown : b.code.HasUnknown byte offset) (hdepth : 0 < m.settings.maxDepth) (s : State σ)
    (args : List Value) :
    ∃ s', m.start s index args = .finished (.trapped (.unknownOpcode byte offset)) s' ∧
      State.Undisturbed { s with handlers := [] } s' := by
  refine ⟨_, ?_, State.undisturbed_enroll _ index (.body b) args.length 0⟩
  simp only [start, activate_of_hasUnknown hbody hunknown hdepth]

theorem step_of_hasUnknown {args : List Value} {keep : Bool} {f : Frame}
    (hbody : m.program.body? index = some b) (hunknown : b.code.HasUnknown byte offset)
    (hnext : m.next c = .ok (.call index args keep) f)
    (hdepth : c.current.depth + 1 < m.settings.maxDepth) :
    ∃ s', m.step c = .finished (.trapped (.unknownOpcode byte offset)) s' ∧
      c.state.Undisturbed s' := by
  refine ⟨_, ?_, State.undisturbed_enroll _ index (.body b) args.length (c.current.depth + 1)⟩
  rw [step_of_next hnext]
  simp only [serve, activate_of_hasUnknown hbody hunknown hdepth]

/-! ## 2. The code of activations -/

/-- A frame is created for code that decodes. -/
theorem decodes_of_create {code : Code} {slots : Nat} {args : List Value} {f : Frame}
    (h : Frame.create code slots args = .ok f) : f.code.Decodes := by
  obtain ⟨named, hscan, rfl⟩ := Frame.create_ok_iff.mp h
  exact (Code.scanSlots_ok_iff.mp hscan).1

theorem Move.decodes (h : m.Move c c') (hc : ∀ a ∈ c.active, a.frame.code.Decodes) :
    ∀ a ∈ c'.active, a.frame.code.Decodes := by
  intro a ha
  rcases h.activation ha with ⟨b, hb, -, hkeeps⟩ | ⟨_, _, _, _, _, -, -, hcreate, -, -⟩
  · rw [hkeeps.code]
    exact hc b hb
  · exact decodes_of_create hcreate

/-- **The code of every activation decodes,** throughout an invocation. -/
theorem Reaches.decodes {s : State σ} {args : List Value}
    (h : m.Reaches (m.start s index args) (.running c)) :
    ∀ a ∈ c.active, a.frame.code.Decodes := by
  refine h.config_invariant (P := fun c => ∀ a ∈ c.active, a.frame.code.Decodes) ?_
    (fun _ _ _ hc hmove => hmove.decodes hc)
  intro c hs a ha
  obtain ⟨callee, frame, -, hcreate, rfl⟩ := start_running_inv hs
  rw [List.mem_singleton.mp ha]
  exact decodes_of_create hcreate

/-! ## 3. The scan, and what follows for calls -/

/-- **The scan is exact, and code that does not decode is never run.**  Take any machine.

* For any code, the scan succeeds just if an operation stands at every boundary, and then it finds
  the greatest of one and of the numbers of slots that the complete instructions at boundaries ask
  for, which is at least 1 and at most 65536.
* It fails otherwise, with the byte at the boundary where no operation stands; all other boundaries
  lie before that one, and there is an operation at each of them.
* In code that was assembled from instructions it finds the greatest of one and of the numbers of
  slots that the instructions ask for.
* A call of a body that holds a byte which names no operation traps with that byte and its offset,
  be it the call that an invocation starts with or that of an instruction, if it is not stopped by
  the depth limit; heap, host and handlers are as they were at the call.  No activation is ever in
  the code of such a body. -/
theorem scan_exact (m : Machine σ) :
    (∀ code : Code,
      (∀ n, code.scanSlots = .ok n ↔
        code.Decodes ∧ IsGreatest (slotDemands code.Names) n) ∧
      (∀ n, code.scanSlots = .ok n → 1 ≤ n ∧ n ≤ 65536) ∧
      (∀ trap, code.scanSlots = .error trap ↔
        ∃ byte offset, code.HasUnknown byte offset ∧ trap = .unknownOpcode byte offset) ∧
      ∀ byte offset, code.HasUnknown byte offset → ∀ before ∈ code.boundaries,
        before ≠ offset → before < offset ∧ (code.opcode? before).isSome) ∧
    (∀ instrs : List Instr, ∃ n, Code.scanSlots (Instr.assemble instrs).toArray = .ok n ∧
      IsGreatest (slotDemands fun slot => ∃ i ∈ instrs, i.slot? = some slot) n) ∧
    ∀ index b byte offset, m.program.body? index = some b → b.code.HasUnknown byte offset →
      (∀ s args, 0 < m.settings.maxDepth →
        ∃ s', m.start s index args = .finished (.trapped (.unknownOpcode byte offset)) s' ∧
          State.Undisturbed { s with handlers := [] } s') ∧
      ∀ s entry args c, m.Reaches (m.start s entry args) (.running c) →
        (∀ given keep f, m.next c = .ok (.call index given keep) f →
          c.active.length < m.settings.maxDepth →
          ∃ s', m.step c = .finished (.trapped (.unknownOpcode byte offset)) s' ∧
            c.state.Undisturbed s') ∧
        ∀ a ∈ c.active, a.frame.code ≠ b.code := by
  refine ⟨fun code => ⟨?_, ?_, ?_, ?_⟩, Code.scanSlots_assemble_greatest, ?_⟩
  · exact fun n => Code.scanSlots_ok_iff
  · exact fun n hscan => slotDemands_le (Code.scanSlots_ok_iff.mp hscan).2.1
  · exact fun trap => Code.scanSlots_error_iff
  · exact fun byte offset hunknown => hunknown.before
  · intro index b byte offset hbody hunknown
    refine ⟨fun s args hdepth => start_of_hasUnknown hbody hunknown hdepth s args, ?_⟩
    intro s entry args c hreach
    refine ⟨?_, ?_⟩
    · intro given keep f hnext hroom
      rw [hreach.levelled.length_active] at hroom
      exact step_of_hasUnknown hbody hunknown hnext hroom
    · intro a ha hcode
      exact hunknown.not_decodes (hcode ▸ hreach.decodes a ha)

/-- A method that attempts a call of code which returns at once, and which holds a byte behind that
return that names no operation. -/
def callsUndecodable : Machine Unit :=
  .ofBodies
    [ ⟨0, 0, (Instr.assemble [.enterAttempt 8, .call 1 0, .ret]).toArray⟩,
      ⟨1, 0, (Instr.assemble [.storeLocal 6, .ret, .nop] ++ [0xff]).toArray⟩ ]

/-- The byte is not reached, and the call traps all the same, inside the attempt. -/
theorem callsUndecodable_traps :
    Code.HasUnknown (Instr.assemble [.storeLocal 6, .ret, .nop] ++ [0xff]).toArray 0xff 5 ∧
    (∃ s', callsUndecodable.start (State.initial ()) 1 [] =
        .finished (.trapped (.unknownOpcode 0xff 5)) s' ∧
      State.Undisturbed (State.initial ()) s') ∧
    (∃ c s', callsUndecodable.Reaches (callsUndecodable.start (State.initial ()) 0 [])
        (.running c) ∧
      c.state.handlers = [⟨0, 8⟩] ∧
      callsUndecodable.step c = .finished (.trapped (.unknownOpcode 0xff 5)) s' ∧
      c.state.Undisturbed s') ∧
    ∃ n, Code.scanSlots (Instr.assemble [.storeLocal 6, .ret, .loadLocal 2]).toArray = .ok n ∧
      IsGreatest (slotDemands fun slot =>
        ∃ i ∈ [Instr.storeLocal 6, .ret, .loadLocal 2], i.slot? = some slot) n ∧ n = 7 := by
  obtain ⟨-, hassemble, hcalls⟩ := scan_exact callsUndecodable
  have hunknown : Code.HasUnknown (Instr.assemble [.storeLocal 6, .ret, .nop] ++ [0xff]).toArray
      0xff 5 :=
    ⟨by decide +kernel, by decide +kernel, by decide⟩
  obtain ⟨hstart, hsteps⟩ := hcalls 1 ⟨1, 0, _⟩ 0xff 5 rfl hunknown
  refine ⟨hunknown, hstart _ [] (by decide), ?_, ?_⟩
  · have hcomes : callsUndecodable.comesTo (fun c => decide (c.state.handlers = [⟨0, 8⟩] ∧
        c.active.length = 1 ∧ EStateM.run' (fun _ => callsUndecodable.next c) c.current.frame =
          some (.call 1 [] true))) 1 (callsUndecodable.start (State.initial ()) 0 []) = true := by
      decide +kernel
    obtain ⟨c, hreach, hc⟩ := exists_of_comesTo hcomes
    obtain ⟨hhandlers, hactive, hcall⟩ := of_decide_eq_true hc
    cases hnext : callsUndecodable.next c with
    | error trap f =>
      rw [hnext] at hcall
      cases hcall
    | ok request f =>
      rw [hnext] at hcall
      obtain rfl : request = .call 1 [] true := Option.some.inj hcall
      obtain ⟨s', hstep, hundisturbed⟩ :=
        (hsteps _ 0 [] c hreach).1 [] true f hnext (by rw [hactive]; decide)
      exact ⟨c, s', hreach, hhandlers, hstep, hundisturbed⟩
  · obtain ⟨n, hscan, hgreatest⟩ := hassemble [.storeLocal 6, .ret, .loadLocal 2]
    refine ⟨n, hscan, hgreatest, ?_⟩
    have hseven : Code.scanSlots (Instr.assemble [.storeLocal 6, .ret, .loadLocal 2]).toArray =
        .ok 7 := by
      decide +kernel
    exact Except.ok.inj (hscan.symm.trans hseven)

end Machine

end BytecodeVm
