/- # Control stays on boundaries

In a program whose branches are well targeted, every frame is at a boundary of its code whenever it
goes on, and so is every handler of an active activation: falling through, branching, calling,
returning and landing all lead from boundaries to boundaries.  The scan that sized the frame has
seen every instruction at a boundary, so no such instruction fails to decode or misses its slot.

* `Config.Aligned`: the invariant;
* `Machine.Reaches.aligned`: it holds in every configuration of every invocation;
* `Machine.layout_traps`: which traps about the layout of code are left.
-/
import BytecodeVm.Proofs.Frame.Instruction
import BytecodeVm.Proofs.Machine.Serials

namespace BytecodeVm

variable {σ : Type}

/-! ## 1. Where a frame is -/

/-- The code of a body, or that of a constructor without one. -/
def Program.Runs (p : Program) (code : Code) : Prop :=
  (∃ b ∈ p.bodies, code = b.code) ∨ code = #[Opcode.ret.byte]

theorem Program.runs_of_callee? {p : Program} {index : UInt16} {callee : Callee}
    (h : p.callee? index = some callee) : p.Runs callee.code := by
  simp only [callee?] at h
  split at h
  · rename_i b hb
    cases h
    exact .inl ⟨b, List.mem_of_find?_eq_some hb, rfl⟩
  · split at h
    · split at h
      · cases h
        exact .inr rfl
      · cases h
    · cases h

theorem Program.WellTargeted.of_runs {p : Program} {code : Code} (h : p.WellTargeted)
    (hruns : p.Runs code) : code.WellTargeted := by
  rcases hruns with ⟨b, hb, rfl⟩ | rfl
  · exact h b hb
  · decide +kernel

/-- A frame of the program, at a boundary of its code, with slots for all of its instructions. -/
structure Frame.Aligned (p : Program) (f : Frame) : Prop where
  runs : p.Runs f.code
  scanned : ∃ slots, f.code.scanSlots = .ok slots ∧ slots ≤ f.locals.size
  onBoundary : f.code.OnBoundary f.ip

namespace Frame.Aligned

variable {p : Program} {f f' : Frame}

theorem push (h : f.Aligned p) (stack : OperandStack) : Aligned p { f with stack } :=
  ⟨h.runs, h.scanned, h.onBoundary⟩

/-- A new frame is at the start of its code. -/
theorem of_create {callee : Callee} {args : List Value} {index : UInt16}
    (hcallee : p.callee? index = some callee)
    (h : Frame.create callee.code callee.slots args = .ok f) : f.Aligned p := by
  obtain ⟨named, hscan, rfl⟩ := create_ok_iff.mp h
  refine ⟨Program.runs_of_callee? hcallee, ⟨named, hscan, ?_⟩, Code.onBoundary_zero _⟩
  rw [size_bindArguments]
  exact Nat.le_max_right _ _

/-- The instruction that a frame is about to decode is at a boundary, unless there is none. -/
theorem mem_boundaries {op : Opcode} (h : f.Aligned p) (hop : f.code.opcode? f.ip = some op) :
    f.ip ∈ f.code.boundaries := by
  rcases h.onBoundary with hmem | hsize
  · exact hmem
  · exact absurd (Code.lt_size_of_opcode? hop) (Nat.not_lt.mpr hsize)

variable {literal : UInt16 → Except Trap Value} {heap : Heap}

/-- **An instruction leads from a boundary to a boundary,** and so does the handler that it
enters. -/
theorem advance {request : Request} (h : f.Aligned p) (hwell : p.WellTargeted)
    (hliteral : ∀ index trap, literal index = .error trap → trap.isOperand)
    (hf : Frame.advance literal heap f = .ok request f') :
    f'.Aligned p ∧ f'.code = f.code ∧
      ∀ target, request = .enter target → f.code.OnBoundary target.toNat := by
  rcases advance_ok hliteral hf with ⟨hsize, rfl, rfl⟩ | ⟨i, hop, hops, hkeeps, henters, hip⟩
  · exact ⟨h, rfl, nofun⟩
  · have hmem := h.mem_boundaries hop
    have htarget : ∀ target, i.target? = some target → f.code.OnBoundary target.toNat :=
      fun target ht => hwell.of_runs h.runs f.ip hmem target (Code.target?_of_operandsAt hop hops ht)
    refine ⟨⟨?_, ?_, ?_⟩, hkeeps.code, fun target ht => htarget target (henters.target? ht)⟩
    · rw [hkeeps.code]
      exact h.runs
    · rw [hkeeps.code, hkeeps.slots]
      exact h.scanned
    · rw [hkeeps.code]
      rcases hip with hip | ⟨target, ht, hip⟩
      · rw [hip]
        exact h.onBoundary.next hop
      · rw [hip]
        exact htarget target ht

/-- **The layout trap that is left** is that of the last instruction of a body, if it is cut off. -/
theorem advance_error {trap : Trap} (h : f.Aligned p)
    (hliteral : ∀ index trap, literal index = .error trap → trap.isOperand)
    (hf : Frame.advance literal heap f = .error trap f') (hlayout : trap.isLayout) :
    ∃ b ∈ p.bodies, f.code = b.code ∧ ∃ op offset, trap = .truncatedOperand op offset ∧
      b.code.boundaries.getLast? = some offset ∧ b.code.opcode? offset = some op := by
  obtain ⟨slots, hscan, hslots⟩ := h.scanned
  rcases Frame.advance_error hliteral hf hlayout with
    ⟨hlt, hnone⟩ | ⟨op, hop, rfl, hsize⟩ | ⟨i, hop, hops, slot, hslot, hsize⟩
  · -- a byte that names no operation would have been found by the scan
    have hmem := h.onBoundary.resolve_right (Nat.not_le.mpr hlt)
    obtain ⟨op, hop, -⟩ := Code.opcode?_of_scanSlots hscan hmem
    rw [hnone] at hop
    cases hop
  · have hlast := Code.getLast?_of_overrun (h.mem_boundaries hop) hop (Nat.le_of_lt hsize)
    rcases h.runs with ⟨b, hb, hcode⟩ | hcode
    · rw [hcode] at hlast hop
      exact ⟨b, hb, hcode, op, f.ip, rfl, hlast, hop⟩
    · -- a constructor without a body is one instruction without operands
      rw [hcode] at hop hsize
      obtain hip : f.ip = 0 := Nat.lt_one_iff.mp (Code.lt_size_of_opcode? hop)
      rw [hip] at hop hsize
      obtain rfl : Opcode.ret = op := Option.some.inj hop
      exact absurd hsize (by decide)
  · -- so would the slot have been counted
    obtain ⟨op, hop', hnamed⟩ := Code.opcode?_of_scanSlots hscan (h.mem_boundaries hop)
    obtain rfl : i.opcode = op := Option.some.inj (hop.symm.trans hop')
    rw [Code.slotsNamed_of_operandsAt hops hslot] at hnamed
    omega

end Frame.Aligned

/-! ## 2. Where a machine is -/

/-- All frames are aligned, and the handlers of an active activation lead to boundaries of its
code. -/
structure Config.Aligned (p : Program) (c : Config σ) : Prop where
  frames : ∀ a ∈ c.active, a.frame.Aligned p
  targets : ∀ h ∈ c.state.handlers, ∀ a ∈ c.active, h.frame = a.id →
    a.frame.code.OnBoundary h.target.toNat

namespace Config.Aligned

variable {p : Program} {c c' : Config σ}

/-- Handlers may be dropped, and activations may go on elsewhere in their code. -/
theorem of_active (h : c.Aligned p) (handlers : c'.state.handlers ⊆ c.state.handlers)
    (active : ∀ a' ∈ c'.active, a'.frame.Aligned p ∧
      ∃ a ∈ c.active, a.id = a'.id ∧ a.frame.code = a'.frame.code) : c'.Aligned p where
  frames a' ha' := (active a' ha').1
  targets handler hh a' ha' howner := by
    obtain ⟨-, a, ha, hid, hcode⟩ := active a' ha'
    rw [← hcode]
    exact h.targets handler (handlers hh) a ha (howner.trans hid.symm)

end Config.Aligned

namespace Machine

variable {m : Machine σ} {c c' : Config σ}

/-- A constant that is not there is a trap about an operand. -/
theorem literal_error (m : Machine σ) (index : UInt16) (trap : Trap)
    (h : m.literal index = .error trap) : trap.isOperand := by
  simp only [literal] at h
  split at h
  · cases h
  · cases h
    rfl

/-- The instruction itself keeps the machine aligned; the handler that it asks for is too. -/
theorem aligned_of_next {request : Request} {f : Frame} (hwell : m.program.WellTargeted)
    (hc : c.Aligned m.program) (hn : m.next c = .ok request f) :
    Config.Aligned m.program { c with current := { c.current with frame := f } } ∧
      ∀ target, request = .enter target → f.code.OnBoundary target.toNat := by
  have hcurrent := hc.frames c.current List.mem_cons_self
  obtain ⟨hframe, hcode, henter⟩ := hcurrent.advance hwell m.literal_error hn
  refine ⟨hc.of_active (fun _ hh => hh) ?_, ?_⟩
  · intro a ha
    rcases List.mem_cons.mp ha with rfl | ha
    · exact ⟨hframe, c.current, List.mem_cons_self, rfl, hcode.symm⟩
    · have ha := List.mem_cons_of_mem c.current ha
      exact ⟨hc.frames a ha, a, ha, rfl, rfl⟩
  · rw [hcode]
    exact henter

theorem aligned_of_start {s : State σ} {index : UInt16} {args : List Value}
    (h : m.start s index args = .running c) : c.Aligned m.program := by
  obtain ⟨callee, frame, hcallee, hcreate, rfl⟩ := start_running_inv h
  refine ⟨?_, nofun⟩
  intro a ha
  rw [List.mem_singleton.mp ha]
  exact .of_create hcallee hcreate

/-- **A move keeps the machine aligned.** -/
theorem Move.aligned (h : m.Move c c') (hwell : m.program.WellTargeted) (hordered : c.Ordered)
    (hordered' : c'.Ordered) (hc : c.Aligned m.program) : c'.Aligned m.program := by
  cases h with
  | @inside request f s stack hn hl hh hnext =>
    obtain ⟨hc, -⟩ := aligned_of_next hwell hc hn
    refine hc.of_active (fun _ hmem => hh ▸ hmem) ?_
    intro a ha
    rcases List.mem_cons.mp ha with rfl | ha
    · exact ⟨(hc.frames _ List.mem_cons_self).push stack, _, List.mem_cons_self, rfl, rfl⟩
    · have ha := List.mem_cons_of_mem { c.current with frame := f } ha
      exact ⟨hc.frames a ha, a, ha, rfl, rfl⟩
  | @call index args keep f callee frame hn hd hcallee hcreate =>
    obtain ⟨hc, -⟩ := aligned_of_next hwell hc hn
    refine ⟨?_, ?_⟩
    · intro a ha
      rcases List.mem_cons.mp ha with rfl | ha
      · exact .of_create hcallee hcreate
      · exact hc.frames a ha
    · intro handler hh a ha howner
      rcases List.mem_cons.mp ha with rfl | ha
      · -- no handler has the serial number of the new activation
        exact absurd howner (Nat.ne_of_lt (hordered.handlers_lt handler hh))
      · exact hc.targets handler hh a ha howner
  | @ret v f caller below hn hcallers =>
    have hactive : c.active = c.current :: caller :: below := by rw [Config.active, hcallers]
    refine hc.of_active (fun _ hmem => hmem) ?_
    intro a ha
    rcases List.mem_cons.mp ha with rfl | ha
    · have hcaller : caller ∈ c.active := by simp [hactive]
      have hframe := hc.frames caller hcaller
      -- whether or not the result is pushed, the caller is where it was
      split
      · exact ⟨hframe.push _, caller, hcaller, rfl, rfl⟩
      · exact ⟨hframe, caller, hcaller, rfl, rfl⟩
    · have ha : a ∈ c.active := by simp [hactive, ha]
      exact ⟨hc.frames a ha, a, ha, rfl, rfl⟩
  | @land v f discarded below a target rest hn hh hsplit hd =>
    obtain ⟨hc, -⟩ := aligned_of_next hwell hc hn
    have hmem : ∀ b ∈ a :: below, b ∈ { c.current with frame := f } :: c.callers := by
      intro b hb
      rw [hsplit]
      exact List.mem_append_right discarded hb
    have howner := hmem a List.mem_cons_self
    have htarget := hc.targets ⟨a.id, target⟩ (by simp [hh]) a howner rfl
    refine hc.of_active (fun _ hh' => by simp [hh, hh']) ?_
    intro b hb
    rcases List.mem_cons.mp hb with rfl | hb
    · have hframe := hc.frames a howner
      exact ⟨⟨hframe.runs, hframe.scanned, htarget⟩, a, howner, rfl, rfl⟩
    · have hb := hmem b (List.mem_cons_of_mem a hb)
      exact ⟨hc.frames b hb, b, hb, rfl, rfl⟩
  | @enter target f hn =>
    obtain ⟨hc, henter⟩ := aligned_of_next hwell hc hn
    refine ⟨hc.frames, ?_⟩
    intro handler hmem a ha howner
    rcases List.mem_cons.mp hmem with rfl | hmem
    · obtain rfl := hordered'.eq_of_id_eq ha List.mem_cons_self howner.symm
      exact henter target rfl
    · exact hc.targets handler hmem a ha howner
  | leave hn hh =>
    obtain ⟨hc, -⟩ := aligned_of_next hwell hc hn
    refine ⟨hc.frames, ?_⟩
    intro handler hmem
    exact hc.targets handler (by rw [hh]; exact List.mem_cons_of_mem _ hmem)

/-- **Control stays on boundaries throughout an invocation.** -/
theorem Reaches.aligned {s : State σ} {index : UInt16} {args : List Value}
    (hwell : m.program.WellTargeted) (h : m.Reaches (m.start s index args) (.running c)) :
    c.Aligned m.program := by
  refine h.config_invariant (fun _ hs => aligned_of_start hs) ?_
  intro c c' hr hc hmove
  exact hmove.aligned hwell hr.ordered (hmove.ordered hr.ordered) hc

/-! ## 3. The traps that are left -/

/-- The callable's frame cannot be created: its code holds a byte that names no operation. -/
def FailsToDecode (m : Machine σ) (index : UInt16) (args : List Value) (trap : Trap) : Prop :=
  ∃ callee, m.program.callee? index = some callee ∧
    Frame.create callee.code callee.slots args = .error trap ∧
    ∃ byte offset, trap = .unknownOpcode byte offset

/-- A call that raises a layout trap does so while its frame is created. -/
theorem failsToDecode_of_activate {s s' : State σ} {index : UInt16} {args : List Value}
    {keep : Bool} {depth : Nat} {trap : Trap}
    (h : m.activate s index args keep depth = (.error trap, s')) (hlayout : trap.isLayout) :
    m.FailsToDecode index args trap := by
  rcases activate_error_inv h with rfl | rfl | ⟨callee, hcallee, hcreate⟩
  · cases hlayout
  · cases hlayout
  · exact ⟨callee, hcallee, hcreate, Code.scanFrom_error (Frame.create_error_iff.mp hcreate)⟩

/-- **Traps about the layout of code.**  Take a program all of whose branches lead to boundaries or
past the end, in whatever state it is invoked.

* No instruction accesses a slot that its frame does not have, no instruction is fetched whose byte
  names no operation, and an instruction whose operands are cut off is the last one of a body.
* Where a step of the machine, or its start, raises a trap of this kind otherwise, it was creating a
  frame, and a byte names no operation; or the host raised the trap. -/
theorem layout_traps (m : Machine σ) (hwell : m.program.WellTargeted) (s : State σ)
    (index : UInt16) (args : List Value) :
    (∀ trap s', m.start s index args = .finished (.trapped trap) s' → trap.isLayout →
      m.FailsToDecode index args trap) ∧
    ∀ c, m.Reaches (m.start s index args) (.running c) →
      (∀ trap f, m.next c = .error trap f →
        (∀ slot slots, trap ≠ .localOutOfRange slot slots) ∧
        (∀ byte offset, trap ≠ .unknownOpcode byte offset) ∧
        (∀ op offset, trap = .truncatedOperand op offset →
          ∃ b ∈ m.program.bodies, c.current.frame.code = b.code ∧
            b.code.boundaries.getLast? = some offset ∧ b.code.opcode? offset = some op)) ∧
      (∀ trap s', m.step c = .finished (.trapped trap) s' → trap.isLayout →
        (∃ f, m.next c = .error trap f) ∨
        (∃ callee given keep f, m.next c = .ok (.call callee given keep) f ∧
          m.FailsToDecode callee given trap) ∨
        (∃ id given f, m.next c = .ok (.native id given) f ∧
          (m.host.call id given c.state.heap c.state.host).result = .error trap)) := by
  refine ⟨?_, fun c hc => ⟨?_, ?_⟩⟩
  · intro trap s' hstart hlayout
    obtain ⟨trap', htrap, hact⟩ := start_finished_inv hstart
    cases htrap
    exact failsToDecode_of_activate hact hlayout
  · intro trap f hn
    have hframe := (hc.aligned hwell).frames c.current List.mem_cons_self
    have hleft := hframe.advance_error m.literal_error hn
    refine ⟨?_, ?_, ?_⟩
    · rintro slot slots rfl
      obtain ⟨b, -, -, op, offset, htrap, -⟩ := hleft rfl
      cases htrap
    · rintro byte offset rfl
      obtain ⟨b, -, -, op, offset, htrap, -⟩ := hleft rfl
      cases htrap
    · rintro op offset rfl
      obtain ⟨b, hb, hcode, op', offset', htrap, hlast, hop⟩ := hleft rfl
      cases htrap
      exact ⟨b, hb, hcode, hlast, hop⟩
  · intro trap s' hstep hlayout
    cases ends_of_step hstep with
    | instruction hn => exact .inl ⟨_, hn⟩
    | call hn hact => exact .inr (.inl ⟨_, _, _, _, hn, failsToDecode_of_activate hact hlayout⟩)
    | native hn hhost => exact .inr (.inr ⟨_, _, _, hn, hhost⟩)
    | leave hn hh => cases hlayout

/-- A method that attempts a call, stores what the callee aborts with, and ends in a jump whose
operand is missing. -/
def cutOffJump : Machine Unit :=
  .ofBodies
    [ ⟨0, 0, (Instr.assemble [.enterAttempt 9, .call 1 0, .ret, .storeLocal 2] ++
        [Opcode.jmp.byte]).toArray⟩,
      ⟨1, 0, (Instr.assemble [.loadTrue, .jmpTrue 5, .ret, .loadTrue, .abort]).toArray⟩ ]

/-- Its branches are well targeted, and where it traps is its last boundary. -/
theorem cutOffJump_boundaries :
    cutOffJump.program.WellTargeted ∧
      (cutOffJump.invoke 20 (State.initial ()) 0 []).map Prod.fst =
        some (.trapped (.truncatedOperand .jmp 12)) ∧
      ∀ c f, cutOffJump.Reaches (cutOffJump.start (State.initial ()) 0 []) (.running c) →
        cutOffJump.next c = .error (.truncatedOperand .jmp 12) f →
        ∃ b ∈ cutOffJump.program.bodies, c.current.frame.code = b.code ∧
          b.code.boundaries.getLast? = some 12 ∧ b.code.opcode? 12 = some .jmp := by
  have hwell : cutOffJump.program.WellTargeted := by decide +kernel
  refine ⟨hwell, by decide +kernel, fun c f hc hn => ?_⟩
  obtain ⟨-, hsteps⟩ := layout_traps cutOffJump hwell (State.initial ()) 0 []
  obtain ⟨-, -, hlast⟩ := (hsteps c hc).1 _ f hn
  exact hlast .jmp 12 rfl

end Machine

end BytecodeVm
