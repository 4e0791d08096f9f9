/- # Where activations and handlers come from

A machine is used again and again, and what a run leaves behind is there when the next one starts.
Handlers, moreover, outlive the activations that entered them: one that returns inside an attempt
leaves its handler on the stack.  An abort takes the latest handler for that of the activation whose
serial number it bears, so everything rests on serial numbers being given out once.

* `Machine.History`: the states between the calls of an owner;
* `Machine.Stems`: an activation comes from a call of the same run, and is in its code still;
* `Machine.Entered`: a handler was put in its place by an instruction of the activation that it
  names, which has been there ever since;
* `Config.Accounted`: all activations and all handlers that can be landed at are accounted for;
* `Machine.activations_accounted`: what this comes to, over any sequence of runs.
-/
import BytecodeVm.Proofs.Machine.Depth

namespace BytecodeVm

variable {σ : Type}

namespace Machine

variable {m : Machine σ} {c c' : Config σ} {r : StepResult σ}

/-! ## 1. What a move leaves in place -/

/-- An instruction stays in its code and keeps its slots. -/
theorem keeps_of_next {request : Request} {f : Frame} (hn : m.next c = .ok request f) :
    c.current.frame.Keeps f := by
  rcases Frame.advance_ok m.literal_error hn with ⟨-, -, rfl⟩ | ⟨i, -, -, hkeeps, -, -⟩
  · exact .refl _
  · exact hkeeps

/-- The activation of a configuration that has just been put on top by a call. -/
def IsCallee (m : Machine σ) (c c' : Config σ) (a : Activation) : Prop :=
  ∃ index args keep f callee, m.next c = .ok (.call index args keep) f ∧
    m.program.callee? index = some callee ∧
    Frame.create callee.code callee.slots args = .ok a.frame ∧
    a.id = c.state.nextFrame ∧ a = c'.current

/-- An activation after a move was there before, in the same code, or it is a callee. -/
theorem Move.activation (h : m.Move c c') {a : Activation} (ha : a ∈ c'.active) :
    (∃ b ∈ c.active, b.id = a.id ∧ b.frame.Keeps a.frame) ∨ m.IsCallee c c' a := by
  have hcurrent : c.current ∈ c.active := List.mem_cons_self
  have hcallers : ∀ b ∈ c.callers, ∃ b' ∈ c.active, b'.id = b.id ∧ b'.frame.Keeps b.frame :=
    fun b hb => ⟨b, List.mem_cons_of_mem _ hb, rfl, .refl _⟩
  cases h with
  | inside stack hn hl hh hnext =>
    rcases List.mem_cons.mp ha with rfl | ha
    · have hkeeps := keeps_of_next hn
      exact .inl ⟨c.current, hcurrent, rfl, ⟨hkeeps.code, hkeeps.slots⟩⟩
    · exact .inl (hcallers a ha)
  | call hn hd hcallee hf =>
    rcases List.mem_cons.mp ha with rfl | ha
    · exact .inr ⟨_, _, _, _, _, hn, hcallee, hf, rfl, rfl⟩
    · rcases List.mem_cons.mp ha with rfl | ha
      · exact .inl ⟨c.current, hcurrent, rfl, keeps_of_next hn⟩
      · exact .inl (hcallers a ha)
  | @ret v f caller below hn hbelow =>
    rw [hbelow] at hcallers
    rcases List.mem_cons.mp ha with rfl | ha
    · obtain ⟨b, hb, hid, hkeeps⟩ := hcallers caller List.mem_cons_self
      refine .inl ⟨b, hb, ?_, ?_⟩
      · split <;> exact hid
      · split
        · exact ⟨hkeeps.code, hkeeps.slots⟩
        · exact hkeeps
    · exact .inl (hcallers a (List.mem_cons_of_mem _ ha))
  | @land v f discarded below b target rest hn hh hsplit hd =>
    have hall : ∀ d ∈ b :: below, ∃ b' ∈ c.active, b'.id = d.id ∧ b'.frame.Keeps d.frame := by
      intro d hd
      have hmem : d ∈ { c.current with frame := f } :: c.callers := by
        rw [hsplit]
        exact List.mem_append_right _ hd
      rcases List.mem_cons.mp hmem with rfl | hmem
      · exact ⟨c.current, hcurrent, rfl, keeps_of_next hn⟩
      · exact hcallers d hmem
    rcases List.mem_cons.mp ha with rfl | ha
    · obtain ⟨b', hb', hid, hkeeps⟩ := hall b List.mem_cons_self
      exact .inl ⟨b', hb', hid, ⟨hkeeps.code, hkeeps.slots⟩⟩
    · exact .inl (hall a (List.mem_cons_of_mem _ ha))
  | enter hn =>
    rcases List.mem_cons.mp ha with rfl | ha
    · exact .inl ⟨c.current, hcurrent, rfl, keeps_of_next hn⟩
    · exact .inl (hcallers a ha)
  | leave hn hh =>
    rcases List.mem_cons.mp ha with rfl | ha
    · exact .inl ⟨c.current, hcurrent, rfl, keeps_of_next hn⟩
    · exact .inl (hcallers a ha)

/-- So a serial number that was given out before is not given out again. -/
theorem Move.mem_ids (h : m.Move c c') {id : Nat} (hid : id ∈ c'.ids) :
    id ∈ c.ids ∨ id = c.state.nextFrame := by
  obtain ⟨a, ha, rfl⟩ := List.mem_map.mp hid
  rcases h.activation ha with ⟨b, hb, hsame, -⟩ | ⟨_, _, _, _, _, -, -, -, hfresh, -⟩
  · exact .inl (hsame ▸ Config.mem_ids hb)
  · exact .inr hfresh

/-- Serial numbers are not taken back. -/
theorem Move.nextFrame_le (h : m.Move c c') : c.state.nextFrame ≤ c'.state.nextFrame := by
  cases h with
  | inside stack hn hl hh hnext => exact Nat.le_of_eq hnext.symm
  | call hn hd hcallee hf => exact Nat.le_succ _
  | ret hn hcallers => exact Nat.le_refl _
  | land hn hh hsplit hd => exact Nat.le_refl _
  | enter hn => exact Nat.le_refl _
  | leave hn hh => exact Nat.le_refl _

/-- A move drops handlers from the top, or puts one there that the running activation enters. -/
theorem Move.handlers (h : m.Move c c') : c'.state.handlers <:+ c.state.handlers ∨
    ∃ target f, m.next c = .ok (.enter target) f ∧
      c'.state.handlers = ⟨c.current.id, target⟩ :: c.state.handlers := by
  cases h with
  | inside stack hn hl hh hnext => exact .inl (hh ▸ List.suffix_rfl)
  | call hn hd hcallee hf => exact .inl List.suffix_rfl
  | ret hn hcallers => exact .inl List.suffix_rfl
  | land hn hh hsplit hd => exact .inl (hh ▸ List.suffix_cons _ _)
  | enter hn => exact .inr ⟨_, _, hn, rfl⟩
  | leave hn hh => exact .inl (hh ▸ List.suffix_cons _ _)

/-! ## 2. Origins -/

/-- Steps lead from one configuration to another, and a condition holds in both and in all between
them. -/
inductive Through (m : Machine σ) (P : Config σ → Prop) (c : Config σ) : Config σ → Prop
  | refl : P c → Through m P c c
  | tail {c₁ c₂ : Config σ} : Through m P c c₁ → m.step c₁ = .running c₂ → P c₂ → Through m P c c₂

/-- In the run from `r`, a call of the callable has just been let in: it is the one that the run
starts with, or that of an instruction. -/
inductive LetsIn (m : Machine σ) (r : StepResult σ) (index : UInt16) (args : List Value) :
    Config σ → Prop
  | first {s : State σ} {c : Config σ} :
      r = m.start s index args → r = .running c → LetsIn m r index args c
  | call {c₀ c : Config σ} {keep : Bool} {f : Frame} : m.Reaches r (.running c₀) →
      m.next c₀ = .ok (.call index args keep) f → m.step c₀ = .running c → LetsIn m r index args c

/-- An activation of `c` comes from a call in the run from `r`.  It has been there since its frame
was created, is in the code of the callee still, and has the slots that the callee asks for, or those
that its code names if that is more. -/
def Stems (m : Machine σ) (r : StepResult σ) (c : Config σ) (a : Activation) : Prop :=
  ∃ index args callee named c₀, m.LetsIn r index args c₀ ∧
    m.program.callee? index = some callee ∧ callee.code.scanSlots = .ok named ∧
    Frame.create callee.code callee.slots args = .ok c₀.current.frame ∧
    c₀.current.id = a.id ∧ m.Through (fun c => a.id ∈ c.ids) c₀ c ∧
    a.frame.code = callee.code ∧ a.frame.locals.size = max callee.slots named

/-- The running activation is at an instruction that enters an attempt with the given target. -/
def IsEntering (m : Machine σ) (c : Config σ) (target : UInt16) : Prop :=
  c.current.frame.code.opcode? c.current.frame.ip = some .enterAttempt ∧
    c.current.frame.code.operand? (c.current.frame.ip + 1) = some target ∧
    ∃ f, m.next c = .ok (.enter target) f

/-- A handler of `c`, with the given ones beneath it, was put there in the run from `r` by an
instruction of the activation that it names, with its target for the operand.  Both the handler and
the activation have been there since. -/
def Entered (m : Machine σ) (r : StepResult σ) (c : Config σ) (h : Handler) (rest : List Handler) :
    Prop :=
  ∃ c₀ c₁, m.Reaches r (.running c₀) ∧ m.IsEntering c₀ h.target ∧ c₀.current.id = h.frame ∧
    c₀.state.handlers = rest ∧ m.step c₀ = .running c₁ ∧
    m.Through (fun c => h.frame ∈ c.ids ∧ h :: rest <:+ c.state.handlers) c₁ c

theorem Stems.step {a a' : Activation} (h : m.Stems r c a) (hs : m.step c = .running c')
    (ha' : a' ∈ c'.active) (hid : a.id = a'.id) (hkeeps : a.frame.Keeps a'.frame) :
    m.Stems r c' a' := by
  obtain ⟨index, args, callee, named, c₀, hlets, hcallee, hscan, hcreate, hid₀, hthrough, hcode,
    hslots⟩ := h
  rw [hid] at hthrough hid₀
  exact ⟨index, args, callee, named, c₀, hlets, hcallee, hscan, hcreate, hid₀,
    hthrough.tail hs (Config.mem_ids ha'), hkeeps.code.trans hcode, hkeeps.slots.trans hslots⟩

theorem Entered.step {h : Handler} {rest : List Handler} (he : m.Entered r c h rest)
    (hs : m.step c = .running c') (hid : h.frame ∈ c'.ids)
    (hrest : h :: rest <:+ c'.state.handlers) : m.Entered r c' h rest := by
  obtain ⟨c₀, c₁, hreach, hentering, hid₀, hrest₀, hs₀, hthrough⟩ := he
  exact ⟨c₀, c₁, hreach, hentering, hid₀, hrest₀, hs₀, hthrough.tail hs ⟨hid, hrest⟩⟩

theorem isEntering_of_next {target : UInt16} {f : Frame} (hn : m.next c = .ok (.enter target) f) :
    m.IsEntering c target := by
  obtain ⟨hop, hoperand⟩ := Frame.advance_enter m.literal_error hn
  exact ⟨hop, hoperand, f, hn⟩

/-- An activation with a new frame stems from the call that let it in. -/
theorem stems_of_letsIn {index : UInt16} {args : List Value} {callee : Callee}
    (hlets : m.LetsIn r index args c) (hcallee : m.program.callee? index = some callee)
    (hcreate : Frame.create callee.code callee.slots args = .ok c.current.frame) :
    m.Stems r c c.current := by
  obtain ⟨named, hscan, hframe⟩ := Frame.create_ok_iff.mp hcreate
  refine ⟨index, args, callee, named, c, hlets, hcallee, hscan, hcreate, rfl,
    .refl (Config.mem_ids List.mem_cons_self), ?_, ?_⟩
  · rw [hframe]
  · rw [hframe, Frame.size_bindArguments]

end Machine

/-- All activations stem from calls, and all handlers of activations that are there were entered by
them. -/
structure Config.Accounted (m : Machine σ) (r : StepResult σ) (c : Config σ) : Prop where
  activations : ∀ a ∈ c.active, m.Stems r c a
  handlers : ∀ h rest, h :: rest <:+ c.state.handlers → h.frame ∈ c.ids → m.Entered r c h rest

namespace Machine

variable {m : Machine σ} {c c' : Config σ} {r : StepResult σ}

theorem accounted_of_start {s : State σ} {index : UInt16} {args : List Value}
    (h : m.start s index args = .running c) : c.Accounted m (m.start s index args) := by
  have hlets : m.LetsIn (m.start s index args) index args c := .first rfl h
  obtain ⟨callee, frame, hcallee, hcreate, rfl⟩ := start_running_inv h
  refine ⟨?_, ?_⟩
  · intro a ha
    rw [List.mem_singleton.mp ha]
    exact stems_of_letsIn hlets hcallee hcreate
  · intro handler rest hsuffix
    cases List.suffix_nil.mp hsuffix

/-- **A step keeps account of activations and handlers.** -/
theorem accounted_of_step (hreach : m.Reaches r (.running c)) (hordered : c.Ordered)
    (hc : c.Accounted m r) (hs : m.step c = .running c') : c'.Accounted m r := by
  have hmove := move_of_step hs
  refine ⟨?_, ?_⟩
  · intro a ha
    rcases hmove.activation ha with ⟨b, hb, hid, hkeeps⟩ |
      ⟨index, args, keep, f, callee, hn, hcallee, hcreate, -, rfl⟩
    · exact (hc.activations b hb).step hs ha hid hkeeps
    · exact stems_of_letsIn (.call hreach hn hs) hcallee hcreate
  · intro h rest hsuffix hid
    -- the handler was there before, and so was its activation: no call gives its number out again
    have hold : h :: rest <:+ c.state.handlers → m.Entered r c' h rest := by
      intro hbefore
      have hlt := hordered.handlers_lt h (hbefore.subset List.mem_cons_self)
      have hid₀ : h.frame ∈ c.ids := (hmove.mem_ids hid).resolve_right (Nat.ne_of_lt hlt)
      exact (hc.handlers h rest hbefore hid₀).step hs hid hsuffix
    rcases hmove.handlers with hdrops | ⟨target, f, hn, hputs⟩
    · exact hold (hsuffix.trans hdrops)
    · rcases List.suffix_cons_iff.mp (hputs ▸ hsuffix) with heq | hbefore
      · obtain ⟨rfl, rfl⟩ := List.cons.inj heq
        exact ⟨c, c', hreach, isEntering_of_next hn, rfl, rfl, hs, .refl ⟨hid, hsuffix⟩⟩
      · exact hold hbefore

/-- **Activations and handlers are accounted for throughout an invocation.** -/
theorem Reaches.accounted {s : State σ} {index : UInt16} {args : List Value}
    (h : m.Reaches (m.start s index args) (.running c)) :
    c.Accounted m (m.start s index args) :=
  h.running_invariant (fun _ hs => accounted_of_start hs)
    fun _ _ hreach hc hs => accounted_of_step hreach hreach.ordered hc hs

/-- The serial numbers of an invocation begin where the earlier ones left off. -/
theorem Reaches.since {s : State σ} {index : UInt16} {args : List Value}
    (h : m.Reaches (m.start s index args) (.running c)) :
    s.nextFrame ≤ c.state.nextFrame ∧ ∀ id ∈ c.ids, s.nextFrame ≤ id := by
  refine h.config_invariant (P := fun c => s.nextFrame ≤ c.state.nextFrame ∧
    ∀ id ∈ c.ids, s.nextFrame ≤ id) ?_ ?_
  · intro c hs
    obtain ⟨callee, frame, -, -, rfl⟩ := start_running_inv hs
    refine ⟨Nat.le_succ _, ?_⟩
    intro id hid
    exact Nat.le_of_eq (List.mem_singleton.mp hid).symm
  · rintro c c' - ⟨hnext, hids⟩ hmove
    refine ⟨Nat.le_trans hnext hmove.nextFrame_le, ?_⟩
    intro id hid
    rcases hmove.mem_ids hid with hid | rfl
    · exact hids id hid
    · exact hnext

/-- **Where an abort lands, the handler was entered by that very activation.** -/
theorem entered_of_land {v : Value} {f : Frame} (hc : c.Accounted m r)
    (hn : m.next c = .ok (.abort v) f) (hs : m.step c = .running c') :
    ∃ target rest, c.state.handlers = ⟨c'.current.id, target⟩ :: rest ∧
      c'.state.handlers = rest ∧ c'.current.frame.ip = target.toNat ∧
      m.Entered r c ⟨c'.current.id, target⟩ rest := by
  cases move_of_step hs with
  | inside stack hn' hl =>
    rw [hn] at hn'
    cases hn'
    cases hl
  | call hn' | ret hn' | enter hn' | leave hn' =>
    rw [hn] at hn'
    cases hn'
  | @land v' f' discarded below a target rest hn' hh hsplit hd =>
    have hid : a.id ∈ c.ids := by
      rw [Config.ids_of_split hsplit]
      simp
    exact ⟨target, rest, hh, rfl, rfl, hc.handlers ⟨a.id, target⟩ rest (hh ▸ List.suffix_rfl) hid⟩

/-! ## 3. Over any sequence of runs -/

/-- How an owner sets a machine to work: by invoking a callable, or by running the entry method. -/
inductive Begins (m : Machine σ) (s : State σ) : StepResult σ → Prop
  | invoke (index : UInt16) (args : List Value) : Begins m s (m.start s index args)
  | run : Begins m s (m.startEntry s)

/-- The states between the calls of an owner, whatever these came to.  In between, the owner may do
to the heap and to the host what it likes. -/
inductive History (m : Machine σ) : State σ → Prop
  | new {s : State σ} : s.handlers = [] → s.nextFrame = 0 → History m s
  | outside {s s' : State σ} : History m s → s'.handlers = s.handlers →
      s'.nextFrame = s.nextFrame → History m s'
  | call {s s' : State σ} {r : StepResult σ} {o : Outcome} : History m s → m.Begins s r →
      m.Reaches r (.finished o s') → History m s'

/-- A run of the entry method is an invocation, unless there is no entry method. -/
theorem Begins.eq_start {s : State σ} (h : m.Begins s r) :
    (∃ s₀ index args, s₀.nextFrame = s.nextFrame ∧ r = m.start s₀ index args) ∨
      r = .finished (.trapped (.missingEntry m.settings.entrySuffix)) s := by
  cases h with
  | invoke index args => exact .inl ⟨s, index, args, rfl, rfl⟩
  | run =>
    cases hentry : m.entry? with
    | none =>
      right
      simp only [startEntry, hentry]
    | some entry =>
      left
      refine ⟨s.log (.entryResolved entry.name entry.index), entry.index, [], rfl, ?_⟩
      simp only [startEntry, hentry]

theorem handlers_lt_of_finished {s s' : State σ} {index : UInt16} {args : List Value} {o : Outcome}
    (h : m.Reaches (m.start s index args) (.finished o s')) :
    ∀ handler ∈ s'.handlers, handler.frame < s'.nextFrame := by
  rcases h.finished_cases with hstart | ⟨c, hc, hstep⟩
  · -- the first call was refused, and there are no handlers yet
    obtain ⟨trap, -, hact⟩ := start_finished_inv hstart
    have hstate := m.activate_state { s with handlers := [] } index args true 0
    rw [hact] at hstate
    intro handler hmem
    rw [hstate.1] at hmem
    cases hmem
  · obtain ⟨hhandlers, hnext⟩ := (ends_of_step hstep).state
    intro handler hmem
    rw [hhandlers] at hmem
    exact Nat.lt_of_lt_of_le (hc.ordered.handlers_lt handler hmem) hnext

/-- What is left on the stack of handlers between runs has serial numbers that were given out. -/
theorem History.handlers_lt {s : State σ} (h : m.History s) :
    ∀ handler ∈ s.handlers, handler.frame < s.nextFrame := by
  induction h with
  | new hempty hnext =>
    intro handler hmem
    rw [hempty] at hmem
    cases hmem
  | outside _ hhandlers hnext ih =>
    rw [hhandlers, hnext]
    exact ih
  | call _ hbegins hend ih =>
    rcases hbegins.eq_start with ⟨s₀, index, args, -, rfl⟩ | rfl
    · exact handlers_lt_of_finished hend
    · cases hend.eq_of_finished
      exact ih

/-- **Activations and handlers, over any sequence of runs.**  Take any state that an owner can find
between two calls, and any way to go on from there.  The depth limit stops the first call exactly
when it allows no activation at all.  In every configuration of the run:

* there are no more activations than the limit says, and a step hits the limit exactly when it calls
  with that many there, or when the host raises that trap;
* the serial numbers of the activations fall strictly from the running one downwards, they were not
  given out in earlier runs, and they and those of the handlers are behind the next one;
* every activation is in the code that it was created with, and has the slots that were asked for or
  those that the code names;
* where an abort lands, the handler that it takes was entered in the same run, by an instruction of
  the activation that it lands in and with the same target, and both have been there since. -/
theorem activations_accounted (m : Machine σ) (s : State σ) (hs : m.History s) :
    (∀ h ∈ s.handlers, h.frame < s.nextFrame) ∧
    (∀ index args n, (∃ s', m.start s index args = .finished (.trapped (.depthExceeded n)) s') ↔
      m.settings.maxDepth = 0 ∧ n = 0) ∧
    (∀ n, (∃ s', m.startEntry s = .finished (.trapped (.depthExceeded n)) s') ↔
      m.entry?.isSome ∧ m.settings.maxDepth = 0 ∧ n = 0) ∧
    ∀ r c, m.Begins s r → m.Reaches r (.running c) →
      (c.active.length ≤ m.settings.maxDepth ∧
        ∀ n, (∃ s', m.step c = .finished (.trapped (.depthExceeded n)) s') ↔
          m.CallsAtLimit c ∧ n = m.settings.maxDepth ∨ m.HostTraps c (.depthExceeded n)) ∧
      (c.ids.Pairwise (· > ·) ∧ (∀ id ∈ c.ids, s.nextFrame ≤ id ∧ id < c.state.nextFrame) ∧
        ∀ h ∈ c.state.handlers, h.frame < c.state.nextFrame) ∧
      (∀ a ∈ c.active, m.Stems r c a) ∧
      ∀ v f c', m.next c = .ok (.abort v) f → m.step c = .running c' →
        ∃ target rest, c.state.handlers = ⟨c'.current.id, target⟩ :: rest ∧
          c'.state.handlers = rest ∧ c'.current.frame.ip = target.toNat ∧
          m.Entered r c ⟨c'.current.id, target⟩ rest := by
  refine ⟨hs.handlers_lt, start_depthExceeded_iff s, startEntry_depthExceeded_iff s, ?_⟩
  intro r c hbegins hreach
  rcases hbegins.eq_start with ⟨s₀, index, args, hnext, rfl⟩ | rfl
  · have hlevelled := hreach.levelled
    have hordered := hreach.ordered
    have haccounted := hreach.accounted
    refine ⟨⟨hlevelled.length_le, step_depthExceeded_iff hlevelled⟩,
      ⟨hordered.descending, ?_, hordered.handlers_lt⟩, haccounted.activations, ?_⟩
    · intro id hid
      exact ⟨hnext ▸ hreach.since.2 id hid, hordered.ids_lt id hid⟩
    · intro v f c' hn hstep
      exact entered_of_land haccounted hn hstep
  · cases hreach.eq_of_finished

/-- A method that attempts a call and aborts, and a callee that returns in an attempt of its own. -/
def leftBehind : Machine Unit :=
  .ofBodies
    [ ⟨0, 0, (Instr.assemble [.enterAttempt 9, .call 1 0, .abort, .ret]).toArray⟩,
      ⟨1, 0, (Instr.assemble [.enterAttempt 4, .loadTrue, .ret]).toArray⟩ ]

/-- The callee's handler hides that of the method, and both are left behind.  In the next run, all
serial numbers are new. -/
theorem leftBehind_accounted :
    ∃ s, leftBehind.invoke 20 (State.initial ()) 0 [] = some (.unwound (.bool true), s) ∧
      s.handlers = [⟨1, 4⟩, ⟨0, 9⟩] ∧ (∀ h ∈ s.handlers, h.frame < s.nextFrame) ∧
      ∀ c, leftBehind.Reaches (leftBehind.start s 0 []) (.running c) →
        (∀ id ∈ c.ids, s.nextFrame ≤ id ∧ id < c.state.nextFrame) ∧
        ∀ a ∈ c.active, leftBehind.Stems (leftBehind.start s 0 []) c a := by
  have hrun : (leftBehind.invoke 20 (State.initial ()) 0 []).map
      (fun e => (e.1, e.2.handlers)) = some (.unwound (.bool true), [⟨1, 4⟩, ⟨0, 9⟩]) := by
    decide +kernel
  obtain ⟨⟨o, s⟩, hinvoke, heq⟩ := Option.map_eq_some_iff.mp hrun
  obtain ⟨rfl, hhandlers⟩ := Prod.mk.inj heq
  have hend := (exists_invoke_iff leftBehind _ _ _ _ _).mp ⟨20, hinvoke⟩
  have hs : leftBehind.History s := .call (.new rfl rfl) (.invoke 0 []) hend
  obtain ⟨hlt, -, -, hinside⟩ := activations_accounted leftBehind s hs
  refine ⟨s, hinvoke, hhandlers, hlt, ?_⟩
  intro c hc
  obtain ⟨-, ⟨-, hids, -⟩, hstems, -⟩ := hinside _ c (.invoke 0 []) hc
  exact ⟨hids, hstems⟩

end Machine

end BytecodeVm
