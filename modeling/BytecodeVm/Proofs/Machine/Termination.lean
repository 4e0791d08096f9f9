/- # Programs without backward branches stop

In a program whose branches all lead forward, control can still go back: an abort lands where its
handler says, which may be far before the instruction that aborted, and a program may call itself.
It stops all the same.

An activation has as much work before it as there is ahead of its instruction pointer and of the
handlers that it owns.  `Code.ahead` is such that entering an attempt, which puts the handler
beside the instruction pointer, lowers the sum of the two, and landing takes one of them away.  An
activation that calls has less work before it than it had, whatever its callee has, so the work of
all the activations falls in the lexicographic order that looks at the bottom of the stack first.
There are no more levels than the depth limit says, so this order is well founded.

* `Activation.work`, `Config.measure`: the work of an activation, and that of all by level;
* `Machine.Move.measure_lt`: every move lowers the measure;
* `Machine.forwardOnly_ends`: every invocation of such a program ends.
-/
import BytecodeVm.Proofs.Machine.Depth
import Mathlib.Data.DFinsupp.WellFounded

namespace BytecodeVm

variable {σ : Type}

/-! ## 1. Forward branches -/

/-- All branches at boundaries lead forward, to boundaries or past the end. -/
def Code.ForwardOnly (code : Code) : Prop :=
  ∀ offset ∈ code.boundaries, ∀ target ∈ code.target? offset,
    offset < target.toNat ∧ code.OnBoundary target.toNat

instance (code : Code) : Decidable code.ForwardOnly :=
  letI (offset : Nat) : Decidable (∀ target ∈ code.target? offset,
      offset < target.toNat ∧ code.OnBoundary target.toNat) :=
    Option.decidableForallMem _
  List.decidableBAll _ _

namespace Program

/-- All branches of all bodies lead forward. -/
def ForwardOnly (p : Program) : Prop :=
  ∀ b ∈ p.bodies, b.code.ForwardOnly

instance (p : Program) : Decidable p.ForwardOnly :=
  inferInstanceAs (Decidable (∀ b ∈ p.bodies, b.code.ForwardOnly))

theorem ForwardOnly.wellTargeted {p : Program} (h : p.ForwardOnly) : p.WellTargeted :=
  fun b hb offset ho target ht => (h b hb offset ho target ht).2

theorem ForwardOnly.of_runs {p : Program} {code : Code} (h : p.ForwardOnly)
    (hruns : p.Runs code) : code.ForwardOnly := by
  rcases hruns with ⟨b, hb, rfl⟩ | rfl
  · exact h b hb
  · decide +kernel

end Program

/-- **An instruction leads forward,** unless it ends the frame, and so does the handler that it
enters. -/
theorem Frame.Aligned.forward {p : Program} {f f' : Frame}
    {literal : UInt16 → Except Trap Value} {heap : Heap} {request : Request} (h : f.Aligned p)
    (hforward : p.ForwardOnly)
    (hliteral : ∀ index trap, literal index = .error trap → trap.isOperand)
    (hf : Frame.advance literal heap f = .ok request f') :
    (∃ v, request = .ret v) ∨ (f'.code = f.code ∧ f.ip < f.code.size ∧ f.ip < f'.ip ∧
      ∀ target, request = .enter target → f.ip < target.toNat) := by
  rcases Frame.advance_ok hliteral hf with ⟨-, rfl, -⟩ | ⟨i, hop, hops, hkeeps, henters, hip⟩
  · exact .inl ⟨.null, rfl⟩
  · have hmem : f.ip ∈ f.code.boundaries := h.mem_boundaries hop
    have htarget : ∀ target, i.target? = some target → f.ip < target.toNat := by
      intro target ht
      have hread := Code.target?_of_operandsAt hop hops ht
      exact (hforward.of_runs h.runs f.ip hmem target hread).1
    refine .inr ⟨hkeeps.code, Code.lt_size_of_opcode? hop, ?_, ?_⟩
    · rcases hip with hip | ⟨target, ht, hip⟩
      · have hpos := i.opcode.encodedLength_pos
        omega
      · rw [hip]
        exact htarget target ht
    · intro target hrequest
      exact htarget target (henters.target? hrequest)

/-! ## 2. Work -/

/-- How much is ahead of an offset: more than what is ahead of any two places further on. -/
def Code.ahead (code : Code) (offset : Nat) : Nat :=
  3 ^ (code.size - offset)

namespace Code

variable {code : Code} {offset next target : Nat}

theorem ahead_pos (code : Code) (offset : Nat) : 0 < code.ahead offset :=
  Nat.pow_pos (by decide)

theorem ahead_add_lt (h : offset < code.size) (hnext : offset < next) (htarget : offset < target) :
    code.ahead next + code.ahead target < code.ahead offset := by
  have hle : ∀ place, offset < place → code.ahead place ≤ 3 ^ (code.size - (offset + 1)) := by
    intro place hplace
    exact Nat.pow_le_pow_right (by decide) (by omega)
  have hnext := hle next hnext
  have htarget := hle target htarget
  have hpos : 0 < 3 ^ (code.size - (offset + 1)) := Nat.pow_pos (by decide)
  have hpow : code.ahead offset = 3 * 3 ^ (code.size - (offset + 1)) := by
    have hsize : code.size - offset = (code.size - (offset + 1)) + 1 := by omega
    rw [ahead, hsize, pow_succ, Nat.mul_comm]
  omega

theorem ahead_lt (h : offset < code.size) (hnext : offset < next) :
    code.ahead next < code.ahead offset := by
  have hboth := ahead_add_lt h hnext hnext
  omega

/-- What is ahead of the handlers of the given activation, which runs the code. -/
def pending (code : Code) (id : Nat) : List Handler → Nat
  | [] => 0
  | h :: rest => (if h.frame = id then code.ahead h.target.toNat else 0) + code.pending id rest

theorem pending_cons_own (code : Code) (id : Nat) (target : UInt16) (rest : List Handler) :
    code.pending id (⟨id, target⟩ :: rest) = code.ahead target.toNat + code.pending id rest := by
  rw [pending, if_pos rfl]

theorem pending_cons_other {id : Nat} {h : Handler} (hid : h.frame ≠ id) (rest : List Handler) :
    code.pending id (h :: rest) = code.pending id rest := by
  rw [pending, if_neg hid, Nat.zero_add]

end Code

/-- The work of an activation: what is ahead of it and of its handlers. -/
def Activation.work (handlers : List Handler) (a : Activation) : Nat :=
  a.frame.code.ahead a.frame.ip + a.frame.code.pending a.id handlers

namespace Activation

variable {a : Activation} {handlers : List Handler}

theorem work_pos : 0 < a.work handlers :=
  Nat.add_pos_left (Code.ahead_pos _ _) _

/-- Work does not grow when the latest handler is dropped. -/
theorem work_le_cons (h : Handler) : a.work handlers ≤ a.work (h :: handlers) := by
  simp only [work, Code.pending]
  omega

theorem work_cons_other {h : Handler} (hid : h.frame ≠ a.id) :
    a.work (h :: handlers) = a.work handlers := by
  rw [work, Code.pending_cons_other hid, work]

/-- To land is to give up what was ahead before. -/
theorem work_land_lt (v : Value) (target : UInt16) :
    (a.land v target).work handlers < a.work (⟨a.id, target⟩ :: handlers) := by
  have hpos := a.frame.code.ahead_pos a.frame.ip
  have hown := a.frame.code.pending_cons_own a.id target handlers
  simp only [work, land, hown]
  omega

end Activation

/-! ## 3. The measure -/

/-- The number at a level of a stack, counted from the bottom, and zero above its top. -/
def atLevel : List Nat → Nat → Nat
  | [], _ => 0
  | top :: below, level => if level = below.length then top else atLevel below level

section AtLevel

variable {above below below' : List Nat} {level : Nat}

theorem atLevel_cons_length (top : Nat) : atLevel (top :: below) below.length = top :=
  if_pos rfl

theorem atLevel_append (h : level < below.length) :
    atLevel (above ++ below) level = atLevel below level := by
  induction above with
  | nil => rfl
  | cons top above ih =>
    have hne : level ≠ (above ++ below).length := by
      rw [List.length_append]
      omega
    rw [List.cons_append, atLevel, if_neg hne, ih]

theorem atLevel_eq_zero (h : below.length ≤ level) : atLevel below level = 0 := by
  induction below with
  | nil => rfl
  | cons top below ih =>
    rw [List.length_cons] at h
    rw [atLevel, if_neg (by omega), ih (by omega)]

theorem atLevel_mono (h : List.Forall₂ (· ≤ ·) below' below) :
    atLevel below' level ≤ atLevel below level := by
  induction h with
  | nil => exact Nat.le_refl 0
  | cons hle hrest ih =>
    simp only [atLevel, hrest.length_eq]
    split
    · exact hle
    · exact ih

end AtLevel

namespace Config

/-- The work of the activations, the running one's first. -/
def works (c : Config σ) : List Nat :=
  c.active.map (Activation.work c.state.handlers)

/-- The work at each level, compared from the bottom of the stack upwards. -/
def measure (limit : Nat) (c : Config σ) : Lex (Fin limit → Nat) :=
  toLex fun level => atLevel c.works level

variable {limit level : Nat} {c c' : Config σ}

/-- A caller that goes on has the work that it had, with or without a result. -/
theorem works_resumed (s : State σ) (keep : Bool) (caller : Activation) (v : Value)
    (below : List Activation) :
    Config.works (⟨s, if keep then caller.push v else caller, below⟩ : Config σ) =
      (caller :: below).map (Activation.work s.handlers) := by
  cases keep <;> rfl

/-- The measure falls with one level if it grows on none beneath. -/
theorem measure_lt (hlevel : level < limit)
    (hbelow : ∀ l < level, atLevel c'.works l ≤ atLevel c.works l)
    (hless : atLevel c'.works level < atLevel c.works level) :
    c'.measure limit < c.measure limit := by
  -- the lowest level at which the two differ decides
  have hex : ∃ l, atLevel c'.works l ≠ atLevel c.works l := ⟨level, Nat.ne_of_lt hless⟩
  have hle : Nat.find hex ≤ level := Nat.find_min' hex (Nat.ne_of_lt hless)
  refine ⟨⟨Nat.find hex, by omega⟩, ?_, ?_⟩
  · intro l hl
    exact not_not.mp (Nat.find_min hex hl)
  · rcases Nat.lt_or_eq_of_le hle with hlt | heq
    · exact Nat.lt_of_le_of_ne (hbelow _ hlt) (Nat.find_spec hex)
    · simp only [measure, Pi.toLex_apply, heq]
      exact hless

/-- The measure falls when an activation has less work, whatever is put in the place of those above
it, if no activation beneath it has more. -/
theorem measure_lt_of_split {above below below' : List Nat} {work work' : Nat} (above' : List Nat)
    (hlimit : c.active.length ≤ limit) (hworks : c.works = above ++ work :: below)
    (hworks' : c'.works = above' ++ work' :: below') (hbelow : List.Forall₂ (· ≤ ·) below' below)
    (hless : work' < work) : c'.measure limit < c.measure limit := by
  have hlength : below'.length = below.length := hbelow.length_eq
  have hat : ∀ l ≤ below.length, atLevel c.works l = atLevel (work :: below) l ∧
      atLevel c'.works l = atLevel (work' :: below') l := by
    intro l hl
    rw [hworks, hworks']
    exact ⟨atLevel_append (by rw [List.length_cons]; omega),
      atLevel_append (by rw [List.length_cons]; omega)⟩
  have hlevel : below.length < limit := by
    have hcount : c.works.length = c.active.length := List.length_map _
    rw [hworks, List.length_append, List.length_cons] at hcount
    omega
  refine measure_lt hlevel ?_ ?_
  · intro l hl
    obtain ⟨hatl, hatl'⟩ := hat l (Nat.le_of_lt hl)
    rw [hatl, hatl', atLevel, atLevel, if_neg (by omega), if_neg (by omega)]
    exact atLevel_mono hbelow
  · obtain ⟨hatl, hatl'⟩ := hat below.length (Nat.le_refl _)
    rw [hatl, hatl', atLevel_cons_length, ← hlength, atLevel_cons_length]
    exact hless

end Config

/-! ## 4. Every move lowers the measure -/

/-- Where no activation has more work than before, no level has. -/
theorem Activation.forall₂_work {below : List Activation} {handlers handlers' : List Handler}
    (h : ∀ b ∈ below, b.work handlers' ≤ b.work handlers) :
    List.Forall₂ (· ≤ ·) (below.map (Activation.work handlers'))
      (below.map (Activation.work handlers)) := by
  rw [List.forall₂_map_left_iff, List.forall₂_map_right_iff]
  exact List.forall₂_same.mpr h

namespace Machine

variable {m : Machine σ} {c c' : Config σ}

/-- An instruction that goes on leaves less work to its activation. -/
theorem work_lt_of_next {request : Request} {f : Frame} (hforward : m.program.ForwardOnly)
    (hc : c.Aligned m.program) (hn : m.next c = .ok request f) (hgoes : ∀ v, request ≠ .ret v)
    (handlers : List Handler) :
    Activation.work handlers { c.current with frame := f } < c.current.work handlers := by
  have hframe := hc.frames c.current List.mem_cons_self
  rcases hframe.forward hforward m.literal_error hn with ⟨v, hret⟩ | ⟨hcode, hsize, hip, -⟩
  · exact absurd hret (hgoes v)
  · have hahead := Code.ahead_lt hsize hip
    simp only [Activation.work, hcode]
    omega

/-- So does one that enters an attempt, with its handler counted. -/
theorem work_lt_of_enter {target : UInt16} {f : Frame} (hforward : m.program.ForwardOnly)
    (hc : c.Aligned m.program) (hn : m.next c = .ok (.enter target) f) (handlers : List Handler) :
    Activation.work (⟨c.current.id, target⟩ :: handlers) { c.current with frame := f } <
      c.current.work handlers := by
  have hframe := hc.frames c.current List.mem_cons_self
  rcases hframe.forward hforward m.literal_error hn with ⟨v, hret⟩ | ⟨hcode, hsize, hip, htarget⟩
  · cases hret
  · have hahead := Code.ahead_add_lt hsize hip (htarget target rfl)
    simp only [Activation.work, hcode, Code.pending_cons_own]
    omega

/-- **Every move lowers the measure.** -/
theorem Move.measure_lt (h : m.Move c c') (hforward : m.program.ForwardOnly)
    (hc : c.Aligned m.program) (hordered : c.Ordered)
    (hlevelled : c.Levelled m.settings.maxDepth) :
    c'.measure m.settings.maxDepth < c.measure m.settings.maxDepth := by
  have hlimit := hlevelled.length_le
  have hworks : c.works = [] ++ c.current.work c.state.handlers ::
      c.callers.map (Activation.work c.state.handlers) := rfl
  cases h with
  | @inside request f s stack hn hl hh hnext =>
    have hgoes : ∀ v, request ≠ .ret v := by
      rintro v rfl
      cases hl
    refine Config.measure_lt_of_split [] hlimit hworks rfl ?_ ?_
    · exact Activation.forall₂_work fun b _ => by rw [hh]
    · rw [hh]
      exact work_lt_of_next hforward hc hn hgoes c.state.handlers
  | call hn hd hcallee hf =>
    -- the level of the caller decides, whatever work the callee brings
    refine Config.measure_lt_of_split [_] hlimit hworks rfl ?_ ?_
    · exact Activation.forall₂_work fun b _ => Nat.le_refl _
    · exact work_lt_of_next hforward hc hn (by simp) c.state.handlers
  | @ret v f caller below hn hcallers =>
    -- the level of the activation that is over is empty afterwards
    have hworks' : c.works = [c.current.work c.state.handlers] ++
        (caller :: below).map (Activation.work c.state.handlers) := by
      rw [hworks, hcallers]
      rfl
    have hlevel : (caller :: below).length < m.settings.maxDepth := by
      rw [Config.active, hcallers] at hlimit
      exact hlimit
    refine Config.measure_lt hlevel ?_ ?_
    · intro l hl
      rw [Config.works_resumed, hworks', atLevel_append (by simpa using hl)]
      exact Nat.le_refl _
    · have htop : atLevel c.works (caller :: below).length = c.current.work c.state.handlers := by
        rw [hworks', ← List.length_map (Activation.work c.state.handlers)]
        exact atLevel_cons_length _
      rw [Config.works_resumed, htop, atLevel_eq_zero (by rw [List.length_map])]
      exact Activation.work_pos
  | @land v f discarded below a target rest hn hh hsplit hd =>
    -- the instruction lowers the measure, and so does the landing after it
    have hnext : Config.measure m.settings.maxDepth
        { c with current := { c.current with frame := f } } < c.measure m.settings.maxDepth :=
      Config.measure_lt_of_split [] hlimit hworks rfl
        (Activation.forall₂_work fun b _ => Nat.le_refl _)
        (work_lt_of_next hforward hc hn (by simp) _)
    refine lt_trans ?_ hnext
    have hworks' : Config.works { c with current := { c.current with frame := f } } =
        discarded.map (Activation.work c.state.handlers) ++ a.work c.state.handlers ::
          below.map (Activation.work c.state.handlers) := by
      rw [← List.map_cons, ← List.map_append, ← hsplit]
      rfl
    refine Config.measure_lt_of_split [] hlimit hworks' rfl ?_ ?_
    · exact Activation.forall₂_work fun b _ => by rw [hh]; exact Activation.work_le_cons _
    · rw [hh]
      exact Activation.work_land_lt v target
  | @enter target f hn =>
    refine Config.measure_lt_of_split [] hlimit hworks rfl ?_ ?_
    · -- no activation beneath has the serial number of the running one
      have hids : c.ids = [] ++ c.current.id :: c.callers.map Activation.id := rfl
      have hother := (hordered.notMem_of_split hids).2
      refine Activation.forall₂_work fun b hb => Nat.le_of_eq (Activation.work_cons_other ?_)
      intro hid
      have hsame : c.current.id = b.id := hid
      rw [hsame] at hother
      exact hother (List.mem_map_of_mem hb)
    · exact work_lt_of_enter hforward hc hn c.state.handlers
  | @leave handler rest f hn hh =>
    refine Config.measure_lt_of_split [] hlimit hworks rfl ?_ ?_
    · exact Activation.forall₂_work fun b _ => by rw [hh]; exact Activation.work_le_cons handler
    · rw [hh]
      exact Nat.lt_of_le_of_lt (Activation.work_le_cons handler)
        (work_lt_of_next hforward hc hn (by simp) _)

/-! ## 5. Termination -/

/-- From every configuration of an invocation, steps lead to its end. -/
theorem Reaches.ends {s : State σ} {index : UInt16} {args : List Value}
    (hforward : m.program.ForwardOnly) (h : m.Reaches (m.start s index args) (.running c)) :
    ∃ o s', m.Reaches (.running c) (.finished o s') := by
  induction hmeasure : c.measure m.settings.maxDepth using WellFoundedLT.induction
    generalizing c with
  | ind measure ih =>
  cases hs : m.step c with
  | finished o s' =>
    refine ⟨o, s', .head ?_⟩
    rw [hs]
    exact .refl _
  | running c' =>
    have hlt : c'.measure m.settings.maxDepth < measure := by
      rw [← hmeasure]
      exact (move_of_step hs).measure_lt hforward (h.aligned hforward.wellTargeted) h.ordered
        h.levelled
    have hreach : m.Reaches (m.start s index args) (.running c') := hs ▸ h.tail
    obtain ⟨o, s', hend⟩ := ih _ hlt hreach rfl
    refine ⟨o, s', .head ?_⟩
    rw [hs]
    exact hend

/-- **Programs without backward branches stop.**  If every branch of a program leads forward, to a
boundary or past the end of the code, then every invocation of every callable ends, in whatever
state, on whatever arguments and with whatever host and depth limit. -/
theorem forwardOnly_ends (m : Machine σ) (hforward : m.program.ForwardOnly) (s : State σ)
    (index : UInt16) (args : List Value) :
    ∃ fuel o s', m.invoke fuel s index args = some (o, s') := by
  have hend : ∃ o s', m.Reaches (m.start s index args) (.finished o s') := by
    have hstart : m.Reaches (m.start s index args) (m.start s index args) := .refl _
    cases hs : m.start s index args with
    | finished o s' => exact ⟨o, s', .refl _⟩
    | running c =>
      nth_rewrite 2 [hs] at hstart
      exact hstart.ends hforward
  obtain ⟨o, s', hreach⟩ := hend
  obtain ⟨fuel, hinvoke⟩ := (exists_invoke_iff m s s' index args o).mpr hreach
  exact ⟨fuel, o, s', hinvoke⟩

/-- A method with an attempt within an attempt, which aborts at its end.  The abort lands before the
aborting instruction, and there the method calls itself. -/
def selfCalling : Machine Unit :=
  .ofBodies
    [ ⟨0, 0, (Instr.assemble [.enterAttempt 15, .enterAttempt 10, .loadTrue, .jmp 16, .call 0 0,
        .ret, .abort]).toArray⟩ ]

/-- It stops, although nothing but the depth limit ends its calls. -/
theorem selfCalling_ends :
    selfCalling.program.ForwardOnly ∧
      ∃ fuel o s', selfCalling.invoke fuel (State.initial ()) 0 [] = some (o, s') := by
  have hforward : selfCalling.program.ForwardOnly := by decide +kernel
  exact ⟨hforward, forwardOnly_ends selfCalling hforward (State.initial ()) 0 []⟩

end Machine

end BytecodeVm
