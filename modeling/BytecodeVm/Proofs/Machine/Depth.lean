/- # The depth limit

An activation carries the number of activations that it lies on, and a call is let in only if the
number for its callee is below the limit.  So there are never more activations than the limit says.
The limit is hit by the call that would be one too many and by nothing else, unless the host chooses
to raise that trap.

* `Config.Levelled`: depths count the activations beneath, and there are not too many of them;
* `Machine.Reaches.levelled`: this holds in every configuration of every invocation;
* `Machine.step_depthExceeded_iff`, `Machine.start_depthExceeded_iff`: when the limit is hit.
-/
import BytecodeVm.Proofs.Machine.Boundaries

namespace BytecodeVm

variable {σ : Type}

/-! ## 1. Depths -/

/-- The depths of the activations, the running one's first. -/
def Config.depths (c : Config σ) : List Nat :=
  c.active.map Activation.depth

/-- A caller that goes on keeps its depth, with or without a result. -/
theorem Config.depths_resumed (s : State σ) (keep : Bool) (caller : Activation) (v : Value)
    (below : List Activation) :
    Config.depths (⟨s, if keep then caller.push v else caller, below⟩ : Config σ) =
      (caller :: below).map Activation.depth := by
  cases keep <;> rfl

/-- The depth of an activation is the number of activations beneath it, and there are no more than
the limit. -/
structure Config.Levelled (limit : Nat) (c : Config σ) : Prop where
  depth_eq : ∀ depth below, depth :: below <:+ c.depths → depth = below.length
  length_le : c.active.length ≤ limit

namespace Config.Levelled

variable {limit : Nat} {c c' : Config σ}

theorem current_depth (h : c.Levelled limit) : c.current.depth = c.callers.length := by
  have hdepth := h.depth_eq c.current.depth (c.callers.map Activation.depth) List.suffix_rfl
  rw [hdepth, List.length_map]

/-- The next call is made with as many activations there as there are now. -/
theorem length_active (h : c.Levelled limit) : c.active.length = c.current.depth + 1 := by
  rw [h.current_depth, Config.active, List.length_cons]

/-- Activations may be taken off the top. -/
theorem of_suffix (h : c.Levelled limit) (hs : c'.depths <:+ c.depths) : c'.Levelled limit where
  depth_eq depth below hb := h.depth_eq depth below (hb.trans hs)
  length_le := by
    have hlength := hs.length_le
    simp only [Config.depths, List.length_map] at hlength
    exact Nat.le_trans hlength h.length_le

end Config.Levelled

namespace Machine

variable {m : Machine σ} {c c' : Config σ}

theorem levelled_of_start {s : State σ} {index : UInt16} {args : List Value}
    (h : m.start s index args = .running c) : c.Levelled m.settings.maxDepth := by
  simp only [start] at h
  split at h
  · rename_i a s' hact
    cases h
    obtain ⟨hpos, callee, frame, -, -, rfl, rfl⟩ := activate_ok_inv hact
    refine ⟨?_, hpos⟩
    intro depth below hb
    obtain ⟨rfl, rfl⟩ : depth = 0 ∧ below = [] := by
      simpa [Config.depths, Config.active, List.suffix_cons_iff] using hb
    rfl
  · cases h

/-- **A move keeps count of the activations.** -/
theorem Move.levelled (h : m.Move c c') (hc : c.Levelled m.settings.maxDepth) :
    c'.Levelled m.settings.maxDepth := by
  cases h with
  | inside stack hn hl hh hnext => exact hc.of_suffix List.suffix_rfl
  | call hn hd hcallee hf =>
    have hcount := hc.length_active
    refine ⟨?_, ?_⟩
    · intro depth below hb
      rcases List.suffix_cons_iff.mp hb with heq | hb
      · -- the callee lies on all the activations that there were
        obtain ⟨rfl, rfl⟩ := List.cons.inj heq
        simpa [Config.active] using hcount.symm
      · exact hc.depth_eq depth below hb
    · simp only [Config.active, List.length_cons] at hcount ⊢
      omega
  | ret hn hcallers =>
    refine hc.of_suffix ?_
    rw [Config.depths_resumed, ← hcallers]
    exact List.suffix_cons _ _
  | @land v f discarded below a target rest hn hh hsplit hd =>
    refine hc.of_suffix ?_
    have hdepths : c.depths = discarded.map Activation.depth ++
        a.depth :: below.map Activation.depth := by
      rw [← List.map_cons, ← List.map_append, ← hsplit]
      rfl
    rw [hdepths]
    exact List.suffix_append _ _
  | enter hn => exact hc.of_suffix List.suffix_rfl
  | leave hn hh => exact hc.of_suffix List.suffix_rfl

/-- **There are never more activations than the limit says.** -/
theorem Reaches.levelled {s : State σ} {index : UInt16} {args : List Value}
    (h : m.Reaches (m.start s index args) (.running c)) : c.Levelled m.settings.maxDepth :=
  h.config_invariant (fun _ hs => levelled_of_start hs) (fun _ _ _ hc hm => hm.levelled hc)

/-! ## 2. When the limit is hit -/

/-- The next instruction is a call, and there are as many activations as the limit says. -/
def CallsAtLimit (m : Machine σ) (c : Config σ) : Prop :=
  (∃ index args keep f, m.next c = .ok (.call index args keep) f) ∧
    c.active.length = m.settings.maxDepth

/-- The next instruction is a native call, and the host raises the given trap. -/
def HostTraps (m : Machine σ) (c : Config σ) (trap : Trap) : Prop :=
  ∃ id args f, m.next c = .ok (.native id args) f ∧
    (m.host.call id args c.state.heap c.state.host).result = .error trap

/-- A call hits the limit only if it is too deep. -/
theorem maxDepth_le_of_activate {s s' : State σ} {index : UInt16} {args : List Value} {keep : Bool}
    {depth n : Nat}
    (h : m.activate s index args keep depth = (.error (.depthExceeded n), s')) :
    m.settings.maxDepth ≤ depth ∧ n = m.settings.maxDepth := by
  rcases Nat.lt_or_ge depth m.settings.maxDepth with hd | hd
  · exfalso
    cases hc : m.program.callee? index with
    | none =>
      rw [activate_of_missing hd hc] at h
      cases h
    | some callee =>
      cases hf : Frame.create callee.code callee.slots args with
      | ok frame =>
        rw [activate_of_create hd hc hf] at h
        cases h
      | error trap =>
        -- code that does not decode raises another trap
        obtain ⟨byte, offset, rfl⟩ := Code.scanFrom_error (Frame.create_error_iff.mp hf)
        rw [activate_of_create_error hd hc hf] at h
        cases h
  · rw [activate_of_tooDeep hd] at h
    cases h
    exact ⟨hd, rfl⟩

/-- **A step hits the limit** exactly when it calls with as many activations there as the limit
says, or the host raises that trap. -/
theorem step_depthExceeded_iff (hc : c.Levelled m.settings.maxDepth) (n : Nat) :
    (∃ s, m.step c = .finished (.trapped (.depthExceeded n)) s) ↔
      m.CallsAtLimit c ∧ n = m.settings.maxDepth ∨ m.HostTraps c (.depthExceeded n) := by
  have hcount := hc.length_active
  constructor
  · rintro ⟨s, hs⟩
    cases ends_of_step hs with
    | instruction hn => cases Frame.advance_isOfInstruction m.literal_error hn
    | call hn hact =>
      obtain ⟨hdeep, rfl⟩ := maxDepth_le_of_activate hact
      have hle := hc.length_le
      exact .inl ⟨⟨⟨_, _, _, _, hn⟩, by omega⟩, rfl⟩
    | native hn hhost => exact .inr ⟨_, _, _, hn, hhost⟩
  · rintro (⟨⟨⟨index, args, keep, f, hn⟩, hlimit⟩, rfl⟩ | ⟨id, args, f, hn, hhost⟩)
    · have hdeep : m.settings.maxDepth ≤ c.current.depth + 1 := by omega
      refine ⟨c.state, ?_⟩
      simp only [step_of_next hn, serve, activate_of_tooDeep hdeep]
    · simp only [step_of_next hn, serve, hhost]
      exact ⟨_, rfl⟩

/-- The first call of an invocation hits the limit exactly when no activation is allowed at all. -/
theorem start_depthExceeded_iff (s : State σ) (index : UInt16) (args : List Value) (n : Nat) :
    (∃ s', m.start s index args = .finished (.trapped (.depthExceeded n)) s') ↔
      m.settings.maxDepth = 0 ∧ n = 0 := by
  constructor
  · rintro ⟨s', h⟩
    obtain ⟨trap, htrap, hact⟩ := start_finished_inv h
    cases htrap
    obtain ⟨hdeep, rfl⟩ := maxDepth_le_of_activate hact
    exact ⟨Nat.le_zero.mp hdeep, Nat.le_zero.mp hdeep⟩
  · rintro ⟨hzero, rfl⟩
    have hact : m.activate { s with handlers := [] } index args true 0 =
        (.error (.depthExceeded m.settings.maxDepth), { s with handlers := [] }) :=
      activate_of_tooDeep (Nat.le_of_eq hzero)
    refine ⟨{ s with handlers := [] }, ?_⟩
    simp only [start, hact, hzero]

/-- So does that of a whole run, if there is an entry method to call. -/
theorem startEntry_depthExceeded_iff (s : State σ) (n : Nat) :
    (∃ s', m.startEntry s = .finished (.trapped (.depthExceeded n)) s') ↔
      m.entry?.isSome ∧ m.settings.maxDepth = 0 ∧ n = 0 := by
  cases hentry : m.entry? with
  | none => simp [startEntry, hentry]
  | some entry =>
    simp only [startEntry, hentry, Option.isSome_some, true_and]
    exact start_depthExceeded_iff _ _ _ n

end Machine

end BytecodeVm
