/- # Serial numbers

Every activation takes the next serial number, so serial numbers grow along the stack of activations
and no handler names an activation that is still to come.  A handler of an activation that is over
can therefore never be taken for that of a later one.

* `Config.Ordered`: serial numbers fall strictly from the running activation downwards, and all of
  them, those that handlers name included, are behind the next one;
* `Machine.Reaches.ordered`: this holds in every configuration of every invocation.
-/
import BytecodeVm.Proofs.Machine.Transition
import Mathlib.Data.List.Nodup

namespace BytecodeVm

variable {σ : Type}

/-- The serial numbers of the activations, the running one's first. -/
def Config.ids (c : Config σ) : List Nat :=
  c.active.map Activation.id

theorem Config.mem_ids {c : Config σ} {a : Activation} (h : a ∈ c.active) : a.id ∈ c.ids :=
  List.mem_map_of_mem h

/-- A caller that goes on keeps its serial number, with or without a result. -/
theorem Config.ids_resumed (s : State σ) (keep : Bool) (caller : Activation) (v : Value)
    (below : List Activation) :
    Config.ids (⟨s, if keep then caller.push v else caller, below⟩ : Config σ) =
      (caller :: below).map Activation.id := by
  cases keep <;> rfl

/-- Where the stack of activations is split, so are the serial numbers. -/
theorem Config.ids_of_split {c : Config σ} {f : Frame} {above below : List Activation}
    {a : Activation} (h : { c.current with frame := f } :: c.callers = above ++ a :: below) :
    c.ids = above.map Activation.id ++ a.id :: below.map Activation.id := by
  rw [← List.map_cons, ← List.map_append, ← h]
  rfl

/-- The order of serial numbers in a configuration. -/
structure Config.Ordered (c : Config σ) : Prop where
  descending : c.ids.Pairwise (· > ·)
  ids_lt : ∀ id ∈ c.ids, id < c.state.nextFrame
  handlers_lt : ∀ h ∈ c.state.handlers, h.frame < c.state.nextFrame

namespace Config.Ordered

/-- Two activations with the same serial number are the same one. -/
theorem eq_of_id_eq {c : Config σ} (h : c.Ordered) {a b : Activation} (ha : a ∈ c.active)
    (hb : b ∈ c.active) (hid : a.id = b.id) : a = b := by
  have hnodup : c.ids.Nodup := h.descending.imp (fun hlt => Nat.ne_of_gt hlt)
  exact List.inj_on_of_nodup_map hnodup ha hb hid

/-- A serial number occurs only once. -/
theorem notMem_of_split {c : Config σ} (h : c.Ordered) {above below : List Nat} {id : Nat}
    (hsplit : c.ids = above ++ id :: below) : id ∉ above ∧ id ∉ below := by
  have hdesc := h.descending
  rw [hsplit, List.pairwise_append, List.pairwise_cons] at hdesc
  obtain ⟨-, ⟨hbelow, -⟩, habove⟩ := hdesc
  exact ⟨fun hm => Nat.lt_irrefl id (habove id hm id List.mem_cons_self),
    fun hm => Nat.lt_irrefl id (hbelow id hm)⟩

/-- The activations that remain when some are taken off the top are still ordered, and so are
handlers that were there before. -/
theorem of_suffix {c c' : Config σ} (h : c.Ordered) (ids : c'.ids <:+ c.ids)
    (handlers : c'.state.handlers ⊆ c.state.handlers)
    (next : c'.state.nextFrame = c.state.nextFrame) : c'.Ordered where
  descending := h.descending.sublist ids.sublist
  ids_lt := by
    intro id hid
    rw [next]
    exact h.ids_lt id (ids.subset hid)
  handlers_lt := by
    intro handler hh
    rw [next]
    exact h.handlers_lt handler (handlers hh)

end Config.Ordered

namespace Machine

/-- An invocation starts with one activation and no handlers. -/
theorem ordered_of_start {m : Machine σ} {s : State σ} {index : UInt16} {args : List Value}
    {c : Config σ} (h : m.start s index args = .running c) : c.Ordered := by
  obtain ⟨callee, frame, -, -, rfl⟩ := start_running_inv h
  refine ⟨List.pairwise_singleton _ _, ?_, ?_⟩
  · intro id hid
    rw [List.mem_singleton.mp hid]
    exact Nat.lt_succ_self _
  · intro handler hh
    cases hh

/-- **A move keeps the order.** -/
theorem Move.ordered {m : Machine σ} {c c' : Config σ} (h : m.Move c c') (hc : c.Ordered) :
    c'.Ordered := by
  cases h with
  | inside stack hn hl hh hnext =>
    exact hc.of_suffix List.suffix_rfl (fun _ hmem => hh ▸ hmem) hnext
  | call hn hd hcallee hf =>
    -- the new serial number is ahead of all the others
    refine ⟨List.pairwise_cons.mpr ⟨?_, hc.descending⟩, ?_, ?_⟩
    · intro id hid
      exact hc.ids_lt id hid
    · intro id hid
      rcases List.mem_cons.mp hid with rfl | hid
      · exact Nat.lt_succ_self _
      · exact Nat.lt_succ_of_lt (hc.ids_lt id hid)
    · intro handler hh
      exact Nat.lt_succ_of_lt (hc.handlers_lt handler hh)
  | @ret v f caller below hn hcallers =>
    refine hc.of_suffix ?_ (fun _ hmem => hmem) rfl
    rw [Config.ids_resumed, ← hcallers]
    exact List.suffix_cons _ _
  | @land v f discarded below a target rest hn hh hsplit hd =>
    refine hc.of_suffix ?_ (fun _ hmem => by rw [hh]; exact List.mem_cons_of_mem _ hmem) rfl
    rw [Config.ids_of_split hsplit]
    exact List.suffix_append _ _
  | @enter target f hn =>
    refine ⟨hc.descending, hc.ids_lt, ?_⟩
    intro handler hh
    rcases List.mem_cons.mp hh with rfl | hh
    · exact hc.ids_lt _ (Config.mem_ids List.mem_cons_self)
    · exact hc.handlers_lt handler hh
  | leave hn hh =>
    exact hc.of_suffix List.suffix_rfl (fun _ hmem => by rw [hh]; exact List.mem_cons_of_mem _ hmem)
      rfl

/-- **Serial numbers are in order throughout an invocation.** -/
theorem Reaches.ordered {m : Machine σ} {s : State σ} {index : UInt16} {args : List Value}
    {c : Config σ} (h : m.Reaches (m.start s index args) (.running c)) : c.Ordered :=
  h.config_invariant (fun _ hs => ordered_of_start hs) (fun _ _ _ hc hm => hm.ordered hc)

end Machine

end BytecodeVm
