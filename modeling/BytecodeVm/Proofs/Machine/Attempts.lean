/- # Attempts as a block structure

Handlers lie on one stack for all activations, while attempts are thought of as blocks of the
activation that entered them.  The two views agree along every run in which an activation returns
only after its attempts are over, and leaves no attempt but its own latest one.

The attempts of each activation are kept in a record of their own, `Attempts`, which is updated as
a run enters, leaves and lands (`Machine.Tracks`).  The invariant is that the handlers are the
attempts of the active activations, from the running one outwards, each with its latest first
(`Structured`).

* `Machine.Tracks.structured`: the invariant along a disciplined run;
* `Structured.lands`: an abort lands in the innermost activation with an attempt, at its latest one;
* `Machine.structured_attempts`: what this means for handlers, aborts and ends.
-/
import BytecodeVm.Proofs.Machine.Serials
import Mathlib.Data.List.Basic
import Mathlib.Logic.Function.Basic

namespace BytecodeVm

variable {σ : Type}

/-! ## 1. The record of attempts -/

/-- The attempts of each activation, by serial number: those that it has entered and that were
neither left nor landed in, the latest first. -/
abbrev Attempts := Nat → List UInt16

namespace Attempts

/-- The handlers of the given activations, each with its attempts. -/
def handlers (opened : Attempts) (ids : List Nat) : List Handler :=
  ids.flatMap fun id => (opened id).map (Handler.mk id)

@[simp] theorem handlers_cons (opened : Attempts) (id : Nat) (ids : List Nat) :
    opened.handlers (id :: ids) = (opened id).map (Handler.mk id) ++ opened.handlers ids :=
  rfl

theorem mem_handlers {opened : Attempts} {ids : List Nat} {h : Handler} :
    h ∈ opened.handlers ids ↔ h.frame ∈ ids ∧ h.target ∈ opened h.frame := by
  simp only [handlers, List.mem_flatMap, List.mem_map]
  constructor
  · rintro ⟨id, hid, target, ht, rfl⟩
    exact ⟨hid, ht⟩
  · rintro ⟨hid, ht⟩
    exact ⟨h.frame, hid, h.target, ht, rfl⟩

/-- What happens to the attempts of one activation does not show in the handlers of others. -/
theorem handlers_update {opened : Attempts} {id : Nat} {ids : List Nat} (h : id ∉ ids)
    (targets : List UInt16) :
    Attempts.handlers (Function.update opened id targets) ids = opened.handlers ids := by
  induction ids with
  | nil => rfl
  | cons i ids ih =>
    have hi : i ≠ id := fun he => h (he ▸ List.mem_cons_self)
    have hids : id ∉ ids := fun hm => h (List.mem_cons_of_mem _ hm)
    rw [handlers_cons, handlers_cons, ih hids, Function.update_of_ne hi]

theorem handlers_update_cons {opened : Attempts} {id : Nat} {ids : List Nat} (h : id ∉ ids)
    (targets : List UInt16) :
    Attempts.handlers (Function.update opened id targets) (id :: ids) =
      targets.map (Handler.mk id) ++ opened.handlers ids := by
  rw [handlers_cons, handlers_update h, Function.update_self]

/-- The first handler is the latest attempt of the first activation that has one. -/
theorem handlers_eq_cons {opened : Attempts} {ids : List Nat} {h : Handler} {rest : List Handler}
    (heq : opened.handlers ids = h :: rest) :
    ∃ above below more, ids = above ++ h.frame :: below ∧ (∀ id ∈ above, opened id = []) ∧
      opened h.frame = h.target :: more ∧
      rest = more.map (Handler.mk h.frame) ++ opened.handlers below := by
  induction ids with
  | nil => cases heq
  | cons id ids ih =>
    rw [handlers_cons] at heq
    cases hid : opened id with
    | nil =>
      rw [hid, List.map_nil, List.nil_append] at heq
      obtain ⟨above, below, more, rfl, hab, hm, hr⟩ := ih heq
      refine ⟨id :: above, below, more, rfl, ?_, hm, hr⟩
      intro i hi
      rcases List.mem_cons.mp hi with rfl | hi
      · exact hid
      · exact hab i hi
    | cons target more =>
      rw [hid, List.map_cons, List.cons_append, List.cons.injEq] at heq
      obtain ⟨rfl, rfl⟩ := heq
      exact ⟨[], ids, more, rfl, by simp, hid, rfl⟩

/-- If the activations are in the order of their serial numbers, so are the owners of their
handlers. -/
theorem pairwise_handlers {opened : Attempts} {ids : List Nat} (h : ids.Pairwise (· > ·)) :
    ((opened.handlers ids).map Handler.frame).Pairwise (· ≥ ·) := by
  induction ids with
  | nil => exact .nil
  | cons id ids ih =>
    obtain ⟨hid, hids⟩ := List.pairwise_cons.mp h
    rw [handlers_cons, List.map_append, List.map_map, List.pairwise_append]
    refine ⟨?_, ih hids, ?_⟩
    · rw [List.pairwise_map]
      exact List.pairwise_of_forall (fun _ _ => Nat.le_refl id)
    · intro i hi j hj
      obtain ⟨target, -, rfl⟩ := List.mem_map.mp hi
      obtain ⟨handler, hh, rfl⟩ := List.mem_map.mp hj
      exact Nat.le_of_lt (hid _ (mem_handlers.mp hh).1)

end Attempts

namespace Machine

/-- The attempts after a step: one more for the running activation when it enters one, one less for
the activation that leaves one, and one less for the activation that an abort lands in. -/
def attemptsAfter (m : Machine σ) (c : Config σ) (opened : Attempts) : Attempts :=
  match m.next c with
  | .ok (.enter target) _ =>
    Function.update opened c.current.id (target :: opened c.current.id)
  | .ok .leave _ => Function.update opened c.current.id (opened c.current.id).tail
  | .ok (.abort _) _ =>
    match m.step c with
    | .running c' => Function.update opened c'.current.id (opened c'.current.id).tail
    | .finished _ _ => opened
  | _ => opened

/-- The configurations that steps lead to, with the attempts on the way there. -/
inductive Tracks (m : Machine σ) (r : StepResult σ) : Config σ → Attempts → Prop
  | start {c : Config σ} : r = .running c → Tracks m r c fun _ => []
  | step {c c' : Config σ} {opened : Attempts} :
      Tracks m r c opened → m.step c = .running c' → Tracks m r c' (m.attemptsAfter c opened)

theorem Tracks.reaches {m : Machine σ} {r : StepResult σ} {c : Config σ} {opened : Attempts}
    (h : m.Tracks r c opened) : m.Reaches r (.running c) := by
  induction h with
  | start hr => rw [hr]; exact .refl _
  | step _ hs ih => rw [← hs]; exact ih.tail

/-- The attempts are known in every configuration of a run. -/
theorem exists_tracks {m : Machine σ} {r : StepResult σ} {c : Config σ}
    (h : m.Reaches r (.running c)) : ∃ opened, m.Tracks r c opened := by
  refine h.running_invariant (P := fun c => ∃ opened, m.Tracks r c opened)
    (fun c hc => ⟨_, .start hc⟩) ?_
  rintro c₁ c' - ⟨opened, ht⟩ hs
  exact ⟨_, .step ht hs⟩

end Machine

/-! ## 2. The invariant -/

/-- Whether a request of the given activation keeps attempts within it: it returns only when it has
no handler, and ends no attempt but its own. -/
def Request.Disciplined (s : State σ) (id : Nat) : Request → Prop
  | ret _ => ¬ s.OwnsSome id
  | leave => s.OwnsLatest id
  | _ => True

/-- The next instruction keeps attempts within the activation that entered them. -/
def Machine.Disciplined (m : Machine σ) (c : Config σ) : Prop :=
  ∀ request f, m.next c = .ok request f → request.Disciplined c.state c.current.id

instance (s : State σ) (id : Nat) : (request : Request) → Decidable (request.Disciplined s id)
  | .ret _ => inferInstanceAs (Decidable (¬ s.OwnsSome id))
  | .leave => inferInstanceAs (Decidable (s.OwnsLatest id))
  | .proceed | .allocate _ | .store .. | .call .. | .native .. | .abort _ | .enter _ =>
    .isTrue trivial

/-- The same condition, computed. -/
def Machine.isDisciplined (m : Machine σ) (c : Config σ) : Bool :=
  match m.next c with
  | .ok request _ => decide (request.Disciplined c.state c.current.id)
  | .error .. => true

theorem Machine.disciplined_of_isDisciplined {m : Machine σ} {c : Config σ}
    (h : m.isDisciplined c = true) : m.Disciplined c := by
  intro request f hn
  simp only [isDisciplined, hn, decide_eq_true_eq] at h
  exact h

/-- **The block structure.**  The handlers are the attempts of the active activations, from the
running one outwards, and an activation that is still to come has none. -/
structure Structured (c : Config σ) (opened : Attempts) : Prop where
  handlers_eq : c.state.handlers = opened.handlers c.ids
  fresh : ∀ id, c.state.nextFrame ≤ id → opened id = []

namespace Structured

variable {c : Config σ} {opened : Attempts}

/-- An activation without a handler has no attempt. -/
theorem opened_eq_nil (h : Structured c opened) {id : Nat} (hid : id ∈ c.ids)
    (hn : ¬ c.state.OwnsSome id) : opened id = [] := by
  cases ho : opened id with
  | nil => rfl
  | cons target more =>
    refine absurd ⟨⟨id, target⟩, ?_, rfl⟩ hn
    rw [h.handlers_eq]
    exact Attempts.mem_handlers.mpr ⟨hid, by rw [ho]; exact List.mem_cons_self⟩

/-- An activation without an attempt has no handler. -/
theorem not_ownsSome (h : Structured c opened) {id : Nat} (ho : opened id = []) :
    ¬ c.state.OwnsSome id := by
  rintro ⟨handler, hh, rfl⟩
  rw [h.handlers_eq] at hh
  have ht := (Attempts.mem_handlers.mp hh).2
  rw [ho] at ht
  cases ht

/-- The owner of a handler is active. -/
theorem owner_active (h : Structured c opened) {handler : Handler}
    (hh : handler ∈ c.state.handlers) : ∃ a ∈ c.active, a.id = handler.frame := by
  rw [h.handlers_eq] at hh
  exact List.mem_map.mp (Attempts.mem_handlers.mp hh).1

/-- When no activation has a handler, there is none. -/
theorem handlers_eq_nil (h : Structured c opened)
    (hn : ∀ a ∈ c.active, ¬ c.state.OwnsSome a.id) : c.state.handlers = [] := by
  cases hs : c.state.handlers with
  | nil => rfl
  | cons handler rest =>
    have hmem : handler ∈ c.state.handlers := by rw [hs]; exact List.mem_cons_self
    obtain ⟨a, ha, hid⟩ := h.owner_active hmem
    exact absurd ⟨handler, hmem, hid.symm⟩ (hn a ha)

/-- If the latest handler belongs to an activation, those above it have no attempts, and the handler
is the latest attempt of that activation. -/
theorem of_latest (h : Structured c opened) (hc : c.Ordered) {id : Nat} {target : UInt16}
    {rest : List Handler} {above below : List Nat}
    (hh : c.state.handlers = ⟨id, target⟩ :: rest) (hsplit : c.ids = above ++ id :: below) :
    (∀ i ∈ above, opened i = []) ∧ ∃ more, opened id = target :: more ∧
      rest = more.map (Handler.mk id) ++ opened.handlers below := by
  rw [h.handlers_eq] at hh
  obtain ⟨above', below', more, hsplit', hnone, ho, hr⟩ := Attempts.handlers_eq_cons hh
  -- a serial number occurs once, so the two ways to split the stack at it are the same
  obtain ⟨hna, hnb⟩ := hc.notMem_of_split hsplit
  obtain ⟨rfl, -, rfl⟩ := (List.append_cons_inj_of_notMem hna hnb).mp (hsplit.symm.trans hsplit')
  exact ⟨hnone, more, ho, hr⟩

end Structured

/-- An invocation starts without handlers and without attempts. -/
theorem Machine.structured_of_start {m : Machine σ} {s : State σ} {index : UInt16}
    {args : List Value} {c : Config σ} (h : m.start s index args = .running c) :
    Structured c fun _ => [] := by
  obtain ⟨callee, frame, -, -, rfl⟩ := start_running_inv h
  exact ⟨rfl, fun _ _ => rfl⟩

namespace Structured

variable {m : Machine σ} {c c' : Config σ} {opened : Attempts}

/-- Activations without attempts come and go without a trace in the handlers. -/
theorem unchanged (h : Structured c opened)
    (handlers : c'.state.handlers = c.state.handlers)
    (ids : opened.handlers c'.ids = opened.handlers c.ids)
    (next : c.state.nextFrame ≤ c'.state.nextFrame) : Structured c' opened where
  handlers_eq := by rw [handlers, h.handlers_eq, ids]
  fresh := fun id hid => h.fresh id (Nat.le_trans next hid)

/-- The attempts of the activation that is on top afterwards are replaced by others. -/
theorem updated (h : Structured c opened) {id : Nat} {below : List Nat} {targets : List UInt16}
    (ids : c'.ids = id :: below) (notBelow : id ∉ below) (lt : id < c.state.nextFrame)
    (next : c'.state.nextFrame = c.state.nextFrame)
    (handlers : c'.state.handlers = targets.map (Handler.mk id) ++ opened.handlers below) :
    Structured c' (Function.update opened id targets) where
  handlers_eq := by rw [ids, Attempts.handlers_update_cons notBelow, handlers]
  fresh := by
    intro i hi
    rw [next] at hi
    rw [Function.update_of_ne (Nat.ne_of_gt (Nat.lt_of_lt_of_le lt hi)), h.fresh i hi]

/-- **A disciplined step keeps the block structure.** -/
theorem step (h : Structured c opened) (hc : c.Ordered) (hd : m.Disciplined c)
    (hs : m.step c = .running c') : Structured c' (m.attemptsAfter c opened) := by
  have hids : c.ids = [] ++ c.current.id :: c.callers.map Activation.id := rfl
  have hcurrent : c.current.id ∈ c.ids := Config.mem_ids List.mem_cons_self
  have hbelow : c.current.id ∉ c.callers.map Activation.id := (hc.notMem_of_split hids).2
  cases Machine.move_of_step hs with
  | @inside request f s stack hn hl hh hnext =>
    have hafter : m.attemptsAfter c opened = opened := by
      simp only [Machine.attemptsAfter, hn]
      cases request <;> first | rfl | cases hl
    rw [hafter]
    exact h.unchanged hh rfl (Nat.le_of_eq hnext.symm)
  | call hn hdepth hcallee hf =>
    have hafter : m.attemptsAfter c opened = opened := by
      simp only [Machine.attemptsAfter, hn]
    have hnone : opened c.state.nextFrame = [] := h.fresh _ (Nat.le_refl _)
    rw [hafter]
    refine h.unchanged rfl ?_ (Nat.le_succ _)
    -- the new activation has no attempts yet
    calc opened.handlers (c.state.nextFrame :: c.ids)
        = [] ++ opened.handlers c.ids := by rw [Attempts.handlers_cons, hnone]; rfl
      _ = opened.handlers c.ids := List.nil_append _
  | @ret v f caller below hn hcallers =>
    have hafter : m.attemptsAfter c opened = opened := by
      simp only [Machine.attemptsAfter, hn]
    have hnone : opened c.current.id = [] := h.opened_eq_nil hcurrent (hd _ _ hn)
    rw [hafter]
    refine h.unchanged rfl ?_ (Nat.le_refl _)
    -- the activation that is over has no attempts left
    rw [Config.ids_resumed, ← hcallers, hids, List.nil_append, Attempts.handlers_cons, hnone]
    rfl
  | @land v f discarded below a target rest hn hh hsplit hnot =>
    have hids' := Config.ids_of_split hsplit
    have hafter : m.attemptsAfter c opened = Function.update opened a.id (opened a.id).tail := by
      simp only [Machine.attemptsAfter, hn, hs]
      rfl
    obtain ⟨-, more, ho, hr⟩ := h.of_latest hc hh hids'
    have hlt : a.id < c.state.nextFrame := hc.ids_lt a.id (by rw [hids']; simp)
    rw [hafter, ho]
    exact h.updated rfl (hc.notMem_of_split hids').2 hlt rfl hr
  | @enter target f hn =>
    have hafter : m.attemptsAfter c opened =
        Function.update opened c.current.id (target :: opened c.current.id) := by
      simp only [Machine.attemptsAfter, hn]
    rw [hafter]
    refine h.updated hids hbelow (hc.ids_lt _ hcurrent) rfl ?_
    calc (⟨c.current.id, target⟩ :: c.state.handlers : List Handler)
        = ⟨c.current.id, target⟩ :: opened.handlers c.ids := by rw [h.handlers_eq]
      _ = (target :: opened c.current.id).map (Handler.mk c.current.id) ++
          opened.handlers (c.callers.map Activation.id) := by rw [hids]; rfl
  | @leave handler rest f hn hh =>
    have hafter : m.attemptsAfter c opened =
        Function.update opened c.current.id (opened c.current.id).tail := by
      simp only [Machine.attemptsAfter, hn]
    have hown : c.state.handlers = ⟨c.current.id, handler.target⟩ :: rest := by
      obtain ⟨h', hh', hid⟩ := hd _ _ hn
      rw [hh] at hh'
      obtain rfl : handler = h' := by simpa using hh'
      rw [hh, ← hid]
    obtain ⟨-, more, ho, hr⟩ := h.of_latest hc hown hids
    rw [hafter, ho]
    exact h.updated hids hbelow (hc.ids_lt _ hcurrent) rfl hr

end Structured

/-- **The block structure of a disciplined run.** -/
theorem Machine.Tracks.structured {m : Machine σ} {s : State σ} {index : UInt16}
    {args : List Value} {c : Config σ} {opened : Attempts}
    (h : m.Tracks (m.start s index args) c opened)
    (hd : ∀ c, m.Reaches (m.start s index args) (.running c) → m.Disciplined c) :
    Structured c opened := by
  induction h with
  | start hs => exact structured_of_start hs
  | step ht hs ih => exact ih.step ht.reaches.ordered (hd _ ht.reaches) hs

/-! ## 3. Aborts and ends -/

namespace Structured

variable {m : Machine σ} {c : Config σ} {opened : Attempts}

/-- **An abort lands in the innermost activation with an attempt**, at its latest one; what it
discards has no attempts. -/
theorem lands (h : Structured c opened) (hc : c.Ordered) {v : Value} {f : Frame}
    (hn : m.next c = .ok (.abort v) f) (hown : ∃ a ∈ c.active, c.state.OwnsSome a.id) :
    ∃ discarded a below target more,
      { c.current with frame := f } :: c.callers = discarded ++ a :: below ∧
      (∀ d ∈ discarded, ¬ c.state.OwnsSome d.id) ∧ opened a.id = target :: more ∧
      ∃ s, m.step c = .running
          { state := s, callers := below
            current := { a with
              frame := { a.frame with ip := target.toNat, stack := v :: a.frame.stack } } } ∧
        s.handlers = c.state.handlers.tail := by
  have hstep := Machine.step_of_next hn
  simp only [Machine.serve] at hstep
  rcases Machine.unwind_cases v (c.state.log (.aborted c.current.id (c.state.heap.render v)))
    { c.current with frame := f } c.callers with
    ⟨discarded, a, below, target, rest, hh, hsplit, -, hu⟩ | ⟨hnone, -⟩
  · have hh' : c.state.handlers = ⟨a.id, target⟩ :: rest := hh
    obtain ⟨habove, more, ho, -⟩ := h.of_latest hc hh' (Config.ids_of_split hsplit)
    refine ⟨discarded, a, below, target, more, hsplit, ?_, ho, _, hstep.trans hu, ?_⟩
    · intro d hd
      exact h.not_ownsSome (habove d.id (List.mem_map_of_mem hd))
    · rw [hh', List.tail_cons]
  · -- the latest handler belongs to some active activation, so the search cannot fail
    exfalso
    obtain ⟨a, -, handler, hmem, -⟩ := hown
    cases hs : c.state.handlers with
    | nil => rw [hs] at hmem; cases hmem
    | cons latest rest =>
      have hfirst : latest ∈ c.state.handlers := by rw [hs]; exact List.mem_cons_self
      have hlatest : latest ∈ c.state.handlers.head? := by rw [hs]; rfl
      obtain ⟨b, hb, hid⟩ := h.owner_active hfirst
      rcases List.mem_cons.mp hb with rfl | hb
      · exact hnone latest hlatest { c.current with frame := f } List.mem_cons_self hid.symm
      · exact hnone latest hlatest b (List.mem_cons_of_mem _ hb) hid.symm

/-- An invocation is unwound only when no activation has an attempt left. -/
theorem not_ownsSome_of_unwound (h : Structured c opened) (hc : c.Ordered) {v : Value}
    {s : State σ} (hs : m.step c = .finished (.unwound v) s) :
    (∀ a ∈ c.active, ¬ c.state.OwnsSome a.id) ∧ s.handlers = c.state.handlers := by
  cases Machine.ends_of_step hs with
  | unwound hn hnone =>
    refine ⟨fun a ha hown => ?_, rfl⟩
    obtain ⟨_, _, _, _, _, -, -, -, s', hs', -⟩ := h.lands hc hn ⟨a, ha, hown⟩
    rw [hs] at hs'
    cases hs'

/-- **An invocation that completes leaves no handler behind.** -/
theorem handlers_eq_nil_of_finished (h : Structured c opened) (hc : c.Ordered)
    (hd : m.Disciplined c) {o : Outcome} {s : State σ} (hs : m.step c = .finished o s)
    (ho : ∀ trap, o ≠ .trapped trap) : s.handlers = [] := by
  cases o with
  | trapped trap => exact absurd rfl (ho trap)
  | unwound v =>
    obtain ⟨hnone, heq⟩ := h.not_ownsSome_of_unwound hc hs
    rw [heq]
    exact h.handlers_eq_nil hnone
  | returned v =>
    cases Machine.ends_of_step hs with
    | returned hn hcallers =>
      refine h.handlers_eq_nil ?_
      intro a ha
      rw [Config.active, hcallers, List.mem_singleton] at ha
      rw [ha]
      exact hd _ _ hn

end Structured

namespace Machine

/-- **Attempts are blocks.**  Take an invocation along which no activation returns while it has a
handler, and no activation ends an attempt but its own latest one.  In each of its configurations:

* every handler belongs to an active activation, and from the latest handler to the first their
  owners are in the order of the activations, from the running one outwards;
* an abort, if any activation has a handler, lands in the innermost one that has, at the latest
  attempt that it entered and that was neither left nor landed in, and what it discards has none;
* the invocation is unwound only if no activation has a handler.

An invocation that completes, by a return or unwound, leaves no handler behind. -/
theorem structured_attempts (m : Machine σ) (s : State σ) (index : UInt16) (args : List Value)
    (hd : ∀ c, m.Reaches (m.start s index args) (.running c) → m.Disciplined c) :
    (∀ c, m.Reaches (m.start s index args) (.running c) →
      ∃ opened, m.Tracks (m.start s index args) c opened) ∧
    (∀ c opened, m.Tracks (m.start s index args) c opened →
      (∀ h ∈ c.state.handlers, ∃ a ∈ c.active, a.id = h.frame) ∧
      (c.ids.Pairwise (· > ·) ∧ (c.state.handlers.map Handler.frame).Pairwise (· ≥ ·)) ∧
      (∀ v f, m.next c = .ok (.abort v) f → (∃ a ∈ c.active, c.state.OwnsSome a.id) →
        ∃ discarded a below target more,
          { c.current with frame := f } :: c.callers = discarded ++ a :: below ∧
          (∀ d ∈ discarded, ¬ c.state.OwnsSome d.id) ∧ opened a.id = target :: more ∧
          ∃ s', m.step c = .running
              { state := s', callers := below
                current := { a with
                  frame := { a.frame with ip := target.toNat, stack := v :: a.frame.stack } } } ∧
            s'.handlers = c.state.handlers.tail) ∧
      (∀ v s', m.step c = .finished (.unwound v) s' →
        ∀ a ∈ c.active, ¬ c.state.OwnsSome a.id)) ∧
    (∀ fuel o s', m.invoke fuel s index args = some (o, s') → (∀ trap, o ≠ .trapped trap) →
      s'.handlers = []) := by
  refine ⟨fun c hc => exists_tracks hc, ?_, ?_⟩
  · intro c opened ht
    have hs : Structured c opened := ht.structured hd
    have hc : c.Ordered := ht.reaches.ordered
    refine ⟨fun h hh => hs.owner_active hh, ⟨hc.descending, ?_⟩, fun v f hn hown => ?_, ?_⟩
    · rw [hs.handlers_eq]
      exact Attempts.pairwise_handlers hc.descending
    · exact hs.lands hc hn hown
    · intro v s' hstep
      exact (hs.not_ownsSome_of_unwound hc hstep).1
  · intro fuel o s' hinv ho
    have hreach := (exists_invoke_iff m s s' index args o).mp ⟨fuel, hinv⟩
    rcases hreach.finished_cases with hstart | ⟨c, hc, hstep⟩
    · obtain ⟨trap, rfl, -⟩ := start_finished_inv hstart
      exact absurd rfl (ho trap)
    · obtain ⟨opened, ht⟩ := exists_tracks hc
      exact (ht.structured hd).handlers_eq_nil_of_finished hc.ordered (hd c hc) hstep ho

/-- A method that attempts a call, and a callee that aborts in an attempt of its own, lands there and
aborts again with the value that it landed with. -/
def nestedAttempts : Machine Unit :=
  .ofBodies
    [ ⟨0, 0, (Instr.assemble [.enterAttempt 10, .call 1 0, .leaveAttempt, .ret, .ret]).toArray⟩,
      ⟨1, 0, (Instr.assemble [.enterAttempt 5, .loadTrue, .abort, .abort]).toArray⟩ ]

/-- Its run is disciplined, so its handlers are gone when it returns what was aborted with. -/
theorem nestedAttempts_handlers :
    ∃ s, nestedAttempts.invoke 20 (State.initial ()) 0 [] = some (.returned (.bool true), s) ∧
      s.handlers = [] := by
  have hd : ∀ c, nestedAttempts.Reaches (nestedAttempts.start (State.initial ()) 0 [])
      (.running c) → nestedAttempts.Disciplined c := by
    have hall : nestedAttempts.everywhere nestedAttempts.isDisciplined 20
        (nestedAttempts.start (State.initial ()) 0 []) = true := by decide +kernel
    exact fun c hc => disciplined_of_isDisciplined (of_everywhere hall hc)
  have hfst : (nestedAttempts.invoke 20 (State.initial ()) 0 []).map Prod.fst =
      some (.returned (.bool true)) := by decide +kernel
  obtain ⟨⟨o, s⟩, hinv, rfl⟩ := Option.map_eq_some_iff.mp hfst
  exact ⟨s, hinv, (structured_attempts nestedAttempts (State.initial ()) 0 [] hd).2.2 20 _ s hinv
    (by simp)⟩

end Machine

end BytecodeVm
