/- # What a program can do to the heap

A program that runs on the console is given the heap with everything on it, but it gets at the heap
only through the references that it holds.  It starts with its arguments, and from an object it gets
at what is in the fields.  There is no instruction for arrays, so what lies behind an array is out
of reach, and the natives of the console neither touch the heap nor give references back.

* `Heap.Reachable`: what can be got at from the arguments;
* `Heap.Confined`: what may have become of a heap;
* `Heap.Granted`, `Heap.Sealed`: the values that a program may hold, and the invariant of its heap;
* `Machine.step_sealed`: a step keeps the invariant;
* `Machine.invoke_confined`: invocations are confined, however they end.
-/
import BytecodeVm.Console.Natives
import BytecodeVm.Proofs.Frame.Values
import BytecodeVm.Proofs.Machine.Recursive

namespace BytecodeVm

variable {σ : Type}

/-! ## 1. Objects and their fields -/

theorem Fields.get?_insert (fields : Fields) (i j : UInt16) (v : Value) :
    get? (insert fields i v) j = if i = j then some v else get? fields j := by
  induction fields with
  | nil => rfl
  | cons head rest ih =>
    obtain ⟨k, w⟩ := head
    simp only [insert]
    split
    · rename_i hik
      subst hik
      simp only [get?]
      split <;> rfl
    · split
      · rfl
      · rename_i hik hlt
        simp only [get?, ih]
        split
        · rename_i hkj
          rw [if_neg fun hij => hik (hij.trans hkj.symm)]
        · rfl

namespace Heap

theorem object_allocate (h : Heap) (type : UInt16) (place : Nat) :
    (h.allocate type).object place =
      if place = h.nextObject then ⟨type, []⟩ else h.object place := by
  simp only [object, allocate, nextObject, Array.getElem?_push]
  by_cases hplace : place = h.objects.size
  · simp [hplace]
  · simp [hplace]

theorem object_setField (h : Heap) (target place : Nat) (i : UInt16) (v : Value) :
    (h.setField target i v).object place =
      if place = target ∧ target < h.nextObject then (h.object place).setField i v
      else h.object place := by
  simp only [object, setField, nextObject, Array.getElem?_modify]
  by_cases hplace : target = place
  · subst hplace
    by_cases hlt : target < h.objects.size
    · simp [hlt]
    · simp [hlt]
  · simp [hplace, Ne.symm hplace]

@[simp] theorem nextObject_allocate (h : Heap) (type : UInt16) :
    (h.allocate type).nextObject = h.nextObject + 1 :=
  Array.size_push _

@[simp] theorem nextObject_setField (h : Heap) (target : Nat) (i : UInt16) (v : Value) :
    (h.setField target i v).nextObject = h.nextObject :=
  Array.size_modify

/-! ## 2. Within reach -/

/-- What can be got at from the given values: they themselves, and what is in the fields of an
object that can be got at.  What lies in an array cannot. -/
inductive Reachable (h : Heap) (roots : List Value) : Value → Prop
  | root {v : Value} : v ∈ roots → Reachable h roots v
  | field {place : Nat} {i : UInt16} {v : Value} : Reachable h roots (.object place) →
      Fields.get? (h.object place).fields i = some v → Reachable h roots v

/-- What may have become of the heap `h₀` when a program was given some values on it: arrays are as
they were, objects have their types and at least the fields that they had, and an object that cannot
be got at is as it was. -/
structure Confined (h₀ : Heap) (roots : List Value) (h : Heap) : Prop where
  arrays : h.arrays = h₀.arrays
  nextObject_le : h₀.nextObject ≤ h.nextObject
  type : ∀ place < h₀.nextObject, (h.object place).type = (h₀.object place).type
  fields : ∀ place < h₀.nextObject, ∀ i, (Fields.get? (h₀.object place).fields i).isSome →
    (Fields.get? (h.object place).fields i).isSome
  unreached : ∀ place < h₀.nextObject, ¬ h₀.Reachable roots (.object place) →
    h.object place = h₀.object place

/-- The values that a program may hold while the heap is `h`: those that could be got at from the
start, references to objects that are new since, and all that are no references. -/
inductive Granted (h₀ : Heap) (roots : List Value) (h : Heap) : Value → Prop
  | plain {v : Value} : v.isReference = false → Granted h₀ roots h v
  | reachable {v : Value} : h₀.Reachable roots v → Granted h₀ roots h v
  | new {place : Nat} : h₀.nextObject ≤ place → place < h.nextObject →
      Granted h₀ roots h (.object place)

/-- The heap is confined, and from what a program may hold it gets at nothing else. -/
structure Sealed (h₀ : Heap) (roots : List Value) (h : Heap) : Prop where
  confined : h₀.Confined roots h
  closed : h.Closed (h₀.Granted roots h)

variable {h₀ h h' : Heap} {roots : List Value}

theorem Granted.mono {v : Value} (hv : h₀.Granted roots h v) (hle : h.nextObject ≤ h'.nextObject) :
    h₀.Granted roots h' v := by
  cases hv with
  | plain hv => exact .plain hv
  | reachable hv => exact .reachable hv
  | new hge hlt => exact .new hge (Nat.lt_of_lt_of_le hlt hle)

/-- An object that may be held, but was there before, could be got at from the start. -/
theorem Granted.reachable_of_lt {place : Nat} (hv : h₀.Granted roots h (.object place))
    (hlt : place < h₀.nextObject) : h₀.Reachable roots (.object place) := by
  cases hv with
  | plain hv => cases hv
  | reachable hv => exact hv
  | new hge _ => exact absurd hlt (Nat.not_lt.mpr hge)

namespace Sealed

protected theorem refl (h₀ : Heap) (roots : List Value) : h₀.Sealed roots h₀ where
  confined := ⟨rfl, Nat.le_refl _, fun _ _ => rfl, fun _ _ _ hi => hi, fun _ _ _ => rfl⟩
  closed := by
    refine ⟨fun v hv => .plain hv, ?_⟩
    intro place i v hplace hget
    cases hplace with
    | plain hv => cases hv
    | reachable hv => exact .reachable (.field hv hget)
    | new hge hlt => exact absurd hlt (Nat.not_lt.mpr hge)

/-- A new object has no fields yet. -/
theorem allocate (hs : h₀.Sealed roots h) (type : UInt16) :
    h₀.Sealed roots (h.allocate type) where
  confined := by
    have hold : ∀ place < h₀.nextObject, (h.allocate type).object place = h.object place := by
      intro place hplace
      rw [object_allocate, if_neg]
      exact Nat.ne_of_lt (Nat.lt_of_lt_of_le hplace hs.confined.nextObject_le)
    refine ⟨hs.confined.arrays, ?_, ?_, ?_, ?_⟩
    · rw [nextObject_allocate]
      exact Nat.le_succ_of_le hs.confined.nextObject_le
    · intro place hplace
      rw [hold place hplace]
      exact hs.confined.type place hplace
    · intro place hplace
      rw [hold place hplace]
      exact hs.confined.fields place hplace
    · intro place hplace
      rw [hold place hplace]
      exact hs.confined.unreached place hplace
  closed := by
    refine ⟨fun v hv => .plain hv, ?_⟩
    intro place i v hplace hget
    rw [object_allocate] at hget
    split at hget
    · cases hget
    · rename_i hne
      have hgranted : h₀.Granted roots h (.object place) := by
        cases hplace with
        | plain hv => cases hv
        | reachable hv => exact .reachable hv
        | new hge hlt =>
          rw [nextObject_allocate] at hlt
          exact .new hge (by omega)
      exact (hs.closed.field place i v hgranted hget).mono (by rw [nextObject_allocate]; omega)

/-- A field may be set to what may be held, on an object that may be held. -/
theorem setField (hs : h₀.Sealed roots h) {target : Nat} {v : Value} (i : UInt16)
    (htarget : h₀.Granted roots h (.object target)) (hv : h₀.Granted roots h v) :
    h₀.Sealed roots (h.setField target i v) where
  confined := by
    refine ⟨hs.confined.arrays, ?_, ?_, ?_, ?_⟩
    · rw [nextObject_setField]
      exact hs.confined.nextObject_le
    · intro place hplace
      rw [object_setField, ← hs.confined.type place hplace]
      split <;> rfl
    · intro place hplace j hj
      have hold := hs.confined.fields place hplace j hj
      rw [object_setField]
      split
      · simp only [Object.setField, Fields.get?_insert]
        split
        · rfl
        · exact hold
      · exact hold
    · intro place hplace hunreached
      rw [object_setField, if_neg, hs.confined.unreached place hplace hunreached]
      rintro ⟨rfl, -⟩
      exact hunreached (htarget.reachable_of_lt hplace)
  closed := by
    refine ⟨fun w hw => .plain hw, ?_⟩
    intro place j w hplace hget
    have hle : h.nextObject ≤ (h.setField target i v).nextObject :=
      Nat.le_of_eq (nextObject_setField h target i v).symm
    have hge : (h.setField target i v).nextObject ≤ h.nextObject :=
      Nat.le_of_eq (nextObject_setField h target i v)
    have hfield : Fields.get? (h.object place).fields j = some w →
        h₀.Granted roots (h.setField target i v) w :=
      fun hget => (hs.closed.field place j w (hplace.mono hge) hget).mono hle
    rw [object_setField] at hget
    split at hget
    · simp only [Object.setField, Fields.get?_insert] at hget
      split at hget
      · cases hget
        exact hv.mono hle
      · exact hfield hget
    · exact hfield hget

end Sealed

end Heap

/-! ## 3. Steps -/

/-- The value of an outcome, if it has one, is of the given sort. -/
def Outcome.Holds (P : Value → Prop) : Outcome → Prop
  | returned v => P v
  | unwound v => P v
  | trapped _ => True

/-- The heap is sealed, and all activations hold only what they may. -/
structure Config.Sealed (h₀ : Heap) (roots : List Value) (c : Config σ) : Prop where
  heap : h₀.Sealed roots c.state.heap
  frames : ∀ a ∈ c.active, a.frame.Holds (h₀.Granted roots c.state.heap)

/-- The same, also of the end of a run. -/
inductive StepResult.Sealed (h₀ : Heap) (roots : List Value) : StepResult σ → Prop
  | running {c : Config σ} : c.Sealed h₀ roots → Sealed h₀ roots (.running c)
  | finished {o : Outcome} {s : State σ} : h₀.Sealed roots s.heap →
      o.Holds (h₀.Granted roots s.heap) → Sealed h₀ roots (.finished o s)

/-- The natives of the host leave the heap alone, and give no references back. -/
structure Host.Detached (host : Host σ) : Prop where
  heap : ∀ id args heap s, (host.call id args heap s).heap = heap
  result : ∀ id args heap s v, (host.call id args heap s).result = .ok v → v.isReference = false

namespace Machine

variable {m : Machine σ} {h₀ : Heap} {roots : List Value} {s : State σ}

theorem isReference_literal {index : UInt16} {v : Value} (h : m.literal index = .ok v) :
    v.isReference = false := by
  simp only [literal, m.literals_eq, Array.getElem?_map] at h
  cases hc : m.program.constants[index.toNat]? with
  | none =>
    rw [hc] at h
    cases h
  | some c =>
    rw [hc] at h
    cases h
    exact c.isReference_literal

theorem activate_heap (m : Machine σ) (s : State σ) (index : UInt16) (args : List Value)
    (keep : Bool) (depth : Nat) : (m.activate s index args keep depth).2.heap = s.heap := by
  unfold activate
  split
  · rfl
  · split
    · rfl
    · dsimp only
      split <;> rfl

/-- A call hands its arguments to the callee. -/
theorem dispatch_sealed {args : List Value} {callers : List Activation}
    (hs : h₀.Sealed roots s.heap) (hargs : ∀ v ∈ args, h₀.Granted roots s.heap v)
    (hcallers : ∀ a ∈ callers, a.frame.Holds (h₀.Granted roots s.heap)) (index : UInt16)
    (keep : Bool) (depth : Nat) :
    (m.dispatch s index args keep depth callers).Sealed h₀ roots := by
  have hheap := m.activate_heap s index args keep depth
  simp only [dispatch]
  split
  · rename_i a s' hact
    rw [hact] at hheap
    obtain ⟨-, callee, frame, -, hf, rfl, -⟩ := activate_ok_inv hact
    refine .running ⟨?_, ?_⟩
    · rw [hheap]
      exact hs
    · rw [hheap]
      exact List.forall_mem_cons.mpr ⟨.of_create (.plain rfl) hargs hf, hcallers⟩
  · rename_i trap s' hact
    rw [hact] at hheap
    refine .finished ?_ trivial
    rw [hheap]
    exact hs

/-- An abort hands its value to the activation that lands it, or out of the run. -/
theorem unwind_sealed {v : Value} {a : Activation} {callers : List Activation}
    (hs : h₀.Sealed roots s.heap) (hv : h₀.Granted roots s.heap v)
    (hframes : ∀ b ∈ a :: callers, b.frame.Holds (h₀.Granted roots s.heap)) :
    (unwind v s a callers).Sealed h₀ roots := by
  rcases unwind_cases v s a callers with
    ⟨discarded, b, below, target, rest, -, hsplit, -, hu⟩ | ⟨-, hu⟩
  · rw [hu]
    rw [hsplit] at hframes
    obtain ⟨hb, hbelow⟩ := List.forall_mem_cons.mp
      fun d hd => hframes d (List.mem_append_right discarded hd)
    have hland : (b.land v target).frame.Holds (h₀.Granted roots s.heap) :=
      ⟨hb.locals, (hb.push hv).stack⟩
    exact .running ⟨hs, List.forall_mem_cons.mpr ⟨hland, hbelow⟩⟩
  · rw [hu]
    exact .finished hs hv

/-- Serving a request keeps the heap sealed. -/
theorem serve_sealed (hhost : m.host.Detached) {a : Activation} {callers : List Activation}
    {request : Request} (hs : h₀.Sealed roots s.heap)
    (hframes : ∀ b ∈ a :: callers, b.frame.Holds (h₀.Granted roots s.heap))
    (hrequest : request.Holds (h₀.Granted roots s.heap)) :
    (m.serve s a callers request).Sealed h₀ roots := by
  obtain ⟨ha, hcallers⟩ := List.forall_mem_cons.mp hframes
  cases request with
  | proceed => exact .running ⟨hs, hframes⟩
  | allocate type =>
    have hle : s.heap.nextObject ≤ (s.heap.allocate type).nextObject := by
      rw [Heap.nextObject_allocate]
      exact Nat.le_succ _
    have hnew : h₀.Granted roots (s.heap.allocate type) (.object s.heap.nextObject) := by
      refine .new hs.confined.nextObject_le ?_
      rw [Heap.nextObject_allocate]
      exact Nat.lt_succ_self _
    refine .running ⟨hs.allocate type, List.forall_mem_cons.mpr ⟨?_, ?_⟩⟩
    · exact (ha.mono fun v hv => hv.mono hle).push hnew
    · exact fun b hb => (hcallers b hb).mono fun v hv => hv.mono hle
  | store place field v =>
    have hle : s.heap.nextObject ≤ (s.heap.setField place field v).nextObject :=
      Nat.le_of_eq (Heap.nextObject_setField _ _ _ _).symm
    refine .running ⟨hs.setField field hrequest.1 hrequest.2, ?_⟩
    exact fun b hb => (hframes b hb).mono fun v hv => hv.mono hle
  | call index args keep =>
    rw [serve_call]
    exact dispatch_sealed hs hrequest hframes index keep _
  | native id args =>
    have hheap := hhost.heap id args s.heap s.host
    simp only [serve]
    split
    · rename_i v hv
      refine .running ⟨?_, ?_⟩
      · rw [hheap]
        exact hs
      · rw [hheap]
        have hgranted : h₀.Granted roots s.heap v :=
          .plain (hhost.result id args s.heap s.host v hv)
        exact List.forall_mem_cons.mpr ⟨ha.push hgranted, hcallers⟩
    · refine .finished ?_ trivial
      rw [hheap]
      exact hs
  | ret v =>
    simp only [serve]
    split
    · exact .finished hs hrequest
    · rename_i caller below
      obtain ⟨hcaller, hbelow⟩ := List.forall_mem_cons.mp hcallers
      refine .running ⟨hs, List.forall_mem_cons.mpr ⟨?_, hbelow⟩⟩
      split
      · exact hcaller.push hrequest
      · exact hcaller
  | abort v => exact unwind_sealed hs hrequest hframes
  | enter target => exact .running ⟨hs, hframes⟩
  | leave =>
    simp only [serve]
    split
    · exact .running ⟨hs, hframes⟩
    · exact .finished hs trivial

/-- **A step keeps the heap sealed.** -/
theorem step_sealed (hhost : m.host.Detached) {c : Config σ} (hc : c.Sealed h₀ roots) :
    (m.step c).Sealed h₀ roots := by
  obtain ⟨hcurrent, hcallers⟩ := List.forall_mem_cons.mp hc.frames
  cases hn : m.next c with
  | error trap f =>
    rw [step_of_next_error hn]
    exact .finished hc.heap trivial
  | ok request f =>
    rw [step_of_next hn]
    obtain ⟨hf, hrequest⟩ :=
      Frame.advance_holds hc.heap.closed (fun _ _ => m.isReference_literal) hcurrent hn
    exact serve_sealed hhost hc.heap (List.forall_mem_cons.mpr ⟨hf, hcallers⟩) hrequest

/-- An invocation starts with its arguments on a heap as it is. -/
theorem start_sealed (m : Machine σ) (s : State σ) (index : UInt16) (args : List Value) :
    (m.start s index args).Sealed s.heap args := by
  rw [start_eq_dispatch]
  exact dispatch_sealed (s := { s with handlers := [] }) (.refl s.heap args)
    (fun v hv => .reachable (.root hv)) (fun _ ha => absurd ha List.not_mem_nil) index true 0

/-- **A run keeps the heap sealed**, up to its end. -/
theorem Reaches.sealed (hhost : m.host.Detached) {r r' : StepResult σ} (h : m.Reaches r r')
    (hr : r.Sealed h₀ roots) : r'.Sealed h₀ roots := by
  refine h.invariant hr ?_
  rintro c (hc | -)
  exact step_sealed hhost hc

end Machine

/-! ## 4. The console -/

namespace Console

/-- What a function of the console gives back is null, a text or a number. -/
theorem isReference_of_perform? {heap : Heap} {native : Native} {args : List Value}
    {action : OnConsole Value} {c c' : Console} {v : Value}
    (haction : perform? heap native args = some action) (h : action c = .ok v c') :
    v.isReference = false := by
  unfold perform? at haction
  split at haction
  · cases haction
    obtain ⟨_, _, -, h⟩ := Stateful.bind_ok_iff.mp h
    cases h
    rfl
  · cases haction
    obtain ⟨_, _, -, h⟩ := Stateful.bind_ok_iff.mp h
    cases h
    rfl
  · cases haction
    obtain ⟨_, -, rfl⟩ := Stateful.map_ok_iff.mp h
    rfl
  · cases haction
    obtain ⟨_, -, rfl⟩ := Stateful.map_ok_iff.mp h
    rfl
  · cases haction
    obtain ⟨_, -, rfl⟩ := Stateful.map_ok_iff.mp h
    rfl
  · cases haction

theorem host_detached : host.Detached where
  heap := by
    intro id args heap c
    simp only [host, call]
    split
    · rfl
    · split
      · rfl
      · split <;> rfl
  result := by
    intro id args heap c v h
    simp only [host, call] at h
    split at h
    · cases h
    · split at h
      · cases h
      · rename_i action haction
        split at h
        · rename_i haction'
          cases h
          exact isReference_of_perform? haction haction'
        · cases h

end Console

namespace Machine

/-- **Programs on the console are confined.**  However an invocation ends:

* arrays are as they were;
* objects that were there before have their types still, and the fields that were set are set;
* objects that cannot be got at from the arguments through the fields of objects are as they were;
* a reference that is returned, or that an abort carried out, is to an object that is new, or could
  be got at from the arguments in the heap that the invocation started with. -/
theorem invoke_confined (m : Machine Console) (hhost : m.host = Console.host) (fuel : Nat)
    (s s' : State Console) (index : UInt16) (args : List Value) (o : Outcome)
    (h : m.invoke fuel s index args = some (o, s')) :
    s.heap.Confined args s'.heap ∧
      ∀ v, o = .returned v ∨ o = .unwound v → v.isReference →
        s.heap.Reachable args v ∨
          ∃ place, v = .object place ∧ s.heap.nextObject ≤ place ∧ place < s'.heap.nextObject := by
  have hdetached : m.host.Detached := hhost ▸ Console.host_detached
  have hreach := (exists_invoke_iff m s s' index args o).mp ⟨fuel, h⟩
  cases hreach.sealed hdetached (m.start_sealed s index args) with
  | finished hheap ho =>
    refine ⟨hheap.confined, ?_⟩
    intro v hv hreference
    have hgranted : s.heap.Granted args s'.heap v := by
      rcases hv with rfl | rfl
      · exact ho
      · exact ho
    cases hgranted with
    | plain hplain =>
      rw [hplain] at hreference
      cases hreference
    | reachable hreachable => exact .inl hreachable
    | @new place hge hlt => exact .inr ⟨place, rfl, hge, hlt⟩

/-- A method that attaches a new object to what the first field of its argument refers to, prints
the new object, and returns what it was attached to. -/
def attaching : Machine Console where
  program := (ofBodies [ ⟨0, 1, (Instr.assemble [.newObj 9, .loadLocal 0, .loadMember 7,
    .storeMember 8, .callNative 1 1, .loadLocal 0, .loadMember 7, .ret]).toArray⟩ ]).program
  settings := .default
  host := Console.host

/-- An object that refers to another, which has an array with a third one in it. -/
def attachingHeap : Heap where
  objects := #[⟨1, [(7, .object 1)]⟩, ⟨1, [(7, .array 0)]⟩, ⟨3, [(0, .null)]⟩]
  arrays := #[⟨3, #[.object 2]⟩]

/-- The second object is attached to and returned; the array and the object in it are untouched. -/
theorem attaching_confined :
    ∃ s', attaching.invoke 20 { State.initial ⟨.ofBytes [], .unlimited⟩ with heap := attachingHeap }
        0 [.object 0] = some (.returned (.object 1), s') ∧
      Fields.get? (s'.heap.object 1).fields 8 = some (.object 3) ∧
      attachingHeap.Confined [.object 0] s'.heap ∧
      (attachingHeap.Reachable [.object 0] (.object 1) ∨
        ∃ place, Value.object 1 = .object place ∧ 3 ≤ place ∧ place < s'.heap.nextObject) := by
  have hrun : (attaching.invoke 20
      { State.initial ⟨.ofBytes [], .unlimited⟩ with heap := attachingHeap } 0 [.object 0]).map
      (fun e => (e.1, Fields.get? (e.2.heap.object 1).fields 8)) =
        some (.returned (.object 1), some (.object 3)) := by
    decide +kernel
  obtain ⟨⟨o, s'⟩, hinvoke, heq⟩ := Option.map_eq_some_iff.mp hrun
  obtain ⟨rfl, hfield⟩ := Prod.mk.inj heq
  obtain ⟨hconfined, hvalue⟩ := invoke_confined attaching rfl 20 _ s' 0 [.object 0] _ hinvoke
  exact ⟨s', hinvoke, hfield, hconfined, hvalue (.object 1) (.inl rfl) rfl⟩

end Machine

end BytecodeVm
