/- # Where an instruction gets its values from

An instruction moves values between the stack, the slots and the heap.  A value that it leaves in
its frame, or hands to the machine with a request, was in the frame before, or in a field of an object
that the frame refers to, or is not a reference at all: references are not made up.

* `Frame.Holds`, `Request.Holds`: the values in a frame or a request are of a certain sort;
* `Frame.Handles`: an operation leaves only such values behind;
* `Frame.advance_holds`: one instruction, over any sort of values that is closed under fields.
-/
import BytecodeVm.Proofs.Frame.Instruction

namespace BytecodeVm

open Stateful

/-! ## 1. Values, frames and requests -/

/-- Whether a value refers to a cell of the heap. -/
def Value.isReference : Value → Bool
  | object _ | array _ => true
  | _ => false

/-- A sort of values that has all values but references, and with an object all that is in its
fields. -/
structure Heap.Closed (h : Heap) (P : Value → Prop) : Prop where
  plain : ∀ v : Value, v.isReference = false → P v
  field : ∀ place i v, P (.object place) → Fields.get? (h.object place).fields i = some v → P v

/-- What a field reads as is among the values, whether or not the field is set. -/
theorem Heap.Closed.read {h : Heap} {P : Value → Prop} (hP : h.Closed P) {place : Nat}
    (hplace : P (.object place)) (i : UInt16) : P ((h.object place).field i) := by
  simp only [Object.field]
  cases hget : Fields.get? (h.object place).fields i with
  | none => exact hP.plain .null rfl
  | some v => exact hP.field place i v hplace hget

/-- All values in the frame are of the given sort. -/
structure Frame.Holds (P : Value → Prop) (f : Frame) : Prop where
  locals : ∀ v ∈ f.locals, P v
  stack : ∀ v ∈ f.stack, P v

/-- All values that a request hands over are of the given sort. -/
def Request.Holds (P : Value → Prop) : Request → Prop
  | .store place _ v => P (.object place) ∧ P v
  | .call _ args _ => ∀ v ∈ args, P v
  | .native _ args => ∀ v ∈ args, P v
  | .ret v => P v
  | .abort v => P v
  | _ => True

namespace Frame

theorem Holds.mono {P Q : Value → Prop} {f : Frame} (h : f.Holds P) (hPQ : ∀ v, P v → Q v) :
    f.Holds Q :=
  ⟨fun v hv => hPQ v (h.locals v hv), fun v hv => hPQ v (h.stack v hv)⟩

theorem Holds.push {P : Value → Prop} {f : Frame} {v : Value} (h : f.Holds P) (hv : P v) :
    Holds P { f with stack := v :: f.stack } :=
  ⟨h.locals, List.forall_mem_cons.mpr ⟨hv, h.stack⟩⟩

/-- A new frame holds its arguments, and nulls. -/
theorem Holds.of_create {P : Value → Prop} (hnull : P .null) {code : Code} {slots : Nat}
    {args : List Value} {f : Frame} (hargs : ∀ v ∈ args, P v)
    (h : create code slots args = .ok f) : f.Holds P := by
  obtain ⟨named, -, rfl⟩ := create_ok_iff.mp h
  refine ⟨?_, nofun⟩
  intro v hv
  rcases List.mem_append.mp (List.mem_toArray.mp hv) with hv | hv
  · exact hargs v (List.mem_of_mem_take hv)
  · rw [(List.mem_replicate.mp hv).2]
    exact hnull

/-! ## 2. Operations on a frame -/

/-- An operation leaves only values of the given sort in a frame that held no others, and its result
is as stated. -/
structure Handles {α : Type} (P : Value → Prop) (x : OnFrame α) (Q : α → Prop) : Prop where
  ok : ∀ {f f' : Frame} {a : α}, f.Holds P → x f = .ok a f' → f'.Holds P ∧ Q a

namespace Handles

variable {α β : Type} {P : Value → Prop} {op : Opcode}

theorem pure {a : α} {Q : α → Prop} (h : Q a) : Handles P (pure a) Q where
  ok := by
    intro f f' b hf hx
    obtain ⟨rfl, rfl⟩ := pure_ok_iff.mp hx
    exact ⟨hf, h⟩

theorem bind {x : OnFrame α} {k : α → OnFrame β} {Q : α → Prop} {R : β → Prop}
    (hx : Handles P x Q) (hk : ∀ a, Q a → Handles P (k a) R) : Handles P (x >>= k) R where
  ok := by
    intro f f' b hf h
    obtain ⟨a, f₁, h₁, h₂⟩ := bind_ok_iff.mp h
    obtain ⟨hf₁, ha⟩ := hx.ok hf h₁
    exact (hk a ha).ok hf₁ h₂

theorem push {v : Value} (hv : P v) : Handles P (Frame.push v) fun _ => True where
  ok := by
    intro f f' a hf hx
    cases hx
    exact ⟨hf.push hv, trivial⟩

theorem pop : Handles P (Frame.pop op) P where
  ok := by
    intro f f' v hf hx
    simp only [Frame.pop] at hx
    split at hx
    · rename_i top rest hstack
      cases hx
      obtain ⟨htop, hrest⟩ := List.forall_mem_cons.mp (hstack ▸ hf.stack)
      exact ⟨⟨hf.locals, hrest⟩, htop⟩
    · cases hx

theorem popAny : Handles P Frame.popAny fun v? => ∀ v ∈ v?, P v where
  ok := by
    intro f f' v? hf hx
    simp only [Frame.popAny] at hx
    split at hx
    · rename_i top rest hstack
      cases hx
      obtain ⟨htop, hrest⟩ := List.forall_mem_cons.mp (hstack ▸ hf.stack)
      exact ⟨⟨hf.locals, hrest⟩, fun v hv => Option.some.inj hv ▸ htop⟩
    · cases hx
      refine ⟨hf, ?_⟩
      intro v hv
      cases hv

theorem peek : Handles P (Frame.peek op) P where
  ok := by
    intro f f' v hf hx
    simp only [Frame.peek] at hx
    split at hx
    · rename_i top rest hstack
      cases hx
      exact ⟨hf, hf.stack v (hstack ▸ List.mem_cons_self)⟩
    · cases hx

theorem popArgs {count : UInt16} : Handles P (Frame.popArgs op count) fun args =>
    ∀ v ∈ args, P v where
  ok := by
    intro f f' args hf hx
    simp only [Frame.popArgs, OperandStack.popMany?] at hx
    split at hx
    · rename_i args' rest hpop
      cases hx
      split at hpop
      · cases hpop
        refine ⟨⟨hf.locals, fun v hv => hf.stack v (List.mem_of_mem_drop hv)⟩, ?_⟩
        intro v hv
        exact hf.stack v (List.mem_of_mem_take (List.mem_reverse.mp hv))
      · cases hpop
    · cases hx

theorem getLocal {slot : UInt16} : Handles P (Frame.getLocal slot) P where
  ok := by
    intro f f' v hf hx
    simp only [Frame.getLocal] at hx
    split at hx
    · rename_i v' hslot
      cases hx
      exact ⟨hf, hf.locals v (Array.mem_of_getElem? hslot)⟩
    · cases hx

theorem setLocal {slot : UInt16} {v : Value} (hv : P v) :
    Handles P (Frame.setLocal slot v) fun _ => True where
  ok := by
    intro f f' _ hf hx
    simp only [Frame.setLocal] at hx
    split at hx
    · cases hx
      refine ⟨⟨?_, hf.stack⟩, trivial⟩
      intro w hw
      rcases Array.mem_or_eq_of_mem_setIfInBounds hw with hw | rfl
      · exact hf.locals w hw
      · exact hv
    · cases hx

theorem jump {target : UInt16} : Handles P (Frame.jump target) fun _ => True where
  ok := by
    intro f f' _ hf hx
    cases hx
    exact ⟨⟨hf.locals, hf.stack⟩, trivial⟩

theorem get : Handles P (get : OnFrame Frame) fun f => f.Holds P where
  ok := by
    intro f f' _ hf hx
    cases hx
    exact ⟨hf, hf⟩

theorem ofExcept {e : Except Trap α} {Q : α → Prop} (h : ∀ a, e = .ok a → Q a) :
    Handles P (ofExcept e : OnFrame α) Q where
  ok := by
    intro f f' a hf hx
    cases e with
    | ok b =>
      cases hx
      exact ⟨hf, h a rfl⟩
    | error trap => cases hx

end Handles

end Frame

/-! ## 3. Executing -/

theorem Value.asObject_ok {v : Value} {context : Context} {place : Nat}
    (h : v.asObject context = .ok place) : v = .object place := by
  cases v <;> cases h
  rfl

/-- A sum is a text or a number. -/
theorem Heap.isReference_add {heap : Heap} {a b v : Value} (h : heap.add a b = .ok v) :
    v.isReference = false := by
  simp only [Heap.add] at h
  split at h
  · cases h
    rfl
  · cases ha : a.asNumber (.instruction .add) with
    | error trap =>
      rw [ha] at h
      cases h
    | ok x =>
      cases hb : b.asNumber (.instruction .add) with
      | error trap =>
        rw [ha, hb] at h
        cases h
      | ok y =>
        rw [ha, hb] at h
        cases h
        rfl

theorem Constant.isReference_literal (c : Constant) : c.literal.isReference = false := by
  simp only [Constant.literal]
  split <;> rfl

namespace Instr

/-- The receiver and the arguments are what a constructor is given. -/
theorem mem_bindReceiver {receiver v : Value} {args : List Value}
    (h : v ∈ bindReceiver receiver args) : v = receiver ∨ v ∈ args := by
  cases args with
  | nil => exact .inl (List.mem_singleton.mp h)
  | cons first rest =>
    simp only [bindReceiver] at h
    split at h
    · rcases List.mem_cons.mp h with hv | hv
      · exact .inl hv
      · exact .inr (List.mem_cons_of_mem _ hv)
    · exact List.mem_cons.mp h

section Families

variable {P : Value → Prop} {op : Opcode} (hplain : ∀ v : Value, v.isReference = false → P v)
include hplain

theorem arithmetic_handles (f : Binary64 → Binary64 → Binary64) :
    Frame.Handles P (arithmetic op f) (Request.Holds P) :=
  .bind .pop fun _ _ => .bind (.ofExcept fun _ _ => trivial) fun _ _ =>
    .bind .pop fun _ _ => .bind (.ofExcept fun _ _ => trivial) fun _ _ =>
      .bind (.push (hplain _ rfl)) fun _ _ => .pure trivial

theorem relation_handles (heap : Heap) (holds : Ordering → Bool) :
    Frame.Handles P (relation heap op holds) (Request.Holds P) :=
  .bind .pop fun _ _ => .bind .pop fun _ _ => .bind (.ofExcept fun _ _ => trivial) fun _ _ =>
    .bind (.push (hplain _ rfl)) fun _ _ => .pure trivial

theorem equality_handles (wanted : Bool) :
    Frame.Handles P (equality op wanted) (Request.Holds P) :=
  .bind .pop fun _ _ => .bind .pop fun _ _ => .bind (.push (hplain _ rfl)) fun _ _ => .pure trivial

omit hplain in
theorem branch_handles (wanted : Bool) (target : UInt16) :
    Frame.Handles P (branch op wanted target) (Request.Holds P) := by
  refine .bind .pop fun condition _ => ?_
  split
  · exact .bind .jump fun _ _ => .pure trivial
  · exact .pure trivial

end Families

/-- **An instruction makes up no references.** -/
theorem execute_handles {P : Value → Prop} {literal : UInt16 → Except Trap Value} {heap : Heap}
    (hP : heap.Closed P) (hliteral : ∀ index v, literal index = .ok v → v.isReference = false)
    (i : Instr) : Frame.Handles P (i.execute literal heap) (Request.Holds P) := by
  cases i with
  | nop | enterDebrief | leaveDebrief | newObj _ | enterAttempt _ | leaveAttempt =>
    exact .pure trivial
  | pop => exact .bind .popAny fun _ _ => .pure trivial
  | dup => exact .bind .peek fun v hv => .bind (.push hv) fun _ _ => .pure trivial
  | loadNull | loadTrue | loadFalse =>
    exact .bind (.push (hP.plain _ rfl)) fun _ _ => .pure trivial
  | loadConst index =>
    exact .bind (.ofExcept fun v hv => hP.plain v (hliteral index v hv)) fun v hv =>
      .bind (.push hv) fun _ _ => .pure trivial
  | loadLocal slot => exact .bind .getLocal fun v hv => .bind (.push hv) fun _ _ => .pure trivial
  | storeLocal slot => exact .bind .pop fun v hv => .bind (.setLocal hv) fun _ _ => .pure trivial
  | loadMember field =>
    refine .bind .pop fun target htarget => .bind (.ofExcept fun place hplace => ?_)
      fun place hplace => .bind (.push (hP.read hplace field)) fun _ _ => .pure trivial
    exact Value.asObject_ok hplace ▸ htarget
  | storeMember field =>
    refine .bind .pop fun target htarget => .bind .pop fun v hv =>
      .bind (.ofExcept (Q := fun place => P (.object place)) fun place hplace => ?_)
        fun place hplace => .bind (.push hv) fun _ _ => .pure ⟨hplace, hv⟩
    exact Value.asObject_ok hplace ▸ htarget
  | call callee argc => exact .bind .popArgs fun args hargs => .pure hargs
  | callCtor callee argc =>
    refine .bind .popArgs fun args hargs => .bind .get fun f hf => ?_
    split
    · rename_i place rest hstack
      refine .pure fun v hv => ?_
      rcases mem_bindReceiver hv with rfl | hv
      · exact hf.stack _ (hstack ▸ List.mem_cons_self)
      · exact hargs v hv
    · exact .pure hargs
  | callNative id argc => exact .bind .popArgs fun args hargs => .pure hargs
  | ret =>
    refine .bind .popAny fun v? hv => .pure ?_
    cases v? with
    | none => exact hP.plain .null rfl
    | some v => exact hv v rfl
  | add =>
    exact .bind .pop fun b _ => .bind .pop fun a _ =>
      .bind (.ofExcept fun v hv => hP.plain v (Heap.isReference_add hv)) fun v hv =>
        .bind (.push hv) fun _ _ => .pure trivial
  | sub | mul | div | mod => exact arithmetic_handles hP.plain _
  | neg =>
    exact .bind .pop fun v _ => .bind (.ofExcept fun _ _ => trivial) fun _ _ =>
      .bind (.push (hP.plain _ rfl)) fun _ _ => .pure trivial
  | not => exact .bind .pop fun v _ => .bind (.push (hP.plain _ rfl)) fun _ _ => .pure trivial
  | ceq | cne => exact equality_handles hP.plain _
  | clt | cle | cgt | cge => exact relation_handles hP.plain heap _
  | jmp target => exact .bind .jump fun _ _ => .pure trivial
  | jmpTrue target | jmpFalse target => exact branch_handles _ target
  | abort => exact .bind .pop fun v hv => .pure hv

end Instr

/-- **One instruction** of a frame leaves it with values of the same sort, and asks for nothing with
any other. -/
theorem Frame.advance_holds {P : Value → Prop} {literal : UInt16 → Except Trap Value} {heap : Heap}
    {f f' : Frame} {request : Request} (hP : heap.Closed P)
    (hliteral : ∀ index v, literal index = .ok v → v.isReference = false) (hf : f.Holds P)
    (h : advance literal heap f = .ok request f') : f'.Holds P ∧ request.Holds P := by
  obtain ⟨i?, f₁, hdecode, hexecute⟩ := bind_ok_iff.mp h
  cases i? with
  | none =>
    obtain ⟨-, rfl⟩ := decode_none hdecode
    obtain ⟨rfl, rfl⟩ := pure_ok_iff.mp hexecute
    exact ⟨hf, hP.plain .null rfl⟩
  | some i =>
    obtain ⟨-, -, rfl⟩ := decode_some hdecode
    have hf₁ : Frame.Holds P { f with opOffset := f.ip, ip := f.ip + i.opcode.encodedLength } :=
      ⟨hf.locals, hf.stack⟩
    exact (Instr.execute_handles hP hliteral i).ok hf₁ hexecute

end BytecodeVm
