/- # How much code an instruction takes

An opcode tells how many operands follow it, and so does the way in which its instruction is
decoded, which reads them one after another.  Both agree: an instruction is executed just if the
code holds as many bytes as its opcode says, and then control goes on behind these bytes, unless it
jumps.

* `Frame.decode_of_cutOff`, `Frame.decode_of_fits`: decoding by what the opcode says;
* `Instr.execute_goesOn`, `Frame.advance_goesOn`: where control goes on;
* `Console.isOfHost_of_call`: the traps that the functions of the console raise;
* `Machine.step_consumes`: what a step takes of the code of its frame.
-/
import BytecodeVm.Console.Natives
import BytecodeVm.Proofs.Frame.Assembled
import BytecodeVm.Proofs.Machine.Boundaries

namespace BytecodeVm

open Stateful

variable {σ : Type}

/-! ## 1. Decoding by what the opcode says -/

namespace Code

variable {code : Code} {offset : Nat}

theorem le_size_of_operand? {operand : UInt16} (h : code.operand? offset = some operand) :
    offset + Opcode.operandWidth ≤ code.size := by
  unfold operand? at h
  split at h
  · rename_i hhigh
    exact (Array.getElem?_eq_some_iff.mp hhigh).1
  · cases h

/-- An instruction whose operands lie behind its opcode does not reach beyond the end. -/
theorem le_size_of_operandsAt {i : Instr} (hop : code.opcode? offset = some i.opcode)
    (hops : code.OperandsAt (offset + 1) i.operands) :
    offset + i.opcode.encodedLength ≤ code.size := by
  rw [Opcode.encodedLength, ← Instr.length_operands, ← Nat.add_assoc]
  cases hcount : i.operands.length with
  | zero =>
    rw [Nat.zero_mul]
    exact lt_size_of_opcode? hop
  | succ k =>
    -- the last operand ends where the instruction does
    have hk : k < i.operands.length := Nat.lt_of_lt_of_eq k.lt_succ_self hcount.symm
    have hlast := hops k _ (List.getElem?_eq_getElem hk)
    rw [Nat.succ_mul, ← Nat.add_assoc]
    exact le_size_of_operand? hlast

end Code

namespace Frame

variable {f f' : Frame} {op : Opcode} {trap : Trap}

/-- An operand that cannot be read leaves the frame as it was. -/
theorem eq_of_operand_error (h : operand op f = .error trap f') : f' = f := by
  unfold operand at h
  split at h <;> cases h
  rfl

/-- Operands that cannot be read leave the frame past those that could, and otherwise as it was. -/
theorem Decoding.exists_ip {x : OnFrame Instr} (h : Decoding op x) (hx : x f = .error trap f') :
    ∃ ip, f' = { f with ip } := by
  cases h with
  | none => cases hx
  | one => exact ⟨f.ip, eq_of_operand_error (map_error_iff.mp hx)⟩
  | two =>
    rw [seq_eq_bind_map] at hx
    rcases bind_error_iff.mp hx with hfirst | ⟨_, f₁, hfirst, hx⟩
    · exact ⟨f.ip, eq_of_operand_error (map_error_iff.mp hfirst)⟩
    · obtain ⟨a, ha, -⟩ := map_ok_iff.mp hfirst
      obtain ⟨-, rfl⟩ := operand_ok ha
      exact ⟨_, eq_of_operand_error (map_error_iff.mp hx)⟩

/-- **An instruction that is cut off** is reported where its opcode stands.  Slots and stack are as
they were. -/
theorem decode_of_cutOff (hop : f.code.opcode? f.ip = some op)
    (hcut : f.code.size < f.ip + op.encodedLength) :
    ∃ ip, decode f = .error (.truncatedOperand op f.ip) { f with opOffset := f.ip, ip } := by
  cases hdecode : decode f with
  | ok i? f' =>
    cases i? with
    | none =>
      have hend := (decode_none hdecode).1
      exact absurd (Code.lt_size_of_opcode? hop) (Nat.not_lt.mpr hend)
    | some i =>
      obtain ⟨hop', hops, -⟩ := decode_some hdecode
      obtain rfl : op = i.opcode := Option.some.inj (hop.symm.trans hop')
      exact absurd hcut (Nat.not_lt.mpr (Code.le_size_of_operandsAt hop hops))
  | error trap f' =>
    rcases bind_error_iff.mp hdecode with hfetch | ⟨op?, f₁, hfetch, hread⟩
    · rw [(fetch_error hfetch).2.1] at hop
      cases hop
    · cases op? with
      | none => cases hread
      | some op' =>
        obtain ⟨hop', rfl⟩ := fetch_some hfetch
        obtain rfl : op = op' := Option.some.inj (hop.symm.trans hop')
        have hread := map_error_iff.mp hread
        obtain ⟨rfl, -⟩ := (decoding op).error hread
        obtain ⟨ip, rfl⟩ := (decoding op).exists_ip hread
        exact ⟨ip, rfl⟩

/-- **An instruction that is all there** is decoded, and the frame is past it. -/
theorem decode_of_fits (hop : f.code.opcode? f.ip = some op)
    (hfits : f.ip + op.encodedLength ≤ f.code.size) :
    ∃ i : Instr, i.opcode = op ∧ f.code.OperandsAt (f.ip + 1) i.operands ∧
      decode f = .ok (some i) { f with opOffset := f.ip, ip := f.ip + op.encodedLength } := by
  cases hdecode : decode f with
  | ok i? f' =>
    cases i? with
    | none =>
      have hend := (decode_none hdecode).1
      exact absurd (Code.lt_size_of_opcode? hop) (Nat.not_lt.mpr hend)
    | some i =>
      obtain ⟨hop', hops, rfl⟩ := decode_some hdecode
      obtain rfl : op = i.opcode := Option.some.inj (hop.symm.trans hop')
      exact ⟨i, rfl, hops, rfl⟩
  | error trap f' =>
    rcases decode_error hdecode with ⟨-, hnone, -⟩ | ⟨op', hop', -, hcut⟩
    · rw [hnone] at hop
      cases hop
    · obtain rfl : op = op' := Option.some.inj (hop.symm.trans hop')
      exact absurd hcut (Nat.not_lt.mpr hfits)

end Frame

/-! ## 2. Where control goes on -/

/-- Whether an instruction with this opcode jumps, by what is on top of the stack. -/
def Opcode.jumps (op : Opcode) (stack : OperandStack) : Bool :=
  match op, stack with
  | jmp, _ => true
  | jmpTrue, condition :: _ => condition.isTrue
  | jmpFalse, condition :: _ => !condition.isTrue
  | _, _ => false

/-- Where control goes on after the instruction with this opcode: at its operand if it jumps, and
otherwise behind as many bytes as the opcode says. -/
def Frame.GoesOn (f : Frame) (op : Opcode) (ip : Nat) : Prop :=
  if op.jumps f.stack then ∃ target, f.code.operand? (f.ip + 1) = some target ∧ ip = target.toNat
  else ip = f.ip + op.encodedLength

namespace Instr

variable {literal : UInt16 → Except Trap Value} {heap : Heap} {f f' : Frame} {request : Request}

/-- A conditional jump is taken if the condition on top of the stack is as wanted. -/
theorem branch_goesOn {op : Opcode} {wanted : Bool} {target : UInt16}
    (h : branch op wanted target f = .ok request f') :
    ∃ condition rest, f.stack = condition :: rest ∧
      f'.ip = if condition.isTrue == wanted then target.toNat else f.ip := by
  obtain ⟨condition, f₁, hpop, h⟩ := bind_ok_iff.mp h
  unfold Frame.pop at hpop
  split at hpop
  · rename_i rest hstack
    cases hpop
    refine ⟨condition, rest, hstack, ?_⟩
    by_cases htaken : (condition.isTrue == wanted) = true
    · rw [if_pos htaken] at h ⊢
      cases h
      rfl
    · rw [if_neg htaken] at h ⊢
      cases h
      rfl
  · cases hpop

/-- **Executing an instruction moves control only if it jumps,** and then to its operand. -/
theorem execute_goesOn (hliteral : ∀ index trap, literal index = .error trap → trap.isOperand)
    {i : Instr} (h : i.execute literal heap f = .ok request f') :
    if i.opcode.jumps f.stack then ∃ target, i.operands = [target] ∧ f'.ip = target.toNat
    else f'.ip = f.ip := by
  have hstays : i.target? = none → f'.ip = f.ip := by
    intro htarget
    obtain ⟨-, hip, -⟩ := (execute_confined heap hliteral i).ok h
    rcases hip with hip | ⟨target, hmem, -⟩
    · exact hip
    · rw [htarget] at hmem
      cases hmem
  cases i with
  | jmp target =>
    cases h
    exact ⟨target, rfl, rfl⟩
  | jmpTrue target | jmpFalse target =>
    obtain ⟨condition, rest, hstack, hip⟩ := branch_goesOn h
    rw [hstack, hip]
    cases hcondition : condition.isTrue <;>
      simp [Instr.opcode, Opcode.jumps, Instr.operands, hcondition]
  | enterAttempt target =>
    cases h
    rfl
  | _ => exact hstays rfl

end Instr

namespace Frame

variable {literal : UInt16 → Except Trap Value} {heap : Heap} {f f' : Frame} {op : Opcode}

/-- **Where a frame goes on** after an instruction that does not trap. -/
theorem advance_goesOn {request : Request}
    (hliteral : ∀ index trap, literal index = .error trap → trap.isOperand)
    (hop : f.code.opcode? f.ip = some op) (hfits : f.ip + op.encodedLength ≤ f.code.size)
    (h : advance literal heap f = .ok request f') : f.GoesOn op f'.ip := by
  obtain ⟨i, rfl, hops, hdecode⟩ := decode_of_fits hop hfits
  rw [advance_of_operandsAt hop hops] at h
  have hgoesOn := i.execute_goesOn hliteral h
  unfold GoesOn
  split at hgoesOn
  · rename_i hjumps
    obtain ⟨target, htarget, hip⟩ := hgoesOn
    rw [if_pos hjumps]
    exact ⟨target, hops 0 target (by rw [htarget]; rfl), hip⟩
  · rename_i hjumps
    rw [if_neg hjumps]
    exact hgoesOn

/-- What is asked for is what an instruction with the opcode at the instruction pointer makes. -/
theorem advance_makes {request : Request}
    (hliteral : ∀ index trap, literal index = .error trap → trap.isOperand)
    (hop : f.code.opcode? f.ip = some op) (h : advance literal heap f = .ok request f') :
    ∃ i : Instr, i.opcode = op ∧ i.Makes request := by
  rcases advance_ok hliteral h with ⟨hend, -, -⟩ | ⟨i, hop', -, -, hmakes, -⟩
  · exact absurd (Code.lt_size_of_opcode? hop) (Nat.not_lt.mpr hend)
  · exact ⟨i, Option.some.inj (hop'.symm.trans hop), hmakes⟩

/-- An instruction that is cut off does nothing to the slots and the stack. -/
theorem advance_of_cutOff (literal : UInt16 → Except Trap Value) (heap : Heap)
    (hop : f.code.opcode? f.ip = some op) (hcut : f.code.size < f.ip + op.encodedLength) :
    ∃ ip, advance literal heap f =
      .error (.truncatedOperand op f.ip) { f with opOffset := f.ip, ip } := by
  obtain ⟨ip, hdecode⟩ := decode_of_cutOff hop hcut
  exact ⟨ip, bind_error_iff.mpr (.inl hdecode)⟩

/-- No operand is missing of an instruction that is all there. -/
theorem advance_ne_truncated {trap : Trap}
    (hliteral : ∀ index trap, literal index = .error trap → trap.isOperand)
    (hop : f.code.opcode? f.ip = some op) (hfits : f.ip + op.encodedLength ≤ f.code.size)
    (h : advance literal heap f = .error trap f') (op' : Opcode) (offset : Nat) :
    trap ≠ .truncatedOperand op' offset := by
  obtain ⟨i, rfl, hops, -⟩ := decode_of_fits hop hfits
  rw [advance_of_operandsAt hop hops] at h
  rintro rfl
  rcases (i.execute_confined heap hliteral).error h with hoperand | ⟨_, -, -, htrap⟩
  · cases hoperand
  · cases htrap

end Frame

/-! ## 3. The traps of the console -/

/-- Whether a trap is about a native call or about the streams behind it. -/
def Trap.isOfHost : Trap → Bool
  | unknownNative _ | nativeArity .. | invalidNumber _ | stream _ => true
  | _ => false

namespace Console

/-- The operation raises no other traps. -/
def FaultsAsHost {α : Type} (x : OnConsole α) : Prop :=
  ∀ ⦃c c' : Console⦄ ⦃trap : Trap⦄, x c = .error trap c' → trap.isOfHost

namespace FaultsAsHost

variable {α β : Type}

theorem pure (a : α) : FaultsAsHost (pure a) := by
  intro c c' trap h
  cases h

theorem throw {trap : Trap} (htrap : trap.isOfHost) :
    FaultsAsHost (throw trap : OnConsole α) := by
  intro c c' trap' h
  cases h
  exact htrap

theorem bind {x : OnConsole α} {k : α → OnConsole β} (hx : FaultsAsHost x)
    (hk : ∀ a, FaultsAsHost (k a)) : FaultsAsHost (x >>= k) := by
  intro c c' trap h
  rcases bind_error_iff.mp h with hfirst | ⟨a, c₁, -, hrest⟩
  · exact hx hfirst
  · exact hk a hrest

theorem map {x : OnConsole α} {k : α → β} (hx : FaultsAsHost x) : FaultsAsHost (k <$> x) :=
  fun _ _ _ h => hx (map_error_iff.mp h)

theorem onSource (reading : OnSource α) : FaultsAsHost (onSource reading) := by
  intro c c' trap h
  unfold Console.onSource at h
  split at h <;> cases h
  rfl

theorem onSink (writing : OnSink α) : FaultsAsHost (onSink writing) := by
  intro c c' trap h
  unfold Console.onSink at h
  split at h <;> cases h
  rfl

theorem read : FaultsAsHost read := by
  refine .bind (.onSource _) fun shown => ?_
  cases shown with
  | nil => exact .pure _
  | cons first rest => exact .bind (.onSource _) fun bytes => .pure _

theorem readLine : FaultsAsHost readLine := by
  refine .bind (.onSource _) fun bytes => ?_
  split
  · exact .pure _
  · exact .throw rfl

theorem readInt : FaultsAsHost readInt := by
  refine .bind .readLine fun line => ?_
  split
  · exact .pure _
  · split
    · exact .pure _
    · exact .throw rfl

theorem of_perform? {heap : Heap} {native : Native} {args : List Value} {action : OnConsole Value}
    (h : perform? heap native args = some action) : FaultsAsHost action := by
  unfold perform? at h
  split at h <;> cases h
  · exact .bind (.bind (.onSink _) fun _ => .onSink _) fun _ => .pure _
  · exact .bind (.onSink _) fun _ => .pure _
  · exact .map .read
  · exact .map .readLine
  · exact .map .readInt

end FaultsAsHost

/-- **The console raises traps of its own only.** -/
theorem isOfHost_of_call {id : UInt16} {args : List Value} {heap : Heap} {c : Console}
    {trap : Trap} (h : (host.call id args heap c).result = .error trap) : trap.isOfHost := by
  simp only [host, call] at h
  split at h
  · cases h
    rfl
  · split at h
    · cases h
      rfl
    · rename_i action haction
      split at h
      · cases h
      · rename_i hfault
        cases h
        exact FaultsAsHost.of_perform? haction hfault

end Console

/-! ## 4. One step -/

namespace Machine

variable {m : Machine σ} {c c' : Config σ} {f : Frame} {op : Opcode}

/-- Of an instruction that is all there, only the host can say that an operand is missing. -/
theorem truncated_of_step {op' : Opcode} {offset : Nat} {s : State σ} (hf : c.current.frame = f)
    (hop : f.code.opcode? f.ip = some op) (hfits : f.ip + op.encodedLength ≤ f.code.size)
    (h : m.step c = .finished (.trapped (.truncatedOperand op' offset)) s) :
    ∃ id args f', m.next c = .ok (.native id args) f' ∧
      (m.host.call id args c.state.heap c.state.host).result =
        .error (.truncatedOperand op' offset) := by
  subst hf
  cases ends_of_step h with
  | instruction hnext =>
    exact absurd rfl (Frame.advance_ne_truncated m.literal_error hop hfits hnext op' offset)
  | call hnext hact =>
    rcases activate_error_inv hact with htrap | htrap | ⟨callee, -, hcreate⟩
    · cases htrap
    · cases htrap
    · obtain ⟨_, _, htrap⟩ := Code.scanFrom_error (Frame.create_error_iff.mp hcreate)
      cases htrap
  | native hnext hhost => exact ⟨_, _, _, hnext, hhost⟩

/-- An activation that neither returns nor aborts goes on, or waits for a callee, where its
instruction leads. -/
theorem exists_frame_of_step (hf : c.current.frame = f) (hop : f.code.opcode? f.ip = some op)
    (hfits : f.ip + op.encodedLength ≤ f.code.size) (h : m.step c = .running c')
    (hret : op ≠ .ret) (habort : op ≠ .abort) :
    ∃ f', f.GoesOn op f'.ip ∧ (c'.active = { c.current with frame := f' } :: c.callers ∨
      ∃ callee, c'.active = callee :: { c.current with frame := f' } :: c.callers) := by
  subst hf
  have hgoesOn : ∀ {request f'}, m.next c = .ok request f' → c.current.frame.GoesOn op f'.ip :=
    fun hnext => Frame.advance_goesOn m.literal_error hop hfits hnext
  cases move_of_step h with
  | @inside request f' s stack hnext =>
    have hip := hgoesOn hnext
    exact ⟨{ f' with stack }, hip, .inl rfl⟩
  | call hnext => exact ⟨_, hgoesOn hnext, .inr ⟨_, rfl⟩⟩
  | ret hnext =>
    obtain ⟨i, hi, hmakes⟩ := Frame.advance_makes m.literal_error hop hnext
    obtain rfl : i = .ret := hmakes
    exact absurd hi.symm hret
  | land hnext =>
    obtain ⟨i, hi, hmakes⟩ := Frame.advance_makes m.literal_error hop hnext
    obtain rfl : i = .abort := hmakes
    exact absurd hi.symm habort
  | enter hnext => exact ⟨_, hgoesOn hnext, .inl rfl⟩
  | leave hnext => exact ⟨_, hgoesOn hnext, .inl rfl⟩

/-- **A step takes of the code what the opcode says.**  Take any machine in any configuration, with
an opcode at the instruction pointer of the running frame.

* If the code ends before all the bytes that the opcode calls for, the step traps, with the opcode
  and its offset.  Slots and stack of the frame are as they were, and so is all of the state.
* Otherwise the instruction does not trap for a missing operand, and neither does the step, unless
  the host gives that very trap as its answer to a native call, which a console never does.
* If then the instruction does not trap, control is behind the bytes that the opcode calls for, or
  at the operand of a jump that is taken.  That is where the activation goes on after the step, or
  where it waits for a callee, unless it has returned or aborted. -/
theorem step_consumes (m : Machine σ) (c : Config σ) {f : Frame} {op : Opcode}
    (hf : c.current.frame = f) (hop : f.code.opcode? f.ip = some op) :
    (f.code.size < f.ip + op.encodedLength →
      (∃ ip, m.next c = .error (.truncatedOperand op f.ip) { f with opOffset := f.ip, ip }) ∧
      m.step c = .finished (.trapped (.truncatedOperand op f.ip)) c.state) ∧
    (f.ip + op.encodedLength ≤ f.code.size →
      (∀ op' offset f', m.next c ≠ .error (.truncatedOperand op' offset) f') ∧
      (∀ op' offset s, m.step c = .finished (.trapped (.truncatedOperand op' offset)) s →
        ∃ id args f', m.next c = .ok (.native id args) f' ∧
          (m.host.call id args c.state.heap c.state.host).result =
            .error (.truncatedOperand op' offset)) ∧
      (∀ request f', m.next c = .ok request f' → f.GoesOn op f'.ip) ∧
      ∀ c', m.step c = .running c' → op ≠ .ret → op ≠ .abort →
        ∃ f', f.GoesOn op f'.ip ∧ (c'.active = { c.current with frame := f' } :: c.callers ∨
          ∃ callee, c'.active = callee :: { c.current with frame := f' } :: c.callers)) ∧
    ∀ id args heap (console : Console) op' offset,
      (Console.host.call id args heap console).result ≠ .error (.truncatedOperand op' offset) := by
  refine ⟨fun hcut => ?_, fun hfits => ⟨?_, ?_, ?_, ?_⟩, ?_⟩
  · subst hf
    obtain ⟨ip, hnext⟩ := Frame.advance_of_cutOff m.literal c.state.heap hop hcut
    exact ⟨⟨ip, hnext⟩, step_of_next_error hnext⟩
  · subst hf
    intro op' offset f' hnext
    exact Frame.advance_ne_truncated m.literal_error hop hfits hnext op' offset rfl
  · exact fun op' offset s hstep => truncated_of_step hf hop hfits hstep
  · subst hf
    exact fun request f' hnext => Frame.advance_goesOn m.literal_error hop hfits hnext
  · exact fun c' hstep => exists_frame_of_step hf hop hfits hstep
  · intro id args heap console op' offset hcall
    cases Console.isOfHost_of_call hcall

/-- A frame in code that jumps, on a condition, to a call of which half an operand is cut off. -/
def jumpsToCutOff (ip : Nat) (stack : OperandStack) : Config Unit where
  state := { State.initial () with handlers := [⟨0, 3⟩] }
  current :=
    { id := 0
      depth := 0
      frame :=
        { code := (Instr.assemble [.jmpTrue 6, .jmpFalse 0] ++ [Opcode.call.byte, 7, 0, 1]).toArray
          ip
          opOffset := 0
          locals := #[.null]
          stack }
      keepResult := true }
  callers := []

/-- The jump goes to its operand or behind it, and the call traps with its argument still on the
stack. -/
theorem jumpsToCutOff_consumes :
    (∃ f, (ofBodies []).next (jumpsToCutOff 0 [.bool true]) = .ok .proceed f ∧ f.ip = 6 ∧
      (jumpsToCutOff 0 [.bool true]).current.frame.GoesOn .jmpTrue f.ip) ∧
    (∃ f, (ofBodies []).next (jumpsToCutOff 0 [.null]) = .ok .proceed f ∧ f.ip = 3 ∧
      (jumpsToCutOff 0 [.null]).current.frame.GoesOn .jmpTrue f.ip) ∧
    (jumpsToCutOff 6 [.null]).current.frame.code.size < 6 + Opcode.call.encodedLength ∧
    (ofBodies []).step (jumpsToCutOff 6 [.null]) =
      .finished (.trapped (.truncatedOperand .call 6)) (jumpsToCutOff 6 [.null]).state := by
  have hcut : (jumpsToCutOff 6 [.null]).current.frame.code.size <
      6 + Opcode.call.encodedLength := by
    decide +kernel
  refine ⟨?_, ?_, hcut, ?_⟩
  · have hop : (jumpsToCutOff 0 [.bool true]).current.frame.code.opcode? 0 = some .jmpTrue := by
      decide +kernel
    obtain ⟨-, hfits, -⟩ := step_consumes (ofBodies []) (jumpsToCutOff 0 [.bool true]) rfl hop
    obtain ⟨-, -, hnext, -⟩ := hfits (by decide +kernel)
    exact ⟨_, rfl, rfl, hnext _ _ rfl⟩
  · have hop : (jumpsToCutOff 0 [.null]).current.frame.code.opcode? 0 = some .jmpTrue := by
      decide +kernel
    obtain ⟨-, hfits, -⟩ := step_consumes (ofBodies []) (jumpsToCutOff 0 [.null]) rfl hop
    obtain ⟨-, -, hnext, -⟩ := hfits (by decide +kernel)
    exact ⟨_, rfl, rfl, hnext _ _ rfl⟩
  · have hop : (jumpsToCutOff 6 [.null]).current.frame.code.opcode? 6 = some .call := by
      decide +kernel
    obtain ⟨htruncated, -⟩ := step_consumes (ofBodies []) (jumpsToCutOff 6 [.null]) rfl hop
    exact (htruncated hcut).2

end Machine

end BytecodeVm
