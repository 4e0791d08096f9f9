/- # One step of the machine

A step executes one instruction of the running activation and serves what it asks for: calls put an
activation on top, returns take one off, and an abort takes off as many as it needs to find its
handler.

* `Machine.activate`: a new activation, if the call is allowed and its code decodes;
* `Machine.unwind`: the search for a handler;
* `Machine.step`.
-/
import BytecodeVm.Machine.Basic
import BytecodeVm.Machine.Execute

namespace BytecodeVm

/-! ## 1. Small changes -/

namespace State

variable {σ : Type}

/-- Adds an event to the log. -/
def log (s : State σ) (event : Event) : State σ :=
  { s with events := s.events.push event }

/-- Adds events to the log, in their order. -/
def logAll (s : State σ) (events : List Event) : State σ :=
  { s with events := s.events ++ events }

end State

/-- The activation with a value on top of its stack. -/
def Activation.push (a : Activation) (v : Value) : Activation :=
  { a with frame.stack := v :: a.frame.stack }

/-- The activation at the start of a handler, with the aborted value on top of its stack. -/
def Activation.land (a : Activation) (v : Value) (target : UInt16) : Activation :=
  { a with frame.stack := v :: a.frame.stack, frame.ip := target.toNat }

namespace Machine

variable {σ : Type}

/-! ## 2. Calls -/

/-- A new activation for a call that is made while `depth` activations are there.

The limit is checked before the callee is looked up.  A call that gets past both takes a serial
number and is logged, even if its code then turns out not to decode. -/
def activate (m : Machine σ) (s : State σ) (index : UInt16) (args : List Value)
    (keepResult : Bool) (depth : Nat) : Except Trap Activation × State σ :=
  if m.settings.maxDepth ≤ depth then
    (.error (.depthExceeded m.settings.maxDepth), s)
  else
    match m.program.callee? index with
    | none => (.error (.missingBody index), s)
    | some callee =>
      let id := s.nextFrame
      let s := s.logAll (callee.events index)
      let s := { s.log (.called index id args.length depth) with nextFrame := id + 1 }
      match Frame.create callee.code callee.slots args with
      | .error trap => (.error trap, s)
      | .ok frame => (.ok { id, depth, frame, keepResult }, s)

/-! ## 3. Aborts -/

/-- Looks for the activation that an abort lands in: the first one, from the top, that the latest
handler belongs to.  Only that handler counts, whatever lies beneath it. -/
def unwind (v : Value) (s : State σ) : Activation → List Activation → StepResult σ
  | current, callers =>
    match s.handlers with
    | [] => .finished (.unwound v) s
    | handler :: rest =>
      if handler.frame = current.id then
        let s := { s.log (.landed current.id handler.target) with handlers := rest }
        .running { state := s, current := current.land v handler.target, callers }
      else
        match callers with
        | [] => .finished (.unwound v) s
        | caller :: below => unwind v s caller below
termination_by structural _ callers => callers

/-! ## 4. Steps -/

/-- Serves what the running activation asked for. -/
def serve (m : Machine σ) (s : State σ) (current : Activation) (callers : List Activation) :
    Request → StepResult σ
  | .proceed => .running { state := s, current, callers }
  | .allocate type =>
    let place := s.heap.nextObject
    let s := { s with heap := s.heap.allocate type }
    .running { state := s, current := current.push (.object place), callers }
  | .store place field v =>
    let s := { s with heap := s.heap.setField place field v }
    .running { state := s, current, callers }
  | .call index args keepResult =>
    match m.activate s index args keepResult (current.depth + 1) with
    | (.ok callee, s) => .running { state := s, current := callee, callers := current :: callers }
    | (.error trap, s) => .finished (.trapped trap) s
  | .native id args =>
    let reply := m.host.call id args s.heap s.host
    let s := { s.logAll reply.events with heap := reply.heap, host := reply.state }
    match reply.result with
    | .ok v => .running { state := s, current := current.push v, callers }
    | .error trap => .finished (.trapped trap) s
  | .ret v =>
    match callers with
    | [] => .finished (.returned v) s
    | caller :: below =>
      let s := s.log (.returned current.id current.depth)
      let caller := if current.keepResult then caller.push v else caller
      .running { state := s, current := caller, callers := below }
  | .abort v => unwind v (s.log (.aborted current.id (s.heap.render v))) current callers
  | .enter target =>
    let s := { s with handlers := ⟨current.id, target⟩ :: s.handlers }
    .running { state := s, current, callers }
  | .leave =>
    match s.handlers with
    | _ :: rest => .running { state := { s with handlers := rest }, current, callers }
    | [] => .finished (.trapped (.noHandler current.frame.opOffset)) s

/-- Executes one instruction of the running activation. -/
def step (m : Machine σ) (c : Config σ) : StepResult σ :=
  let ⟨s, ⟨id, depth, frame, keepResult⟩, callers⟩ := c
  match Frame.advance m.literal s.heap frame with
  | .ok request frame => m.serve s { id, depth, frame, keepResult } callers request
  | .error trap _ => .finished (.trapped trap) s

end Machine

end BytecodeVm
