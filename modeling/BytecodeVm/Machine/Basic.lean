/- # The machine

A machine runs the bodies of a program.  Its configuration is the running activation, the suspended
ones beneath it, and a state that outlives them: the heap, the host, the handlers in force, the
serial number of the next activation and the log.

* `Host`: the native functions, as a function on the host's own state;
* `Activation`, `Handler`, `State`, `Config`: what a machine is made of while it runs;
* `Outcome`: how an invocation ends.
-/
import BytecodeVm.Event
import BytecodeVm.Frame
import BytecodeVm.Heap

namespace BytecodeVm

/-! ## 1. The host -/

/-- What a native call gives back: its result, and what it did to the heap, the host and the log. -/
structure HostReply (σ : Type) where
  result : Except Trap Value
  heap : Heap
  state : σ
  events : List Event

/-- The native functions of a host with states in `σ`, called by number. -/
structure Host (σ : Type) where
  call : UInt16 → List Value → Heap → σ → HostReply σ

/-! ## 2. The machine -/

/-- Where a run starts, and how deep it may go. -/
structure Settings where
  /-- A run starts at the first method whose name ends like this. -/
  entrySuffix : String
  /-- The largest number of activations at a time. -/
  maxDepth : Nat
  deriving DecidableEq, Repr

/-- What applies when nothing else is asked for. -/
def Settings.default : Settings :=
  ⟨"::Main()", 1000⟩

instance : Inhabited Settings :=
  ⟨Settings.default⟩

/-- A program with its settings and its host.  The values of its constants are made once, when the
machine is, and lie at the positions of the constants. -/
structure Machine (σ : Type) where
  program : Program
  settings : Settings
  host : Host σ
  literals : Array Value := program.constants.map Constant.literal
  literals_eq : literals = program.constants.map Constant.literal := by rfl

/-- The value of the constant with the given index. -/
def Machine.literal {σ : Type} (m : Machine σ) (index : UInt16) : Except Trap Value :=
  match m.literals[index.toNat]? with
  | some v => .ok v
  | none => .error (.constantOutOfRange index m.literals.size)

/-- An activation of a body: its serial number, the number of activations that it lies on, its
frame, and whether its caller wants its result. -/
structure Activation where
  id : Nat
  depth : Nat
  frame : Frame
  keepResult : Bool
  deriving DecidableEq, Inhabited, Repr

/-- A handler: the activation that entered the attempt, and where it goes on after an abort. -/
structure Handler where
  frame : Nat
  target : UInt16
  deriving DecidableEq, Inhabited, Repr

/-- What lives on between invocations.  The latest handler is first. -/
structure State (σ : Type) where
  heap : Heap
  host : σ
  handlers : List Handler
  /-- The serial number of the next activation.  It has no bound: that a counter of 64 bits starts
  again at zero after `2 ^ 64` activations is left out. -/
  nextFrame : Nat
  events : Array Event

/-- The state before anything has been run. -/
def State.initial {σ : Type} (host : σ) : State σ :=
  { heap := .empty, host, handlers := [], nextFrame := 0, events := #[] }

/-- A machine at work: the state, the running activation, and those that wait for it, the caller
first. -/
structure Config (σ : Type) where
  state : State σ
  current : Activation
  callers : List Activation

/-- How an invocation ends. -/
inductive Outcome where
  /-- The first activation returned. -/
  | returned (v : Value)
  /-- An abort found no handler. -/
  | unwound (v : Value)
  | trapped (trap : Trap)
  deriving DecidableEq, Inhabited, Repr

/-- What one step leads to. -/
inductive StepResult (σ : Type) where
  | running (c : Config σ)
  | finished (outcome : Outcome) (s : State σ)

/-! ## 3. What a call runs -/

/-- What a callable stands for: its body, or, for a constructor without one, a body that returns at
once. -/
inductive Callee where
  | body (b : Body)
  | defaultConstructor (name : String)
  deriving DecidableEq, Inhabited, Repr

namespace Callee

/-- The code to run. -/
def code : Callee → Code
  | body b => b.code
  | defaultConstructor _ => #[Opcode.ret.byte]

/-- The number of local slots that are asked for. -/
def slots : Callee → Nat
  | body b => b.slots.toNat
  | defaultConstructor _ => 1

/-- What is logged before the call. -/
def events (index : UInt16) : Callee → List Event
  | body _ => []
  | defaultConstructor name => [.defaultConstructor index name]

end Callee

/-- What the callable with the given index stands for, if it can be called. -/
def Program.callee? (p : Program) (index : UInt16) : Option Callee :=
  match p.body? index with
  | some b => some (.body b)
  | none =>
    match p.constant? index with
    | some c => if c.kind = .constructor then some (.defaultConstructor c.name) else none
    | none => none

end BytecodeVm
