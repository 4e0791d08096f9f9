/- # Running

An invocation activates a callable and steps until the machine stops.  A program need not stop, so a
run is given a number of steps, and has no result if they do not suffice.
-/
import BytecodeVm.Machine.Step

namespace BytecodeVm.Machine

variable {σ : Type}

/-- Steps until the machine stops, for at most the given number of steps. -/
def run (m : Machine σ) : Nat → Config σ → Option (Outcome × State σ)
  | 0, _ => none
  | fuel + 1, c =>
    match m.step c with
    | .running c => run m fuel c
    | .finished outcome s => some (outcome, s)

/-- The first activation of an invocation.  Handlers that an earlier one left behind are dropped. -/
def start (m : Machine σ) (s : State σ) (index : UInt16) (args : List Value) : StepResult σ :=
  match m.activate { s with handlers := [] } index args true 0 with
  | (.ok current, s) => .running { state := s, current, callers := [] }
  | (.error trap, s) => .finished (.trapped trap) s

/-- Invokes a callable on the given arguments. -/
def invoke (m : Machine σ) (fuel : Nat) (s : State σ) (index : UInt16) (args : List Value) :
    Option (Outcome × State σ) :=
  match m.start s index args with
  | .running c => m.run fuel c
  | .finished outcome s => some (outcome, s)

/-- The entry method, if the program has one. -/
def entry? (m : Machine σ) : Option Constant :=
  m.program.methodEndingWith? m.settings.entrySuffix

/-- The first activation of a whole run: the entry method, without arguments. -/
def startEntry (m : Machine σ) (s : State σ) : StepResult σ :=
  match m.entry? with
  | none => .finished (.trapped (.missingEntry m.settings.entrySuffix)) s
  | some entry => m.start (s.log (.entryResolved entry.name entry.index)) entry.index []

/-- The result of a whole run: an abort that found no handler is a trap. -/
def entryResult (s : State σ) : Outcome → Except Trap Value
  | .returned v => .ok v
  | .unwound v => .error (.unhandledAbort (s.heap.render v))
  | .trapped trap => .error trap

/-- Runs the entry method. -/
def runEntry (m : Machine σ) (fuel : Nat) (s : State σ) : Option (Except Trap Value × State σ) :=
  match m.startEntry s with
  | .finished outcome s => some (entryResult s outcome, s)
  | .running c => (fun (outcome, s) => (entryResult s outcome, s)) <$> m.run fuel c

end BytecodeVm.Machine
