/- # Console output

A stream that takes bytes until it is full.  What still fits is written before a write fails.
-/
import BytecodeVm.Trap

namespace BytecodeVm

/-- An output stream: what was written, how many more bytes it takes, whether it refuses to be
flushed, and how often it was. -/
structure Sink where
  written : Array UInt8
  room : Option Nat
  flushFails : Bool
  flushes : Nat
  deriving DecidableEq, Inhabited, Repr

/-- Writing to a sink.  What was written before a fault stays written. -/
abbrev OnSink := EStateM StreamFault Sink

namespace Sink

/-- A stream that takes everything. -/
def unlimited : Sink :=
  { written := #[], room := none, flushFails := false, flushes := 0 }

/-- Writes what there is room for, and fails if that is not everything. -/
def write (bytes : List UInt8) : OnSink Unit := fun s =>
  match s.room with
  | none => .ok () { s with written := s.written ++ bytes }
  | some room =>
    let s := { s with written := s.written ++ bytes.take room, room := some (room - bytes.length) }
    if bytes.length ≤ room then .ok () s else .error .full s

/-- Counts a flush, unless the stream refuses it. -/
def flush : OnSink Unit := fun s =>
  if s.flushFails then .error .flushFailed s else .ok () { s with flushes := s.flushes + 1 }

end Sink

end BytecodeVm
