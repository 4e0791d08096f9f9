/- # The command

Runs a compiled program on the terminal.  Input is read when the program asks for it, and output is
written as soon as it is there.
-/
import BytecodeVm.CommandLine.Session

namespace BytecodeVm.CommandLine

/-- Looks a file up by name. -/
def findFile (path : String) : IO FoundFile := do
  try
    return .contents (← IO.FS.readBinFile path).data.toList
  catch e =>
    match e with
    | .noFileOrDirectory .. => return .missing
    | .inappropriateType .. => return .unreadable "Is a directory (os error 21)"
    | e => return .unreadable e.toString

/-- Writes what the program has printed. -/
def emit (s : State Console) : IO (State Console) := do
  let (s, printed) := drain s
  unless printed.isEmpty do
    let stdout ← IO.getStdout
    stdout.write ⟨printed⟩
    stdout.flush
  return s

/-- Steps to the end of the run.  While there may be more input, the program does not see its end.
-/
partial def drive (m : Machine Console) (inputEnded : Bool) :
    StepResult Console → IO (Outcome × State Console)
  | .finished outcome s => return (outcome, ← emit s)
  | .running c => do
    let c := { c with state := ← emit c.state }
    if wantsInput c && !inputEnded then
      let bytes ← (← IO.getStdin).read 4096
      drive m bytes.isEmpty (.running (feed c bytes.data.toList))
    else drive m inputEnded (m.step c)

/-- Prints a report, and gives its exit code. -/
def finish (r : Report) : IO UInt32 := do
  (← IO.getStdout).write ⟨r.stdout.toArray⟩
  IO.eprint r.stderr
  return r.exitCode

end BytecodeVm.CommandLine

open BytecodeVm BytecodeVm.CommandLine in
/-- Runs the file that the arguments name. -/
def main (arguments : List String) : IO UInt32 := do
  match plan arguments with
  | .report r => finish r
  | .execute path settings =>
    match machineFor path settings (← findFile path) with
    | .error failure => finish (failure.report [])
    | .ok machine =>
      let console : Console := { source := .ofBytes [], sink := .unlimited }
      let (outcome, s) ← drive machine false (machine.startEntry (State.initial console))
      finish (conclude [] (Machine.entryResult s outcome))
