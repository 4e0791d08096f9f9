/- # A run from the command line

From the arguments to the exit code: the file is looked up, loaded and run on a console, and what
goes wrong on the way is reported with its causes.

* `plan`: what the arguments come to, as far as they alone decide;
* `machineFor`: the machine for what was found under the file's name;
* `run`: all of it, given the files and the input.
-/
import BytecodeVm.CommandLine.Options
import BytecodeVm.Console.Natives
import BytecodeVm.Image.Format
import BytecodeVm.Machine.Run

namespace BytecodeVm.CommandLine

/-! ## 1. Results -/

/-- What a run leaves behind. -/
structure Report where
  exitCode : UInt32
  stdout : List UInt8
  stderr : String

/-- Why a run failed after its arguments were accepted. -/
inductive Failure where
  | noFile
  | notFound (path : String)
  | unreadable (path reason : String)
  | notLoaded (path : String) (error : LoadError)
  | notExecuted (trap : Trap)
  deriving DecidableEq, Repr

/-- The failure and what caused it, from the outside in. -/
def Failure.message : Failure → String
  | noFile => "No file specified"
  | notFound path => s!"File not found: {path}"
  | unreadable path reason => s!"loading {path}: {LoadError.streamFailed.message}: {reason}"
  | notLoaded path error => s!"loading {path}: {error.message}"
  | notExecuted trap => s!"execution failed: {trap.chain}"

/-- A failure is reported on the error stream, below what had been printed. -/
def Failure.report (f : Failure) (stdout : List UInt8) : Report :=
  { exitCode := 1, stdout, stderr := s!"Error: {f.message}\n" }

/-- A misuse is reported on the error stream, and nothing is run. -/
def UsageError.report (e : UsageError) : Report :=
  { exitCode := 2
    stdout := []
    stderr := s!"error: {e.message}\n\nFor more information, try '--help'.\n" }

/-- What is printed on request. -/
def helpText : String :=
  "Run a compiled module\n\n" ++
  "Usage: [OPTIONS] [FILE]\n\n" ++
  "Arguments:\n" ++
  "  [FILE]  Path to the compiled module\n\n" ++
  "Options:\n" ++
  "      --entry <ENTRY>                    " ++
    "Suffix identifying the entry method in the constant pool [default: ::Main()]\n" ++
  "      --max-call-depth <MAX_CALL_DEPTH>  " ++
    "Maximum nested call depth before execution is aborted [default: 1000]\n" ++
  "  -h, --help                             Print help\n"

/-! ## 2. Plans -/

/-- What the arguments come to: a report at once, or a file to be run. -/
inductive Plan where
  | report (r : Report)
  | execute (path : String) (settings : Settings)

/-- Reads the arguments, and settles what needs no file. -/
def plan (arguments : List String) : Plan :=
  match parse arguments with
  | .error e => .report e.report
  | .ok .help => .report { exitCode := 0, stdout := Utf8.encode helpText, stderr := "" }
  | .ok (.run options) =>
    match options.file with
    | none => .report (Failure.noFile.report [])
    | some path => .execute path options.settings

/-- What is found under the name of a file. -/
inductive FoundFile where
  | missing
  | unreadable (reason : String)
  | contents (bytes : List UInt8)

/-- The machine that runs what was found. -/
def machineFor (path : String) (settings : Settings) : FoundFile → Except Failure (Machine Console)
  | .missing => .error (.notFound path)
  | .unreadable reason => .error (.unreadable path reason)
  | .contents bytes =>
    match (Image.load bytes).result with
    | .ok program => .ok { program, settings, host := Console.host }
    | .error e => .error (.notLoaded path e)

/-- The report on a run that has ended, with what it printed. -/
def conclude (stdout : List UInt8) : Except Trap Value → Report
  | .ok _ => { exitCode := 0, stdout, stderr := "" }
  | .error trap => (Failure.notExecuted trap).report stdout

/-! ## 3. Runs -/

/-- Runs what the arguments ask for, given the files by name and all of the input. -/
def run (fuel : Nat) (arguments : List String) (files : String → FoundFile) (stdin : List UInt8) :
    Option Report :=
  match plan arguments with
  | .report r => some r
  | .execute path settings =>
    match machineFor path settings (files path) with
    | .error failure => some (failure.report [])
    | .ok machine =>
      let console : Console := { source := .ofBytes stdin, sink := .unlimited }
      (fun (result, s) => conclude s.host.sink.written.toList result) <$>
        machine.runEntry fuel (State.initial console)

/-! ## 4. Input as it comes -/

/-- Whether a native function can be performed on the bytes at hand, without looking for more. -/
def isEnough (unread : List UInt8) : Native → Bool
  | .print | .printLine => true
  | .read =>
    match unread with
    | [] => false
    | first :: _ => decide (Console.sequenceWidth first ≤ unread.length)
  | .readLine | .readInt => unread.contains Source.lineBreak

/-- Whether the next step may look for more input than is at hand. -/
def wantsInput (c : Config Console) : Bool :=
  match Frame.decode c.current.frame with
  | .ok (some (.callNative id _)) _ =>
    match Native.ofId? id with
    | some native => !isEnough c.state.host.source.unread native
    | none => false
  | _ => false

/-- The configuration with more input. -/
def feed (c : Config Console) (bytes : List UInt8) : Config Console :=
  { c with state.host.source := .ofBytes (c.state.host.source.unread ++ bytes) }

/-- The state after its output has been taken, and that output. -/
def drain (s : State Console) : State Console × Array UInt8 :=
  ({ s with host.sink.written := #[] }, s.host.sink.written)

end BytecodeVm.CommandLine
