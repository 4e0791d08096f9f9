/- # The console

The host that a program normally runs on: its native functions print values, and read characters,
lines and integers.

* `Console.read` takes as many bytes as the first of them announces, and gives one character;
* `Console.readLine` takes a line, which has to be UTF-8, and gives it without its terminator;
* `Console.readInt` takes a line and gives the integer on it;
* `Console.call` puts them behind their numbers.
-/
import BytecodeVm.Console.Sink
import BytecodeVm.Console.Source
import BytecodeVm.Machine.Basic
import BytecodeVm.Text.Blank
import BytecodeVm.Text.Integer
import BytecodeVm.Text.Utf8

namespace BytecodeVm

/-- A console: where input comes from, and where output goes. -/
structure Console where
  source : Source
  sink : Sink

/-- An operation on a console. -/
abbrev OnConsole := EStateM Trap Console

namespace Console

/-! ## 1. Streams -/

/-- Reads from the input; a fault of the stream is a trap. -/
def onSource {α : Type} (reading : OnSource α) : OnConsole α := fun c =>
  match reading c.source with
  | .ok a source => .ok a { c with source }
  | .error fault source => .error (.stream fault) { c with source }

/-- Writes to the output; a fault of the stream is a trap. -/
def onSink {α : Type} (writing : OnSink α) : OnConsole α := fun c =>
  match writing c.sink with
  | .ok a sink => .ok a { c with sink }
  | .error fault sink => .error (.stream fault) { c with sink }

/-! ## 2. Printing -/

/-- Writes a text and flushes the stream, so that a prompt is seen before its answer is read. -/
def print (text : String) : OnConsole Unit := do
  onSink (Sink.write (Utf8.encode text))
  onSink Sink.flush

/-- Writes a text and a line break, and leaves flushing to the stream. -/
def printLine (text : String) : OnConsole Unit :=
  onSink (Sink.write (Utf8.encode (text ++ "\n")))

/-! ## 3. Reading -/

/-- How many bytes a character takes, by the first of them.  A byte that starts no character stands
alone. -/
def sequenceWidth (first : UInt8) : Nat :=
  if first < 0xc0 then 1
  else if first < 0xe0 then 2
  else if first < 0xf0 then 3
  else 4

/-- The character that stands for bytes which are none. -/
def replacement : String :=
  "\uFFFD"

/-- The next character, or the empty text at the end of the stream. -/
def read : OnConsole String := do
  match ← onSource Source.look with
  | [] => return ""
  | first :: _ =>
    let bytes ← onSource (Source.takeBytes (sequenceWidth first))
    return (Utf8.decode bytes).getD replacement

/-- A line without the line break at its end, nor one carriage return before that. -/
def stripTerminator (line : List Char) : List Char :=
  match line.reverse with
  | '\n' :: '\r' :: rest => rest.reverse
  | '\n' :: rest => rest.reverse
  | _ => line

/-- The next line; the empty text at the end of the stream. -/
def readLine : OnConsole String := do
  let bytes ← onSource Source.takeLine
  match Utf8.decode bytes with
  | some line => return String.ofList (stripTerminator line.toList)
  | none => throw (.stream .notUtf8)

/-- The integer on the next line, blanks around it apart; zero if there is nothing else. -/
def readInt : OnConsole Binary64 := do
  let line ← readLine
  match trimBlanks line.toList with
  | [] => return .zero
  | text =>
    match parseInt64? text with
    | some z => return .ofInt z
    | none => throw (.invalidNumber line)

/-! ## 4. Calls by number -/

/-- Performs a native function; none if it does not take so many arguments. -/
def perform? (heap : Heap) : Native → List Value → Option (OnConsole Value)
  | .print, [v] => some do
    print (heap.render v)
    return .null
  | .printLine, [v] => some do
    printLine (heap.render v)
    return .null
  | .read, [] => some (.string <$> read)
  | .readLine, [] => some (.string <$> readLine)
  | .readInt, [] => some (.number <$> readInt)
  | _, _ => none

/-- Calls a native function by its number.  The number is checked first, then the arguments; a call
that passes both is logged, also if it then fails. -/
def call (id : UInt16) (args : List Value) (heap : Heap) (c : Console) : HostReply Console :=
  match Native.ofId? id with
  | none => { result := .error (.unknownNative id), heap, state := c, events := [] }
  | some native =>
    match perform? heap native args with
    | none => { result := .error (.nativeArity native args.length), heap, state := c, events := [] }
    | some action =>
      let events := [.nativeCalled native args.length]
      match action c with
      | .ok v c => { result := .ok v, heap, state := c, events }
      | .error trap c => { result := .error trap, heap, state := c, events }

/-- The host whose native functions are those of the console. -/
def host : Host Console :=
  ⟨call⟩

end Console

end BytecodeVm
