import BytecodeVm.CommandLine.Session
import BytecodeVm.Console.Natives
import BytecodeVm.Image.Format
import BytecodeVm.Machine.Run
import BytecodeVm.Main
import BytecodeVm.Proofs.Image.Canonical
import BytecodeVm.Proofs.Image.Defects
import BytecodeVm.Proofs.Machine.Attempts
import BytecodeVm.Proofs.Machine.Boundaries
import BytecodeVm.Proofs.Machine.Confinement
import BytecodeVm.Proofs.Machine.Forwarding
import BytecodeVm.Proofs.Machine.Origins
import BytecodeVm.Proofs.Machine.RaisedLimit
import BytecodeVm.Proofs.Machine.Recursive
import BytecodeVm.Proofs.Machine.Renumbering
import BytecodeVm.Proofs.Machine.Replay
import BytecodeVm.Proofs.Machine.Termination
import BytecodeVm.Proofs.Image.Extension
import BytecodeVm.Proofs.Machine.SameCode
import BytecodeVm.Proofs.Console.Buffering
import BytecodeVm.Proofs.Frame.Calls
import BytecodeVm.Proofs.Machine.Landing
import BytecodeVm.Proofs.Machine.Callers
import BytecodeVm.Proofs.Machine.Constructors
import BytecodeVm.Proofs.Text.Utf8
import BytecodeVm.Proofs.Console.Reading
import BytecodeVm.Proofs.Console.Lines
import BytecodeVm.Proofs.Console.Characters
import BytecodeVm.Proofs.Code.Slots
import BytecodeVm.Proofs.Machine.Undecodable
import BytecodeVm.Proofs.Frame.Comparison
import BytecodeVm.Proofs.Binary64.Rounding
import BytecodeVm.Proofs.Text.Integer
import BytecodeVm.Proofs.Console.Integers
import BytecodeVm.Proofs.Binary64.Shortest
import BytecodeVm.Proofs.Binary64.Rendering
import BytecodeVm.Proofs.Machine.Widths
import BytecodeVm.Proofs.Image.Cursor
