/- # Native functions

The functions of the console that programs reach by number.
-/

namespace BytecodeVm

/-- A native function. -/
inductive Native where
  | print | printLine | read | readLine | readInt
  deriving DecidableEq, Inhabited, Repr

namespace Native

/-- The number by which programs call a function. -/
def id : Native → UInt16
  | print => 0
  | printLine => 1
  | read => 2
  | readLine => 3
  | readInt => 4

/-- The function with the given number, if there is one. -/
def ofId? : UInt16 → Option Native
  | 0 => some print
  | 1 => some printLine
  | 2 => some read
  | 3 => some readLine
  | 4 => some readInt
  | _ => none

/-- The name under which a function is reported. -/
def name : Native → String
  | print => "Print"
  | printLine => "PrintLine"
  | read => "Read"
  | readLine => "ReadLine"
  | readInt => "ReadInt"

/-- The number of arguments that a function takes, exactly. -/
def arity : Native → Nat
  | print | printLine => 1
  | read | readLine | readInt => 0

/-- The number of a function leads back to it. -/
@[simp] theorem ofId?_id (f : Native) : ofId? f.id = some f := by
  cases f <;> rfl

/-- Every function has its own number only. -/
theorem id_of_ofId? {id : UInt16} {f : Native} (h : ofId? id = some f) : f.id = id := by
  unfold ofId? at h
  split at h <;> cases h <;> rfl

end Native

end BytecodeVm
