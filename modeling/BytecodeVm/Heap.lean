/- # The heap

Objects and arrays live in two arenas that only grow, so a reference stays good for ever, and two
references are the same exactly when they name the same place.  What a value looks like to a program
depends on the heap only through the type of an object and the type and length of an array, and none
of these ever change.

* `Heap.render`: the text of a value;
* `Heap.add`, `Heap.compare`: the two operations whose meaning depends on whether a string is
  involved.
-/
import BytecodeVm.Binary64.Arithmetic
import BytecodeVm.Binary64.Text
import BytecodeVm.Trap

namespace BytecodeVm

/-! ## 1. Objects -/

/-- The set fields of an object, in ascending order of their index. -/
abbrev Fields := List (UInt16 × Value)

namespace Fields

/-- The value of a field, if it is set. -/
def get? : Fields → UInt16 → Option Value
  | [], _ => none
  | (i, v) :: rest, field => if i = field then some v else get? rest field

/-- Sets a field, in its place if it was not set before. -/
def insert : Fields → UInt16 → Value → Fields
  | [], field, v => [(field, v)]
  | (i, w) :: rest, field, v =>
    if field = i then (field, v) :: rest
    else if field < i then (field, v) :: (i, w) :: rest
    else (i, w) :: insert rest field v

end Fields

/-- An object: the pool index of its type, and its set fields. -/
structure Object where
  type : UInt16
  fields : Fields
  deriving DecidableEq, Inhabited, Repr

namespace Object

/-- The value of a field; a field that is not set is null. -/
def field (o : Object) (index : UInt16) : Value :=
  (Fields.get? o.fields index).getD .null

/-- The object with a field set. -/
def setField (o : Object) (index : UInt16) (v : Value) : Object :=
  { o with fields := Fields.insert o.fields index v }

end Object

/-- An array: the pool index of its element type, and its elements, whose number is fixed. -/
structure ArrayCell where
  element : UInt16
  items : Array Value
  deriving DecidableEq, Inhabited, Repr

namespace ArrayCell

/-- The element at an index. -/
def item (a : ArrayCell) (index : Nat) : Except Trap Value :=
  match a.items[index]? with
  | some v => .ok v
  | none => .error (.indexOutOfRange index a.items.size)

/-- The array with the element at an index replaced. -/
def setItem (a : ArrayCell) (index : Nat) (v : Value) : Except Trap ArrayCell :=
  if index < a.items.size then .ok { a with items := a.items.setIfInBounds index v }
  else .error (.indexOutOfRange index a.items.size)

end ArrayCell

/-! ## 2. The arenas -/

/-- The objects and arrays of a run, each at its place. -/
structure Heap where
  objects : Array Object
  arrays : Array ArrayCell
  deriving DecidableEq, Inhabited, Repr

namespace Heap

/-- A heap with nothing on it. -/
def empty : Heap :=
  ⟨#[], #[]⟩

/-- The place of the next object. -/
def nextObject (h : Heap) : Nat :=
  h.objects.size

/-- The place of the next array. -/
def nextArray (h : Heap) : Nat :=
  h.arrays.size

/-- Adds an object without fields, at `nextObject`. -/
def allocate (h : Heap) (type : UInt16) : Heap :=
  { h with objects := h.objects.push ⟨type, []⟩ }

/-- Adds an array of nulls, at `nextArray`. -/
def allocateArray (h : Heap) (element : UInt16) (length : Nat) : Heap :=
  { h with arrays := h.arrays.push ⟨element, Array.replicate length .null⟩ }

/-- The object at a place. -/
def object (h : Heap) (place : Nat) : Object :=
  (h.objects[place]?).getD default

/-- The array at a place. -/
def array (h : Heap) (place : Nat) : ArrayCell :=
  (h.arrays[place]?).getD default

/-- Sets a field of an object. -/
def setField (h : Heap) (place : Nat) (field : UInt16) (v : Value) : Heap :=
  { h with objects := h.objects.modify place (·.setField field v) }

/-- Replaces an array by another state of it. -/
def setArray (h : Heap) (place : Nat) (a : ArrayCell) : Heap :=
  { h with arrays := h.arrays.setIfInBounds place a }

end Heap

/-! ## 3. Access by kind -/

namespace Value

/-- The trap for a value of the wrong kind. -/
def mismatch (v : Value) (context : Context) (expected : Kind) : Trap :=
  .typeMismatch context expected v.kind

/-- A number, or the trap that it is none. -/
def asNumber (context : Context) : Value → Except Trap Binary64
  | number x => .ok x
  | v => .error (v.mismatch context .number)

/-- A text, or the trap that it is none. -/
def asString (context : Context) : Value → Except Trap String
  | string text => .ok text
  | v => .error (v.mismatch context .string)

/-- The place of an object. -/
def asObject (context : Context) : Value → Except Trap Nat
  | object place => .ok place
  | v => .error (v.mismatch context .object)

/-- The place of an array. -/
def asArray (context : Context) : Value → Except Trap Nat
  | array place => .ok place
  | v => .error (v.mismatch context .array)

end Value

/-! ## 4. Text, sum and order -/

namespace Heap

/-- The text of a value, as programs print, concatenate and compare it. -/
def render (h : Heap) : Value → String
  | .null => "null"
  | .bool true => "true"
  | .bool false => "false"
  | .number x => x.render
  | .string text => text
  | .object place => s!"object#{(h.object place).type}"
  | .array place => s!"array#{(h.array place).element}[{(h.array place).items.size}]"

/-- A description of a value for its host.  References are shown with the given address. -/
def inspect (h : Heap) (address : String) : Value → String
  | .null => "Null"
  | .bool true => "Bool(true)"
  | .bool false => "Bool(false)"
  | .number x => s!"Number({x.inspect})"
  | .string text => s!"String({Quoted.quote text})"
  | .object place => s!"Object({address}, type={(h.object place).type})"
  | .array place => s!"Array({address}, len={(h.array place).items.size})"

/-- The sum of two values: their texts together if one of them is a string, and otherwise the sum of
two numbers, the first of which is checked first. -/
def add (h : Heap) (a b : Value) : Except Trap Value := do
  if a.isString || b.isString then
    return .string (h.render a ++ h.render b)
  let x ← a.asNumber (.instruction .add)
  let y ← b.asNumber (.instruction .add)
  return .number (x.add y)

/-- The order of two values: that of their texts, by code points, if one of them is a string, and
otherwise that of two numbers, which a NaN has none of. -/
def compare (h : Heap) (context : Context) (a b : Value) : Except Trap (Option Ordering) := do
  if a.isString || b.isString then
    return some (compareOfLessAndEq (h.render a) (h.render b))
  let x ← a.asNumber context
  let y ← b.asNumber context
  return x.partialCompare? y

end Heap

end BytecodeVm
