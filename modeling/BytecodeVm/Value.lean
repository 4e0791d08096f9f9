/- # Values

What a program computes with: six kinds of values, of which objects and arrays are references into a
heap and everything else is the value itself.
-/
import BytecodeVm.Binary64.Basic

namespace BytecodeVm

/-- The kinds of values. -/
inductive Kind where
  | null | bool | number | string | object | array
  deriving DecidableEq, Inhabited, Repr

/-- The name under which a kind is reported. -/
def Kind.name : Kind → String
  | null => "Null"
  | bool => "Bool"
  | number => "Number"
  | string => "String"
  | object => "Object"
  | array => "Array"

/-- A value.  An object or array is given by its place in the heap. -/
inductive Value where
  | null
  | bool (b : Bool)
  | number (x : Binary64)
  | string (text : String)
  | object (place : Nat)
  | array (place : Nat)
  deriving DecidableEq, Inhabited, Repr

namespace Value

/-- The kind of a value. -/
def kind : Value → Kind
  | null => .null
  | bool _ => .bool
  | number _ => .number
  | string _ => .string
  | object _ => .object
  | array _ => .array

/-- Whether a value is null. -/
def isNull (v : Value) : Bool :=
  decide (v.kind = .null)

/-- Whether a value is a string. -/
def isString (v : Value) : Bool :=
  decide (v.kind = .string)

/-- Whether a condition holds: `true` holds and nothing else does. -/
def isTrue : Value → Bool
  | bool b => b
  | _ => false

/-- Equality of programs: same kind and same value, where numbers are equal as numbers and
references when they refer to the same place. -/
def equal : Value → Value → Bool
  | null, null => true
  | bool a, bool b => decide (a = b)
  | number x, number y => x.numericallyEqual y
  | string s, string t => decide (s = t)
  | object i, object j => decide (i = j)
  | array i, array j => decide (i = j)
  | _, _ => false

end Value

end BytecodeVm
