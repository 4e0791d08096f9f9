/- # Programs

A program as it is loaded: its imports, the constants that its code refers to by position, the
methods that its types declare, and the bodies of its methods and constructors.
-/
import BytecodeVm.Binary64.Text
import BytecodeVm.Value

namespace BytecodeVm

/-- What a constant stands for. -/
inductive ConstantKind where
  | type | constructor | method | field | property | string | number
  deriving DecidableEq, Inhabited, Repr

namespace ConstantKind

/-- The byte that stands for a kind in an image. -/
def tag : ConstantKind → UInt8
  | type => 1
  | constructor => 2
  | method => 3
  | field => 4
  | property => 5
  | string => 6
  | number => 7

/-- The kind that a tag stands for, if it stands for one. -/
def ofTag? : UInt8 → Option ConstantKind
  | 1 => some type
  | 2 => some constructor
  | 3 => some method
  | 4 => some field
  | 5 => some property
  | 6 => some string
  | 7 => some number
  | _ => none

/-- The name under which a kind is reported. -/
def name : ConstantKind → String
  | type => "Type"
  | constructor => "Constructor"
  | method => "Method"
  | field => "Field"
  | property => "Property"
  | string => "String"
  | number => "Number"

/-- The tag of a kind stands for it. -/
@[simp] theorem ofTag?_tag (k : ConstantKind) : ofTag? k.tag = some k := by
  cases k <;> rfl

/-- Every kind has its own tag only. -/
theorem tag_of_ofTag? {tag : UInt8} {k : ConstantKind} (h : ofTag? tag = some k) :
    k.tag = tag := by
  unfold ofTag? at h
  split at h <;> cases h <;> rfl

end ConstantKind

/-- An entry of the constant pool.  In a loaded program the index is the entry's position, and a
number is present exactly on entries of kind `number`, which are named by its text. -/
structure Constant where
  index : UInt16
  kind : ConstantKind
  name : String
  number : Option Binary64
  deriving DecidableEq, Inhabited, Repr

namespace Constant

/-- A symbol or a string. -/
def named (index : UInt16) (kind : ConstantKind) (name : String) : Constant :=
  { index, kind, name, number := none }

/-- A number, named by its text. -/
def numeric (index : UInt16) (x : Binary64) : Constant :=
  { index, kind := .number, name := x.render, number := some x }

/-- Whether a constant can have a body. -/
def isCallable (c : Constant) : Bool :=
  match c.kind with
  | .method | .constructor => true
  | _ => false

/-- The value of a constant: its number if it is one, and otherwise its name. -/
def literal (c : Constant) : Value :=
  match c.kind, c.number with
  | .number, some x => .number x
  | _, _ => .string c.name

end Constant

/-- A method as its type declares it. -/
structure MethodDecl where
  index : UInt16
  parameters : UInt16
  deriving DecidableEq, Inhabited, Repr

/-- A type with the methods that it declares. -/
structure TypeDecl where
  index : UInt16
  methods : List MethodDecl
  deriving DecidableEq, Inhabited, Repr

/-- The bytes of a body. -/
abbrev Code := Array UInt8

/-- The body of a method or constructor, with the number of local slots that it asks for. -/
structure Body where
  callable : UInt16
  slots : UInt16
  code : Code
  deriving DecidableEq, Inhabited, Repr

/-- A loaded program. -/
structure Program where
  major : UInt8
  minor : UInt8
  imports : List String
  constants : Array Constant
  types : List TypeDecl
  bodies : List Body
  deriving DecidableEq, Inhabited, Repr

namespace Program

/-- The constant at a position of the pool. -/
def constant? (p : Program) (index : UInt16) : Option Constant :=
  p.constants[index.toNat]?

/-- The first body of a callable; later ones are never reached. -/
def body? (p : Program) (callable : UInt16) : Option Body :=
  p.bodies.find? (fun body => decide (body.callable = callable))

/-- The first method whose name ends as given. -/
def methodEndingWith? (p : Program) (suffix : String) : Option Constant :=
  p.constants.toList.find? fun c =>
    decide (c.kind = .method) && suffix.toList.isSuffixOf c.name.toList

end Program

end BytecodeVm
