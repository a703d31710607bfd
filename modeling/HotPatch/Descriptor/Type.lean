import HotPatch.Name

/-!
# Types and signatures

The types of values, and of methods, with their descriptor texts: one letter
for a primitive, `L…;` around a class name, `[` before an element type, and
`(…)` around parameters.  Rendering is defined on lists of characters, the
form in which reading takes it apart again (`HotPatch.Descriptor.Reader`).
-/

namespace HotPatch

/-- Primitive value types. -/
inductive Primitive where
  | boolean | byte | short | char | int | long | float | double
  deriving DecidableEq

/-- Type of a field, a parameter or a returned value. -/
inductive ValueType where
  | base (type : Primitive)
  | object (cls : ClassName)
  | array (element : ValueType)
  deriving DecidableEq

/-- Type of a reference: a class or an array. -/
inductive RefType where
  | object (cls : ClassName)
  | array (element : ValueType)
  deriving DecidableEq

/-- Parameters and result of a method; no result type stands for `void`. -/
structure Signature where
  parameters : List ValueType
  result : Option ValueType
  deriving DecidableEq

namespace Primitive

/-- The type's letter, which is also its whole descriptor. -/
def code : Primitive → Char
  | .boolean => 'Z'
  | .byte => 'B'
  | .short => 'S'
  | .char => 'C'
  | .int => 'I'
  | .long => 'J'
  | .float => 'F'
  | .double => 'D'

def ofCode? : Char → Option Primitive
  | 'Z' => some .boolean
  | 'B' => some .byte
  | 'S' => some .short
  | 'C' => some .char
  | 'I' => some .int
  | 'J' => some .long
  | 'F' => some .float
  | 'D' => some .double
  | _ => none

/-- The two 64-bit types take two registers. -/
def isWide : Primitive → Bool
  | .long | .double => true
  | _ => false

/-- Number of registers. -/
def width (p : Primitive) : Nat := if p.isWide then 2 else 1

/-- The class whose objects hold values of this type. -/
def boxClass : Primitive → ClassName
  | .boolean => .of "java/lang/Boolean"
  | .byte => .of "java/lang/Byte"
  | .short => .of "java/lang/Short"
  | .char => .of "java/lang/Character"
  | .int => .of "java/lang/Integer"
  | .long => .of "java/lang/Long"
  | .float => .of "java/lang/Float"
  | .double => .of "java/lang/Double"

theorem ofCode?_code (p : Primitive) : ofCode? p.code = some p := by
  cases p <;> rfl

def render (p : Primitive) : String := String.ofList [p.code]

end Primitive

namespace ClassName

/-- Descriptor characters of a class. -/
def descriptorChars (name : ClassName) : List Char := 'L' :: (name.text.toList ++ [';'])

/-- Descriptor of a class. -/
def render (name : ClassName) : String := String.ofList name.descriptorChars

end ClassName

namespace ValueType

/-- Descriptor characters of a type. -/
def descriptorChars : ValueType → List Char
  | .base p => [p.code]
  | .object cls => cls.descriptorChars
  | .array element => '[' :: element.descriptorChars

def render (type : ValueType) : String := String.ofList type.descriptorChars

/-- The type takes two registers. -/
def isWide : ValueType → Bool
  | .base p => p.isWide
  | _ => false

/-- Number of registers. -/
def width (type : ValueType) : Nat := if type.isWide then 2 else 1

/-- Number of registers of values of the given types. -/
def totalWidth : List ValueType → Nat
  | [] => 0
  | type :: rest => type.width + totalWidth rest

/-- Number of array dimensions, zero for all but arrays. -/
def dimensions : ValueType → Nat
  | .array element => element.dimensions + 1
  | _ => 0

/-- The type's letter, with every reference collapsed to `L`. -/
def shapeCode : ValueType → Char
  | .base p => p.code
  | _ => 'L'

/-- The class at the root of all references. -/
def rootObject : ValueType := .object .object

/-- Exactly the root class. -/
def isRootObject (type : ValueType) : Bool := type == rootObject

/-- The type with every reference replaced by the root class. -/
def erased : ValueType → ValueType
  | .base p => .base p
  | _ => rootObject

end ValueType

namespace RefType

def toValue : RefType → ValueType
  | .object cls => .object cls
  | .array element => .array element

def render (type : RefType) : String := type.toValue.render

/-- Number of array dimensions, zero for class types. -/
def dimensions (type : RefType) : Nat := type.toValue.dimensions

/-- Arrays of the root class, which carry boxed arguments. -/
def objectArray : RefType := .array .rootObject

end RefType

namespace Signature

/-- Descriptor characters of a signature. -/
def descriptorChars (s : Signature) : List Char :=
  '(' :: (s.parameters.flatMap ValueType.descriptorChars ++
    ')' :: (match s.result with
      | none => ['V']
      | some type => type.descriptorChars))

def render (s : Signature) : String := String.ofList s.descriptorChars

/-- A signature without a result. -/
def void (parameters : List ValueType) : Signature := ⟨parameters, none⟩

/-- Number of parameter registers, the receiver's included when there is one. -/
def slots (s : Signature) (hasReceiver : Bool) : Nat :=
  hasReceiver.toNat + ValueType.totalWidth s.parameters

/-- One letter a parameter, references collapsed to `L`; `V` for no parameters. -/
def shape (s : Signature) : String :=
  if s.parameters.isEmpty then "V" else String.ofList (s.parameters.map ValueType.shapeCode)

end Signature

end HotPatch
