import HotPatch.Bytecode.Register
import HotPatch.Descriptor.Type

/-!
# Instructions

Register operands stand destination first.  Branches name labels, which a
pseudo-instruction places in the stream.
-/

namespace HotPatch

/-- A branch target inside one body. -/
structure Label where
  number : Nat
  deriving DecidableEq

/-- A label as listings show it. -/
def Label.render (l : Label) : String := ":L" ++ toString l.number

/-- A method named by its class, name and signature. -/
structure MethodRef where
  owner : ClassName
  name : MemberName
  signature : Signature
  deriving DecidableEq

namespace MethodRef

/-- Listing form, such as `La/B;->m()V`. -/
def render (m : MethodRef) : String :=
  m.owner.render ++ "->" ++ m.name.text ++ m.signature.render

/-- Member form, such as `a/B.m:()V`. -/
def renderMember (m : MethodRef) : String :=
  m.owner.text ++ "." ++ m.name.text ++ ":" ++ m.signature.render

/-- The same name and signature, owned by another class. -/
def withOwner (m : MethodRef) (owner : ClassName) : MethodRef := { m with owner }

end MethodRef

/-- A field named by its class, name and type. -/
structure FieldRef where
  owner : ClassName
  name : MemberName
  type : ValueType
  deriving DecidableEq

namespace FieldRef

/-- Listing form, such as `La/B;->f:I`. -/
def render (f : FieldRef) : String :=
  f.owner.render ++ "->" ++ f.name.text ++ ":" ++ f.type.render

/-- Member form, such as `a/B.f:I`. -/
def renderMember (f : FieldRef) : String :=
  f.owner.text ++ "." ++ f.name.text ++ ":" ++ f.type.render

end FieldRef

/-- Form of the value that a move or a return carries. -/
inductive ValueKind where
  | single | wide | object
  deriving DecidableEq

def ValueKind.of : ValueType → ValueKind
  | .base p => if p.isWide then .wide else .single
  | _ => .object

/-- Form of the value that an array or field access carries. -/
inductive AccessKind where
  | plain | wide | object | boolean | byte | char | short
  deriving DecidableEq

def AccessKind.of : ValueType → AccessKind
  | .base .boolean => .boolean
  | .base .byte => .byte
  | .base .char => .char
  | .base .short => .short
  | .base .int | .base .float => .plain
  | .base .long | .base .double => .wide
  | _ => .object

/-- How a call finds its target. -/
inductive InvokeKind where
  | virtual | super | direct | static | interface
  deriving DecidableEq

/-- All but static calls pass a receiver. -/
def InvokeKind.hasReceiver (kind : InvokeKind) : Bool := kind != .static

/-- A call lists up to five registers one by one, or a run of any length. -/
inductive InvokeForm where
  | fixed | range
  deriving DecidableEq

inductive Comparison where
  | eq | ne | lt | ge | gt | le
  deriving DecidableEq

inductive BinaryOp where
  | add | sub | mul | div | rem | and | or | xor | shl | shr | ushr
  deriving DecidableEq

inductive NumericType where
  | int | long | float | double
  deriving DecidableEq

/-- One instruction of a method body. -/
inductive Instruction where
  | label (label : Label)
  | nop
  | move (kind : ValueKind) (dst src : Register)
  | moveResult (kind : ValueKind) (dst : Register)
  | moveException (dst : Register)
  | returnVoid
  | returnValue (kind : ValueKind) (value : Register)
  | const (dst : Register) (value : Int32)
  | constWide (dst : Register) (value : Int64)
  | constString (dst : Register) (text : String)
  | constClass (dst : Register) (type : RefType)
  | checkCast (value : Register) (type : RefType)
  | instanceOf (dst value : Register) (type : RefType)
  | arrayLength (dst array : Register)
  | newInstance (dst : Register) (cls : ClassName)
  | newArray (dst size : Register) (type : RefType)
  | throw (exception : Register)
  | goto (target : Label)
  | branch (test : Comparison) (left right : Register) (target : Label)
  | branchZero (test : Comparison) (value : Register) (target : Label)
  | packedSwitch (key : Register) (first : Int32) (targets : List Label)
  | sparseSwitch (key : Register) (cases : List (Int32 × Label))
  | arrayGet (kind : AccessKind) (value array index : Register)
  | arrayPut (kind : AccessKind) (value array index : Register)
  | instanceGet (kind : AccessKind) (value object : Register) (field : FieldRef)
  | instancePut (kind : AccessKind) (value object : Register) (field : FieldRef)
  | staticGet (kind : AccessKind) (value : Register) (field : FieldRef)
  | staticPut (kind : AccessKind) (value : Register) (field : FieldRef)
  | invoke (kind : InvokeKind) (form : InvokeForm) (args : RegisterList) (method : MethodRef)
  | binary (op : BinaryOp) (type : NumericType) (dst left right : Register)
  | binaryLit (op : BinaryOp) (dst left : Register) (literal : Int16)
  deriving DecidableEq

namespace Instruction

/-- The register whose value the instruction replaces. -/
def written? : Instruction → Option Register
  | .move _ dst _ | .moveResult _ dst | .moveException dst
  | .const dst _ | .constWide dst _ | .constString dst _ | .constClass dst _
  | .instanceOf dst _ _ | .arrayLength dst _ | .newInstance dst _ | .newArray dst _ _
  | .arrayGet _ dst _ _ | .instanceGet _ dst _ _ | .staticGet _ dst _
  | .binary _ _ dst _ _ | .binaryLit _ dst _ _ => some dst
  | _ => none

/-- All register operands, read or written, in order. -/
def registers : Instruction → List Register
  | .label _ | .nop | .returnVoid | .goto _ => []
  | .moveResult _ r | .moveException r | .returnValue _ r
  | .const r _ | .constWide r _ | .constString r _ | .constClass r _
  | .checkCast r _ | .newInstance r _ | .throw r | .branchZero _ r _
  | .packedSwitch r _ _ | .sparseSwitch r _ | .staticGet _ r _ | .staticPut _ r _ => [r]
  | .move _ a b | .instanceOf a b _ | .arrayLength a b | .newArray a b _
  | .branch _ a b _ | .instanceGet _ a b _ | .instancePut _ a b _
  | .binaryLit _ a b _ => [a, b]
  | .arrayGet _ a b c | .arrayPut _ a b c | .binary _ _ a b c => [a, b, c]
  | .invoke _ _ args _ => args

/-- Labels the instruction may jump to, in order. -/
def targets : Instruction → List Label
  | .goto target | .branch _ _ _ target | .branchZero _ _ target => [target]
  | .packedSwitch _ _ targets => targets
  | .sparseSwitch _ cases => cases.map Prod.snd
  | _ => []

/-- The text of the field or method the instruction names. -/
def memberText? : Instruction → Option String
  | .instanceGet _ _ _ field | .instancePut _ _ _ field | .staticGet _ _ field
  | .staticPut _ _ field => some field.render
  | .invoke _ _ _ target => some target.render
  | _ => none

/-- Control may go on to the next instruction. -/
def fallsThrough : Instruction → Bool
  | .goto _ | .returnVoid | .returnValue _ _ | .throw _ => false
  | _ => true

/-- The label the instruction places. -/
def placed? : Instruction → Option Label
  | .label l => some l
  | _ => none

end Instruction

end HotPatch
