import HotPatch.Access
import HotPatch.Bytecode.Body
import HotPatch.Program.Tag

/-!
# Methods and fields

A member knows the class that declares it, so it can be named on its own.
-/

namespace HotPatch

/-- How a constructor takes part in interception. -/
inductive ConstructorRole where
  /-- Any constructor not otherwise classified. -/
  | plain
  /-- Constructor without arguments of a declared component, called by the platform. -/
  | componentDirect
  /-- Synthesized buddy constructor, never intercepted. -/
  | wormhole
  deriving DecidableEq

structure Method where
  owner : ClassName
  name : MemberName
  signature : Signature
  access : MethodAccess
  tags : List Tag := []
  /-- Absent for abstract and native methods. -/
  body : Option Body := none
  /-- Number within the class, given when the class is closed. -/
  id : Option Nat := none
  /-- Left alone by interception. -/
  disabled : Bool := false
  role : ConstructorRole := .plain
  /-- Number of a constructor redeclared on a genesis class. -/
  genesisId : Option Nat := none
  deriving DecidableEq

namespace Method

def ref (m : Method) : MethodRef := ⟨m.owner, m.name, m.signature⟩

/-- The method goes by this name and signature. -/
def isNamed (m : Method) (name : MemberName) (signature : Signature) : Bool :=
  m.name == name && m.signature == signature

/-- Two methods that one class cannot both declare. -/
def sameKey (m n : Method) : Bool := m.isNamed n.name n.signature

def isStatic (m : Method) : Bool := m.access.isStatic

/-- An instance initializer. -/
def isConstructor (m : Method) : Bool := m.name.isInit && !m.isStatic

/-- The static initializer. -/
def isStaticInitializer (m : Method) : Bool := m.name.isClinit

def hasBody (m : Method) : Bool := m.body.isSome

def hasTag (m : Method) (type : ClassName) : Bool := Tag.anyOf m.tags type

/-- Number of parameter registers, the receiver's included; the format counts in 16 bits. -/
def parameterRegisters (m : Method) : Nat := m.signature.slots (!m.isStatic) % 0x10000

end Method

structure Field where
  owner : ClassName
  name : MemberName
  type : ValueType
  access : FieldAccess
  deriving DecidableEq

namespace Field

def ref (f : Field) : FieldRef := ⟨f.owner, f.name, f.type⟩

def isStatic (f : Field) : Bool := f.access.isStatic

end Field

end HotPatch
