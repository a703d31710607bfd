import HotPatch.Program.Component
import HotPatch.Program.Member

/-!
# Classes

A class with its members and marks.  Once its member set is closed, members
can no longer be added and access flags no longer change; asking for a
member that is already there is still fine.
-/

namespace HotPatch

/-- Where a class comes from. -/
inductive ClassKind where
  /-- Application code, which may be changed. -/
  | program
  /-- Platform or library code, which is only linked against. -/
  | library
  deriving DecidableEq

structure ClassDef where
  name : ClassName
  kind : ClassKind
  access : ClassAccess
  /-- Absent only at the top of the hierarchy. -/
  superclass : Option ClassName := none
  interfaces : List ClassName := []
  /-- Direct subclasses, in the order they came. -/
  subclasses : List ClassName := []
  tags : List Tag := []
  methods : List Method := []
  fields : List Field := []
  /-- Left alone by interception. -/
  disabled : Bool := false
  /-- Belongs to the vendor's push library. -/
  vendorPush : Bool := false
  marks : ComponentMarks := {}
  isGenesis : Bool := false
  /-- The member set is closed. -/
  closed : Bool := false
  deriving DecidableEq

/-- A change that a closed class refuses. -/
inductive Edit where
  | addMethod (name : MemberName)
  | addField (name : MemberName)
  | classAccess
  | memberAccess (name : MemberName)
  | methodId (name : MemberName)
  deriving DecidableEq

def Edit.describe : Edit → String
  | .addMethod name => "method " ++ name.text
  | .addField name => "field " ++ name.text
  | .classAccess => "class access flags"
  | .memberAccess name => "access flags of " ++ name.text
  | .methodId name => "method id of " ++ name.text

/-- Why a program cannot be changed as asked. -/
inductive GraphError where
  | duplicateClass (name : ClassName)
  | missingClass (name : ClassName)
  | missingMethod (method : MethodRef)
  | missingField (name : MemberName)
  | closed (cls : ClassName) (edit : Edit)
  deriving DecidableEq

def GraphError.message : GraphError → String
  | .duplicateClass name => "duplicate class " ++ name.text
  | .missingClass name => "missing class " ++ name.text
  | .missingMethod method => "missing member " ++ method.render
  | .missingField name => "missing member " ++ name.text
  | .closed cls edit =>
      "cannot modify " ++ edit.describe ++ " after members of " ++ cls.text ++ " were closed"

namespace ClassDef

def isProgram (c : ClassDef) : Bool := c.kind == .program

def isLibrary (c : ClassDef) : Bool := c.kind == .library

def isInterface (c : ClassDef) : Bool := c.access.isInterface

def hasTag (c : ClassDef) (type : ClassName) : Bool := Tag.anyOf c.tags type

def findMethod? (c : ClassDef) (name : MemberName) (signature : Signature) : Option Method :=
  c.methods.find? (·.isNamed name signature)

def findField? (c : ClassDef) (name : MemberName) : Option Field :=
  c.fields.find? (·.name == name)

/-- The class after `change`, which it refuses once closed. -/
def guarded (c : ClassDef) (edit : Edit) (change : ClassDef) : Except GraphError ClassDef :=
  if c.closed then .error (.closed c.name edit) else .ok change

/-- Declare a method, unless one of that name and signature is there. -/
def addMethod (c : ClassDef) (m : Method) : Except GraphError ClassDef :=
  match c.findMethod? m.name m.signature with
  | some _ => .ok c
  | none =>
      c.guarded (.addMethod m.name)
        { c with methods := c.methods ++ [{ m with owner := c.name }] }

/-- Declare a field, unless one of that name is there. -/
def addField (c : ClassDef) (f : Field) : Except GraphError ClassDef :=
  match c.findField? f.name with
  | some _ => .ok c
  | none =>
      c.guarded (.addField f.name)
        { c with fields := c.fields ++ [{ f with owner := c.name }] }

def setAccess (c : ClassDef) (access : ClassAccess) : Except GraphError ClassDef :=
  c.guarded .classAccess { c with access }

/-- Change the method of that name and signature. -/
def modifyMethod (c : ClassDef) (name : MemberName) (signature : Signature)
    (change : Method → Method) : ClassDef :=
  { c with methods := c.methods.map fun m => if m.isNamed name signature then change m else m }

def setMethodAccess (c : ClassDef) (name : MemberName) (signature : Signature)
    (access : MethodAccess) : Except GraphError ClassDef :=
  c.guarded (.memberAccess name) (c.modifyMethod name signature fun m => { m with access })

def setFieldAccess (c : ClassDef) (name : MemberName) (access : FieldAccess) :
    Except GraphError ClassDef :=
  c.guarded (.memberAccess name)
    { c with fields := c.fields.map fun f => if f.name = name then { f with access } else f }

/-- Close the member set. -/
def close (c : ClassDef) : ClassDef := { c with closed := true }

/-- Number a method, which can be done once. -/
def assignId (c : ClassDef) (name : MemberName) (signature : Signature) (id : Nat) :
    Except GraphError ClassDef :=
  match (c.findMethod? name signature).bind (·.id) with
  | some _ => .error (.closed c.name (.methodId name))
  | none => .ok (c.modifyMethod name signature fun m => { m with id := some id })

end ClassDef

end HotPatch
