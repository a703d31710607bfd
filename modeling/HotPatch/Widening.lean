import HotPatch.Fault

/-!
# Making a program visible to its patches

Patches live in classes of their own and call straight into the program, so
classes, fields and static methods become public, and so do instance methods
that are not private.  A private instance method stays: calls to it name it
directly, and widening would make them virtual.  Static initializers stay
too, and so do the classes of the vendor's push library.
-/

namespace HotPatch.Widening

/-- The method is to become public. -/
def applies (makePublic : Bool) (m : Method) : Bool :=
  let wanted :=
    if m.isStaticInitializer then false
    else if m.isStatic then true
    else makePublic && m.access.visibility != .priv
  wanted && m.access.visibility != .pub

def widenMethod (makePublic : Bool) (m : Method) : Method :=
  if applies makePublic m then { m with access := m.access.widened } else m

def widenField (f : Field) : Field := { f with access := f.access.widened }

/-- Access of a class that is not private, once public. -/
def widenAccess (a : ClassAccess) : ClassAccess :=
  match a.visibility with
  | .pkg | .prot => a.widened
  | _ => a

/-- The first change that widening makes to a class. -/
def firstEdit? (makePublic : Bool) (c : ClassDef) : Option Edit :=
  if widenAccess c.access ≠ c.access then some .classAccess
  else
    match c.methods.find? (applies makePublic) with
    | some m => some (.memberAccess m.name)
    | none =>
        match c.fields.find? fun f => f.access.widened ≠ f.access with
        | some f => some (.memberAccess f.name)
        | none => none

/-- Widen one class.  A closed class passes if there is nothing to change. -/
def widenClass (makePublic : Bool) (c : ClassDef) : Except Fault ClassDef :=
  if c.access.visibility = .priv then .error (.privateClass c.name)
  else
    match firstEdit? makePublic c with
    | none => .ok c
    | some edit =>
        if c.closed then .error (.graph (.closed c.name edit))
        else
          .ok { c with
            access := widenAccess c.access
            methods := c.methods.map (widenMethod makePublic)
            fields := c.fields.map widenField }

/-- The classes that widening is about. -/
def selects (c : ClassDef) : Bool := c.isProgram && !c.vendorPush

/-- Widen all program classes, up to the first that refuses. -/
def widen (makePublic : Bool) : Pass ClassGraph Unit := do
  let _ ← sweep selects fun _ => Pass.atomic id (widenClass makePublic)

end HotPatch.Widening
