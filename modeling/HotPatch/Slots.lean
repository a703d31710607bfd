import HotPatch.Fault
import HotPatch.Interceptor

/-!
# The fields that patches use

Every program class that is not left alone gets a static slot for its
interceptor and, in full mode, an instance slot for the fields that a patch
adds.  Genesis classes are program classes like any other here.
-/

namespace HotPatch.Slots

/-- The classes that get slots. -/
def selects (c : ClassDef) : Bool := c.isProgram && !c.disabled

/-- The slot for the interceptor of a class. -/
def interceptorField (owner : ClassName) : Field where
  owner := owner
  name := (Interceptor.slot owner).name
  type := (Interceptor.slot owner).type
  access := { pub := true, isStatic := true, isSynthetic := true }

/-- The slot for the fields that a patch adds. -/
def holderField (owner : ClassName) : Field where
  owner := owner
  name := (Interceptor.holderSlot owner).name
  type := (Interceptor.holderSlot owner).type
  access := { pub := true, isSynthetic := true, isTransient := true }

/-- Add a field to every class that gets slots, and count the classes. -/
def addEach (field : ClassName → Field) : Pass ClassGraph Nat := do
  let added ← sweep selects fun c => Pass.atomic Fault.graph (·.addField (field c.name))
  return added.length

def addInterceptorFields : Pass ClassGraph Nat := addEach interceptorField

def addHolderFields : Pass ClassGraph Nat := addEach holderField

end HotPatch.Slots
