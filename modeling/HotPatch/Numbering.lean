import HotPatch.Fault

/-!
# Method numbers

A patch finds a method of a class by number.  Numbering closes the class and
counts its methods that can have code, in the byte order of names and then
of descriptors.  A method that is numbered already stops it.
-/

namespace HotPatch.Numbering

/-- The method can have code, so it gets a number. -/
def retains (c : ClassDef) (m : Method) : Bool :=
  !c.isInterface && !m.access.isAbstract && !m.access.isNative

/-- What methods are ordered by: name, then descriptor. -/
def key (m : Method) : String × String := (m.name.text, m.signature.render)

/-- The methods that get a number, in order. -/
def ordered (c : ClassDef) : List Method :=
  (c.methods.filter (retains c)).mergeSort fun m n => Text.byteLePair (key m) (key n)

/-- Number the methods one by one, from `next` on. -/
def assignFrom (next : Nat) : List Method → Pass ClassDef Unit
  | [] => return ()
  | m :: rest => do
      Pass.atomic Fault.graph (·.assignId m.name m.signature next)
      assignFrom (next + 1) rest

/-- Close a class and number its methods; the answer has them in order. -/
def assign : Pass ClassDef (List Method) := do
  modify ClassDef.close
  let methods := ordered (← get)
  assignFrom 0 methods
  return methods.zipIdx.map fun (m, id) => { m with id := some id }

end HotPatch.Numbering
