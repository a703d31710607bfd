import HotPatch.Program.Class

/-!
# The class graph

All classes of a program and of the libraries it links against, in the order
they were added.  A class is found by its name, which no two classes share.
The edge from a class to its superclass and the list of a class's direct
subclasses are kept in step: `addClass` links a class, `reparent` moves it,
and nothing else touches either.
-/

namespace HotPatch

structure ClassGraph where
  classes : List ClassDef := []
  deriving DecidableEq

namespace ClassGraph

def empty : ClassGraph := {}

def find? (g : ClassGraph) (name : ClassName) : Option ClassDef :=
  g.classes.find? (·.name == name)

/-- The class of that name. -/
def get (g : ClassGraph) (name : ClassName) : Except GraphError ClassDef :=
  match g.find? name with
  | some c => .ok c
  | none => .error (.missingClass name)

/-- The method that a reference names. -/
def getMethod (g : ClassGraph) (ref : MethodRef) : Except GraphError Method := do
  let c ← g.get ref.owner
  match c.findMethod? ref.name ref.signature with
  | some m => .ok m
  | none => .error (.missingMethod ref)

def getField (g : ClassGraph) (owner : ClassName) (name : MemberName) :
    Except GraphError Field := do
  let c ← g.get owner
  match c.findField? name with
  | some f => .ok f
  | none => .error (.missingField name)

/-- The program classes, in order. -/
def programClasses (g : ClassGraph) : List ClassDef := g.classes.filter (·.isProgram)

/-- Change every class on its own. -/
def mapClasses (g : ClassGraph) (change : ClassDef → ClassDef) : ClassGraph :=
  ⟨g.classes.map change⟩

/-- Change the class of that name. -/
def modify (g : ClassGraph) (name : ClassName) (change : ClassDef → ClassDef) : ClassGraph :=
  g.mapClasses fun c => if c.name = name then change c else c

/-- Change the class of that name, if the change succeeds. -/
def edit (g : ClassGraph) (name : ClassName)
    (change : ClassDef → Except GraphError ClassDef) : Except GraphError ClassGraph := do
  let c ← g.get name
  let c' ← change c
  return g.modify name fun _ => c'

/-- Enter a class among the direct subclasses of another. -/
def link (g : ClassGraph) (superclass name : ClassName) : ClassGraph :=
  g.modify superclass fun c => { c with subclasses := c.subclasses ++ [name] }

/-- Take a class out of the direct subclasses of another. -/
def unlink (g : ClassGraph) (superclass name : ClassName) : ClassGraph :=
  g.modify superclass fun c => { c with subclasses := c.subclasses.filter (· != name) }

/-- Add a class under its superclass, which must be there. -/
def addClass (g : ClassGraph) (c : ClassDef) : Except GraphError ClassGraph := do
  match c.superclass with
  | none => pure ()
  | some s => let _ ← g.get s
  if (g.find? c.name).isSome then .error (.duplicateClass c.name)
  else
    let added : ClassGraph := ⟨g.classes ++ [{ c with subclasses := [] }]⟩
    match c.superclass with
    | none => .ok added
    | some s => .ok (added.link s c.name)

def addMethod (g : ClassGraph) (m : Method) : Except GraphError ClassGraph :=
  g.edit m.owner (·.addMethod m)

def addField (g : ClassGraph) (f : Field) : Except GraphError ClassGraph :=
  g.edit f.owner (·.addField f)

/-- Move a class under another superclass. -/
def reparent (g : ClassGraph) (name superclass : ClassName) : Except GraphError ClassGraph := do
  let c ← g.get name
  let _ ← g.get superclass
  let unlinked := match c.superclass with
    | none => g
    | some old => g.unlink old name
  return (unlinked.modify name fun c => { c with superclass := some superclass }).link
    superclass name

/-- The superclasses of a class within the given number of steps, nearest first. -/
def ancestorsWithin (g : ClassGraph) : Nat → ClassName → List ClassName
  | 0, _ => []
  | steps + 1, name =>
      match (g.find? name).bind (·.superclass) with
      | none => []
      | some s => s :: ancestorsWithin g steps s

/-- All superclasses of a class, nearest first.  No chain without repetition is longer than the
number of classes. -/
def ancestors (g : ClassGraph) (name : ClassName) : List ClassName :=
  g.ancestorsWithin g.classes.length name

/-- The class's direct superclass, as it is in the graph. -/
def parent? (g : ClassGraph) (c : ClassDef) : Option ClassDef := c.superclass.bind g.find?

end ClassGraph

end HotPatch
