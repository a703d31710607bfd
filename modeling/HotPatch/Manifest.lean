import HotPatch.Bytecode.Draft
import HotPatch.Fault

/-!
# The components a program declares

The manifest declares classes as components of a type.  A declared class is
marked as such, and every class above it as an ancestor.  Component classes
get an empty static initializer if they have none: it is the place from
which a patch installs the interceptor of a class.
-/

namespace HotPatch

/-- The declared components, in the order of their declaration. -/
abbrev Manifest := List (ComponentType × ClassName)

namespace Manifest

/-- The classes declared under a component type. -/
def declared (m : Manifest) (component : ComponentType) : List ClassName :=
  (m.filter (·.1 == component)).map Prod.snd

/-- The component types with declarations, in manifest order, each with its classes. -/
def grouped (m : Manifest) : List (ComponentType × List ClassName) :=
  (ComponentType.all.map fun c => (c, m.declared c)).filter (!·.2.isEmpty)

/-- Mark one declared class and all classes above it. -/
def markOne (g : ClassGraph) (component : ComponentType) (name : ClassName) : ClassGraph :=
  match g.find? name with
  | none => g
  | some _ =>
      let above := g.ancestors name
      let roles (c : ClassDef) : Roles :=
        { direct := c.name == name, ancestor := above.contains c.name }
      g.mapClasses fun c => { c with marks := c.marks.mark component (roles c) }

/-- Mark all declared classes, and count those that are there. -/
def mark (g : ClassGraph) (m : Manifest) : Nat × ClassGraph :=
  (m.countP fun entry => (g.find? entry.2).isSome,
    m.foldl (fun g entry => markOne g entry.1 entry.2) g)

/-- A static initializer that does nothing. -/
def emptyStaticInitializer (owner : ClassName) : Method where
  owner := owner
  name := .clinit
  signature := .void []
  access := { isStatic := true, isInitializer := true }
  body := some ⟨0, 0, [.returnVoid], 0⟩

/-- The class lacks the static initializer that component classes need. -/
def lacksStaticInitializer (c : ClassDef) : Bool :=
  c.isProgram && !c.marks.isEmpty && !c.disabled
    && (c.findMethod? .clinit (.void [])).isNone

/-- Give component classes a static initializer, and count those that got one. -/
def addStaticInitializers : Pass ClassGraph Nat := do
  let added ← sweep lacksStaticInitializer fun c =>
    Pass.atomic Fault.graph (·.addMethod (emptyStaticInitializer c.name))
  return added.length

end Manifest

end HotPatch
