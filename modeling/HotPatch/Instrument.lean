import HotPatch.Genesis.Hierarchy
import HotPatch.Intercept.Constructor
import HotPatch.Intercept.StaticInit
import HotPatch.Numbering
import HotPatch.Report
import HotPatch.Settings
import HotPatch.Slots
import HotPatch.Widening

/-!
# A whole run

The passes in order: marks, widening, component marks; in full mode genesis
classes, static initializers and holder slots; interceptor slots; and then,
class by class, numbers and interception.  The first fault ends the run and
leaves the program as it is by then.
-/

namespace HotPatch.Instrument

/-- The form in which a constructor is intercepted, if it is. -/
def initForm? (s : Settings) (role : ConstructorRole) : Option Intercept.InitForm :=
  match role with
  | .wormhole => none
  | .componentDirect => if s.isFull then some .direct else normal
  | .plain => normal
where
  normal : Option Intercept.InitForm := if s.constructors then some .normal else none

/-- Intercept a method in the way that suits it; no answer means that it is left as it is. -/
def route (s : Settings) (superclass : Option ClassDef) (m : Method) :
    Except Fault (Option Method) :=
  if m.disabled || !m.hasBody then .ok none
  else if m.isStaticInitializer then (Intercept.staticInit m).map some
  else if m.isConstructor then
    match initForm? s m.role with
    | none => .ok none
    | some form => (Intercept.constructor form superclass m).map some
  else (Intercept.method (.classify s.shapes m) m).map some

/-- The entry of a method in the report. -/
def methodReport (s : Settings) (m : Method) (id : Nat) (instrumented : Bool) : MethodReport where
  name := m.name
  signature := m.signature
  id := id
  dispatch :=
    if instrumented && !m.isStaticInitializer then some (.classify s.shapes m) else none
  instrumented := instrumented

/-- Intercept the numbered methods of a class in order. -/
def interceptAll (s : Settings) (superclass : Option ClassDef) :
    List Method → Nat → Pass ClassDef (List MethodReport)
  | [], _ => return []
  | m :: rest, id => do
      match route s superclass m with
      | .error e => throw e
      | .ok none =>
          return methodReport s m id false :: (← interceptAll s superclass rest (id + 1))
      | .ok (some m') =>
          modify (·.modifyMethod m.name m.signature fun _ => m')
          return methodReport s m id true :: (← interceptAll s superclass rest (id + 1))

/-- Number the methods of a class and intercept them. -/
def instrumentClass (s : Settings) (superclass : Option ClassDef) : Pass ClassDef ClassReport := do
  let methods ← Numbering.assign
  let reports ← interceptAll s superclass methods 0
  return ⟨(← get).name, reports⟩

/-- Instrument the class of that name within its program. -/
def instrumentNamed (s : Settings) (name : ClassName) : Pass ClassGraph ClassReport := do
  let g ← get
  match g.find? name with
  | none => throw (.graph (.missingClass name))
  | some c =>
      let done := (instrumentClass s (g.parent? c)).on c
      set (g.modify name fun _ => done.2)
      match done.1 with
      | .ok report => return report
      | .error e => throw e

/-- Instrument all program classes that are not left alone. -/
def instrumentClasses (s : Settings) : Pass ClassGraph (List ClassReport) := do
  let g ← get
  sweep Slots.selects fun c => instrumentClass s (g.parent? c)

/-- Set the marks that need no more than the settings. -/
def prepare (s : Settings) (g : ClassGraph) : ClassGraph :=
  let marked := if s.skipVendorPush then (Selection.markVendorPush g).2 else g
  (Selection.markDisabled marked s.filter).2

/-- What only full mode does. -/
def completeHierarchy : Pass ClassGraph (List ClassName) := do
  let genesis ← Genesis.build
  let _ ← Manifest.addStaticInitializers
  let _ ← Slots.addHolderFields
  return genesis

/-- Instrument a whole program. -/
def run (s : Settings) : Pass ClassGraph Report := do
  modify (prepare s)
  Widening.widen s.makePublic
  modify fun g => (Manifest.mark g s.manifest).2
  let genesisClasses ← if s.isFull then completeHierarchy else pure []
  let _ ← Slots.addInterceptorFields
  let classes ← instrumentClasses s
  return { classes, genesisClasses }

/-- Change one method of a program, if the change succeeds.  It may depend on the class that
declares the method and on the direct superclass. -/
def updateMethod (g : ClassGraph) (ref : MethodRef)
    (change : Option ClassDef → Method → Except Fault Method) : Except Fault ClassGraph := do
  let c ← (g.get ref.owner).mapError Fault.graph
  let m ← (g.getMethod ref).mapError Fault.graph
  let m' ← change (g.parent? c) m
  return g.modify ref.owner (·.modifyMethod ref.name ref.signature fun _ => m')

end HotPatch.Instrument
