import HotPatch.Boxing
import HotPatch.Fault
import HotPatch.Genesis.Overridable

/-!
# Genesis classes

A genesis class stands between a platform class and the program classes that
extend it, so that a patch can replace those as a whole.  It overrides every
method that can be overridden with a call to the platform's, redeclares the
platform's constructors under numbers, and has a buddy constructor that
picks one of them by number, with arguments from the current holder.
-/

namespace HotPatch.Genesis

/-- Behind the name of the platform class, the name of its genesis class. -/
def suffix : String := "$genesis"

def genesisName (bottom : ClassName) : ClassName := bottom.withSuffix suffix (by decide +kernel)

/-- A call with registers that are consecutive, in the form that fits. -/
def callRun (kind : InvokeKind) (args : RegisterList) (target : MethodRef) : Instruction :=
  if target.signature.slots kind.hasReceiver > maxFixedSlots then
    .invoke kind .range args target
  else .invoke kind .fixed args target

/-- The receiver and all parameters. -/
def ownRegisters (arguments : List (Register × ValueType)) : RegisterList :=
  .p 0 :: arguments.map Prod.fst

/-- The body that calls the platform's implementation and returns what it gives. -/
def stubCode (bottom : ClassName) (m : Method) (arguments : List (Register × ValueType)) :
    List Instruction :=
  let target : MethodRef := ⟨bottom, m.name, m.signature⟩
  let fetch := match m.signature.result with
    | none => []
    | some type => [.moveResult (.of type) ((Register.v 0).withWide type.isWide)]
  callRun .super (ownRegisters arguments) target ::
    (fetch ++ [Boxing.returnAs m.signature.result (.v 0)])

/-- The override of a virtual method on the genesis class. -/
def stub (bottom : ClassName) (m : Method) : Except BodyError Method := do
  let arguments ← Boxing.parameters m.signature true
  let body ← (Draft.empty.append (stubCode bottom m arguments)).finish m.parameterRegisters
  return { owner := genesisName bottom, name := m.name, signature := m.signature
           access := { m.access with isAbstract := false, isNative := false }
           body := some body }

/-- A constructor that subclasses everywhere can call. -/
def isInheritable (m : Method) : Bool :=
  m.isConstructor && (m.access.visibility == .pub || m.access.visibility == .prot)

/-- The constructors to redeclare, in the byte order of their descriptors. -/
def inheritable (bottom : ClassDef) : List Method :=
  (bottom.methods.filter isInheritable).mergeSort fun m n =>
    Text.byteLe m.signature.render n.signature.render

/-- A constructor of the genesis class that passes everything on to the platform's. -/
def redeclare (bottom : ClassName) (m : Method) (id : Nat) : Except BodyError Method := do
  let arguments ← Boxing.parameters m.signature true
  let code := [callRun .direct (ownRegisters arguments) m.ref, .returnVoid]
  let body ← (Draft.empty.append code).finish m.parameterRegisters
  return { owner := genesisName bottom, name := .init, signature := m.signature
           access := { pub := true, isInitializer := true }
           tags := [⟨Interceptor.genesisInitTag,
             [(Interceptor.methodIdElement, .int (Int32.ofNat id))]⟩]
           body := some body, genesisId := some id }

/-- The number of a redeclared constructor. -/
def numberOf (m : Method) : Except Fault Nat :=
  match m.genesisId with
  | some id => .ok id
  | none => .error (.missingGenesisId m.ref)

/-- A redeclared constructor with the registers into which its arguments are unpacked. -/
abbrev Target := Method × List (Register × ValueType)

/-- The call of a constructor needs the range form, and a copy of the receiver. -/
def caseRanged (m : Method) : Bool := m.parameterRegisters > maxFixedSlots

def caseTarget (m : Method) : Except BodyError Target := do
  let arguments ←
    Boxing.assign .locals (if caseRanged m then 5 else 4) m.signature.parameters
  return (m, arguments)

/-- Call one of the redeclared constructors, with arguments unpacked from the holder. -/
def dispatchCase (target : Target) (start done : Label) : List Instruction :=
  let (m, arguments) := target
  let receiver : Register := if caseRanged m then .v 4 else .p 0
  .label start :: (if caseRanged m then [.move .object (.v 4) (.p 0)] else []) ++
    Boxing.loadAll (.v 2) (.v 3) arguments ++
    [callRun .direct (receiver :: arguments.map Prod.fst) m.ref, .goto done]

/-- The exception for a number that no constructor has. -/
def illegalState : ClassName := .of "java/lang/IllegalStateException"

/-- Refuse a number that no constructor has. -/
def refuseNumber : List Instruction :=
  [.newInstance (.v 0) illegalState, .constString (.v 1) "unknown genesis constructor id",
    .invoke .direct .fixed [.v 0, .v 1] ⟨illegalState, .init, .void [.object .string]⟩,
    .throw (.v 0)]

/-- Pick one of the constructors by its number; the case at position `k` has label `k`, and the end
comes after all cases. -/
def dispatcherCode (numbers : List Nat) (targets : List Target) : List Instruction :=
  let done : Label := ⟨targets.length⟩
  [.instanceGet .plain (.v 0) (.p 1) Interceptor.buddyInitMethodId,
    .invoke .virtual .fixed [.p 1] Interceptor.buddyCurrent,
    .moveResult .object (.v 1),
    .instanceGet .object (.v 2) (.v 1) Interceptor.buddyParameters,
    .sparseSwitch (.v 0) (numbers.zipIdx.map fun (id, k) => (Int32.ofNat id, ⟨k⟩))] ++
    refuseNumber ++
    targets.zipIdx.flatMap (fun (target, k) => dispatchCase target ⟨k⟩ done) ++
    [.label done, .returnVoid]

def buddyAccess : MethodAccess := { pub := true, isInitializer := true, isSynthetic := true }

/-- The buddy constructor of the genesis class. -/
def dispatcher (bottom : ClassName) (constructors : List Method) : Except Fault Method := do
  let numbers ← constructors.mapM numberOf
  let targets ← (constructors.mapM caseTarget).mapError Fault.body
  let d := (Draft.empty.skipLabels (constructors.length + 1)).append
    (dispatcherCode numbers targets)
  let body ← (d.finish 2).mapError Fault.body
  return { owner := genesisName bottom, name := .init, signature := Interceptor.buddySignature
           access := buddyAccess, body := some body }

/-- The role of a genesis class. -/
def genesisRoles : Roles := { ancestor := true, genesis := true }

/-- The genesis class before it has methods. -/
def bareClass (component : ComponentType) (bottom : ClassName) : ClassDef where
  name := genesisName bottom
  kind := .program
  access := { pub := true }
  superclass := some bottom
  tags := [{ type := Interceptor.genesisTypeTag }]
  fields := [{ owner := genesisName bottom, name := Interceptor.buddyField, type := .rootObject
               access := { pub := true, isSynthetic := true } }]
  marks := ComponentMarks.none.mark component genesisRoles
  isGenesis := true

/-- Declare methods on an open class, in order. -/
def declareAll (c : ClassDef) (methods : List Method) : Except GraphError ClassDef :=
  methods.foldlM ClassDef.addMethod c

/-- The methods of a genesis class: overrides, numbered constructors, buddy constructor. -/
def synthesize (g : ClassGraph) (bottom : ClassDef) : Except Fault (List Method) := do
  let stubs ← ((overridable g bottom).mapM (stub bottom.name)).mapError Fault.body
  let constructors ← ((inheritable bottom).zipIdx.mapM fun (m, k) =>
    redeclare bottom.name m k).mapError Fault.body
  let buddy ← dispatcher bottom.name constructors
  return stubs ++ constructors ++ [buddy]

/-- The genesis class of a platform class.  If the platform class has a buddy constructor itself,
its redeclaration takes the place of the one that picks by number. -/
def genesisClass (g : ClassGraph) (component : ComponentType) (bottom : ClassDef) :
    Except Fault ClassDef := do
  let methods ← synthesize g bottom
  let c ← (declareAll (bareClass component bottom.name) methods).mapError Fault.graph
  return c.modifyMethod .init Interceptor.buddySignature fun m => { m with role := .wormhole }

end HotPatch.Genesis
