import HotPatch.Intercept.Delegation
import HotPatch.Intercept.Method

/-!
# Intercepting constructors

A constructor is intercepted in two phases, since its receiver cannot be
handed out before it is initialized.  The interceptor first sees the
arguments alone and decides whether the patch takes over.  If it does, the
delegated constructor call is made with the arguments the patch asks for, or
the superclass is initialized through its buddy constructor, and then the
interceptor gets the initialized receiver.  If it does not, the body runs.

Scratch registers: `v0` holds the interceptor, `v1` the context, `v2` the
packed arguments and then the method's number, `v3` an index, the flags and
then the arguments to unpack, `v4` a boxed argument, a masked flag and then
an index.  Unpacked arguments start at `v5`.
-/

namespace HotPatch.Intercept

/-- The two kinds of constructors. -/
inductive InitForm where
  /-- Of an ordinary class: through a buddy constructor only if the superclass declares one. -/
  | normal
  /-- Of a declared component, called by the platform: the superclass always has one. -/
  | direct
  deriving DecidableEq

/-- Locals that the code for the interceptor needs. -/
def initScratch : Nat := 5

/-- The call of a constructor needs the range form. -/
def ranged (target : MethodRef) : Bool := target.signature.slots true > maxFixedSlots

/-- The registers into which the arguments of a constructor are unpacked.  A call in the range form
has a copy of the receiver in front of them. -/
def initArguments (target : MethodRef) : Except BodyError (List (Register × ValueType)) :=
  Boxing.assign .locals (if ranged target then 6 else 5) target.signature.parameters

/-- Call a constructor on the receiver, with arguments unpacked from the context. -/
def callInit (target : MethodRef) (arguments : List (Register × ValueType)) : List Instruction :=
  let unpack : List Instruction :=
    if arguments.isEmpty then []
    else
      .instanceGet .object (.v 3) (.v 1) Interceptor.callArgs ::
        Boxing.loadAll (.v 3) (.v 4) arguments
  let registers := arguments.map Prod.fst
  if ranged target then
    .move .object (.v 5) (.p 0) ::
      (unpack ++ [.invoke .direct .range (.v 5 :: registers) target])
  else unpack ++ [.invoke .direct .fixed (.p 0 :: registers) target]

/-- Make a context that holds the arguments. -/
def makeContext (arguments : List (Register × ValueType)) : List Instruction :=
  let pack : List Instruction :=
    if arguments.isEmpty then []
    else
      .const (.v 2) (Int32.ofNat arguments.length) :: .newArray (.v 2) (.v 2) .objectArray ::
        .instancePut .object (.v 2) (.v 1) Interceptor.initArgs ::
        Boxing.storeAll (.v 2) (.v 3) (.v 4) arguments
  .invoke .static .fixed [] Interceptor.newInitContext :: .moveResult .object (.v 1) :: pack

/-- Ask the interceptor, and go on to the body unless the patch takes over. -/
def askInterceptor (id : Nat) (origin : Label) : List Instruction :=
  [.const (.v 2) (Int32.ofNat id),
    .invoke .interface .fixed [.v 0, .v 2, .v 1] Interceptor.invokeUnInit,
    .instanceGet .plain (.v 3) (.v 1) Interceptor.initFlag,
    .binaryLit .and (.v 4) (.v 3) Interceptor.interceptedBit,
    .branchZero .eq (.v 4) origin]

/-- Initialize the receiver by one of two calls, of the buddy constructor or the delegated one, as
the flag says. -/
def chooseInit (delegated buddy : List Instruction) (callBuddy initBody : Label) :
    List Instruction :=
  [.binaryLit .and (.v 4) (.v 3) Interceptor.buddyBit, .branchZero .ne (.v 4) callBuddy] ++
    delegated ++ [.goto initBody, .label callBuddy] ++ buddy ++ [.label initBody]

/-- Hand the initialized receiver to the interceptor. -/
def runInitBody : List Instruction :=
  [.instancePut .object (.p 0) (.v 1) Interceptor.thisArg,
    .invoke .interface .fixed [.v 0, .v 2, .v 1] Interceptor.invokeInitBody, .returnVoid]

/-- The body of a constructor with interception. -/
def constructorBody (m : Method) (id : Nat) (delegated : MethodRef) (buddy : Option MethodRef)
    (b : Body) : Except BodyError Body := do
  let (fork, d) := guardBody b initScratch (Interceptor.slot m.owner)
  let arguments ← Boxing.parameters m.signature true
  let asked := d.append (makeContext arguments ++ askInterceptor id fork.origin)
  let callDelegated := callInit delegated (← initArguments delegated)
  let inited ← match buddy with
    | none => pure (asked.append callDelegated)
    | some buddy => do
        let callBuddy := callInit buddy (← initArguments buddy)
        pure ((asked.skipLabels 2).append
          (chooseInit callDelegated callBuddy ⟨asked.nextLabel⟩ ⟨asked.nextLabel + 1⟩))
  (inited.append runInitBody).finish m.parameterRegisters

/-- The buddy constructor that the interceptor may ask for. -/
def buddyTarget (form : InitForm) (owner : ClassName) (superclass : Option ClassDef) :
    Except Fault (Option MethodRef) :=
  match form, superclass with
  | .direct, none => .error (.graph (.missingClass owner))
  | .direct, some s => .ok (some (Interceptor.buddyConstructor s.name))
  | .normal, none => .ok none
  | .normal, some s =>
      .ok ((s.findMethod? .init Interceptor.buddySignature).map Method.ref)

/-- Intercept a constructor.  It must be numbered; without a body it stays as it is. -/
def constructor (form : InitForm) (superclass : Option ClassDef) (m : Method) :
    Except Fault Method := do
  match m.id with
  | none => .error (.missingMethodId m.ref)
  | some id =>
      match m.body with
      | none => .ok m
      | some b =>
          let call ← Delegation.find (superclass.map (·.name)) m b
          let buddy ← buddyTarget form m.owner superclass
          match constructorBody m id call.method buddy b with
          | .error e => .error (.body e)
          | .ok b' => .ok { m with body := some b' }

end HotPatch.Intercept
