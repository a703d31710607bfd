import HotPatch.Boxing
import HotPatch.Fault
import HotPatch.Intercept.Dispatch

/-!
# Intercepting ordinary methods

The body stays as it was behind a test of the class's interceptor slot.  With
an interceptor in the slot the arguments go to it first: if it answers with a
result, the method returns the value in that result, and if it answers with
nothing, the body runs after all.

Scratch registers, beyond what the body uses itself: `v0` holds the
interceptor and then its answer, `v1` an index, the method's number and then
the value to return, `v2` a boxed argument and the receiver, `v3` the
arguments.
-/

namespace HotPatch.Intercept

/-- Locals that the code for the interceptor needs. -/
def methodScratch : Nat := 4

/-- Call the interceptor with the arguments in an array; a static method has no receiver. -/
def commonCall (m : Method) (id : Nat) (arguments : List (Register × ValueType)) :
    List Instruction :=
  .const (.v 3) (Int32.ofNat arguments.length) :: .newArray (.v 3) (.v 3) .objectArray ::
    (Boxing.storeAll (.v 3) (.v 1) (.v 2) arguments ++
      [.const (.v 1) (Int32.ofNat id),
        if m.isStatic then .const (.v 2) 0 else .move .object (.v 2) (.p 0),
        .invoke .interface .fixed [.v 0, .v 1, .v 2, .v 3] Interceptor.invokeCommon])

/-- Call the overload for a shape with the arguments in place.  They are the last registers of the
frame, so the interceptor, the number and the absent receiver of a static method go into the last
locals, right below them. -/
def shapeCall (m : Method) (id : Nat) (shape : String) (locals : Nat)
    (arguments : List (Register × ValueType)) : List Instruction :=
  let first := if m.isStatic then locals - 3 else locals - 2
  let receiver : Register := if m.isStatic then .v (first + 2) else .p 0
  (if first = 0 then [] else [.move .object (.v first) (.v 0)]) ++
    [.const (.v (first + 1)) (Int32.ofNat id)] ++
    (if m.isStatic then [.const (.v (first + 2)) 0] else []) ++
    [.invoke .interface .range
      (.v first :: .v (first + 1) :: receiver :: arguments.map Prod.fst)
      (Interceptor.invokeShape shape)]

/-- Narrow a value of the root class to the type it is returned as. -/
def narrowTo (value : Register) : ValueType → List Instruction
  | .base _ => []
  | .object cls => if cls = .object then [] else [.checkCast value (.object cls)]
  | .array element => [.checkCast value (.array element)]

/-- Return what the interceptor answered, or go on to the body if it answered nothing. -/
def returnAnswer (result : Option ValueType) (origin : Label) : List Instruction :=
  let load := match result with
    | none => []
    | some type =>
        .instanceGet (.of (Interceptor.resultValue type).type) ((Register.v 1).withWide type.isWide)
          (.v 0) (Interceptor.resultValue type) :: narrowTo (.v 1) type
  .moveResult .object (.v 0) :: .branchZero .eq (.v 0) origin ::
    (load ++ [Boxing.returnAs result (.v 1)])

/-- The body behind the test of a slot, up to where the code for the interceptor starts. -/
def guardBody (b : Body) (scratch : Nat) (slot : FieldRef) : Boxing.Fork × Draft :=
  let (fork, d) := Boxing.forkOn ((Draft.replacing b).reserve scratch) (.v 0) slot
  (fork, (d.append b.instructions).place fork.intercept)

/-- The body of an ordinary method with interception. -/
def methodBody (m : Method) (id : Nat) (dispatch : Dispatch) (b : Body) :
    Except BodyError Body := do
  let (fork, d) := guardBody b methodScratch (Interceptor.slot m.owner)
  let arguments ← Boxing.parameters m.signature (!m.isStatic)
  let call := match dispatch with
    | .special shape => shapeCall m id shape d.locals arguments
    | _ => commonCall m id arguments
  ((d.append call).append (returnAnswer m.signature.result fork.origin)).finish
    m.parameterRegisters

/-- Intercept an ordinary method.  It must be numbered; without a body it stays as it is. -/
def method (dispatch : Dispatch) (m : Method) : Except Fault Method :=
  match m.id with
  | none => .error (.missingMethodId m.ref)
  | some id =>
      match m.body with
      | none => .ok m
      | some b =>
          match methodBody m id dispatch b with
          | .error e => .error (.body e)
          | .ok b' => .ok { m with body := some b' }

end HotPatch.Intercept
