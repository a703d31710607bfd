import HotPatch.Bytecode.Receiver
import HotPatch.Fault

/-!
# The delegated constructor call

A constructor starts by calling another one, of its class or of the direct
superclass, on the receiver under construction.  Every such call counts, and
there must be exactly one; it is never guessed among several.
-/

namespace HotPatch.Delegation

/-- The call must lead to the class itself or to its direct superclass. -/
def leadsHome (owner : ClassName) (superclass : Option ClassName) (target : ClassName) : Bool :=
  target == owner || superclass == some target

/-- The one constructor call that the body of `m` makes on its receiver. -/
def find (superclass : Option ClassName) (m : Method) (b : Body) :
    Except Fault Receiver.InitCall :=
  match Receiver.analyze b.instructions with
  | .error e => .error (.body e)
  | .ok (_, [call]) =>
      if leadsHome m.owner superclass call.method.owner then .ok call
      else .error (.foreignDelegation m.ref call.method)
  | .ok (_, calls) => .error (.delegation m.ref calls.length)

end HotPatch.Delegation
