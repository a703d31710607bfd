import HotPatch.Intercept.Method

/-!
# Intercepting static initializers

One interceptor of the whole process is asked about every class as it is
initialized.  Its answer may carry the interceptor of the class, which goes
into the class's slot at once, and may say that the static initializer itself
has changed; then the replacement runs instead of the body.

Scratch registers: `v0` holds the interceptor, `v1` the hash, `v2` the
descriptor, `v3` the class's interceptor, `v4` the answer, `v5` its flags.
-/

namespace HotPatch.Intercept

/-- Locals that the code for the interceptor needs. -/
def clinitScratch : Nat := 6

/-- Ask about a class, install what the answer carries, and run the replacement if there is one. -/
def announceClass (owner : ClassName) (origin checkFlags : Label) : List Instruction :=
  [.const (.v 1) (Text.hash owner.render), .constString (.v 2) owner.render,
    .invoke .interface .fixed [.v 0, .v 1, .v 2] Interceptor.invokeClinit,
    .moveResult .object (.v 4),
    .branchZero .eq (.v 4) origin,
    .instanceGet .object (.v 3) (.v 4) Interceptor.resultInterceptor,
    .branchZero .eq (.v 3) checkFlags,
    .staticPut .object (.v 3) (Interceptor.slot owner),
    .label checkFlags,
    .instanceGet .plain (.v 5) (.v 4) Interceptor.resultFlags,
    .binaryLit .and (.v 5) (.v 5) Interceptor.clinitChangedBit,
    .branchZero .eq (.v 5) origin,
    .invoke .interface .fixed [.v 0, .v 1, .v 2] Interceptor.invokePostClinit,
    .returnVoid]

/-- The body of a static initializer with interception. -/
def staticInitBody (owner : ClassName) (b : Body) : Except BodyError Body :=
  let (fork, d) := guardBody b clinitScratch Interceptor.clinitSlot
  ((d.skipLabels 1).append (announceClass owner fork.origin ⟨d.nextLabel⟩)).finish 0

/-- Intercept a static initializer; without a body it stays as it is. -/
def staticInit (m : Method) : Except Fault Method :=
  match m.body with
  | none => .ok m
  | some b =>
      match staticInitBody m.owner b with
      | .error e => .error (.body e)
      | .ok b' => .ok { m with body := some b' }

end HotPatch.Intercept
