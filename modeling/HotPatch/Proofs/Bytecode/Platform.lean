import HotPatch.Proofs.Bytecode.Runtime

/-!
# Platforms

Static initializers, and constructors that pick another one by its number,
use a few instructions that interception of methods does without.  A
`Platform` is a runtime in which these have their usual meaning too: strings,
writes of static fields, switches, new objects and exceptions.
-/

namespace HotPatch

namespace World

variable {V H R : Type} (w : World V H R)

/-- The object has the fields that a result about a static initializer is asked for. -/
def IsReport (heap : H) (object : V) : Prop :=
  ∀ name ∈ [Interceptor.resultInterceptor, Interceptor.resultFlags],
    (w.look heap (.field object name)).isSome

/-- The object is not there yet: it has no field. -/
def IsNew (heap : H) (object : V) : Prop := ∀ name, w.look heap (.field object name) = none

/-- On to the label of the case for the key, or to the next instruction if there is none. -/
structure Switches {E : Type} (cases : List (Int32 × Label)) (key : Int32) (heap : H)
    (out : Outcome V H E R) : Prop where
  keeps : w.Keeps [] heap out.heap
  found : ∀ {l}, cases.lookup key = some l → out.control = .jump l
  missed : cases.lookup key = none → out.control = .next

end World

/-- A runtime with strings, static fields that can be written, switches, objects and exceptions. -/
structure Platform (V H E R : Type) extends Runtime V H E R where
  string : String → V
  /-- The result of a method that is left by an exception. -/
  thrown : V → R
  constString : ∀ {h dst text}, dst.wide = false →
    toMachine.Must (.constString dst text) [] h (toWorld.Yields h dst [string text])
  staticPut : ∀ {h r name value}, (look h (.static name)).isSome →
    (∀ p, name.type ≠ .base p) →
    toMachine.Must (.staticPut .object r name) [value] h (toWorld.Changes h (.static name) [value])
  sparseSwitch : ∀ {h r cases key},
    toMachine.Must (.sparseSwitch r cases) [int key] h (toWorld.Switches cases key h)
  newInstance : ∀ {h dst cls}, dst.wide = false →
    toMachine.Must (.newInstance dst cls) [] h fun out =>
      ∃ object, toWorld.Yields h dst [object] out ∧ toWorld.IsNew h object ∧
        fits out.heap object (.object cls)
  throw : ∀ {h r object},
    toMachine.Must (.throw r) [object] h fun out =>
      toWorld.Keeps [] h out.heap ∧ out.control = .stop (thrown object)
  report : ∀ {h kind form args target values out object}, returns target →
    target.signature.result = some (.object Interceptor.interceptResult) →
    toMachine.does (.invoke kind form args target) values h out → answer out.heap = [object] →
    isZero object ∨ toWorld.IsReport out.heap object

end HotPatch
