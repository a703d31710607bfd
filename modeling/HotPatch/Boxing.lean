import HotPatch.Bytecode.Draft
import HotPatch.Interceptor

/-!
# Code for passing arguments

The interceptor takes arguments as an array of objects and hands them back
the same way.  These are the pieces of code that put a value of any type
into such an array, take it out again and return it, and the branch on an
interceptor slot that every intercepted body starts with.
-/

namespace HotPatch.Boxing

/-- Code that turns a value into a reference, and the register that then holds it.  A primitive
goes through `scratch`; a reference stays where it is. -/
def box (scratch value : Register) : ValueType → List Instruction × Register
  | .base p =>
      ([.invoke .static .fixed [value.withWide p.isWide] (Interceptor.boxMethod p),
        .moveResult .object scratch], scratch)
  | _ => ([], value)

/-- Store a value at an index of an array of objects. -/
def store (array index scratch : Register) (position : Int32) (value : Register)
    (type : ValueType) : List Instruction :=
  let boxed := box scratch value type
  .const index position :: boxed.1 ++ [.arrayPut .object boxed.2 array index]

/-- Turn the reference in `dst` into a value of the given type, in place. -/
def unbox (dst : Register) : ValueType → List Instruction
  | .base p =>
      [.checkCast dst (.object p.boxClass),
        .invoke .virtual .fixed [dst] (Interceptor.unboxMethod p),
        .moveResult (.of (.base p)) (dst.withWide p.isWide)]
  | .object cls => if cls = .object then [] else [.checkCast dst (.object cls)]
  | .array element => [.checkCast dst (.array element)]

/-- Load the element at an index of an array of objects as a value of the given type. -/
def load (dst array index : Register) (position : Int32) (type : ValueType) :
    List Instruction :=
  .const index position :: .arrayGet .object dst.narrow array index :: unbox dst.narrow type

/-- Store all values at the indices in order. -/
def storeAll (array index scratch : Register) (values : List (Register × ValueType)) :
    List Instruction :=
  values.zipIdx.flatMap fun ((value, type), k) =>
    store array index scratch (Int32.ofNat k) value type

/-- Load the elements in order as values of the given types. -/
def loadAll (array index : Register) (values : List (Register × ValueType)) :
    List Instruction :=
  values.zipIdx.flatMap fun ((dst, type), k) => load dst array index (Int32.ofNat k) type

/-- Return `value` as the given type, or nothing. -/
def returnAs (result : Option ValueType) (value : Register) : Instruction :=
  match result with
  | none => .returnVoid
  | some type => .returnValue (.of type) (value.withWide type.isWide)

/-- The index after a value of the given type, if there is one. -/
def advance (next : Nat) (type : ValueType) : Except BodyError Nat :=
  if next + type.width ≤ Register.maxIndex then .ok (next + type.width)
  else .error .indexOverflow

/-- Consecutive registers of a bank for values of the given types, from `next` on.  The index after
the last value is counted too. -/
def assign (bank : Bank) (next : Nat) :
    List ValueType → Except BodyError (List (Register × ValueType))
  | [] => .ok []
  | type :: rest => do
      let others ← assign bank (← advance next type) rest
      return (⟨bank, next, type.isWide⟩, type) :: others

/-- The registers that hold the declared parameters of a method. -/
def parameters (s : Signature) (hasReceiver : Bool) :
    Except BodyError (List (Register × ValueType)) :=
  assign .params hasReceiver.toNat s.parameters

/-- The two ways out of the test of an interceptor slot. -/
structure Fork where
  /-- The body as it was. -/
  origin : Label
  /-- The way through the interceptor. -/
  intercept : Label
  deriving DecidableEq

/-- Load a slot and jump to `intercept` when it is set; `origin` is placed right behind. -/
def forkCode (interceptor : Register) (slot : FieldRef) (fork : Fork) : List Instruction :=
  [.staticGet .object interceptor slot, .branchZero .ne interceptor fork.intercept,
    .label fork.origin]

/-- Add the test of a slot, with two labels of its own. -/
def forkOn (d : Draft) (interceptor : Register) (slot : FieldRef) : Fork × Draft :=
  let fork : Fork := ⟨⟨d.nextLabel⟩, ⟨d.nextLabel + 1⟩⟩
  (fork, (d.skipLabels 2).append (forkCode interceptor slot fork))

end HotPatch.Boxing
