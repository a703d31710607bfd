import HotPatch.Program.Member

/-!
# How a method reaches its interceptor

Constructors follow a protocol of their own.  Any other method has its
arguments packed into an array, unless its parameter shape has an overload
that takes them as they are.
-/

namespace HotPatch

inductive Dispatch where
  /-- All arguments in one array. -/
  | common
  /-- The overload for this shape. -/
  | special (shape : String)
  /-- The two phases of a constructor. -/
  | init
  deriving DecidableEq

namespace Dispatch

/-- Choose by the shapes that have an overload. -/
def classify (shapes : List String) (m : Method) : Dispatch :=
  if m.isConstructor then .init
  else if shapes.contains m.signature.shape then .special m.signature.shape
  else .common

def render : Dispatch → String
  | .common => "common"
  | .special shape => "special(" ++ shape ++ ")"
  | .init => "init"

end Dispatch

end HotPatch
