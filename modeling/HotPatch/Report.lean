import HotPatch.Intercept.Dispatch

/-!
# What a run has done

Patches are made against the report of a run: it lists the numbered methods
of every class, and how each one reaches its interceptor.
-/

namespace HotPatch

structure MethodReport where
  name : MemberName
  signature : Signature
  id : Nat
  /-- Absent where the method was left as it is, and for the static initializer. -/
  dispatch : Option Dispatch
  instrumented : Bool
  deriving DecidableEq

structure ClassReport where
  name : ClassName
  /-- The numbered methods, in order. -/
  methods : List MethodReport
  deriving DecidableEq

structure Report where
  /-- The classes that were not left alone, in program order. -/
  classes : List ClassReport := []
  genesisClasses : List ClassName := []
  deriving DecidableEq

def ClassReport.method? (r : ClassReport) (name : MemberName) (signature : Signature) :
    Option MethodReport :=
  r.methods.find? fun m => m.name == name && m.signature == signature

def Report.class? (r : Report) (name : ClassName) : Option ClassReport :=
  r.classes.find? (·.name == name)

end HotPatch
