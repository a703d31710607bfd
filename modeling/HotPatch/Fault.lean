import HotPatch.Program.Graph

/-!
# Faults and passes

Instrumentation changes a program step by step.  A pass that meets a fault
stops there and keeps what it has done, so its outcome is a pair: the answer
or the fault, and the state it leaves.
-/

namespace HotPatch

/-- Why instrumentation stops. -/
inductive Fault where
  | graph (cause : GraphError)
  | body (cause : BodyError)
  /-- Not exactly one delegated constructor call. -/
  | delegation (method : MethodRef) (candidates : Nat)
  /-- The delegated call leads neither to the class nor to its direct superclass. -/
  | foreignDelegation (method target : MethodRef)
  | missingMethodId (method : MethodRef)
  /-- A constructor of a genesis class without its number. -/
  | missingGenesisId (method : MethodRef)
  /-- A private class cannot be made visible to a patch. -/
  | privateClass (name : ClassName)
  /-- A declared component has no constructor without arguments. -/
  | missingComponentConstructor (name : ClassName)
  deriving DecidableEq

def Fault.message : Fault → String
  | .graph cause => cause.message
  | .body cause => cause.message
  | .delegation method candidates =>
      "expected exactly one delegated constructor call in " ++ method.renderMember ++ ", found "
        ++ toString candidates
  | .foreignDelegation method target =>
      method.renderMember ++ " delegates to " ++ target.render
        ++ ", which is not a constructor of the class or its superclass"
  | .missingMethodId method => "no method id assigned to " ++ method.renderMember
  | .missingGenesisId method => "genesis constructor " ++ method.renderMember ++ " has no id"
  | .privateClass name => "cannot instrument private class " ++ name.text
  | .missingComponentConstructor name =>
      "component " ++ name.text ++ " has no no-argument constructor"

/-- A step on a state of type `σ` that may stop at a fault, keeping what it has done. -/
abbrev Pass (σ α : Type) := ExceptT Fault (StateM σ) α

namespace Pass

/-- The outcome on a state: the answer or the fault, and the state left behind. -/
def on {σ α : Type} (pass : Pass σ α) (state : σ) : Except Fault α × σ :=
  (ExceptT.run pass).run state

/-- A step that either succeeds or changes nothing. -/
def atomic {σ ε : Type} (wrap : ε → Fault) (change : σ → Except ε σ) : Pass σ Unit := do
  match change (← get) with
  | .ok state => set state
  | .error e => throw (wrap e)

end Pass

/-- Run a pass in every class that `select` picks, in order.  The first fault ends the sweep. -/
def sweepClasses {α : Type} (select : ClassDef → Bool) (pass : ClassDef → Pass ClassDef α) :
    List ClassDef → Except Fault (List α) × List ClassDef
  | [] => (.ok [], [])
  | c :: rest =>
      if select c then
        match (pass c).on c with
        | (.error e, c') => (.error e, c' :: rest)
        | (.ok a, c') =>
            let others := sweepClasses select pass rest
            (others.1.map (a :: ·), c' :: others.2)
      else
        let others := sweepClasses select pass rest
        (others.1, c :: others.2)

/-- Run a pass in every selected class of a program. -/
def sweep {α : Type} (select : ClassDef → Bool) (pass : ClassDef → Pass ClassDef α) :
    Pass ClassGraph (List α) := do
  let g ← get
  match sweepClasses select pass g.classes with
  | (.ok answers, classes) =>
      set (⟨classes⟩ : ClassGraph)
      return answers
  | (.error e, classes) =>
      set (⟨classes⟩ : ClassGraph)
      throw e

end HotPatch
