import HotPatch.Bytecode.Receiver
import HotPatch.Genesis.Synthesis

/-!
# Inserting genesis classes

Visiting a component type walks down from its platform class through the
classes with a role for the type.  The program classes on the way get their
constructor roles and buddy constructors, and where one extends a library
class, a genesis class is made for the boundary.  Classes move under their
genesis class only in the end, together with their calls to the superclass.

The classes on the walk are known before the first one is changed: what a
visit adds lies outside of it.
-/

namespace HotPatch.Genesis

/-- A genesis class, and the program classes that are to move under it. -/
structure Boundary where
  /-- The library class above. -/
  bottom : ClassName
  genesis : ClassName
  tops : List ClassName := []
  deriving DecidableEq

/-- A program with the boundaries found so far. -/
structure Site where
  graph : ClassGraph
  boundaries : List Boundary := []
  deriving DecidableEq

/-- The walk goes through this class. -/
def onWalk (component : ComponentType) (c : ClassDef) : Bool :=
  let roles := c.marks.get component
  (roles.direct || roles.ancestor) && !c.isGenesis
    && !c.name.startsWith Interceptor.libraryPackage

/-- The program classes on the walk from a class down, at most `depth` levels. -/
def walkWithin (g : ClassGraph) (component : ComponentType) : Nat → ClassName → List ClassName
  | 0, _ => []
  | depth + 1, name =>
      match g.find? name with
      | none => []
      | some c =>
          if onWalk component c then
            (if c.isProgram then [name] else []) ++
              c.subclasses.flatMap (walkWithin g component depth)
          else []

/-- The program classes on the walk from a class down, each before those below it. -/
def walk (g : ClassGraph) (component : ComponentType) (root : ClassName) : List ClassName :=
  walkWithin g component g.classes.length root

/-- Change the program only. -/
def onGraph (change : ClassGraph → Except GraphError ClassGraph) : Pass Site Unit :=
  Pass.atomic Fault.graph fun site =>
    (change site.graph).map fun graph => { site with graph }

/-- Set the role of the constructor with that signature. -/
def setRole (name : ClassName) (signature : Signature) (role : ConstructorRole) :
    Pass Site Unit :=
  onGraph fun g => .ok
    (g.modify name (·.modifyMethod .init signature fun m => { m with role }))

/-- A buddy constructor that only calls the one of the superclass. -/
def wormhole (owner superclass : ClassName) : Method where
  owner := owner
  name := .init
  signature := Interceptor.buddySignature
  access := buddyAccess
  body := some ⟨0, 2,
    [.invoke .direct .fixed [.p 0, .p 1] (Interceptor.buddyConstructor superclass), .returnVoid],
    0⟩

/-- Give a class a buddy constructor.  One that is there already takes the role. -/
def addWormhole (c : ClassDef) : Pass Site Unit := do
  match c.superclass with
  | none => return ()
  | some superclass =>
      onGraph (·.addMethod (wormhole c.name superclass))
      setRole c.name Interceptor.buddySignature .wormhole

/-- Make the boundary at a library class, or mark its genesis class for one more component. -/
def openBoundary (component : ComponentType) (bottom : ClassDef) : Pass Site Unit := do
  let site ← get
  match site.boundaries.find? (·.bottom == bottom.name) with
  | some boundary =>
      onGraph fun g => .ok
        (g.modify boundary.genesis fun c =>
          { c with marks := c.marks.mark component genesisRoles })
  | none =>
      let c ← liftExcept (genesisClass site.graph component bottom)
      onGraph (·.addClass c)
      modify fun site =>
        { site with
          boundaries := site.boundaries ++ [{ bottom := bottom.name, genesis := c.name }] }
where
  liftExcept {α : Type} (answer : Except Fault α) : Pass Site α :=
    match answer with
    | .ok a => return a
    | .error e => throw e

/-- Note that a class is to move under the genesis class of the boundary. -/
def addTop (bottom top : ClassName) (boundaries : List Boundary) : List Boundary :=
  boundaries.map fun b =>
    if b.bottom = bottom ∧ ¬ top ∈ b.tops then { b with tops := b.tops ++ [top] } else b

/-- Visit one program class. -/
def visitClass (component : ComponentType) (name : ClassName) : Pass Site Unit := do
  match (← get).graph.find? name with
  | none => return ()
  | some c =>
      let roles := c.marks.get component
      if roles.direct then
        match c.findMethod? .init (.void []) with
        | none => throw (.missingComponentConstructor name)
        | some _ => setRole name (.void []) .componentDirect
      if roles.ancestor then addWormhole c
      match (← get).graph.parent? c with
      | none => return ()
      | some parent =>
          if parent.isLibrary then
            openBoundary component parent
            modify fun site => { site with boundaries := addTop parent.name name site.boundaries }

/-- Visit classes in order, up to the first fault. -/
def visitAll (component : ComponentType) : List ClassName → Pass Site Unit
  | [] => return ()
  | name :: rest => do
      visitClass component name
      visitAll component rest

/-- Visit the hierarchy of a component type from a class down.  To take classes off a stack, and to
put those below a class on it once the class was visited, has the same outcome (`traverses_iff`). -/
def visit (component : ComponentType) (root : ClassName) : Pass Site Unit := do
  visitAll component (walk (← get).graph component root)

/-! ## Moving classes -/

/-- The call is one to the superclass: a super call, or a constructor call that initializes the
receiver. -/
def isSuperCall (inits : List Nat) (position : Nat) : Instruction → Bool
  | .invoke kind _ _ _ => kind == .super || inits.contains position
  | _ => false

/-- An invoke with its target moved from one class to another. -/
def retarget (bottom genesis : ClassName) : Instruction → Instruction
  | .invoke kind form args method =>
      if method.owner = bottom then .invoke kind form args (method.withOwner genesis)
      else .invoke kind form args method
  | i => i

/-- Retarget the calls to the superclass, given where the receiver is initialized. -/
def retargetCode (bottom genesis : ClassName) (inits : List Nat) (code : List Instruction) :
    List Instruction :=
  code.zipIdx.map fun (i, position) =>
    if isSuperCall inits position i then retarget bottom genesis i else i

/-- Where the body of a method initializes its receiver; only constructors do. -/
def initPositions (m : Method) (b : Body) : Except BodyError (List Nat) :=
  if m.isConstructor then
    (Receiver.analyze b.instructions).map fun found => found.2.map (·.position)
  else .ok []

/-- Retarget the calls of one method. -/
def retargetMethod (bottom genesis : ClassName) (m : Method) : Except Fault Method :=
  match m.body with
  | none => .ok m
  | some b =>
      match initPositions m b with
      | .error e => .error (.body e)
      | .ok inits =>
          let code := retargetCode bottom genesis inits b.instructions
          .ok { m with body := some { b with instructions := code } }

/-- Retarget methods in order, up to the first fault. -/
def retargetMethods (bottom genesis : ClassName) :
    List Method → Except Fault Unit × List Method
  | [] => (.ok (), [])
  | m :: rest =>
      match retargetMethod bottom genesis m with
      | .error e => (.error e, m :: rest)
      | .ok m' =>
          let others := retargetMethods bottom genesis rest
          (others.1, m' :: others.2)

/-- Move a class under a genesis class, and its calls to the superclass with it. -/
def moveClass (bottom genesis top : ClassName) : Pass ClassGraph Unit := do
  Pass.atomic Fault.graph (·.reparent top genesis)
  match (← get).find? top with
  | none => return ()
  | some c =>
      let moved := retargetMethods bottom genesis c.methods
      modify (·.modify top fun c => { c with methods := moved.2 })
      match moved.1 with
      | .ok _ => return ()
      | .error e => throw e

/-- Move classes in order, up to the first fault. -/
def moveAll (bottom genesis : ClassName) : List ClassName → Pass ClassGraph Unit
  | [] => return ()
  | top :: rest => do
      moveClass bottom genesis top
      moveAll bottom genesis rest

/-- Move the classes of every boundary; the answer names the genesis classes. -/
def finish : List Boundary → Pass ClassGraph (List ClassName)
  | [] => return []
  | boundary :: rest => do
      moveAll boundary.bottom boundary.genesis boundary.tops
      return boundary.genesis :: (← finish rest)

/-! ## The whole insertion -/

/-- Visit the platform class of every component type that has one in the program. -/
def visitRoots : List ComponentType → Pass Site Unit
  | [] => return ()
  | component :: rest => do
      match component.platformRoot? with
      | none => pure ()
      | some root =>
          if ((← get).graph.find? root).isSome then visit component root
      visitRoots rest

/-- Insert genesis classes for all component types. -/
def build : Pass ClassGraph (List ClassName) := do
  let visited := (visitRoots ComponentType.all).on { graph := ← get }
  set visited.2.graph
  match visited.1 with
  | .error e => throw e
  | .ok _ => finish visited.2.boundaries

end HotPatch.Genesis
