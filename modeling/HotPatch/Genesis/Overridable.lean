import HotPatch.Program.Graph

/-!
# What a subclass can override

From the top of the hierarchy down, a declaration takes the place of the one
it overrides, and final methods drop out at every level.
-/

namespace HotPatch.Genesis

/-- A virtual method that subclasses everywhere can see. -/
def isVirtual (m : Method) : Bool :=
  !m.isStatic && !m.name.isInit && !m.name.isClinit && !m.access.isInitializer
    && (m.access.visibility == .pub || m.access.visibility == .prot)

/-- Enter a declaration, in place of the one it overrides. -/
def declare (table : List Method) (m : Method) : List Method :=
  table.filter (!·.sameKey m) ++ [m]

/-- Enter what a class declares. -/
def enterClass (table : List Method) (c : ClassDef) : List Method :=
  ((c.methods.filter isVirtual).foldl declare table).filter (!·.access.isFinal)

/-- A class and all classes above it, from the top down. -/
def lineage (g : ClassGraph) (c : ClassDef) : List ClassDef :=
  (c :: (g.ancestors c.name).filterMap g.find?).reverse

/-- The virtual methods that a subclass of `c` can override. -/
def overridable (g : ClassGraph) (c : ClassDef) : List Method :=
  (lineage g c).foldl enterClass []

end HotPatch.Genesis
