import HotPatch.Interceptor
import HotPatch.Program.Graph

/-!
# What instrumentation leaves alone

Classes of the vendor's push library check their own integrity and must stay
as they are.  Beyond those, a class is left alone for being part of the
interceptor library, an interface, tagged (itself or its package), or
rejected by the filter; a method for having no code of its own, being
synthetic, tagged, or rejected by the filter.
-/

namespace HotPatch

/-- Decides which classes and methods may be touched. -/
structure Filter where
  acceptClass : ClassName → Bool
  acceptMethod : Method → Bool

namespace Filter

def acceptAll : Filter := ⟨fun _ => true, fun _ => true⟩

/-- A package as the start of the names inside it. -/
def packageStart (package : String) : String :=
  if package.toList.getLast? = some '/' then package else package ++ "/"

/-- No class of the packages and of those below them. -/
def excluding (packages : List String) : Filter :=
  let accept (name : ClassName) : Bool :=
    !packages.any fun package => name.startsWith (packageStart package)
  ⟨accept, fun m => accept m.owner⟩

/-- No class and no method with one of the names. -/
def rejecting (classes methods : List String) : Filter :=
  ⟨fun name => !classes.contains name.text, fun m => !methods.contains m.name.text⟩

end Filter

namespace Selection

/-- Start of the class names of the vendor's push library. -/
def vendorPushStart : String := "com/meizu/cloud/pushsdk"

def isVendorPush (c : ClassDef) : Bool := c.isProgram && c.name.startsWith vendorPushStart

/-- Mark the program classes of the vendor's push library, and count them. -/
def markVendorPush (g : ClassGraph) : Nat × ClassGraph :=
  (g.classes.countP isVendorPush,
    g.mapClasses fun c => if isVendorPush c then { c with vendorPush := true } else c)

/-- The package of a class is tagged as to be left alone. -/
def packageDisabled (g : ClassGraph) (name : ClassName) : Bool :=
  match g.find? name.packageInfo with
  | some info => info.hasTag Interceptor.disableTag
  | none => false

def classDisabled (g : ClassGraph) (filter : Filter) (c : ClassDef) : Bool :=
  c.name.startsWith Interceptor.libraryPackage || c.isInterface
    || c.hasTag Interceptor.disableTag || packageDisabled g c.name
    || !filter.acceptClass c.name || c.vendorPush

def methodDisabled (filter : Filter) (c : ClassDef) (m : Method) : Bool :=
  m.access.isAbstract || m.access.isNative || m.access.isSynthetic || c.isInterface
    || m.hasTag Interceptor.disableTag || !filter.acceptMethod m

/-- The class with its marks: the class itself, or else those of its methods that are left alone. -/
def markClass (g : ClassGraph) (filter : Filter) (c : ClassDef) : ClassDef :=
  if !c.isProgram then c
  else if classDisabled g filter c then { c with disabled := true }
  else
    { c with methods := c.methods.map fun m =>
        if methodDisabled filter c m then { m with disabled := true } else m }

/-- Number of methods that marking a class disables. -/
def disabledMethods (g : ClassGraph) (filter : Filter) (c : ClassDef) : Nat :=
  if !c.isProgram || classDisabled g filter c then 0
  else c.methods.countP (methodDisabled filter c)

/-- Mark what is left alone, and count the classes and, in the others, the methods. -/
def markDisabled (g : ClassGraph) (filter : Filter) : (Nat × Nat) × ClassGraph :=
  ((g.classes.countP fun c => c.isProgram && classDisabled g filter c,
      g.classes.foldl (fun count c => count + disabledMethods g filter c) 0),
    g.mapClasses (markClass g filter))

end Selection

end HotPatch
