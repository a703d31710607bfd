/-!
# Access flags

What a class, a method or a field declares about itself.  The three
visibility bits are kept apart from the level they decode to, since a file
may set several of them at once: private wins over protected, protected over
public, and no bit at all leaves the package.

Each record knows its bits in the executable format; bits that the format
does not define for the kind at hand are dropped on reading.
-/

namespace HotPatch

/-- Who may use a class or member. -/
inductive Visibility where
  | priv | pkg | prot | pub
  deriving DecidableEq

/-- The three bits that declare a visibility. -/
structure VisibilityBits where
  pub : Bool := false
  priv : Bool := false
  prot : Bool := false
  deriving DecidableEq

namespace VisibilityBits

def visibility (bits : VisibilityBits) : Visibility :=
  if bits.priv then .priv
  else if bits.prot then .prot
  else if bits.pub then .pub
  else .pkg

/-- Public, and nothing narrower. -/
def widened (_ : VisibilityBits) : VisibilityBits := ⟨true, false, false⟩

def ofBits (bits : Nat) : VisibilityBits :=
  ⟨bits.testBit 0, bits.testBit 1, bits.testBit 2⟩

end VisibilityBits

/-- The bit at the given position, if the flag is set. -/
def flagBit (position : Nat) (flag : Bool) : Nat := if flag then 1 <<< position else 0

def VisibilityBits.toBits (bits : VisibilityBits) : Nat :=
  flagBit 0 bits.pub + flagBit 1 bits.priv + flagBit 2 bits.prot

structure ClassAccess extends VisibilityBits where
  isStatic : Bool := false
  isFinal : Bool := false
  isInterface : Bool := false
  isAbstract : Bool := false
  isSynthetic : Bool := false
  isMarker : Bool := false
  isEnum : Bool := false
  deriving DecidableEq

structure MethodAccess extends VisibilityBits where
  isStatic : Bool := false
  isFinal : Bool := false
  isSynchronized : Bool := false
  isBridge : Bool := false
  isVarargs : Bool := false
  isNative : Bool := false
  isAbstract : Bool := false
  isStrict : Bool := false
  isSynthetic : Bool := false
  isInitializer : Bool := false
  isDeclaredSynchronized : Bool := false
  deriving DecidableEq

structure FieldAccess extends VisibilityBits where
  isStatic : Bool := false
  isFinal : Bool := false
  isVolatile : Bool := false
  isTransient : Bool := false
  isSynthetic : Bool := false
  isEnum : Bool := false
  deriving DecidableEq

namespace ClassAccess

def ofBits (bits : Nat) : ClassAccess where
  toVisibilityBits := .ofBits bits
  isStatic := bits.testBit 3
  isFinal := bits.testBit 4
  isInterface := bits.testBit 9
  isAbstract := bits.testBit 10
  isSynthetic := bits.testBit 12
  isMarker := bits.testBit 13
  isEnum := bits.testBit 14

def toBits (a : ClassAccess) : Nat :=
  a.toVisibilityBits.toBits + flagBit 3 a.isStatic + flagBit 4 a.isFinal
    + flagBit 9 a.isInterface + flagBit 10 a.isAbstract + flagBit 12 a.isSynthetic
    + flagBit 13 a.isMarker + flagBit 14 a.isEnum

def widened (a : ClassAccess) : ClassAccess :=
  { a with toVisibilityBits := a.toVisibilityBits.widened }

end ClassAccess

namespace MethodAccess

def ofBits (bits : Nat) : MethodAccess where
  toVisibilityBits := .ofBits bits
  isStatic := bits.testBit 3
  isFinal := bits.testBit 4
  isSynchronized := bits.testBit 5
  isBridge := bits.testBit 6
  isVarargs := bits.testBit 7
  isNative := bits.testBit 8
  isAbstract := bits.testBit 10
  isStrict := bits.testBit 11
  isSynthetic := bits.testBit 12
  isInitializer := bits.testBit 16
  isDeclaredSynchronized := bits.testBit 17

def toBits (a : MethodAccess) : Nat :=
  a.toVisibilityBits.toBits + flagBit 3 a.isStatic + flagBit 4 a.isFinal
    + flagBit 5 a.isSynchronized + flagBit 6 a.isBridge + flagBit 7 a.isVarargs
    + flagBit 8 a.isNative + flagBit 10 a.isAbstract + flagBit 11 a.isStrict
    + flagBit 12 a.isSynthetic + flagBit 16 a.isInitializer
    + flagBit 17 a.isDeclaredSynchronized

def widened (a : MethodAccess) : MethodAccess :=
  { a with toVisibilityBits := a.toVisibilityBits.widened }

end MethodAccess

namespace FieldAccess

def ofBits (bits : Nat) : FieldAccess where
  toVisibilityBits := .ofBits bits
  isStatic := bits.testBit 3
  isFinal := bits.testBit 4
  isVolatile := bits.testBit 6
  isTransient := bits.testBit 7
  isSynthetic := bits.testBit 12
  isEnum := bits.testBit 14

def toBits (a : FieldAccess) : Nat :=
  a.toVisibilityBits.toBits + flagBit 3 a.isStatic + flagBit 4 a.isFinal
    + flagBit 6 a.isVolatile + flagBit 7 a.isTransient + flagBit 12 a.isSynthetic
    + flagBit 14 a.isEnum

def widened (a : FieldAccess) : FieldAccess :=
  { a with toVisibilityBits := a.toVisibilityBits.widened }

end FieldAccess

end HotPatch
