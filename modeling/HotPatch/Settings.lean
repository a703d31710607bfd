import HotPatch.Manifest
import HotPatch.Selection

/-!
# Settings of a run
-/

namespace HotPatch

/-- The kind of patch that the program must be able to receive. -/
inductive Mode where
  /-- Patches replace bodies of methods. -/
  | light
  /-- Patches replace whole component classes too, which needs genesis classes. -/
  | full
  deriving DecidableEq

/-- Shapes that are frequent enough for an overload of their own. -/
def commonShapes : List String :=
  ["V", "L", "LL", "LLL", "LLLL", "LLLLL", "I", "II", "III", "IIII", "Z", "J", "LI", "IL",
    "LZ", "ZL", "LJ", "JL", "LLI", "LII", "LIL", "ILL", "IIL", "LLZ", "LIII", "LLLI", "LLII",
    "LLIL", "LILL"]

structure Settings where
  mode : Mode
  /-- Make instance methods public that are not private. -/
  makePublic : Bool := true
  /-- Intercept ordinary constructors. -/
  constructors : Bool := true
  /-- Shapes with an overload that takes arguments as they are. -/
  shapes : List String := commonShapes
  /-- Leave the vendor's push library alone. -/
  skipVendorPush : Bool := true
  filter : Filter := .acceptAll
  manifest : Manifest := []

namespace Settings

def isFull (s : Settings) : Bool := s.mode == .full

/-- The shapes in byte order, each once. -/
def sortedShapes (s : Settings) : List String := Text.sortBytes s.shapes.eraseDups

end Settings

end HotPatch
