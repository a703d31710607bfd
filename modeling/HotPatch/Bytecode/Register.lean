/-!
# Registers

A frame has two banks: the locals, and the parameters right above them.
Operands name a register by bank and index, so a frame can gain locals
without renaming the parameters.  A wide register covers the next one of its
bank too.

Indices count in 16 bits.  Arithmetic on them is checked: a sum that is past
the last index is no index, and whoever needs it gets no answer.
-/

namespace HotPatch

/-- The two banks of a frame. -/
inductive Bank where
  | locals | params
  deriving DecidableEq

/-- A register operand. -/
structure Register where
  bank : Bank
  index : Nat
  wide : Bool
  deriving DecidableEq

namespace Register

/-- The last index. -/
def maxIndex : Nat := 0xFFFF

/-- Local register `v0`, `v1`, … -/
def v (index : Nat) : Register := ⟨.locals, index, false⟩

/-- Parameter register `p0`, `p1`, … -/
def p (index : Nat) : Register := ⟨.params, index, false⟩

def withWide (r : Register) (wide : Bool) : Register := { r with wide }

/-- The first slot of a register alone. -/
def narrow (r : Register) : Register := r.withWide false

def isLocal (r : Register) : Bool := r.bank == .locals

/-- Number of slots. -/
def width (r : Register) : Nat := if r.wide then 2 else 1

/-- Position in the frame, when `locals` registers come before the parameters. -/
def absolute (r : Register) (locals : Nat) : Nat :=
  match r.bank with
  | .locals => r.index
  | .params => locals + r.index

/-- The single slots that a register covers. -/
def slots (r : Register) : List Register :=
  if r.wide then [r.narrow, { r.narrow with index := r.index + 1 }] else [r.narrow]

/-- Number of locals a frame needs to hold this register; parameters need none. -/
def localExtent (r : Register) : Nat := if r.isLocal then r.index + r.width else 0

def letter (r : Register) : String :=
  match r.bank with
  | .locals => "v"
  | .params => "p"

/-- A register as listings show it, both slots for a wide one. -/
def render (r : Register) : String :=
  if r.wide then r.letter ++ toString r.index ++ ":" ++ r.letter ++ toString (r.index + 1)
  else r.letter ++ toString r.index

/-- Locals come first, then lower indices, then narrow before wide. -/
def key (r : Register) : Nat × Nat × Nat :=
  (if r.isLocal then 0 else 1, r.index, r.wide.toNat)

def lt (r s : Register) : Bool :=
  r.key.1 < s.key.1 ||
    (r.key.1 == s.key.1 &&
      (r.index < s.index || (r.index == s.index && r.key.2.2 < s.key.2.2)))

def le (r s : Register) : Bool := !s.lt r

end Register

/-- The register operands of an invoke, in order. -/
abbrev RegisterList := List Register

namespace RegisterList

/-- Number of slots, wide registers counting twice. -/
def slotCount : RegisterList → Nat
  | [] => 0
  | r :: rest => r.width + slotCount rest

/-- The frame positions of all slots, in order. -/
def absoluteSlots (args : RegisterList) (locals : Nat) : List Nat :=
  (args.flatMap Register.slots).map (·.absolute locals)

/-- Every number is the successor of the one before it. -/
def isRun : List Nat → Bool
  | a :: b :: rest => b == a + 1 && isRun (b :: rest)
  | _ => true

/-- The slots are one run of consecutive registers. -/
def isContiguous (args : RegisterList) (locals : Nat) : Bool :=
  isRun (absoluteSlots args locals)

/-- The frame positions of all slots, if each of them is an index. -/
def absoluteSlots? (args : RegisterList) (locals : Nat) : Option (List Nat) :=
  let slots := absoluteSlots args locals
  if slots.all (· ≤ Register.maxIndex) then some slots else none

/-- Every number is the successor of the one before it.  Numbers are compared from the left, up to
the first that is not; one that has no successor ends the comparison. -/
def isRun? : List Nat → Option Bool
  | a :: b :: rest =>
      if a < Register.maxIndex then
        if b == a + 1 then isRun? (b :: rest) else some false
      else none
  | _ => some true

/-- The slots are one run of consecutive registers, where that can be told in 16 bits. -/
def isContiguous? (args : RegisterList) (locals : Nat) : Option Bool :=
  (absoluteSlots? args locals).bind isRun?

def sort (args : RegisterList) : RegisterList := args.mergeSort Register.le

end RegisterList

end HotPatch
