import HotPatch.Bytecode.Instruction

/-!
# Method bodies

A body is a list of instructions with the sizes of its two register banks
and the number of the next unused label.  `check` decides whether it can be
encoded: labels placed once and where jumps lead, argument registers as many
as the callee takes, and listed in a form that can hold them.

Register indices count in 16 bits, and a sum of them that does not fit ends
the work on a body there and then.
-/

namespace HotPatch

/-- Body of a method. -/
structure Body where
  locals : Nat
  params : Nat
  instructions : List Instruction
  nextLabel : Nat
  deriving DecidableEq

/-- Why a body cannot be encoded. -/
inductive BodyError where
  | duplicateLabel (label : Label)
  | unplacedLabel (label : Label)
  | argumentMismatch (method : MethodRef) (expected found : Nat)
  | nonContiguousRange (method : MethodRef)
  | registerListOverflow (method : MethodRef) (slots : Nat)
  /-- A register index past the last one. -/
  | indexOverflow
  deriving DecidableEq

def BodyError.message : BodyError → String
  | .duplicateLabel label => "label " ++ label.render ++ " is placed twice"
  | .unplacedLabel label => "label " ++ label.render ++ " is never placed"
  | .argumentMismatch method expected found =>
      "invoke of " ++ method.render ++ " passes " ++ toString found
        ++ " register slots instead of " ++ toString expected
  | .nonContiguousRange method =>
      "range invoke of " ++ method.render ++ " has non-contiguous registers"
  | .registerListOverflow method slots =>
      "invoke of " ++ method.render ++ " uses " ++ toString slots
        ++ " register slots in the fixed form"
  | .indexOverflow => "attempt to add with overflow"

/-- Most register slots that the fixed form of an invoke can list. -/
def maxFixedSlots : Nat := 5

namespace Code

/-- The labels placed in a list of instructions, in order. -/
def placed (code : List Instruction) : List Label := code.filterMap Instruction.placed?

/-- The label of the first placement that repeats an earlier one. -/
def repeated? (seen : List Label) : List Label → Option Label
  | [] => none
  | l :: rest => if seen.contains l then some l else repeated? (l :: seen) rest

/-- Where a label is placed. -/
def position? (code : List Instruction) (l : Label) : Option Nat :=
  code.findIdx? (· == .label l)

/-- Fewest locals that hold every local register in use. -/
def usedLocals (code : List Instruction) : Nat :=
  ((code.flatMap Instruction.registers).map Register.localExtent).foldl max 0

/-- Every placed label with its position, by label; placing a label twice is an error. -/
def positions (code : List Instruction) : Except BodyError (List (Label × Nat)) :=
  match repeated? [] (placed code) with
  | some l => .error (.duplicateLabel l)
  | none =>
      let found := code.zipIdx.filterMap fun (i, k) => i.placed?.map fun l => (l, k)
      .ok (found.mergeSort fun a b => a.1.number ≤ b.1.number)

/-- The first branch target that is never placed. -/
def unplaced? (code : List Instruction) (i : Instruction) : Option Label :=
  i.targets.find? fun l => (position? code l).isNone

/-- The fault of one call's register list in a frame with the given number of locals. -/
def invokeError? (locals : Nat) : Instruction → Option BodyError
  | .invoke kind form args method =>
      let expected := method.signature.slots kind.hasReceiver
      let found := RegisterList.slotCount args
      if expected ≠ found then some (.argumentMismatch method expected found)
      else
        match form with
        | .range =>
            match RegisterList.isContiguous? args locals with
            | none => some .indexOverflow
            | some contiguous =>
                if contiguous then none else some (.nonContiguousRange method)
        | .fixed =>
            if found > maxFixedSlots then some (.registerListOverflow method found) else none
  | _ => none

/-- The first fault of one instruction: a jump that leads nowhere, then a bad register list. -/
def instructionError? (code : List Instruction) (locals : Nat) (i : Instruction) :
    Option BodyError :=
  match unplaced? code i with
  | some l => some (.unplacedLabel l)
  | none => invokeError? locals i

end Code

namespace Body

/-- A body with nothing in it. -/
def empty : Body := ⟨0, 0, [], 0⟩

/-- Size of the whole frame. -/
def totalRegisters (b : Body) : Nat := b.locals + b.params

/-- Size the frame for the given parameters, with at least `minimum` locals. -/
def resize (b : Body) (params minimum : Nat) : Body :=
  { b with params, locals := max minimum (Code.usedLocals b.instructions) }

/-- The first fault of a body: a label placed twice, then the instructions in order. -/
def error? (b : Body) : Option BodyError :=
  match Code.repeated? [] (Code.placed b.instructions) with
  | some l => some (.duplicateLabel l)
  | none => b.instructions.findSome? (Code.instructionError? b.instructions b.locals)

/-- Check that a body can be encoded. -/
def check (b : Body) : Except BodyError Unit :=
  match b.error? with
  | some e => .error e
  | none => .ok ()

end Body

end HotPatch
