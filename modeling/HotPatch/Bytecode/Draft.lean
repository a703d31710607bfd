import HotPatch.Bytecode.Body

/-!
# Drafts of bodies

A draft is a body in the making: instructions so far, the next unused label,
and a lower bound for the locals.  A draft laid over an existing body starts
without its instructions but past its labels and with its locals reserved,
so those instructions can be added back unchanged beside new ones.
-/

namespace HotPatch

structure Draft where
  instructions : List Instruction := []
  nextLabel : Nat := 0
  minimumLocals : Nat := 0
  deriving DecidableEq

namespace Draft

/-- A draft of a new body. -/
def empty : Draft := {}

/-- A draft that replaces `b`. -/
def replacing (b : Body) : Draft := ⟨[], b.nextLabel, b.locals⟩

/-- Keep at least this many locals. -/
def reserve (d : Draft) (locals : Nat) : Draft :=
  { d with minimumLocals := max d.minimumLocals locals }

/-- Number of locals if nothing is added any more. -/
def locals (d : Draft) : Nat := max d.minimumLocals (Code.usedLocals d.instructions)

/-- A label not used so far. -/
def fresh (d : Draft) : Label × Draft := (⟨d.nextLabel⟩, { d with nextLabel := d.nextLabel + 1 })

/-- Take the given number of labels out of use. -/
def skipLabels (d : Draft) (count : Nat) : Draft := { d with nextLabel := d.nextLabel + count }

def append (d : Draft) (code : List Instruction) : Draft :=
  { d with instructions := d.instructions ++ code }

def push (d : Draft) (i : Instruction) : Draft := d.append [i]

def place (d : Draft) (l : Label) : Draft := d.push (.label l)

/-- The body drafted, sized for its registers and checked. -/
def finish (d : Draft) (params : Nat) : Except BodyError Body :=
  if Code.usedLocals d.instructions > Register.maxIndex then .error .indexOverflow
  else
    let b := Body.resize ⟨0, params, d.instructions, d.nextLabel⟩ params d.minimumLocals
    match b.error? with
    | some e => .error e
    | none => .ok b

end Draft

end HotPatch
