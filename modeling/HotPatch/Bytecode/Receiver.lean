import HotPatch.Bytecode.Body
import HotPatch.Bytecode.RegisterSet

/-!
# The receiver under construction

In a constructor `p0` holds an object whose superclass part is not yet
initialized.  The analysis finds, before every instruction that can be
reached, the registers that still hold it: an object move copies it, any
other write drops it, and a constructor call on one of them initializes it
and so empties the set.

It is a forward analysis with a stack of positions to visit.  States grow by
union where paths meet and a position is visited again when its state has
grown.  The transfer is not monotone (a larger state may be emptied where a
smaller one is kept), so the order of visits is part of the definition: last
in, first out, the fall-through offered before the jumps.

It ends because only the registers of `candidates` ever enter a state: each
position put on the stack uses up room that is left for them (`room`).
-/

namespace HotPatch.Receiver

/-- The registers that can come to hold the receiver: `p0`, and what object moves write. -/
def candidates (code : List Instruction) : List Register :=
  .p 0 :: code.filterMap fun
    | .move .object dst _ => some dst
    | _ => none

/-- A constructor call, with the register it initializes. -/
def initCall? : Instruction → Option (Register × MethodRef)
  | .invoke .direct _ args method =>
      if method.name.isInit then args.head?.map fun r => (r.narrow, method) else none
  | _ => none

/-- A constructor call on one of the registers of `state`. -/
def initOn? (state : RegisterSet) (i : Instruction) : Option MethodRef :=
  match initCall? i with
  | some (r, method) => if state.contains r then some method else none
  | none => none

/-- The registers that hold the receiver after an instruction. -/
def transfer (i : Instruction) (state : RegisterSet) : RegisterSet :=
  match i with
  | .move .object dst src =>
      if state.contains src then state.add dst else state.remove dst
  | _ =>
      if (initOn? state i).isSome then []
      else
        match i.written? with
        | none => state
        | some r => r.slots.foldl (fun s slot => s.remove slot) state

/-- The state of one position, absent while no path is known to reach it. -/
abbrev State := Option RegisterSet

/-- A state after `incoming` has been joined to it, if that changes it. -/
def join (possible : List Register) (incoming : RegisterSet) : State → State
  | none => some incoming
  | some s =>
      let new := incoming.filter fun r => possible.contains r && !s.contains r
      if new.isEmpty then none else some (RegisterSet.addAll new s)

/-- How many more times a state can grow. -/
def room (possible : List Register) : State → Nat
  | none => possible.length + 1
  | some s => possible.countP fun r => !s.contains r

def totalRoom (possible : List Register) : List State → Nat
  | [] => 0
  | s :: rest => room possible s + totalRoom possible rest

/-- The states found so far, and the positions to visit, the next one first. -/
structure Flow where
  states : List State
  pending : List Nat

/-- Join `incoming` to the state at `position`, and visit it if that changed it. -/
def offer (possible : List Register) (incoming : RegisterSet) (flow : Flow) (position : Nat) :
    Flow :=
  match flow.states[position]? with
  | none => flow
  | some old =>
      match join possible incoming old with
      | none => flow
      | some new => ⟨flow.states.set position (some new), position :: flow.pending⟩

/-- Positions of jump targets, or the first target that is never placed. -/
def targetPositions (code : List Instruction) : List Label → Except BodyError (List Nat)
  | [] => .ok []
  | l :: rest =>
      match Code.position? code l with
      | none => .error (.unplacedLabel l)
      | some k => (targetPositions code rest).map (k :: ·)

/-- Where control may go after the instruction at `position`. -/
def successors (code : List Instruction) (position : Nat) (i : Instruction) :
    Except BodyError (List Nat) :=
  let next := if i.fallsThrough && position + 1 < code.length then [position + 1] else []
  (targetPositions code i.targets).map (next ++ ·)

/-- Room left for growth, and positions to visit: what a visit makes smaller. -/
def Flow.measure (possible : List Register) (flow : Flow) : Nat :=
  totalRoom possible flow.states + flow.pending.length

private theorem countP_lt {α : Type} {p q : α → Bool} {a : α} :
    ∀ {l : List α}, (∀ x ∈ l, p x = true → q x = true) → a ∈ l → q a = true →
      p a = false → l.countP p < l.countP q := by
  intro l
  induction l with
  | nil => intro _ hMem; simp at hMem
  | cons x xs ih =>
      intro hImp hMem hq hp
      have hTail : ∀ y ∈ xs, p y = true → q y = true := fun y hy => hImp y (by simp [hy])
      have hMono : xs.countP p ≤ xs.countP q := List.countP_mono_left hTail
      simp only [List.countP_cons]
      rcases List.mem_cons.mp hMem with h | h
      · subst h
        simp only [hp, hq]
        simp
        omega
      · have hLt := ih hTail h hq hp
        by_cases hx : p x = true
        · simp only [hx, hImp x (by simp) hx]
          omega
        · by_cases hqx : q x = true <;> simp [hx, hqx] <;> omega

private theorem room_join {possible : List Register} {incoming : RegisterSet} {old : State}
    {new : RegisterSet} (h : join possible incoming old = some new) :
    room possible (some new) < room possible old := by
  cases old with
  | none =>
      have hLe : possible.countP (fun r => !new.contains r) ≤ possible.length :=
        List.countP_le_length
      show possible.countP _ < possible.length + 1
      omega
  | some s =>
      simp only [join] at h
      split at h
      · simp at h
      · next hNew =>
          simp only [Option.some.injEq] at h
          subst h
          rw [List.isEmpty_iff] at hNew
          obtain ⟨r, hr⟩ := List.exists_mem_of_ne_nil _ hNew
          simp only [List.mem_filter, Bool.and_eq_true, List.contains_iff_mem,
            Bool.not_eq_true', ← Bool.not_eq_true] at hr
          apply countP_lt (a := r)
          · intro x _ hx
            simp only [Bool.not_eq_true', ← Bool.not_eq_true, List.contains_iff_mem,
              RegisterSet.mem_addAll] at hx ⊢
            exact fun hs => hx (.inr hs)
          · exact hr.2.1
          · simpa using hr.2.2
          · simp only [Bool.not_eq_false', List.contains_iff_mem, RegisterSet.mem_addAll]
            left
            simp only [List.mem_filter, Bool.and_eq_true, List.contains_iff_mem,
              Bool.not_eq_true', ← Bool.not_eq_true]
            exact hr

private theorem totalRoom_set {possible : List Register} {new old : State} :
    ∀ {states : List State} {position : Nat}, states[position]? = some old →
      room possible new < room possible old →
      totalRoom possible (states.set position new) < totalRoom possible states := by
  intro states
  induction states with
  | nil => intro position h; simp at h
  | cons s rest ih =>
      intro position h hLt
      cases position with
      | zero =>
          simp only [List.getElem?_cons_zero, Option.some.injEq] at h
          subst h
          simp only [List.set_cons_zero, totalRoom]
          omega
      | succ k =>
          have hRest := ih (by simpa using h) hLt
          simp only [List.set_cons_succ, totalRoom]
          omega

private theorem measure_offer (possible : List Register) (incoming : RegisterSet) (flow : Flow)
    (position : Nat) : (offer possible incoming flow position).measure possible ≤
      flow.measure possible := by
  simp only [offer]
  split
  · exact Nat.le_refl _
  · next old hOld =>
      split
      · exact Nat.le_refl _
      · next new hNew =>
          have hLt := totalRoom_set hOld (room_join hNew)
          simp only [Flow.measure, List.length_cons]
          omega

/-- Offering a state to more positions leaves no more to do than before. -/
theorem measure_foldl_offer (possible : List Register) (incoming : RegisterSet) :
    ∀ (positions : List Nat) (flow : Flow),
      (positions.foldl (offer possible incoming) flow).measure possible ≤
        flow.measure possible := by
  intro positions
  induction positions with
  | nil => intro flow; exact Nat.le_refl _
  | cons p rest ih =>
      intro flow
      exact Nat.le_trans (ih _) (measure_offer possible incoming flow p)

/-- Visit positions until none is left to visit. -/
def settle (code : List Instruction) (flow : Flow) : Except BodyError (List State) :=
  match _h : flow.pending with
  | [] => .ok flow.states
  | position :: rest =>
      match flow.states[position]?, code[position]? with
      | some (some state), some i =>
          match successors code position i with
          | .error e => .error e
          | .ok next =>
              settle code
                (next.foldl (offer (candidates code) (transfer i state)) ⟨flow.states, rest⟩)
      | _, _ => settle code ⟨flow.states, rest⟩
termination_by flow.measure (candidates code)
decreasing_by
  · have hLe := measure_foldl_offer (candidates code) (transfer i state) next
      ⟨flow.states, rest⟩
    simp only [Flow.measure, _h, List.length_cons] at hLe ⊢
    omega
  · simp only [Flow.measure, _h, List.length_cons]
    omega

/-- What is known on entry: `p0` alone, before the first instruction. -/
def entry (code : List Instruction) : Flow :=
  match code with
  | [] => ⟨[], []⟩
  | _ :: rest => ⟨some [.p 0] :: rest.map fun _ => none, [0]⟩

/-- A constructor call on the receiver under construction. -/
structure InitCall where
  position : Nat
  method : MethodRef
  deriving DecidableEq

/-- The registers that hold the receiver before each instruction, where it can be reached. -/
def states (code : List Instruction) : Except BodyError (List State) :=
  match Code.repeated? [] (Code.placed code) with
  | some l => .error (.duplicateLabel l)
  | none => settle code (entry code)

/-- The state before one instruction. -/
def before (states : List State) (position : Nat) : State := (states[position]?).join

/-- The reachable constructor calls whose receiver is still under construction. -/
def initCalls (code : List Instruction) (states : List State) : List InitCall :=
  code.zipIdx.filterMap fun (i, position) =>
    match before states position with
    | none => none
    | some state => (initOn? state i).map fun method => ⟨position, method⟩

/-- Run the analysis and list the constructor calls on the receiver. -/
def analyze (code : List Instruction) : Except BodyError (List State × List InitCall) :=
  (states code).map fun found => (found, initCalls code found)

end HotPatch.Receiver
