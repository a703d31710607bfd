import Mathlib.Data.List.Basic
import HotPatch.Intercept.Delegation
import HotPatch.Proofs.Receiver.Visits

/-!
# The analysis does not see whose constructor is called

A call initializes the receiver by the register it names and by being one of
a constructor.  The class of that constructor plays no part.  So code in which
only the classes of targets differ is analyzed alike (`states_of_unowned`), and
makes its calls on the receiver at the same places.
-/

namespace HotPatch

/-- The instruction without the class of the method it calls. -/
def Instruction.unowned : Instruction → Instruction
  | .invoke kind form args method => .invoke kind form args (method.withOwner (.of ""))
  | i => i

namespace Receiver

@[simp] theorem targets_unowned (i : Instruction) : i.unowned.targets = i.targets := by
  cases i <;> rfl

@[simp] theorem fallsThrough_unowned (i : Instruction) :
    i.unowned.fallsThrough = i.fallsThrough := by
  cases i <;> rfl

@[simp] theorem placed?_unowned (i : Instruction) : i.unowned.placed? = i.placed? := by
  cases i <;> rfl

private theorem beq_label_unowned (i : Instruction) (l : Label) :
    (i.unowned == .label l) = (i == .label l) := by
  cases i <;> rfl

private theorem initCall?_unowned (i : Instruction) :
    initCall? i.unowned =
      (initCall? i).map fun call => (call.1, call.2.withOwner (.of "")) := by
  cases i with
  | invoke kind form args method =>
      cases kind with
      | direct =>
          simp only [Instruction.unowned, initCall?, MethodRef.withOwner]
          split
          · cases args <;> rfl
          · rfl
      | _ => rfl
  | _ => rfl

private theorem initOn?_unowned (s : RegisterSet) (i : Instruction) :
    initOn? s i.unowned = (initOn? s i).map (·.withOwner (.of "")) := by
  rw [initOn?, initOn?, initCall?_unowned]
  cases initCall? i with
  | none => rfl
  | some call =>
      simp only [Option.map_some]
      split <;> rfl

@[simp] theorem transfer_unowned (i : Instruction) (s : RegisterSet) :
    transfer i.unowned s = transfer i s := by
  cases i with
  | invoke kind form args method =>
      have hInit := congrArg Option.isSome (initOn?_unowned s (.invoke kind form args method))
      rw [Option.isSome_map] at hInit
      simp only [Instruction.unowned] at hInit
      simp only [Instruction.unowned, transfer, hInit]
      rfl
  | _ => rfl

section

variable (code : List Instruction)

private theorem placed_unowned : Code.placed (code.map Instruction.unowned) = Code.placed code := by
  simp [Code.placed, List.filterMap_map]

private theorem position?_unowned (l : Label) :
    Code.position? (code.map Instruction.unowned) l = Code.position? code l := by
  simp [Code.position?, List.findIdx?_map, Function.comp_def, beq_label_unowned]

private theorem candidates_unowned : candidates
    (code.map Instruction.unowned) = candidates code := by
  rw [candidates, candidates, List.filterMap_map]
  congr 2
  funext i
  cases i <;> rfl

private theorem targetPositions_unowned (labels : List Label) :
    targetPositions (code.map Instruction.unowned) labels = targetPositions code labels := by
  induction labels with
  | nil => rfl
  | cons l rest ih => rw [targetPositions, targetPositions, position?_unowned, ih]

private theorem successors_unowned (k : Nat) (i : Instruction) :
    successors (code.map Instruction.unowned) k i.unowned = successors code k i := by
  simp [successors, targetPositions_unowned]

/-- The visits are the same, one by one. -/
theorem settle_unowned (flow : Flow) :
    settle (code.map Instruction.unowned) flow = settle code flow := by
  fun_induction settle code flow with
  | case1 flow hNone =>
      obtain ⟨states, pending⟩ := flow
      cases hNone
      exact settle_nil _ _
  | case2 flow k rest hPending s i hState hAt e hNext =>
      obtain ⟨states, pending⟩ := flow
      cases hPending
      rw [settle]
      simp only [hState, List.getElem?_map, hAt, Option.map_some, successors_unowned, hNext]
  | case3 flow k rest hPending s i hState hAt next hNext ih =>
      obtain ⟨states, pending⟩ := flow
      cases hPending
      rw [settle]
      simp only [hState, List.getElem?_map, hAt, Option.map_some, successors_unowned, hNext,
        candidates_unowned, transfer_unowned, ih]
  | case4 flow k rest hPending hNot ih =>
      obtain ⟨states, pending⟩ := flow
      cases hPending
      rw [settle]
      simp only [List.getElem?_map]
      split
      · next s i hState hAt =>
          obtain ⟨j, hj, rfl⟩ := Option.map_eq_some_iff.mp hAt
          exact (hNot s j hState hj).elim
      · exact ih

private theorem states_unowned : states (code.map Instruction.unowned) = states code := by
  have hEntry : entry (code.map Instruction.unowned) = entry code := by
    cases code with
    | nil => rfl
    | cons i rest => simp [entry, Function.comp_def]
  rw [states, states, placed_unowned, settle_unowned, hEntry]

end

variable {code code' : List Instruction}

/-- Code that differs in the classes of targets only is analyzed alike. -/
theorem states_of_unowned
    (h : code'.map Instruction.unowned = code.map Instruction.unowned) :
    states code' = states code := by
  rw [← states_unowned code', h, states_unowned]

private theorem initCalls_unowned (code : List Instruction) (found : List State) :
    initCalls (code.map Instruction.unowned) found =
      (initCalls code found).map fun call => ⟨call.position, call.method.withOwner (.of "")⟩ := by
  rw [initCalls, initCalls, List.zipIdx_map, List.filterMap_map, List.map_filterMap]
  congr 1
  funext entry
  obtain ⟨i, k⟩ := entry
  simp only [Function.comp_apply, Prod.map_apply, id_eq]
  cases before found k with
  | none => rfl
  | some s => simp [initOn?_unowned, Function.comp_def]

/-- Code that differs in the classes of targets only makes its calls at the same places. -/
theorem map_position_of_unowned
    (h : code'.map Instruction.unowned = code.map Instruction.unowned) (found : List State) :
    (initCalls code' found).map (·.position) = (initCalls code found).map (·.position) := by
  have hSame := congrArg (fun calls => calls.map InitCall.position)
    ((initCalls_unowned code' found).symm.trans (h ▸ initCalls_unowned code found))
  simpa [Function.comp_def] using hSame

end Receiver

end HotPatch
