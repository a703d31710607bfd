import HotPatch.Proofs.Basics
import HotPatch.Proofs.Bytecode.ControlFlow
import HotPatch.Proofs.Bytecode.RegisterRuns

/-!
# Bodies that can be encoded

What the check of a body comes to: labels placed once, jumps that lead to
labels, and calls whose registers fit their target and the form of the call
(`Body.error?_eq_none_iff`).  Of these only the last depends on the size of
the frame, and only through calls over a range of registers, which have to be
one run.

A draft is finished exactly if the locals in use can be counted in 16 bits and
the body passes the check (`Draft.finish_eq_ok_iff`).
-/

namespace HotPatch

/-! ## The check of a body -/

namespace Code

/-- No target of an instruction is missing if all of them are placed. -/
theorem unplaced?_eq_none_iff {code : List Instruction} {i : Instruction} :
    unplaced? code i = none ↔ ∀ l ∈ i.targets, l ∈ placed code := by
  rw [unplaced?, List.find?_eq_none]
  refine forall₂_congr fun l _ => ?_
  by_cases hMem : l ∈ placed code
  · obtain ⟨k, hk⟩ := exists_position? hMem
    simp [hk, hMem]
  · simp [position?_eq_none hMem, hMem]

private theorem instructionError?_eq_none_iff {code : List Instruction} {locals : Nat}
    {i : Instruction} :
    instructionError? code locals i = none ↔
      (∀ l ∈ i.targets, l ∈ placed code) ∧ invokeError? locals i = none := by
  rw [← unplaced?_eq_none_iff, instructionError?]
  cases unplaced? code i <;> simp

section Calls

variable {locals : Nat} {kind : InvokeKind} {args : RegisterList} {target : MethodRef}

/-- A fixed call is in order if its registers match the callee and are few. -/
theorem invokeError?_fixed
    (hSlots : RegisterList.slotCount args = target.signature.slots kind.hasReceiver)
    (hFew : target.signature.slots kind.hasReceiver ≤ maxFixedSlots) :
    invokeError? locals (.invoke kind .fixed args target) = none := by
  simp [invokeError?, hSlots, Nat.not_lt.mpr hFew]

/-- A ranged call is in order if its registers match the callee, follow on each other and can be
counted. -/
theorem invokeError?_range_iff :
    invokeError? locals (.invoke kind .range args target) = none ↔
      RegisterList.slotCount args = target.signature.slots kind.hasReceiver ∧
        RegisterList.isContiguous args locals = true ∧
        ∀ p ∈ RegisterList.absoluteSlots args locals, p ≤ Register.maxIndex := by
  rw [← RegisterList.isContiguous?_eq_true_iff, invokeError?]
  by_cases hSlots : target.signature.slots kind.hasReceiver = RegisterList.slotCount args
  · rw [if_neg (not_not.mpr hSlots), and_iff_right hSlots.symm]
    cases RegisterList.isContiguous? args locals with
    | none => simp
    | some contiguous => cases contiguous <;> simp
  · rw [if_pos hSlots]
    exact iff_of_false (fun h => by cases h) fun h => hSlots h.1.symm

end Calls

end Code

/-- What the check of a body comes to. -/
theorem Body.error?_eq_none_iff {b : Body} :
    b.error? = none ↔ (Code.placed b.instructions).Nodup ∧
      ∀ i ∈ b.instructions, (∀ l ∈ i.targets, l ∈ Code.placed b.instructions) ∧
        Code.invokeError? b.locals i = none := by
  have hEach : b.instructions.findSome? (Code.instructionError? b.instructions b.locals) = none ↔
      ∀ i ∈ b.instructions, (∀ l ∈ i.targets, l ∈ Code.placed b.instructions) ∧
        Code.invokeError? b.locals i = none := by
    rw [List.findSome?_eq_none_iff]
    exact forall₂_congr fun i _ => Code.instructionError?_eq_none_iff
  have hOnce : Code.repeated? [] (Code.placed b.instructions) = none ↔
      (Code.placed b.instructions).Nodup := by
    simp [Code.repeated?_eq_none_iff]
  rw [← hEach, ← hOnce, Body.error?]
  cases Code.repeated? [] (Code.placed b.instructions) <;> simp

/-- A body passes the check if nothing is wrong with it. -/
theorem Body.check_eq_ok_iff {b : Body} : b.check = .ok () ↔ b.error? = none := by
  rw [Body.check]
  cases b.error? <;> simp

theorem Body.check_eq_error_iff {b : Body} {e : BodyError} :
    b.check = .error e ↔ b.error? = some e := by
  rw [Body.check]
  cases b.error? <;> simp

/-- A draft is finished if its locals can be counted and its code can be encoded in its frame. -/
theorem Draft.finish_eq_ok_iff {d : Draft} {params : Nat} {b : Body} :
    d.finish params = .ok b ↔ Code.usedLocals d.instructions ≤ Register.maxIndex ∧
      b = ⟨d.locals, params, d.instructions, d.nextLabel⟩ ∧ b.error? = none := by
  have hSized : Body.resize ⟨0, params, d.instructions, d.nextLabel⟩ params d.minimumLocals =
      ⟨d.locals, params, d.instructions, d.nextLabel⟩ := rfl
  simp only [Draft.finish, hSized]
  by_cases hUsed : Code.usedLocals d.instructions ≤ Register.maxIndex
  · rw [if_neg (Nat.not_lt.mpr hUsed), and_iff_right hUsed]
    cases hError : (⟨d.locals, params, d.instructions, d.nextLabel⟩ : Body).error? with
    | some e =>
        refine iff_of_false (fun h => by cases h) ?_
        rintro ⟨rfl, hNone⟩
        rw [hError] at hNone
        cases hNone
    | none =>
        constructor
        · intro h
          cases h
          exact ⟨rfl, hError⟩
        · rintro ⟨rfl, _⟩
          rfl
  · rw [if_pos (Nat.not_le.mp hUsed)]
    exact iff_of_false (fun h => by cases h) fun h => hUsed h.1

/-- A draft becomes a body as it is if its labels are placed once, its jumps and calls are in order
and its registers can be counted. -/
theorem Draft.finish_eq {d : Draft} (params : Nat) (hNodup : (Code.placed d.instructions).Nodup)
    (hEach : ∀ i ∈ d.instructions, (∀ l ∈ i.targets, l ∈ Code.placed d.instructions) ∧
      Code.invokeError? d.locals i = none)
    (hUsed : Code.usedLocals d.instructions ≤ Register.maxIndex) :
    d.finish params = .ok ⟨d.locals, params, d.instructions, d.nextLabel⟩ ∧
      (⟨d.locals, params, d.instructions, d.nextLabel⟩ : Body).check = .ok () := by
  have hChecked : (⟨d.locals, params, d.instructions, d.nextLabel⟩ : Body).error? = none :=
    Body.error?_eq_none_iff.mpr ⟨hNodup, hEach⟩
  exact ⟨Draft.finish_eq_ok_iff.mpr ⟨hUsed, rfl, hChecked⟩, Body.check_eq_ok_iff.mpr hChecked⟩

/-! ## Registers in use -/

/-- The locals in use fit in a frame if every register does. -/
theorem Code.usedLocals_le_iff {code : List Instruction} {n : Nat} :
    usedLocals code ≤ n ↔ ∀ i ∈ code, ∀ r ∈ i.registers, r.localExtent ≤ n := by
  rw [usedLocals, foldl_max_le_iff, and_iff_right (Nat.zero_le n), List.forall_mem_map]
  simp only [List.mem_flatMap, forall_exists_index, and_imp]
  exact ⟨fun h i hi r hr => h r i hi hr, fun h r i hi hr => h i hi r hr⟩

/-- Joined code needs no more locals than its parts. -/
theorem Code.usedLocals_append_le_iff {front back : List Instruction} {n : Nat} :
    usedLocals (front ++ back) ≤ n ↔ usedLocals front ≤ n ∧ usedLocals back ≤ n := by
  simp only [usedLocals_le_iff, List.mem_append, or_imp, forall_and]

/-! ## Frames that grow -/

/-- A call over a range of registers names registers of one bank only. -/
def Instruction.KeepsBank : Instruction → Prop
  | .invoke _ .range args _ => ∃ bank : Bank, ∀ r ∈ args, r.bank = bank
  | _ => True

/-- Every slot of the registers has a position in 16 bits. -/
def Instruction.InReach (locals : Nat) (i : Instruction) : Prop :=
  ∀ r ∈ i.registers, ∀ s ∈ r.slots, s.absolute locals ≤ Register.maxIndex

instance (locals : Nat) (i : Instruction) : Decidable (i.InReach locals) :=
  inferInstanceAs (Decidable (∀ r ∈ i.registers, ∀ s ∈ r.slots, s.absolute locals ≤ 0xFFFF))

theorem Instruction.InReach.absoluteSlots_le {locals : Nat} {kind : InvokeKind} {form : InvokeForm}
    {args : RegisterList} {target : MethodRef}
    (h : (Instruction.invoke kind form args target).InReach locals) :
    ∀ p ∈ RegisterList.absoluteSlots args locals, p ≤ Register.maxIndex := by
  rintro p hp
  obtain ⟨s, hs, rfl⟩ := List.mem_map.mp hp
  obtain ⟨r, hr, hs⟩ := List.mem_flatMap.mp hs
  exact h r hr s hs

/-- Calls that keep to one bank fit in every frame that has indices for them if they fit in one. -/
theorem Instruction.KeepsBank.invokeError? {i : Instruction} (h : i.KeepsBank)
    {locals : Nat} (hFits : Code.invokeError? locals i = none) {locals' : Nat}
    (hReach : i.InReach locals') : Code.invokeError? locals' i = none := by
  cases i with
  | invoke kind form args target =>
      cases form with
      | fixed => exact hFits
      | range =>
          obtain ⟨bank, hBank⟩ := h
          obtain ⟨hSlots, hRun, _⟩ := Code.invokeError?_range_iff.mp hFits
          refine Code.invokeError?_range_iff.mpr ⟨hSlots, ?_, hReach.absoluteSlots_le⟩
          rw [RegisterList.isContiguous_of_bank hBank locals locals', hRun]
  | _ => rfl

/-! ## Plain code -/

/-- No label and no jump; and a call fits a frame with the given number of locals. -/
structure Instruction.Plain (locals : Nat) (i : Instruction) : Prop where
  placed : i.placed? = none
  targets : i.targets = []
  call : Code.invokeError? locals i = none

/-- Plain code places no labels. -/
theorem Code.placed_of_plain {locals : Nat} {code : List Instruction}
    (h : ∀ i ∈ code, i.Plain locals) : Code.placed code = [] := by
  rw [Code.placed, List.filterMap_eq_nil_iff]
  exact fun i hi => (h i hi).placed

/-- Plain code alone can be encoded. -/
theorem Draft.finish_plain {code : List Instruction}
    (h : ∀ i ∈ code, i.Plain (Code.usedLocals code)) (params : Nat)
    (hUsed : Code.usedLocals code ≤ Register.maxIndex) :
    ∃ body, (Draft.empty.append code).finish params = .ok body ∧ body.check = .ok () ∧
      body.instructions = code := by
  have hCode : (Draft.empty.append code).instructions = code := rfl
  have hLocals : (Draft.empty.append code).locals = Code.usedLocals code := Nat.zero_max _
  have hNone : Code.placed (Draft.empty.append code).instructions = [] :=
    Code.placed_of_plain h
  have hEach : ∀ i ∈ (Draft.empty.append code).instructions,
      (∀ l ∈ i.targets, l ∈ Code.placed (Draft.empty.append code).instructions) ∧
        Code.invokeError? (Draft.empty.append code).locals i = none := by
    intro i hi
    have hPlain := h i (hCode ▸ hi)
    rw [hLocals]
    exact ⟨by simp [hPlain.targets], hPlain.call⟩
  obtain ⟨hFinish, hCheck⟩ := Draft.finish_eq params (hNone ▸ List.nodup_nil) hEach hUsed
  exact ⟨_, hFinish, hCheck, rfl⟩

namespace Boxing

variable {locals : Nat} {array index scratch : Register} {values : List (Register × ValueType)}

private theorem plain_box (value : Register) (type : ValueType) :
    ∀ i ∈ (box scratch value type).1, i.Plain locals := by
  intro i hi
  cases type with
  | base p =>
      simp only [box, List.mem_cons, List.not_mem_nil, or_false] at hi
      rcases hi with rfl | rfl
      · have hSlots : RegisterList.slotCount [value.withWide p.isWide] =
            (Interceptor.boxMethod p).signature.slots InvokeKind.static.hasReceiver := by
          cases p <;> rfl
        exact ⟨rfl, rfl, Code.invokeError?_fixed hSlots (by cases p <;> decide)⟩
      · exact ⟨rfl, rfl, rfl⟩
  | object cls => cases hi
  | array element => cases hi

/-- Packing arguments takes no jumps, labels or calls that depend on the frame. -/
theorem plain_storeAll : ∀ i ∈ storeAll array index scratch values, i.Plain locals := by
  intro i hi
  obtain ⟨⟨⟨value, type⟩, k⟩, _, hi⟩ := List.mem_flatMap.mp hi
  simp only [store, List.cons_append, List.mem_cons, List.mem_append, List.not_mem_nil,
    or_false] at hi
  rcases hi with rfl | hi | rfl
  · exact ⟨rfl, rfl, rfl⟩
  · exact plain_box value type i hi
  · exact ⟨rfl, rfl, rfl⟩

private theorem plain_unbox {dst : Register} (hNarrow : dst.wide = false) (type : ValueType) :
    ∀ i ∈ unbox dst type, i.Plain locals := by
  intro i hi
  cases type with
  | base p =>
      simp only [unbox, List.mem_cons, List.not_mem_nil, or_false] at hi
      rcases hi with rfl | rfl | rfl
      · exact ⟨rfl, rfl, rfl⟩
      · have hOne : RegisterList.slotCount [dst] = 1 := by
          simp [RegisterList.slotCount, Register.width, hNarrow]
        exact ⟨rfl, rfl, Code.invokeError?_fixed hOne (by cases p <;> decide)⟩
      · exact ⟨rfl, rfl, rfl⟩
  | object cls =>
      simp only [unbox] at hi
      split at hi
      · cases hi
      · obtain rfl := List.mem_singleton.mp hi
        exact ⟨rfl, rfl, rfl⟩
  | array element =>
      obtain rfl := List.mem_singleton.mp hi
      exact ⟨rfl, rfl, rfl⟩

/-- Unpacking them does not, either. -/
theorem plain_loadAll : ∀ i ∈ loadAll array index values, i.Plain locals := by
  intro i hi
  obtain ⟨⟨⟨dst, type⟩, k⟩, _, hi⟩ := List.mem_flatMap.mp hi
  simp only [load, List.mem_cons] at hi
  rcases hi with rfl | rfl | hi
  · exact ⟨rfl, rfl, rfl⟩
  · exact ⟨rfl, rfl, rfl⟩
  · exact plain_unbox rfl type i hi

end Boxing

end HotPatch
