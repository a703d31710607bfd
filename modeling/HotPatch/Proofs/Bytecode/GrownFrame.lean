import Mathlib.Data.List.Basic
import HotPatch.Proofs.Bytecode.Encodable

/-!
# Frames that gain locals

The parameters sit right above the locals, so a frame that gains locals moves
all parameters up by as many places and leaves the locals where they are.  No
two slots in use come to share a place (`absolute_inj_of_used`), and the check
of a body looks at places in one case only: the registers of a call over a
range have to be one run.  A run inside one bank moves as a whole.  A run that
goes on from the locals into the parameters is torn apart.

So the code of a finished body passes the check in a larger frame, as long as
its places still have indices, exactly if no such call has registers of both
banks; otherwise the first one that has is what the check reports
(`Draft.finish_grown`).
-/

namespace HotPatch

/-! ## Slots -/

/-- The slots of all registers that a body names. -/
def Body.slots (b : Body) : List Register :=
  (b.instructions.flatMap Instruction.registers).flatMap Register.slots

section Slots

variable {r s t : Register}

private theorem Register.of_mem_slots (h : s ∈ r.slots) :
    s.bank = r.bank ∧ s.wide = false ∧ s.index < r.index + r.width := by
  obtain ⟨bank, index, wide⟩ := r
  cases wide <;> simp only [slots, narrow, withWide, width, Bool.false_eq_true, if_true, if_false,
    List.mem_cons, List.not_mem_nil, or_false] at h ⊢
  · exact h ▸ ⟨rfl, rfl, Nat.lt_succ_self index⟩
  · rcases h with rfl | rfl
    · exact ⟨rfl, rfl, Nat.lt_add_of_pos_right (Nat.zero_lt_succ 1)⟩
    · exact ⟨rfl, rfl, Nat.lt_succ_self (index + 1)⟩

private theorem Register.index_lt_localExtent (h : s ∈ r.slots) (hLocal : s.bank = .locals) :
    s.index < r.localExtent := by
  obtain ⟨hBank, _, hIndex⟩ := of_mem_slots h
  rw [localExtent, isLocal, ← hBank, hLocal]
  exact hIndex

/-- Two slots share no place, as long as the locals stay below the parameters. -/
theorem Register.absolute_inj {locals : Nat} (hs : s.wide = false) (ht : t.wide = false)
    (hBelow : s.bank = .locals → s.index < locals) (hBelow' : t.bank = .locals → t.index < locals)
    (h : s.absolute locals = t.absolute locals) : s = t := by
  obtain ⟨bank, index, wide⟩ := s
  obtain ⟨bank', index', wide'⟩ := t
  subst hs ht
  cases bank <;> cases bank' <;> simp [absolute] at h hBelow hBelow' ⊢ <;> omega

end Slots

/-- What a body names stays apart in every frame with room for its locals. -/
theorem Body.absolute_inj_of_used {b : Body} {locals : Nat}
    (hRoom : Code.usedLocals b.instructions ≤ locals) {s t : Register} (hs : s ∈ b.slots)
    (ht : t ∈ b.slots) (h : s.absolute locals = t.absolute locals) : s = t := by
  have hBelow : ∀ s ∈ b.slots, s.wide = false ∧ (s.bank = .locals → s.index < locals) := by
    intro s hs
    obtain ⟨r, hr, hs⟩ := List.mem_flatMap.mp hs
    obtain ⟨i, hi, hr⟩ := List.mem_flatMap.mp hr
    have hExtent := Code.usedLocals_le_iff.mp hRoom i hi r hr
    exact ⟨(Register.of_mem_slots hs).2.1, fun hLocal =>
      Nat.lt_of_lt_of_le (Register.index_lt_localExtent hs hLocal) hExtent⟩
  exact Register.absolute_inj (hBelow s hs).1 (hBelow t ht).1 (hBelow s hs).2 (hBelow t ht).2 h

/-! ## Runs across the banks -/

namespace RegisterList

/-- Locals and parameters stand in one list. -/
def CrossesBanks (args : RegisterList) : Prop :=
  (∃ r ∈ args, r.bank = .locals) ∧ ∃ r ∈ args, r.bank = .params

instance (args : RegisterList) : Decidable args.CrossesBanks :=
  inferInstanceAs (Decidable (_ ∧ _))

private theorem exists_bank_of_not_crossesBanks {args : RegisterList} (h : ¬ args.CrossesBanks) :
    ∃ bank : Bank, ∀ r ∈ args, r.bank = bank := by
  by_cases hLocal : ∃ r ∈ args, r.bank = .locals
  · refine ⟨.locals, fun r hr => ?_⟩
    cases hBank : r.bank with
    | locals => rfl
    | params => exact absurd ⟨hLocal, r, hr, hBank⟩ h
  · refine ⟨.params, fun r hr => ?_⟩
    cases hBank : r.bank with
    | locals => exact absurd ⟨r, hr, hBank⟩ hLocal
    | params => rfl

/-- Slots that are a run in frames of two sizes are all of one bank.  A step between the banks has
another length in the other frame. -/
theorem bank_eq_of_isRun {locals locals' : Nat} (hSizes : locals ≠ locals') :
    ∀ (slots : List Register) (s : Register),
      isRun ((s :: slots).map (·.absolute locals)) = true →
      isRun ((s :: slots).map (·.absolute locals')) = true → ∀ t ∈ slots, t.bank = s.bank := by
  intro slots
  induction slots with
  | nil => exact fun s _ _ t ht => absurd ht List.not_mem_nil
  | cons next rest ih =>
      intro s h h' t ht
      simp only [List.map_cons, isRun, Bool.and_eq_true, beq_iff_eq] at h h'
      have hNext : next.bank = s.bank := by
        have hStep := h.1
        have hStep' := h'.1
        unfold Register.absolute at hStep hStep'
        cases hs : s.bank <;> cases hn : next.bank <;>
          simp only [hs, hn, reduceCtorEq] at hStep hStep' ⊢ <;> omega
      rcases List.mem_cons.mp ht with rfl | ht
      · exact hNext
      · exact (ih next h.2 h'.2 t ht).trans hNext

/-- The places of a run go up in a larger frame too. -/
theorem isChain_of_grown {args : RegisterList} {locals locals' : Nat}
    (h : isContiguous args locals = true) (hMore : locals ≤ locals')
    (hRoom : ∀ r ∈ args, r.localExtent ≤ locals) :
    (absoluteSlots args locals').IsChain (· < ·) := by
  have hBelow : ∀ s ∈ args.flatMap Register.slots, s.bank = .locals → s.index < locals := by
    intro s hs hLocal
    obtain ⟨r, hr, hs⟩ := List.mem_flatMap.mp hs
    exact Nat.lt_of_lt_of_le (Register.index_lt_localExtent hs hLocal) (hRoom r hr)
  have hUp := isChain_of_isRun h
  rw [absoluteSlots, List.isChain_map] at hUp ⊢
  refine hUp.imp_of_mem_imp fun s t hs ht hLt => ?_
  have hs := hBelow s hs
  have ht := hBelow t ht
  unfold Register.absolute at hLt ⊢
  cases hBank : s.bank <;> cases hBank' : t.bank <;>
    simp only [hBank, hBank', reduceCtorEq, forall_true_left, false_implies] at hLt hs ht ⊢ <;>
    omega

/-- A run is one in a frame of another size exactly if it keeps to one bank. -/
theorem isContiguous_iff_not_crossesBanks {args : RegisterList} {locals locals' : Nat}
    (h : isContiguous args locals = true) (hSizes : locals ≠ locals') :
    isContiguous args locals' = true ↔ ¬ args.CrossesBanks := by
  refine ⟨fun h' => ?_, fun hKeeps => ?_⟩
  · rintro ⟨⟨r, hr, hLocal⟩, r', hr', hParam⟩
    have hFirst : ∀ r ∈ args, r.narrow ∈ args.flatMap Register.slots := by
      intro r hr
      refine List.mem_flatMap.mpr ⟨r, hr, ?_⟩
      rw [Register.slots]
      split <;> exact List.mem_cons_self
    rw [isContiguous, absoluteSlots] at h h'
    cases hSlots : args.flatMap Register.slots with
    | nil => exact absurd (hSlots ▸ hFirst r hr) List.not_mem_nil
    | cons s rest =>
        rw [hSlots] at h h'
        have hBank : ∀ t ∈ s :: rest, t.bank = s.bank := fun t ht =>
          (List.mem_cons.mp ht).elim (· ▸ rfl) (bank_eq_of_isRun hSizes rest s h h' t)
        have hSame := (hBank _ (hSlots ▸ hFirst r hr)).trans (hBank _ (hSlots ▸ hFirst r' hr')).symm
        rw [Register.narrow, Register.narrow, Register.withWide, Register.withWide, hLocal,
          hParam] at hSame
        cases hSame
  · obtain ⟨bank, hBank⟩ := exists_bank_of_not_crossesBanks hKeeps
    rw [isContiguous_of_bank hBank locals locals', h]

end RegisterList

/-! ## The check in a larger frame -/

/-- The target of a call over a range that takes registers of both banks. -/
def Instruction.crossing? : Instruction → Option MethodRef
  | .invoke _ .range args target => if args.CrossesBanks then some target else none
  | _ => none

private theorem Instruction.crossing?_eq_some_iff {i : Instruction} {target : MethodRef} :
    i.crossing? = some target ↔
      ∃ kind args, i = .invoke kind .range args target ∧ args.CrossesBanks := by
  fun_cases Instruction.crossing? i with
  | case1 kind args method hCrosses =>
      refine ⟨fun h => ⟨kind, args, by rw [Option.some.inj h], hCrosses⟩, ?_⟩
      rintro ⟨_, _, h, _⟩
      cases h
      rfl
  | case2 kind args method hKeeps => grind
  | case3 i hOther => grind

/-- In a larger frame that has indices for it, what fitted before fails only for a crossing. -/
theorem Code.invokeError?_eq_crossing? {i : Instruction} {locals locals' : Nat}
    (h : invokeError? locals i = none) (hMore : locals < locals')
    (hRoom : ∀ r ∈ i.registers, r.localExtent ≤ locals) (hReach : i.InReach locals') :
    invokeError? locals' i = i.crossing?.map .nonContiguousRange := by
  cases i with
  | invoke kind form args target =>
      cases form with
      | fixed => exact h
      | range =>
          obtain ⟨hSlots, hRun, _⟩ := invokeError?_range_iff.mp h
          have hUp := RegisterList.isChain_of_grown hRun (Nat.le_of_lt hMore) hRoom
          have hIff := RegisterList.isContiguous_iff_not_crossesBanks hRun (Nat.ne_of_lt hMore)
          rw [invokeError?, if_neg (not_not.mpr hSlots.symm), Instruction.crossing?,
            RegisterList.isContiguous?_eq hUp hReach.absoluteSlots_le]
          by_cases hCrosses : args.CrossesBanks
          · simp only [Bool.eq_false_iff.mpr (fun hRun' => hIff.mp hRun' hCrosses), if_pos hCrosses]
            rfl
          · simp only [hIff.mpr hCrosses, if_neg hCrosses]
            rfl
  | _ => rfl

/-- A checked body fails in a larger frame at its first crossing, or not at all. -/
theorem Body.error?_resize {b : Body} (h : b.error? = none) {params minimum : Nat}
    (hRoom : Code.usedLocals b.instructions ≤ b.locals)
    (hMore : b.locals < (b.resize params minimum).locals)
    (hReach : ∀ s ∈ b.slots, s.absolute (b.resize params minimum).locals ≤ Register.maxIndex) :
    (b.resize params minimum).error? =
      (b.instructions.findSome? Instruction.crossing?).map .nonContiguousRange := by
  obtain ⟨hNodup, hEach⟩ := Body.error?_eq_none_iff.mp h
  have hOnce : Code.repeated? [] (Code.placed b.instructions) = none := by
    simpa [Code.repeated?_eq_none_iff] using hNodup
  have hFault : ∀ i ∈ b.instructions,
      Code.instructionError? b.instructions (b.resize params minimum).locals i =
        i.crossing?.map .nonContiguousRange := by
    intro i hi
    rw [Code.instructionError?, Code.unplaced?_eq_none_iff.mpr (hEach i hi).1]
    refine Code.invokeError?_eq_crossing? (hEach i hi).2 hMore
      (fun r hr => Code.usedLocals_le_iff.mp hRoom i hi r hr) fun r hr s hs => ?_
    exact hReach s (List.mem_flatMap.mpr ⟨r, List.mem_flatMap.mpr ⟨i, hi, hr⟩, hs⟩)
  have hCode : (b.resize params minimum).instructions = b.instructions := rfl
  rw [Body.error?, hCode, hOnce, List.map_findSome?]
  simp only [← List.head?_filterMap]
  exact congrArg List.head? (List.filterMap_congr hFault)

private theorem Code.findSome?_crossing?_eq_none_iff {code : List Instruction} :
    code.findSome? Instruction.crossing? = none ↔
      ∀ kind args target, .invoke kind .range args target ∈ code →
        ¬ RegisterList.CrossesBanks args := by
  rw [List.findSome?_eq_none_iff]
  simp only [Option.eq_none_iff_forall_ne_some, ne_eq, Instruction.crossing?_eq_some_iff]
  refine ⟨fun h kind args target hMem hCrosses => ?_, ?_⟩
  · exact h _ hMem target ⟨kind, args, rfl, hCrosses⟩
  · rintro h _ hMem target ⟨kind, args, rfl, hCrosses⟩
    exact h kind args target hMem hCrosses

/-- A finished body in a larger frame, where every slot that it names still has an index. -/
theorem Draft.finish_grown {d : Draft} {params : Nat} {b : Body} (h : d.finish params = .ok b)
    {locals : Nat} (hMore : b.locals < locals) :
    (∀ n, b.locals ≤ n → ∀ s ∈ b.slots, ∀ t ∈ b.slots, s.absolute n = t.absolute n → s = t) ∧
      (b.resize b.params locals).locals = locals ∧
      ((∀ s ∈ b.slots, s.absolute locals < 0x10000) →
        ((b.resize b.params locals).check = .ok () ↔
          ∀ kind args target, .invoke kind .range args target ∈ b.instructions →
            ¬ RegisterList.CrossesBanks args) ∧
        ∀ e, (b.resize b.params locals).check = .error e →
          ∃ kind args target, .invoke kind .range args target ∈ b.instructions ∧
            RegisterList.CrossesBanks args ∧ e = .nonContiguousRange target) := by
  obtain ⟨_, hBody, hNone⟩ := Draft.finish_eq_ok_iff.mp h
  have hRoom : Code.usedLocals b.instructions ≤ b.locals := by
    rw [hBody]
    exact Nat.le_max_right _ _
  have hSize : (b.resize b.params locals).locals = locals :=
    Nat.max_eq_left (Nat.le_trans hRoom (Nat.le_of_lt hMore))
  refine ⟨fun n hn s hs t ht => Body.absolute_inj_of_used (Nat.le_trans hRoom hn) hs ht, hSize,
    fun hReach => ?_⟩
  have hError := Body.error?_resize hNone hRoom (hSize.symm ▸ hMore)
    fun s hs => hSize.symm ▸ Nat.le_of_lt_succ (hReach s hs)
  refine ⟨?_, fun e he => ?_⟩
  · rw [Body.check_eq_ok_iff, hError, Option.map_eq_none_iff,
      Code.findSome?_crossing?_eq_none_iff]
  · rw [Body.check_eq_error_iff, hError] at he
    obtain ⟨target, hFirst, rfl⟩ := Option.map_eq_some_iff.mp he
    obtain ⟨i, hi, hTarget⟩ := List.exists_of_findSome?_eq_some hFirst
    obtain ⟨kind, args, rfl, hCrosses⟩ := Instruction.crossing?_eq_some_iff.mp hTarget
    exact ⟨kind, args, target, hi, hCrosses, rfl⟩

/-- A call over parameters, and one that goes on from the last local into the parameters. -/
def crossingDraft : Draft where
  instructions :=
    [.invoke .static .range [.p 0, (Register.p 1).withWide true]
        ⟨.of "a/Main", ⟨"first"⟩, .void [.base .int, .base .long]⟩,
      .invoke .static .range [.v 1, .p 0, (Register.p 1).withWide true]
        ⟨.of "a/Main", ⟨"second"⟩, .void [.base .int, .base .int, .base .long]⟩,
      .returnVoid]
  minimumLocals := 2

/-- The call that crosses the banks is what the check of a larger frame reports. -/
theorem Draft.finish_grown_crossing :
    ∃ b, crossingDraft.finish 3 = .ok b ∧ b.locals < 3 ∧ (b.resize b.params 3).locals = 3 ∧
      b.slots.length = 7 ∧
      (∀ s ∈ b.slots, ∀ t ∈ b.slots, s.absolute 3 = t.absolute 3 → s = t) ∧
      ∃ e, (b.resize b.params 3).check = .error e ∧ ∃ kind args target,
        .invoke kind .range args target ∈ b.instructions ∧ RegisterList.CrossesBanks args ∧
          e = .nonContiguousRange target := by
  have hFinish : crossingDraft.finish 3 = .ok ⟨2, 3, crossingDraft.instructions, 0⟩ := by
    decide +kernel
  have hLess : (⟨2, 3, crossingDraft.instructions, 0⟩ : Body).locals < 3 := by decide
  obtain ⟨hApart, hSize, hChecked⟩ := Draft.finish_grown hFinish hLess
  obtain ⟨hIff, hError⟩ := hChecked (by decide +kernel)
  refine ⟨_, hFinish, hLess, hSize, by decide +kernel, hApart 3 (by decide), ?_⟩
  cases hCheck : ((⟨2, 3, crossingDraft.instructions, 0⟩ : Body).resize 3 3).check with
  | error e => exact ⟨e, rfl, hError e hCheck⟩
  | ok =>
      have hNone := hIff.mp hCheck .static [.v 1, .p 0, (Register.p 1).withWide true]
        ⟨.of "a/Main", ⟨"second"⟩, .void [.base .int, .base .int, .base .long]⟩ (by decide +kernel)
      exact absurd (by decide) hNone

end HotPatch
