import HotPatch.Proofs.Bytecode.Encodable

/-!
# The frame that code needs

How many locals a line of code uses, piece by piece.  The code that packs
arguments uses the registers it is given and the parameters, which are no
locals; the code that unpacks them uses the registers it fills as well, and
these end where the next one would start (`localExtent_of_mem_layout`).
-/

namespace HotPatch

namespace Register

/-- Parameters need no locals. -/
theorem localExtent_of_params {r : Register} (h : r.bank = .params) : r.localExtent = 0 := by
  simp [localExtent, isLocal, h]

private theorem localExtent_narrow_le (r : Register) : r.narrow.localExtent ≤ r.localExtent := by
  have hWidth : r.narrow.width ≤ r.width := by
    cases r with
    | mk bank index wide => cases wide <;> simp [width, narrow, withWide]
  show (if r.isLocal then r.index + r.narrow.width else 0) ≤
    if r.isLocal then r.index + r.width else 0
  split <;> omega

/-- In a smaller frame every position is lower. -/
theorem absolute_le (r : Register) {locals locals' : Nat} (h : locals ≤ locals') :
    r.absolute locals ≤ r.absolute locals' := by
  unfold absolute
  split
  · exact Nat.le_refl _
  · exact Nat.add_le_add_right h _

end Register

/-- What can be counted in a frame can be counted in a smaller one. -/
theorem Instruction.InReach.of_le {i : Instruction} {locals locals' : Nat}
    (h : i.InReach locals') (hLe : locals ≤ locals') : i.InReach locals :=
  fun r hr s hs => Nat.le_trans (s.absolute_le hLe) (h r hr s hs)

/-- The locals of code are those of its instructions. -/
theorem Code.usedLocals_cons_le_iff {i : Instruction} {code : List Instruction} {n : Nat} :
    usedLocals (i :: code) ≤ n ↔ (∀ r ∈ i.registers, r.localExtent ≤ n) ∧ usedLocals code ≤ n := by
  rw [usedLocals_le_iff, usedLocals_le_iff, List.forall_mem_cons]

/-- More code at the end of a draft does not change its frame if it fits in it. -/
theorem Draft.locals_append {d : Draft} {code : List Instruction}
    (h : Code.usedLocals code ≤ d.locals) : (d.append code).locals = d.locals := by
  have hUsed : Code.usedLocals (d.instructions ++ code) ≤ d.locals :=
    Code.usedLocals_append_le_iff.mpr ⟨Nat.le_max_right _ _, h⟩
  have hKept : Code.usedLocals d.instructions ≤ Code.usedLocals (d.instructions ++ code) :=
    (Code.usedLocals_append_le_iff.mp (Nat.le_refl _)).1
  simp only [Draft.locals, Draft.append] at hUsed ⊢
  omega

namespace Boxing

/-- Registers end where the next one would start. -/
theorem localExtent_of_mem_layout {bank : Bank} {types : List ValueType} :
    ∀ {next : Nat} {x : Register × ValueType}, x ∈ layout bank next types →
      x.1.localExtent ≤ next + ValueType.totalWidth types := by
  induction types with
  | nil => intro next x h; cases h
  | cons type rest ih =>
      intro next x h
      rw [ValueType.totalWidth]
      rcases List.mem_cons.mp h with rfl | hMem
      · have hExtent : (⟨bank, next, type.isWide⟩ : Register).localExtent ≤ next + type.width := by
          unfold Register.localExtent
          split
          · exact Nat.le_refl _
          · exact Nat.zero_le _
        exact Nat.le_trans hExtent (Nat.add_le_add_left (Nat.le_add_right _ _) next)
      · exact Nat.le_trans (ih hMem) (Nat.le_of_eq (Nat.add_assoc _ _ _))

variable {array index scratch : Register} {values : List (Register × ValueType)} {n : Nat}

/-- Packing parameters takes three locals. -/
theorem usedLocals_storeAll (hArray : array.localExtent ≤ n) (hIndex : index.localExtent ≤ n)
    (hScratch : scratch.localExtent ≤ n) (hValues : ∀ x ∈ values, x.1.bank = .params) :
    Code.usedLocals (storeAll array index scratch values) ≤ n := by
  rw [Code.usedLocals_le_iff]
  intro i hi
  obtain ⟨⟨⟨value, type⟩, k⟩, hMem, hi⟩ := List.mem_flatMap.mp hi
  have hParameter : value.bank = .params := hValues _ (List.fst_mem_of_mem_zipIdx hMem)
  have hValue : ∀ wide, (value.withWide wide).localExtent ≤ n := fun wide =>
    (Register.localExtent_of_params (r := value.withWide wide) hParameter).trans_le (Nat.zero_le n)
  have hOwn : value.localExtent ≤ n := hValue value.wide
  cases type <;>
    simp only [store, box, List.cons_append, List.nil_append, List.mem_cons, List.not_mem_nil,
      or_false] at hi
  case base p => rcases hi with rfl | rfl | rfl | rfl <;> simp [Instruction.registers, *]
  all_goals rcases hi with rfl | rfl <;> simp [Instruction.registers, *]

/-- Unpacking takes two locals and those it fills. -/
theorem usedLocals_loadAll (hArray : array.localExtent ≤ n) (hIndex : index.localExtent ≤ n)
    (hValues : ∀ x ∈ values, x.1.wide = x.2.isWide ∧ x.1.localExtent ≤ n) :
    Code.usedLocals (loadAll array index values) ≤ n := by
  rw [Code.usedLocals_le_iff]
  intro i hi
  obtain ⟨⟨⟨dst, type⟩, k⟩, hMem, hi⟩ := List.mem_flatMap.mp hi
  obtain ⟨hWide, hFits⟩ := hValues _ (List.fst_mem_of_mem_zipIdx hMem)
  have hNarrow : dst.narrow.localExtent ≤ n := Nat.le_trans dst.localExtent_narrow_le hFits
  simp only [load, List.mem_cons] at hi
  rcases hi with rfl | rfl | hi
  · simp [Instruction.registers, hIndex]
  · simp [Instruction.registers, hArray, hIndex, hNarrow]
  · cases type with
    | base p =>
        have hFilled : dst.narrow.withWide p.isWide = dst := by
          cases dst with
          | mk bank position wide => cases hWide; rfl
        simp only [unbox, hFilled, List.mem_cons, List.not_mem_nil, or_false] at hi
        rcases hi with rfl | rfl | rfl
        · simpa [Instruction.registers] using hNarrow
        · simpa [Instruction.registers] using hNarrow
        · simpa [Instruction.registers] using hFits
    | object cls =>
        simp only [unbox] at hi
        split at hi
        · cases hi
        · obtain rfl := List.mem_singleton.mp hi
          simpa [Instruction.registers] using hNarrow
    | array element =>
        obtain rfl := List.mem_singleton.mp hi
        simpa [Instruction.registers] using hNarrow

end Boxing

end HotPatch
