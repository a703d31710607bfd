import HotPatch.Program.Component

/-!
# Marks as one word

The roles of a class for the five component types lie side by side in one
word.  Reading the roles for a type shifts its bits down and masks the others
(`bit_get`), and adding roles sets bits in the place of the type and nowhere
else (`getLsbD_mark`), so the types do not get into each other's way
(`get_mark`).  A word is given by the roles for each type and by the bits
beyond them (`ext_places`), which no role ever sets, and is zero if there are
none of either (`isEmpty_iff`).
-/

namespace HotPatch

namespace ComponentType

/-- The places of different types do not overlap. -/
theorem shift_apart {c d : ComponentType} (h : c ≠ d) :
    c.shift + 4 ≤ d.shift ∨ d.shift + 4 ≤ c.shift := by
  cases c <;> cases d <;> first | exact absurd rfl h | decide

private theorem shift_le (c : ComponentType) : c.shift ≤ 16 := by
  cases c <;> decide

/-- The places of the types make up the lowest bits of the word. -/
theorem exists_shift {i : Nat} (h : i < 20) :
    ∃ (c : ComponentType) (k : Nat), k < 4 ∧ i = c.shift + k := by
  have hAll : ∀ i : Fin 20, ∃ c ∈ all, ∃ k : Fin 4, i.val = c.shift + k.val := by decide
  obtain ⟨c, _, k, hk⟩ := hAll ⟨i, h⟩
  exact ⟨c, k, k.isLt, hk⟩

end ComponentType

namespace Roles

/-- The role that a bit stands for. -/
def bit (r : Roles) : Nat → Bool
  | 0 => r.direct
  | 1 => r.ancestor
  | 2 => r.genesis
  | 3 => r.buddy
  | _ => false

private theorem bit_of_le (r : Roles) {i : Nat} (h : 4 ≤ i) : r.bit i = false := by
  match i, h with
  | _ + 4, _ => rfl

private theorem ext_bit {r s : Roles} (h : ∀ i < 4, r.bit i = s.bit i) : r = s := by
  obtain ⟨direct, ancestor, genesis, buddy⟩ := r
  have hDirect : direct = s.direct := h 0 (by decide)
  have hAncestor : ancestor = s.ancestor := h 1 (by decide)
  have hGenesis : genesis = s.genesis := h 2 (by decide)
  have hBuddy : buddy = s.buddy := h 3 (by decide)
  rw [hDirect, hAncestor, hGenesis, hBuddy]

private theorem bit_union (r s : Roles) (i : Nat) : (r.union s).bit i = (r.bit i || s.bit i) := by
  match i with
  | 0 | 1 | 2 | 3 => rfl
  | _ + 4 => rfl

private theorem bit_ofBits (word : BitVec 32) {i : Nat} (h : i < 4) :
    (ofBits word).bit i = word.getLsbD i := by
  match i, h with
  | 0, _ | 1, _ | 2, _ | 3, _ => rfl

/-- The word of some roles has just their bits. -/
theorem getLsbD_bits (r : Roles) (i : Nat) : r.bits.getLsbD i = r.bit i := by
  obtain ⟨direct, ancestor, genesis, buddy⟩ := r
  match i with
  | 0 | 1 | 2 | 3 => cases direct <;> cases ancestor <;> cases genesis <;> cases buddy <;> rfl
  | k + 4 =>
      have hLt : (bits ⟨direct, ancestor, genesis, buddy⟩).toNat < 16 := by
        cases direct <;> cases ancestor <;> cases genesis <;> cases buddy <;> decide
      exact Nat.testBit_lt_two_pow
        (Nat.lt_of_lt_of_le hLt (Nat.pow_le_pow_right Nat.two_pos (Nat.le_add_left 4 k)))

private theorem getLsbD_mask {i : Nat} (h : i < 4) : mask.getLsbD i = true := by
  match i, h with
  | 0, _ | 1, _ | 2, _ | 3, _ => rfl

end Roles

namespace ComponentMarks

variable (m m' : ComponentMarks)

/-- **Reading**: the bits of the roles for a type are those in its place. -/
theorem bit_get (c : ComponentType) {i : Nat} (h : i < 4) :
    (m.get c).bit i = m.word.getLsbD (c.shift + i) := by
  rw [get, Roles.bit_ofBits _ h, BitVec.getLsbD_and, BitVec.getLsbD_ushiftRight,
    Roles.getLsbD_mask h, Bool.and_true]

/-- **Adding roles** sets their bits in the place of the type. -/
theorem getLsbD_mark (c : ComponentType) (roles : Roles) (i : Nat) :
    (m.mark c roles).word.getLsbD i =
      (m.word.getLsbD i || (decide (c.shift ≤ i) && roles.bit (i - c.shift))) := by
  have hLe := c.shift_le
  rw [mark, BitVec.getLsbD_or, BitVec.getLsbD_shiftLeft, Roles.getLsbD_bits]
  by_cases hWord : i < 32
  · by_cases hPlace : c.shift ≤ i
    · simp [hWord, hPlace, Nat.not_lt.mpr hPlace]
    · simp [hPlace, Nat.lt_of_not_le hPlace]
  · simp [hWord, roles.bit_of_le (show 4 ≤ i - c.shift by omega)]

/-- The same bits, seen from a type. -/
theorem getLsbD_mark_shift (c d : ComponentType) (roles : Roles) {i : Nat} (h : i < 4) :
    (m.mark c roles).word.getLsbD (d.shift + i) =
      (m.word.getLsbD (d.shift + i) || (decide (c = d) && roles.bit i)) := by
  rw [getLsbD_mark]
  by_cases hSame : c = d
  · subst hSame
    simp
  · have hBit : (decide (c.shift ≤ d.shift + i) && roles.bit (d.shift + i - c.shift)) = false := by
      rcases ComponentType.shift_apart hSame with hBelow | hAbove
      · rw [roles.bit_of_le (by omega), Bool.and_false]
      · rw [decide_eq_false (by omega), Bool.false_and]
    rw [hBit, decide_eq_false hSame, Bool.false_and]

/-- **The types are independent**: more roles for one are more roles for this one only. -/
theorem get_mark (c d : ComponentType) (roles : Roles) :
    (m.mark c roles).get d = if c = d then (m.get d).union roles else m.get d := by
  refine Roles.ext_bit fun i h => ?_
  rw [bit_get _ _ h, getLsbD_mark_shift _ _ _ _ h]
  by_cases hSame : c = d
  · rw [if_pos hSame, Roles.bit_union, bit_get _ _ h, decide_eq_true hSame, Bool.true_and]
  · rw [if_neg hSame, bit_get _ _ h, decide_eq_false hSame, Bool.false_and, Bool.or_false]

/-- Marks with the same roles, and the same bits beyond them. -/
theorem ext_places {m m' : ComponentMarks} (hGet : ∀ c, m.get c = m'.get c)
    (hBeyond : ∀ i, 20 ≤ i → m.word.getLsbD i = m'.word.getLsbD i) : m = m' := by
  have hWord : m.word = m'.word := by
    refine BitVec.eq_of_getLsbD_eq fun i _ => ?_
    by_cases hInside : i < 20
    · obtain ⟨c, k, hk, rfl⟩ := ComponentType.exists_shift hInside
      rw [← bit_get _ _ hk, ← bit_get _ _ hk, hGet]
    · exact hBeyond i (Nat.le_of_not_lt hInside)
  cases m
  cases m'
  cases hWord
  rfl

/-- Roles set no bit beyond the places of the types. -/
theorem getLsbD_mark_beyond (c : ComponentType) (roles : Roles) {i : Nat} (h : 20 ≤ i) :
    (m.mark c roles).word.getLsbD i = m.word.getLsbD i := by
  have hLe := c.shift_le
  rw [getLsbD_mark, roles.bit_of_le (show 4 ≤ i - c.shift by omega), Bool.and_false,
    Bool.or_false]

/-- The marks of one or the other. -/
def union : ComponentMarks := ⟨m.word ||| m'.word⟩

/-- Marks are joined component by component. -/
theorem get_union (c : ComponentType) : (m.union m').get c = (m.get c).union (m'.get c) := by
  refine Roles.ext_bit fun i h => ?_
  rw [Roles.bit_union, bit_get _ _ h, bit_get _ _ h, bit_get _ _ h, union, BitVec.getLsbD_or]

/-- The marks with these roles. -/
def ofRoles (roles : ComponentType → Roles) : ComponentMarks :=
  ComponentType.all.foldl (fun m c => m.mark c (roles c)) .none

@[simp] theorem get_none (c : ComponentType) : none.get c = .none := by
  cases c <;> rfl

@[simp] theorem get_ofRoles (roles : ComponentType → Roles) (c : ComponentType) :
    (ofRoles roles).get c = roles c := by
  have hUnion : Roles.union .none (roles c) = roles c := by simp [Roles.union, Roles.none]
  cases c <;> simpa [ofRoles, ComponentType.all, get_mark] using hUnion

/-- **No marks**: the word is zero exactly if no type has a role and no bit beyond them is set. -/
theorem isEmpty_iff : m.isEmpty = true ↔
    (∀ c, m.get c = .none) ∧ ∀ i, 20 ≤ i → m.word.getLsbD i = false := by
  have hZero : ∀ i, (none.word).getLsbD i = false := fun i => by simp [none]
  constructor
  · intro hEmpty
    have hWord : m.word = none.word := beq_iff_eq.mp hEmpty
    have hNone : m = none := congrArg mk hWord
    rw [hNone]
    exact ⟨get_none, fun i _ => hZero i⟩
  · rintro ⟨hGet, hBeyond⟩
    have hNone : m = none :=
      ext_places (fun c => (hGet c).trans (get_none c).symm) fun i hi =>
        (hBeyond i hi).trans (hZero i).symm
    rw [hNone]
    rfl

/-- Bits past the places of the types are never touched. -/
theorem getLsbD_union_ofRoles (roles : ComponentType → Roles) {i : Nat} (h : 20 ≤ i) :
    (m.union (ofRoles roles)).word.getLsbD i = m.word.getLsbD i := by
  have hNone : (ofRoles roles).word.getLsbD i = false := by
    simp [ofRoles, ComponentType.all, getLsbD_mark_beyond, h, none]
  rw [union, BitVec.getLsbD_or, hNone, Bool.or_false]

end ComponentMarks

end HotPatch
