import HotPatch.Proofs.Bytecode.Machine
import Mathlib.Logic.Relation

/-!
# Constants in registers

What a register holds when control gets to an instruction: a path from the
first instruction carries the constant that was loaded last, until something
else is written to the slot (`Knows`).  A slot holds a constant at a position
if control can get there and every path agrees on it (`HoldsAt`).

The code that matters loads the constant on a straight line.  Behind it
control may branch, as long as it does not come back to the line
(`Loads.holdsAt`, `Loads.holdsAt_of_line`).
-/

namespace HotPatch

namespace Instruction

/-- The constant that the instruction puts into a slot. -/
def constant? (slot : Register) : Instruction → Option Int32
  | .const dst value => if dst = slot then some value else none
  | _ => none

/-- The constant in a slot after the instruction, given the one before it. -/
def leaves (slot : Register) (known : Option Int32) (i : Instruction) : Option Int32 :=
  if slot ∈ i.writtenSlots then i.constant? slot else known

end Instruction

namespace Code

/-- A path from the first instruction to a position, with the constant that the slot has there. -/
inductive Knows (code : List Instruction) (slot : Register) : Nat → Option Int32 → Prop where
  | start : 0 < code.length → Knows code slot 0 none
  | step {k t : Nat} {i : Instruction} {known : Option Int32} : Knows code slot k known →
      code[k]? = some i → Follows code k t → Knows code slot t (i.leaves slot known)

/-- Control can get to the position, and whatever the way, the slot has the constant there. -/
structure HoldsAt (code : List Instruction) (k : Nat) (slot : Register) (value : Int32) : Prop where
  reached : ∃ known, Knows code slot k known
  holds : ∀ known, Knows code slot k known → known = some value

/-! ## Getting to a position -/

/-- Control may go from one position to another in some steps. -/
abbrev GoesTo (code : List Instruction) : Nat → Nat → Prop := Relation.ReflTransGen (Follows code)

private theorem Follows.exists_getElem? {code : List Instruction} {k t : Nat}
    (h : Follows code k t) :
    ∃ i, code[k]? = some i := by
  cases h with
  | next hAt _ _ => exact ⟨_, hAt⟩
  | jump hAt _ _ => exact ⟨_, hAt⟩

private theorem exists_knows {code : List Instruction} (slot : Register) {k : Nat}
    (hPos : 0 < code.length) (h : GoesTo code 0 k) : ∃ known, Knows code slot k known := by
  induction h with
  | refl => exact ⟨none, .start hPos⟩
  | tail _ hFollows ih =>
      obtain ⟨known, hKnows⟩ := ih
      obtain ⟨i, hAt⟩ := hFollows.exists_getElem?
      exact ⟨_, .step hKnows hAt hFollows⟩

/-- Control goes along a line to what stands behind it. -/
theorem goesTo_line {code back : List Instruction} (hBack : back ≠ []) :
    ∀ (line front : List Instruction), code = front ++ (line ++ back) →
      (∀ i ∈ line, i.fallsThrough = true) →
      GoesTo code front.length (front.length + line.length) := by
  intro line
  induction line with
  | nil =>
      intro front _ _
      exact .refl
  | cons i rest ih =>
      intro front hCode hLine
      have hPos : 0 < back.length := List.length_pos_iff.mpr hBack
      have hNext : Follows code front.length (front.length + 1) := by
        refine .next (i := i) (by simp [hCode]) (hLine i List.mem_cons_self) ?_
        simp only [hCode, List.length_append, List.length_cons]
        omega
      have hRest : GoesTo code (front ++ [i]).length ((front ++ [i]).length + rest.length) :=
        ih (front ++ [i]) (by simp [hCode]) fun j hj => hLine j (List.mem_cons_of_mem i hj)
      rw [List.length_append, List.length_singleton, Nat.add_assoc, Nat.add_comm 1] at hRest
      exact .head hNext hRest

/-! ## Loading a constant -/

section

variable {front line back : List Instruction} {slot : Register} {value : Int32}
  {call : Instruction}

/-- The line that loads a constant, and the instruction that it is loaded for. -/
def loading (front : List Instruction) (slot : Register) (value : Int32) (line : List Instruction)
    (call : Instruction) (back : List Instruction) : List Instruction :=
  front ++ .const slot value :: (line ++ call :: back)

private theorem getElem?_loading {k : Nat} {i : Instruction}
    (h : (loading front slot value line call back)[k]? = some i) :
    k < front.length ∧ i ∈ front ∨ k = front.length ∧ i = .const slot value ∨
      front.length < k ∧ k < front.length + 1 + line.length ∧ i ∈ line ∨
      k = front.length + 1 + line.length ∧ i = call ∨
      front.length + 1 + line.length < k ∧ i ∈ back := by
  rcases Nat.lt_or_ge k front.length with hk | hk
  · rw [loading, List.getElem?_append_left hk] at h
    exact .inl ⟨hk, List.mem_of_getElem? h⟩
  rw [loading, List.getElem?_append_right hk] at h
  obtain ⟨n, rfl⟩ := Nat.exists_eq_add_of_le hk
  rw [Nat.add_sub_cancel_left] at h
  cases n with
  | zero => exact .inr (.inl ⟨rfl, (Option.some.inj h).symm⟩)
  | succ n =>
      rw [List.getElem?_cons_succ] at h
      rcases Nat.lt_or_ge n line.length with hn | hn
      · rw [List.getElem?_append_left hn] at h
        exact .inr (.inr (.inl ⟨by omega, by omega, List.mem_of_getElem? h⟩))
      rw [List.getElem?_append_right hn] at h
      obtain ⟨n, rfl⟩ := Nat.exists_eq_add_of_le hn
      rw [Nat.add_sub_cancel_left] at h
      cases n with
      | zero => exact .inr (.inr (.inr (.inl ⟨by omega, (Option.some.inj h).symm⟩)))
      | succ n =>
          rw [List.getElem?_cons_succ] at h
          exact .inr (.inr (.inr (.inr ⟨by omega, List.mem_of_getElem? h⟩)))

/-- The constant stays until the instruction that it is loaded for: only the load leads to the
line, and the line leaves the slot alone. -/
structure Loads (front : List Instruction) (slot : Register) (line : List Instruction)
    (call : Instruction) (back : List Instruction) : Prop where
  narrow : slot.wide = false
  straight : ∀ i ∈ front, i.targets = []
  keeps : ∀ i ∈ line, slot ∉ i.writtenSlots
  plain : call.targets = [] ∧ call.placed? = none
  away : ∀ i ∈ back, ∀ l ∈ i.targets, l ∉ placed line

namespace Loads

/-- A label that the line does not place is no way to it. -/
theorem outside_of_position? (h : Loads front slot line call back) {l : Label} {t : Nat}
    (hAt : position? (loading front slot value line call back) l = some t) (hl : l ∉ placed line) :
    t ≤ front.length ∨ front.length + 1 + line.length < t := by
  rcases getElem?_loading (getElem?_position? hAt) with ⟨hLt, _⟩ | ⟨hEq, _⟩ | ⟨_, _, hMem⟩ |
    ⟨_, hEq⟩ | ⟨hLt, _⟩
  · exact .inl (Nat.le_of_lt hLt)
  · exact .inl (Nat.le_of_eq hEq)
  · exact absurd (mem_placed.mpr hMem) hl
  · have hNone := h.plain.2
    rw [← hEq] at hNone
    cases hNone
  · exact .inr hLt

private theorem leaves_const (h : Loads front slot line call back) (known : Option Int32) :
    (Instruction.const slot value).leaves slot known = some value := by
  have hSlots : slot.slots = [slot] := by
    obtain ⟨bank, index, wide⟩ := slot
    obtain rfl : wide = false := h.narrow
    rfl
  simp [Instruction.leaves, Instruction.writtenSlots, Instruction.written?, hSlots,
    Instruction.constant?]

/-- On the line the constant is known. -/
theorem known (h : Loads front slot line call back) {k : Nat} {known : Option Int32}
    (hKnows : Knows (loading front slot value line call back) slot k known) :
    k ≤ front.length ∨ known = some value ∨ front.length + 1 + line.length < k := by
  induction hKnows with
  | start _ => exact .inl (Nat.zero_le _)
  | @step k t i known _ hAt hFollows ih =>
      have hTo : i.targets = [] → t = k + 1 := by
        intro hTargets
        cases hFollows with
        | next _ _ _ => rfl
        | jump hAt' hl _ =>
            obtain rfl := Option.some.inj (hAt.symm.trans hAt')
            rw [hTargets] at hl
            cases hl
      rcases getElem?_loading hAt with ⟨hLt, hMem⟩ | ⟨rfl, rfl⟩ | ⟨hLt, hLt', hMem⟩ |
        ⟨rfl, rfl⟩ | ⟨hLt, hMem⟩
      · have hNext := hTo (h.straight i hMem)
        exact .inl (by omega)
      · exact .inr (.inl (h.leaves_const known))
      · have hKnown : known = some value := by
          rcases ih with hLe | hKnown | hBehind
          · omega
          · exact hKnown
          · omega
        refine .inr (.inl ?_)
        rw [Instruction.leaves, if_neg (h.keeps i hMem), hKnown]
      · have hNext := hTo h.plain.1
        exact .inr (.inr (by omega))
      · cases hFollows with
        | next _ _ _ => exact .inr (.inr (by omega))
        | jump hAt' hl hPos =>
            obtain rfl := Option.some.inj (hAt.symm.trans hAt')
            rcases h.outside_of_position? hPos (h.away i hMem _ hl) with hLe | hBehind
            · exact .inl hLe
            · exact .inr (.inr hBehind)

/-- **The constant is there** for the instruction that it is loaded for, if control gets to it. -/
theorem holdsAt (h : Loads front slot line call back)
    (hGoes : GoesTo (loading front slot value line call back) 0
      (front.length + 1 + line.length)) :
    HoldsAt (loading front slot value line call back) (front.length + 1 + line.length) slot
      value where
  reached := exists_knows slot (by simp only [loading, List.length_append, List.length_cons]; omega)
    hGoes
  holds known hKnows := by
    rcases h.known hKnows with hLe | hKnown | hLt
    · omega
    · exact hKnown
    · omega

/-- Along a straight line control gets to it. -/
theorem holdsAt_of_line (h : Loads front slot line call back)
    (hFront : ∀ i ∈ front, i.fallsThrough = true) (hLine : ∀ i ∈ line, i.fallsThrough = true) :
    HoldsAt (loading front slot value line call back) (front.length + 1 + line.length) slot
      value := by
  have hFalls : ∀ i ∈ front ++ .const slot value :: line, i.fallsThrough = true := by
    intro i hi
    rcases List.mem_append.mp hi with hi | hi
    · exact hFront i hi
    rcases List.mem_cons.mp hi with rfl | hi
    · rfl
    · exact hLine i hi
  have hWay := goesTo_line (List.cons_ne_nil call back) (front ++ .const slot value :: line) []
    rfl hFalls
  have hLength : 0 + (front ++ Instruction.const slot value :: line).length =
      front.length + 1 + line.length := by
    simp only [List.length_append, List.length_cons]
    omega
  rw [List.length_nil, hLength, List.nil_append, List.append_assoc, List.cons_append] at hWay
  exact h.holdsAt hWay

end Loads

/-- Where the call stands behind the line that loads its constant. -/
theorem getElem?_loading_call :
    (loading front slot value line call back)[front.length + 1 + line.length]? = some call := by
  rw [loading, List.getElem?_append_right (by omega),
    show front.length + 1 + line.length - front.length = line.length + 1 by omega,
    List.getElem?_cons_succ, List.getElem?_append_right (Nat.le_refl _), Nat.sub_self]
  rfl

end

end Code

end HotPatch
