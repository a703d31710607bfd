import HotPatch.Bytecode.Register

/-!
# Sets of registers

A set of registers is its list of members in register order.  A register
counts with its width: a wide register and its first slot are two members.
-/

namespace HotPatch

abbrev RegisterSet := List Register

namespace RegisterSet

/-- The set with one more member, in its place. -/
def add (r : Register) : RegisterSet → RegisterSet
  | [] => [r]
  | s :: rest =>
      if r = s then s :: rest
      else if r.lt s then r :: s :: rest
      else s :: add r rest

/-- The set without a member. -/
def remove (r : Register) (set : RegisterSet) : RegisterSet := set.filter (· != r)

/-- The set with all of `more` added. -/
def addAll (more : List Register) (set : RegisterSet) : RegisterSet :=
  more.foldl (fun all r => add r all) set

theorem mem_add {x r : Register} {set : RegisterSet} :
    x ∈ add r set ↔ x = r ∨ x ∈ set := by
  induction set with
  | nil => simp [add]
  | cons s rest ih =>
      simp only [add]
      split
      · next h => subst h; simp
      · split
        · simp
        · simp only [List.mem_cons, ih]
          constructor
          · rintro (h | h | h) <;> simp [h]
          · rintro (h | h | h) <;> simp [h]

theorem mem_remove {x r : Register} {set : RegisterSet} :
    x ∈ remove r set ↔ x ∈ set ∧ x ≠ r := by
  simp [remove]

theorem mem_addAll {x : Register} {more : List Register} {set : RegisterSet} :
    x ∈ addAll more set ↔ x ∈ more ∨ x ∈ set := by
  induction more generalizing set with
  | nil => simp [addAll]
  | cons r rest ih =>
      have step : addAll (r :: rest) set = addAll rest (add r set) := rfl
      rw [step, ih, mem_add, List.mem_cons]
      constructor
      · rintro (h | h | h) <;> simp [h]
      · rintro ((h | h) | h) <;> simp [h]

end RegisterSet

end HotPatch
