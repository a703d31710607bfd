import HotPatch.Proofs.Bytecode.Runtime
import HotPatch.Proofs.Intercept.Shape

/-!
# A filled slot leads to the interceptor

While an interceptor is installed, the test of the slot passes over the body
to the code behind it, with the interceptor in `v0`.  From there the only way
into the body is the label `origin`, right in front of it.
-/

namespace HotPatch.Intercept

/-- Position of a body's first instruction, behind the test of the slot. -/
def bodyStart : Nat := 3

/-- The positions of the code that interception adds. -/
def Added (b : Body) (k : Nat) : Prop := k < bodyStart ∨ bodyStart + b.instructions.length ≤ k

theorem added_of_lt {b : Body} {k : Nat} (h : k < 3) : Added b k := .inl h

theorem added_of_le {b : Body} {k : Nat} (h : bodyStart + b.instructions.length ≤ k) :
    Added b k := .inr h

/-- Position of the code for the interceptor, behind its label. -/
def blockStart (b : Body) : Nat := bodyStart + b.instructions.length + 1

theorem added_of_blockStart_le {b : Body} {k : Nat} (h : blockStart b ≤ k) : Added b k :=
  .inr (Nat.le_of_succ_le h)

section Code

variable {b : Body} {slot : FieldRef} {code block : List Instruction}

/-- Behind the test of the slot the instructions are those of the body. -/
theorem getElem?_body (hCode : code = guardCode b slot ++ block) {j : Nat}
    (hj : j < b.instructions.length) : code[bodyStart + j]? = b.instructions[j]? := by
  rw [hCode, guardCode, List.append_assoc, List.append_assoc, List.getElem?_append_right
    (Nat.le_add_right 3 j), List.getElem?_append_left (by simpa [bodyStart, Boxing.forkCode])]
  simp [bodyStart, Boxing.forkCode]

/-- The code for the interceptor starts right behind the body. -/
theorem length_guardCode (b : Body) (slot : FieldRef) :
    (guardCode b slot).length = blockStart b := by
  simp [guardCode, Boxing.forkCode, blockStart, bodyStart]
  omega

/-- The body is entered behind the test. -/
theorem position?_origin (hCode : code = guardCode b slot ++ block) :
    Code.position? code (ownFork b).origin = some 2 := by
  subst hCode
  simp [Code.position?, guardCode, Boxing.forkCode, List.findIdx?_cons]

/-- The interceptor is asked behind the body. -/
theorem position?_intercept (hCode : code = guardCode b slot ++ block)
    (hNodup : (Code.placed code).Nodup) :
    Code.position? code (ownFork b).intercept = some (bodyStart + b.instructions.length) := by
  have hSplit : code = Boxing.forkCode (.v 0) slot (ownFork b) ++ b.instructions ++
      .label (ownFork b).intercept :: block := by
    simp [hCode, guardCode]
  rw [hSplit] at hNodup ⊢
  rw [Code.position?_of_nodup hNodup, List.length_append]
  rfl

end Code

section Runs

variable {V H E R : Type} {M : Runtime V H E R} {b : Body} {slot : FieldRef}
  {code block : List Instruction} {registers : Register → V} {heap : H}
  {goal : List (Call V H) → Config V H R → Prop}

/-- With an interceptor in the slot, the way to the code for it, by the three positions on it. -/
theorem leads_test {within : Nat → Prop} (hRead : within 0) (hTest : within 1)
    (hIntercept : within (bodyStart + b.instructions.length)) {interceptor : V}
    (hCode : code = guardCode b slot ++ block) (hNodup : (Code.placed code).Nodup)
    (hSlot : M.look heap (.static slot) = some [interceptor]) (hSet : ¬ M.isZero interceptor)
    (hRest : ∀ heap', M.Keeps [] heap heap' →
      M.Leads code within (.running (blockStart b)
        (Function.update registers (.v 0) interceptor) heap') goal) :
    M.Leads code within (.running 0 registers heap) goal := by
  have hLine : M.Goes [.staticGet .object (.v 0) slot] registers heap
      fun calls registers' heap' => calls = [] ∧
        registers' = Function.update registers (.v 0) interceptor ∧ M.Keeps [] heap heap' :=
    Runtime.goes_sets rfl rfl rfl (M.staticGet rfl hSlot) fun h₁ k₁ => ⟨rfl, rfl, k₁⟩
  have hCode₀ : code = [] ++ ([.staticGet .object (.v 0) slot] ++
      (.branchZero .ne (.v 0) (ownFork b).intercept :: .label (ownFork b).origin ::
        (b.instructions ++ [.label (ownFork b).intercept] ++ block))) := hCode
  have hBranch : code[1]? = some (.branchZero .ne (.v 0) (ownFork b).intercept) := by
    rw [hCode₀]
    rfl
  have hLabel : code[bodyStart + b.instructions.length]? =
      some (.label (ownFork b).intercept) :=
    Code.getElem?_position? (position?_intercept hCode hNodup)
  refine hLine.leads hCode₀ rfl (fun t _ ht => ?_) ?_
  · obtain rfl : t = 0 := Nat.lt_one_iff.mp ht
    exact hRead
  rintro calls registers₁ h₁ ⟨rfl, rfl, k₁⟩
  show M.Leads code within (.running 1 _ h₁) goal
  refine Runtime.leads_branch (bodyStart + b.instructions.length) (.inr rfl) hTest hBranch rfl
    (Function.update_self _ _ _) (.inl ⟨hSet, position?_intercept hCode hNodup⟩) fun h₂ k₂ => ?_
  exact Runtime.leads_label hIntercept hLabel (hRest h₂ (k₁.trans k₂))

/-- The same within all of the added code. -/
theorem leads_guard {interceptor : V} (hCode : code = guardCode b slot ++ block)
    (hNodup : (Code.placed code).Nodup) (hSlot : M.look heap (.static slot) = some [interceptor])
    (hSet : ¬ M.isZero interceptor)
    (hRest : ∀ heap', M.Keeps [] heap heap' →
      M.Leads code (Added b) (.running (blockStart b)
        (Function.update registers (.v 0) interceptor) heap') goal) :
    M.Leads code (Added b) (.running 0 registers heap) goal :=
  leads_test (added_of_lt (by decide)) (added_of_lt (by decide)) (added_of_le (Nat.le_refl _))
    hCode hNodup hSlot hSet hRest

/-- From the label in front of it, control enters the body. -/
theorem leads_body {within : Nat → Prop} (hOrigin : within 2)
    (hCode : code = guardCode b slot ++ block)
    (hGoal : goal [] (.running bodyStart registers heap)) :
    M.Leads code within (.running 2 registers heap) goal :=
  Runtime.leads_label hOrigin (Code.getElem?_position? (position?_origin hCode)) (.done hGoal)

/-- Without another call, control enters the body, with the parameters as they were and nothing
lost from the shared state. -/
def EntersBody (M : Runtime V H E R) (b : Body) (code : List Instruction)
    (registers : Register → V) (heap : H) (c : Config V H R) : Prop :=
  M.Leads code (Added b) c fun calls d => calls = [] ∧
    ∃ registers' heap', d = .running bodyStart registers' heap' ∧
      SameParameters registers registers' ∧ M.Keeps [] heap heap'

end Runs

end HotPatch.Intercept
