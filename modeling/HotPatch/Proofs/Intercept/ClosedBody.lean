import HotPatch.Proofs.Bytecode.Embedding
import HotPatch.Proofs.Intercept.FilledSlot

/-!
# Bodies that control cannot run out of

The code for the interceptor stands right behind the body.  A body that ends
in an instruction which falls through would run into it and ask again.  A body
that is closed never does: once inside, control stays there until the method
ends, so what is in front of the body and behind it runs at most once.
-/

namespace HotPatch.Intercept

variable {V H E R : Type} {M : Machine V H E R} {b : Body}

/-- Control is at an instruction of the body. -/
def InBody (b : Body) (c : Config V H R) : Prop :=
  ∃ j registers heap, j < b.instructions.length ∧ c = .running (bodyStart + j) registers heap

/-- The method has ended. -/
def Ended (c : Config V H R) : Prop := ∃ result heap, c = .ended result heap

/-- From here on, until the method ends, only instructions of the body are executed. -/
def Confined (M : Machine V H E R) (b : Body) (code : List Instruction) (c : Config V H R) : Prop :=
  ∀ effects d, Reaches (M.Step code) c effects d → InBody b d ∨ Ended d

section Steps

variable {slot : FieldRef} {code block : List Instruction}
  (hCode : code = guardCode b slot ++ block) (hNodup : (Code.placed code).Nodup)
  (hClosed : Code.Closed b.instructions)

include hCode hNodup hClosed

/-- From inside a closed body a step leads to another of its instructions, or ends the method. -/
theorem InBody.step {c d : Config V H R} {effects : List E} (h : InBody b c)
    (hStep : M.Step code c effects d) : InBody b d ∨ Ended d := by
  obtain ⟨j, registers, heap, hj, rfl⟩ := h
  have hSplit : code = Boxing.forkCode (.v 0) slot (ownFork b) ++ b.instructions ++
      (.label (ownFork b).intercept :: block) := by
    simp [hCode, guardCode]
  have hFresh : ∀ l ∈ Code.placed b.instructions,
      l ∉ Code.placed (Boxing.forkCode (.v 0) slot (ownFork b)) := by
    rw [hSplit, Code.placed_append, Code.placed_append, List.nodup_append, List.nodup_append]
      at hNodup
    exact fun l hl hFork => hNodup.1.2.2 l hFork l hl rfl
  cases hStep with
  | stops _ _ _ => exact .inr ⟨_, _, rfl⟩
  | goesOn hAt hDoes hTo =>
      rw [getElem?_body hCode hj] at hAt
      rw [hSplit, Nat.add_comm] at hTo
      have hInside := (Machine.position?_within hClosed hFresh hAt hDoes).symm.trans hTo
      obtain ⟨j', hj', rfl⟩ := Option.map_eq_some_iff.mp hInside
      have hLt := (Machine.follows_of_position? hClosed hAt hDoes hj').lt
      exact .inl ⟨j', _, _, hLt, congrArg (Config.running · _ _) (Nat.add_comm _ _)⟩

/-- **A closed body is entered once**: a run that is inside never leaves it but for good. -/
theorem InBody.confined {c : Config V H R} (h : InBody b c) : Confined M b code c := by
  intro effects d hRun
  induction hRun with
  | refl c => exact .inl h
  | next hStep hRest ih =>
      rcases InBody.step hCode hNodup hClosed h hStep with hInside | ⟨result, heap, rfl⟩
      · exact ih hInside
      · cases hRest with
        | refl _ => exact .inr ⟨result, heap, rfl⟩
        | next hMore _ => exact absurd hMore (Machine.step_ended)

/-- A closed body is confined from its first instruction on. -/
theorem confined_bodyStart (registers : Register → V) (heap : H) :
    Confined M b code (.running bodyStart registers heap) :=
  InBody.confined hCode hNodup hClosed ⟨0, registers, heap, hClosed.length_pos, rfl⟩

end Steps

/-- Out of a body whose instructions all fall through, control runs into the code behind it. -/
theorem leads_runOff {M : Runtime V H E R} {slot : FieldRef} {code block : List Instruction}
    {registers : Register → V} {heap : H} {within : Nat → Prop}
    {required : List (Call V H) → (Register → V) → H → Prop}
    {goal : List (Call V H) → Config V H R → Prop} (hCode : code = guardCode b slot ++ block)
    (hNodup : (Code.placed code).Nodup) (hWithin : ∀ k, within k)
    (hBody : M.Goes b.instructions registers heap required)
    (hRest : ∀ calls registers' heap', required calls registers' heap' →
      M.Leads code within (.running (blockStart b) registers' heap') fun more =>
        goal (calls ++ more)) :
    M.Leads code within (.running bodyStart registers heap) goal := by
  have hSplit : code = Boxing.forkCode (.v 0) slot (ownFork b) ++
      (b.instructions ++ (.label (ownFork b).intercept :: block)) := by
    simp [hCode, guardCode]
  refine hBody.leads hSplit rfl (fun t _ _ => hWithin t) fun calls registers' heap' hDone => ?_
  have hLabel := Code.getElem?_position? (position?_intercept hCode hNodup)
  exact Runtime.leads_label (hWithin _) hLabel (hRest calls registers' heap' hDone)

end HotPatch.Intercept
