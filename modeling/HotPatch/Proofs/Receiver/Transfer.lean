import HotPatch.Bytecode.Receiver
import HotPatch.Proofs.Bytecode.ControlFlow

/-!
# One instruction of the receiver analysis

What an instruction does to the set of registers that hold the receiver, said
of a property of registers instead of a list of them (`along`), and where the
analysis goes from a position (`Code.Follows`).
-/

namespace HotPatch.Receiver

/-- The instruction is a constructor call on a register that holds the receiver. -/
def Initializes (i : Instruction) (holds : Register → Prop) : Prop :=
  ∃ r method, initCall? i = some (r, method) ∧ holds r

/-- The registers that hold the receiver after an instruction: an object move copies it, any other
write drops it, and once a constructor is called on one of them none is left. -/
def along (i : Instruction) (holds : Register → Prop) (x : Register) : Prop :=
  match i with
  | .move .object dst src => if x = dst then holds src else holds x
  | _ => holds x ∧ (∀ r, i.written? = some r → x ∉ r.slots) ∧ ¬ Initializes i holds

/-- A move hands the receiver on. -/
theorem along_move {dst src x : Register} {holds : Register → Prop} :
    along (.move .object dst src) holds x ↔ if x = dst then holds src else holds x := Iff.rfl

/-- Any other instruction loses it where it writes, and everywhere if it initializes it. -/
theorem along_of_ne {i : Instruction} {holds : Register → Prop} {x : Register}
    (hMove : ∀ dst src, i ≠ .move .object dst src) :
    along i holds x ↔ holds x ∧ (∀ r, i.written? = some r → x ∉ r.slots) ∧
      ¬ Initializes i holds := by
  unfold along
  split
  · next dst src => exact (hMove dst src rfl).elim
  · exact Iff.rfl

/-- Object moves, and all the rest. -/
theorem objectMove_or (i : Instruction) :
    (∃ dst src, i = .move .object dst src) ∨ ∀ dst src, i ≠ .move .object dst src := by
  by_cases h : ∃ dst src, i = .move .object dst src
  · exact .inl h
  · exact .inr fun dst src hEq => h ⟨dst, src, hEq⟩

/-- A constructor call is a direct call of an initializer. -/
theorem initCall?_eq_some {i : Instruction} {r : Register} {method : MethodRef}
    (h : initCall? i = some (r, method)) :
    ∃ form x args, i = .invoke .direct form (x :: args) method ∧ r = x.narrow ∧
      method.name.isInit = true := by
  unfold initCall? at h
  split at h
  · next form args target =>
      split at h
      · next hName =>
          cases args with
          | nil => cases h
          | cons x args =>
              cases h
              exact ⟨form, x, args, rfl, rfl, hName⟩
      · cases h
  · cases h

theorem initOn?_isSome_iff {i : Instruction} {state : RegisterSet} :
    (initOn? state i).isSome ↔ Initializes i (· ∈ state) := by
  unfold initOn? Initializes
  cases hCall : initCall? i with
  | none => simp
  | some call =>
      obtain ⟨r, method⟩ := call
      simp only [List.contains_iff_mem, Option.some.injEq, Prod.mk.injEq]
      by_cases hMem : r ∈ state
      · rw [if_pos hMem]
        exact ⟨fun _ => ⟨r, method, ⟨rfl, rfl⟩, hMem⟩, fun _ => rfl⟩
      · rw [if_neg hMem]
        constructor
        · intro h
          cases h
        · rintro ⟨_, _, ⟨rfl, rfl⟩, h⟩
          exact (hMem h).elim

private theorem mem_foldl_remove {x : Register} {slots : List Register} :
    ∀ {state : RegisterSet},
      x ∈ slots.foldl (fun s slot => RegisterSet.remove slot s) state ↔
        x ∈ state ∧ x ∉ slots := by
  induction slots with
  | nil => intro state; simp
  | cons slot rest ih =>
      intro state
      rw [List.foldl_cons, ih, RegisterSet.mem_remove, List.mem_cons, not_or]
      exact and_assoc

/-- An instruction that moves no reference only takes registers away. -/
theorem transfer_of_ne {i : Instruction} (state : RegisterSet)
    (hMove : ∀ dst src, i ≠ .move .object dst src) :
    transfer i state =
      if (initOn? state i).isSome then []
      else match i.written? with
        | none => state
        | some r => r.slots.foldl (fun s slot => RegisterSet.remove slot s) state := by
  unfold transfer
  split
  · next dst src => exact (hMove dst src rfl).elim
  · rfl

/-- All but object moves: drop what is written, or everything at a constructor call. -/
theorem mem_transfer_of_ne {i : Instruction} {state : RegisterSet} {x : Register}
    (hMove : ∀ dst src, i ≠ .move .object dst src) :
    x ∈ transfer i state ↔ x ∈ state ∧ (∀ r, i.written? = some r → x ∉ r.slots) ∧
      ¬ Initializes i (· ∈ state) := by
  rw [transfer_of_ne state hMove]
  by_cases hInit : (initOn? state i).isSome
  · rw [if_pos hInit]
    simp [initOn?_isSome_iff.mp hInit]
  · rw [if_neg hInit]
    have hNot : ¬ Initializes i (· ∈ state) := fun h => hInit (initOn?_isSome_iff.mpr h)
    cases hWritten : i.written? with
    | none => simp [hNot]
    | some r => simp [mem_foldl_remove, hNot]

/-- The transfer of the analysis is `along`, on sets. -/
theorem mem_transfer {i : Instruction} {state : RegisterSet} {x : Register} :
    x ∈ transfer i state ↔ along i (· ∈ state) x := by
  rcases objectMove_or i with ⟨dst, src, rfl⟩ | hMove
  · rw [along_move]
    simp only [transfer, List.contains_iff_mem]
    by_cases hSrc : src ∈ state
    · rw [if_pos hSrc, RegisterSet.mem_add]
      by_cases hx : x = dst <;> simp [hx, hSrc]
    · rw [if_neg hSrc, RegisterSet.mem_remove]
      by_cases hx : x = dst <;> simp [hx, hSrc]
  · rw [mem_transfer_of_ne hMove, along_of_ne hMove]

/-- `along` loses nothing when the set grows, unless a call becomes one on the receiver by that. -/
theorem along_mono {i : Instruction} {holds more : Register → Prop}
    (hMore : ∀ x, holds x → more x) (hInit : Initializes i more → Initializes i holds)
    {x : Register} (h : along i holds x) : along i more x := by
  rcases objectMove_or i with ⟨dst, src, rfl⟩ | hMove
  · rw [along_move] at h ⊢
    by_cases hx : x = dst
    · rw [if_pos hx] at h ⊢
      exact hMore _ h
    · rw [if_neg hx] at h ⊢
      exact hMore _ h
  · rw [along_of_ne hMove] at h ⊢
    exact ⟨hMore x h.1, h.2.1, fun hMoreInit => h.2.2 (hInit hMoreInit)⟩

/-- Only candidates come out of an instruction of the code when only candidates go in. -/
theorem transfer_candidates {code : List Instruction} {i : Instruction} {state : RegisterSet}
    (hCode : i ∈ code) (hState : ∀ x ∈ state, x ∈ candidates code) :
    ∀ x ∈ transfer i state, x ∈ candidates code := by
  intro x hMem
  rw [mem_transfer] at hMem
  rcases objectMove_or i with ⟨dst, src, rfl⟩ | hMove
  · rw [along_move] at hMem
    by_cases hx : x = dst
    · subst hx
      exact List.mem_cons_of_mem _ (List.mem_filterMap.mpr ⟨_, hCode, rfl⟩)
    · rw [if_neg hx] at hMem
      exact hState x hMem
  · exact hState x ((along_of_ne hMove).mp hMem).1

/-! ## Successors -/

private theorem mem_targetPositions {code : List Instruction} {labels : List Label} :
    ∀ {targets : List Nat}, targetPositions code labels = .ok targets →
      ∀ t, t ∈ targets ↔ ∃ l ∈ labels, Code.position? code l = some t := by
  induction labels with
  | nil =>
      intro targets h t
      cases h
      simp
  | cons l rest ih =>
      intro targets h t
      rw [targetPositions] at h
      split at h
      · cases h
      · next k hAt =>
          cases hRest : targetPositions code rest with
          | error e => rw [hRest] at h; cases h
          | ok others =>
              rw [hRest] at h
              cases h
              simp only [List.mem_cons, ih hRest t, exists_eq_or_imp, hAt, Option.some.injEq]
              constructor
              · rintro (rfl | h)
                · exact .inl rfl
                · exact .inr h
              · rintro (rfl | h)
                · exact .inl rfl
                · exact .inr h

/-- The successors found are where control may go. -/
theorem mem_successors {code : List Instruction} {k : Nat} {i : Instruction}
    {next : List Nat} (hAt : code[k]? = some i) (h : successors code k i = .ok next) (t : Nat) :
    t ∈ next ↔ Code.Follows code k t := by
  unfold successors at h
  cases hTargets : targetPositions code i.targets with
  | error e => rw [hTargets] at h; cases h
  | ok targets =>
      rw [hTargets] at h
      cases h
      rw [List.mem_append, mem_targetPositions hTargets]
      constructor
      · rintro (hNext | ⟨l, hTarget, hPos⟩)
        · split at hNext
          · next hFalls =>
              rw [List.mem_singleton] at hNext
              rw [Bool.and_eq_true, decide_eq_true_eq] at hFalls
              subst hNext
              exact .next hAt hFalls.1 hFalls.2
          · simp at hNext
        · exact .jump hAt hTarget hPos
      · intro hFollows
        cases hFollows with
        | next hAt' hFalls hLt =>
            obtain rfl := Option.some.inj (hAt.symm.trans hAt')
            left
            rw [if_pos (by simp [hFalls, hLt])]
            exact List.mem_singleton_self _
        | jump hAt' hTarget hPos =>
            obtain rfl := Option.some.inj (hAt.symm.trans hAt')
            exact .inr ⟨_, hTarget, hPos⟩

end HotPatch.Receiver
