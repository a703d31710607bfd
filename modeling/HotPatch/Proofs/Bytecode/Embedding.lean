import HotPatch.Proofs.Bytecode.Machine

/-!
# Code inside longer code

Code that control cannot leave by accident behaves inside longer code as it
does on its own, if its labels are not placed in front of it.  The
instructions stand further back and jump among themselves as before, so a run
of one is a run of the other, step by step.

The two runs need not have the same registers.  They agree on the parameters
and on every slot written so far.  That is enough for code in which no path
reads a local before it writes it.
-/

namespace HotPatch

namespace Code

/-- A path from the first instruction to a position, with the slots written on the way. -/
inductive Path (code : List Instruction) : Nat → List Register → Prop where
  | start : 0 < code.length → Path code 0 []
  | step {k t : Nat} {i : Instruction} {written : List Register} : Path code k written →
      code[k]? = some i → Follows code k t → Path code t (i.writtenSlots ++ written)

/-- A path ends inside of the code. -/
theorem Path.lt {code : List Instruction} {k : Nat} {written : List Register}
    (h : Path code k written) : k < code.length := by
  cases h with
  | start hPos => exact hPos
  | step _ _ hFollows => exact hFollows.lt

/-- On every path a local is written before it is read. -/
def ReadsWritten (code : List Instruction) : Prop :=
  ∀ {k : Nat} {i : Instruction} {written : List Register}, Path code k written →
    code[k]? = some i → ∀ slot ∈ i.readSlots, slot.bank = .locals → slot ∈ written

end Code

namespace Machine

variable {V H E R : Type} {M : Machine V H E R} {front code back : List Instruction}

/-- Code running on its own and inside longer code, `offset` positions further back. -/
inductive Alongside (code : List Instruction) (offset : Nat) :
    Config V H R → Config V H R → Prop where
  | running {k : Nat} {written : List Register} {registers registers' : Register → V}
      {heap : H} : Code.Path code k written →
      (∀ slot, slot.bank = .params ∨ slot ∈ written → registers' slot = registers slot) →
      Alongside code offset (.running k registers heap) (.running (k + offset) registers' heap)
  | ended (result : R) (heap : H) :
      Alongside code offset (.ended result heap) (.ended result heap)

private theorem Alongside.sameStatus {offset : Nat} {c d : Config V H R}
    (h : Alongside code offset c d) : SameStatus c d := by
  cases h with
  | running _ _ => exact .running _ _ _ _ _ _
  | ended result heap => exact .ended result heap

private theorem getElem?_within {k : Nat} (hLt : k < code.length) :
    (front ++ code ++ back)[k + front.length]? = code[k]? := by
  rw [List.append_assoc, List.getElem?_append_right (by omega), Nat.add_sub_cancel,
    List.getElem?_append_left hLt]

/-- Where control goes is a position of the code again. -/
theorem follows_of_position? {i : Instruction} {vs : List V} {heap : H}
    {out : Outcome V H E R} {k t : Nat} (hClosed : Code.Closed code) (hAt : code[k]? = some i)
    (hDoes : M.does i vs heap out) (hTo : out.control.position? code k = some t) :
    Code.Follows code k t := by
  cases hControl : out.control with
  | next =>
      have hFalls := M.next_falls hDoes hControl
      simp only [hControl, Control.position?, Option.some.injEq] at hTo
      subst hTo
      exact .next hAt hFalls (hClosed.next_lt hAt hFalls)
  | jump l =>
      simp only [hControl, Control.position?] at hTo
      exact .jump hAt (M.jump_target hDoes hControl) hTo
  | stop result => simp [hControl, Control.position?] at hTo

/-- Control goes to the same instruction inside longer code. -/
theorem position?_within {i : Instruction} {vs : List V} {heap : H} {out : Outcome V H E R}
    {k : Nat} (hClosed : Code.Closed code)
    (hFront : ∀ l ∈ Code.placed code, l ∉ Code.placed front) (hAt : code[k]? = some i)
    (hDoes : M.does i vs heap out) :
    out.control.position? (front ++ code ++ back) (k + front.length) =
      (out.control.position? code k).map (· + front.length) := by
  cases hControl : out.control with
  | next =>
      simp only [Control.position?, Option.map_some, Option.some.injEq]
      omega
  | jump l =>
      have hPlaced := hClosed.targets i (List.mem_of_getElem? hAt) l
        (M.jump_target hDoes hControl)
      exact Code.Closed.position?_within (hFront l hPlaced) hPlaced
  | stop result => rfl

/-- The values read are the same on both sides. -/
theorem Alongside.readSlots_eq {k : Nat} {i : Instruction} {written : List Register}
    {registers registers' : Register → V} (hReads : Code.ReadsWritten code)
    (hPath : Code.Path code k written) (hAt : code[k]? = some i)
    (hAgree : ∀ slot, slot.bank = .params ∨ slot ∈ written → registers' slot = registers slot) :
    i.readSlots.map registers' = i.readSlots.map registers := by
  refine List.map_congr_left fun slot hMem => hAgree slot ?_
  cases hBank : slot.bank with
  | params => exact .inl rfl
  | locals => exact .inr (hReads hPath hAt slot hMem hBank)

/-- Writing keeps registers in agreement, on the slots just written too. -/
theorem write_agree {i : Instruction} {written : List Register}
    {registers registers' : Register → V} (out : Outcome V H E R)
    (hAgree : ∀ slot, slot.bank = .params ∨ slot ∈ written → registers' slot = registers slot) :
    ∀ slot, slot.bank = .params ∨ slot ∈ i.writtenSlots ++ written →
      out.write i registers' slot = out.write i registers slot := by
  intro slot hSlot
  simp only [Outcome.write]
  by_cases hWritten : slot ∈ i.writtenSlots
  · rw [if_pos hWritten, if_pos hWritten]
  · rw [if_neg hWritten, if_neg hWritten]
    refine hAgree slot (hSlot.imp_right fun hMem => ?_)
    exact (List.mem_append.mp hMem).resolve_left hWritten

/-- Every step of the code on its own is a step inside longer code. -/
theorem alongside_forth (hClosed : Code.Closed code)
    (hFront : ∀ l ∈ Code.placed code, l ∉ Code.placed front) (hReads : Code.ReadsWritten code) :
    Simulates (Alongside code front.length) (M.Step code) (M.Step (front ++ code ++ back)) := by
  intro c c' d effects hRel hStep
  cases hRel with
  | ended result heap => exact (step_ended hStep).elim
  | running hPath hAgree =>
      have hLt := hPath.lt
      cases hStep with
      | goesOn hAt hDoes hTo =>
          have hDoes' := hDoes
          rw [← Alongside.readSlots_eq hReads hPath hAt hAgree] at hDoes'
          refine ⟨_, .goesOn ((getElem?_within hLt).trans hAt) hDoes' ?_, .running
            (.step hPath hAt (follows_of_position? hClosed hAt hDoes hTo))
            (write_agree _ hAgree)⟩
          rw [position?_within hClosed hFront hAt hDoes, hTo, Option.map_some]
      | stops hAt hDoes hStop =>
          rw [← Alongside.readSlots_eq hReads hPath hAt hAgree] at hDoes
          exact ⟨_, .stops ((getElem?_within hLt).trans hAt) hDoes hStop, .ended _ _⟩

/-- Every step inside longer code, while there, is a step of the code on its own. -/
theorem alongside_back (hClosed : Code.Closed code)
    (hFront : ∀ l ∈ Code.placed code, l ∉ Code.placed front) (hReads : Code.ReadsWritten code) :
    Simulates (fun d c => Alongside code front.length c d) (M.Step (front ++ code ++ back))
      (M.Step code) := by
  intro d d' c effects hRel hStep
  cases hRel with
  | ended result heap => exact (step_ended hStep).elim
  | running hPath hAgree =>
      have hLt := hPath.lt
      cases hStep with
      | goesOn hAt hDoes hTo =>
          rw [getElem?_within hLt] at hAt
          rw [Alongside.readSlots_eq hReads hPath hAt hAgree] at hDoes
          rw [position?_within hClosed hFront hAt hDoes, Option.map_eq_some_iff] at hTo
          obtain ⟨t, hTo, rfl⟩ := hTo
          exact ⟨_, .goesOn hAt hDoes hTo, .running
            (.step hPath hAt (follows_of_position? hClosed hAt hDoes hTo))
            (write_agree _ hAgree)⟩
      | stops hAt hDoes hStop =>
          rw [getElem?_within hLt] at hAt
          rw [Alongside.readSlots_eq hReads hPath hAt hAgree] at hDoes
          exact ⟨_, .stops hAt hDoes hStop, .ended _ _⟩

/-- Code behaves the same on its own and inside longer code. -/
theorem behaves_within (hClosed : Code.Closed code)
    (hFront : ∀ l ∈ Code.placed code, l ∉ Code.placed front) (hReads : Code.ReadsWritten code)
    {c d : Config V H R} (hRel : Alongside code front.length c d) {obs : Observation H E R} :
    M.Behaves (front ++ code ++ back) d obs ↔ M.Behaves code c obs :=
  ⟨fun h => h.simulate (alongside_back hClosed hFront hReads)
      (alongside_forth hClosed hFront hReads)
      (fun hRel => by cases hRel.sameStatus <;> constructor) hRel,
    fun h => h.simulate (alongside_forth hClosed hFront hReads)
      (alongside_back hClosed hFront hReads) Alongside.sameStatus hRel⟩

end Machine

end HotPatch
