import HotPatch.Bytecode.Body

/-!
# Where control goes

Labels, jumps and fall-through of a list of instructions, and what becomes of
them when the list is put inside a longer one.  Interception never touches
the instructions of a body: it puts code in front and behind.  So what is
needed of the body is that control cannot leave it by accident (`Closed`) and
that its labels are not the new ones (`Tidy`); then every jump lands on the
same instruction as before, moved by the length of the code in front.
-/

namespace HotPatch

namespace Code

/-- The placed labels are those of the label instructions. -/
theorem mem_placed {code : List Instruction} {l : Label} :
    l ∈ placed code ↔ Instruction.label l ∈ code := by
  simp only [placed, List.mem_filterMap]
  constructor
  · rintro ⟨i, hMem, hPlaced⟩
    cases i <;> simp_all [Instruction.placed?]
  · intro hMem
    exact ⟨_, hMem, rfl⟩

@[simp] theorem placed_append (front back : List Instruction) :
    placed (front ++ back) = placed front ++ placed back := by
  simp [placed]

theorem position?_eq_none {code : List Instruction} {l : Label} (h : l ∉ placed code) :
    position? code l = none := by
  rw [mem_placed] at h
  rw [position?, List.findIdx?_eq_none_iff]
  intro i hMem
  rw [beq_eq_false_iff_ne]
  rintro rfl
  exact h hMem

/-- Every placed label has a position. -/
theorem exists_position? {code : List Instruction} {l : Label} (h : l ∈ placed code) :
    ∃ k, position? code l = some k := by
  refine Option.isSome_iff_exists.mp ?_
  rw [position?, List.findIdx?_isSome, List.any_eq_true]
  exact ⟨_, mem_placed.mp h, by simp⟩

/-- A label's position holds the instruction that places it. -/
theorem getElem?_position? {code : List Instruction} {l : Label} {k : Nat}
    (h : position? code l = some k) : code[k]? = some (.label l) := by
  obtain ⟨hLt, hAt, _⟩ := List.findIdx?_eq_some_iff_getElem.mp h
  rw [List.getElem?_eq_getElem hLt, eq_of_beq hAt]

private theorem position?_lt {code : List Instruction} {l : Label} {k : Nat}
    (h : position? code l = some k) : k < code.length :=
  (List.getElem?_eq_some_iff.mp (getElem?_position? h)).1

/-- Code in front moves a label that it does not place itself. -/
theorem position?_append_left {front code : List Instruction} {l : Label}
    (h : l ∉ placed front) :
    position? (front ++ code) l = (position? code l).map (· + front.length) := by
  have hFront : front.findIdx? (· == .label l) = none := position?_eq_none h
  simp [position?, List.findIdx?_append, hFront]

/-- Code behind does not move a label. -/
theorem position?_append_right {code back : List Instruction} {l : Label}
    (h : l ∈ placed code) : position? (code ++ back) l = position? code l := by
  obtain ⟨k, hAt⟩ := exists_position? h
  have hFound : code.findIdx? (· == .label l) = some k := hAt
  simp [position?, List.findIdx?_append, hFound]

/-- A label that is placed once is where it is placed. -/
theorem position?_of_nodup {front back : List Instruction} {l : Label}
    (h : (placed (front ++ .label l :: back)).Nodup) :
    position? (front ++ .label l :: back) l = some front.length := by
  have hFront : l ∉ placed front := by
    intro hMem
    rw [placed_append, List.nodup_append] at h
    exact h.2.2 l hMem l List.mem_cons_self rfl
  have hHere : position? (.label l :: back) l = some 0 := by
    simp [position?, List.findIdx?_cons]
  rw [position?_append_left hFront, hHere]
  simp

/-- No label is placed twice exactly if no repetition is found. -/
theorem repeated?_eq_none_iff {labels : List Label} :
    ∀ {seen : List Label},
      repeated? seen labels = none ↔ labels.Nodup ∧ ∀ l ∈ labels, l ∉ seen := by
  induction labels with
  | nil => intro seen; simp [repeated?]
  | cons l rest ih =>
      intro seen
      rw [repeated?]
      by_cases hSeen : l ∈ seen
      · simp [hSeen]
      · simp only [List.contains_iff_mem, hSeen, if_false, ih, List.nodup_cons,
          List.mem_cons]
        constructor
        · rintro ⟨hNodup, hRest⟩
          refine ⟨⟨fun hMem => hRest l hMem (.inl rfl), hNodup⟩, ?_⟩
          rintro x (rfl | hMem)
          · exact hSeen
          · exact fun hx => hRest x hMem (.inr hx)
        · rintro ⟨⟨hFresh, hNodup⟩, hRest⟩
          refine ⟨hNodup, fun x hMem => ?_⟩
          rintro (rfl | hx)
          · exact hFresh hMem
          · exact hRest x (.inr hMem) hx

/-- Control may go from one position to another: on to the next instruction, or to a target. -/
inductive Follows (code : List Instruction) : Nat → Nat → Prop where
  | next {k : Nat} {i : Instruction} : code[k]? = some i → i.fallsThrough = true →
      k + 1 < code.length → Follows code k (k + 1)
  | jump {k t : Nat} {i : Instruction} {l : Label} : code[k]? = some i → l ∈ i.targets →
      position? code l = some t → Follows code k t

/-- Control stays inside of the code. -/
theorem Follows.lt {code : List Instruction} {k t : Nat} (h : Follows code k t) :
    t < code.length := by
  cases h with
  | next _ _ hLt => exact hLt
  | jump _ _ hAt => exact position?_lt hAt

/-- Control cannot leave the code but by an instruction that ends the method. -/
structure Closed (code : List Instruction) : Prop where
  targets : ∀ i ∈ code, ∀ l ∈ i.targets, l ∈ placed code
  last : ∃ i, code.getLast? = some i ∧ i.fallsThrough = false

namespace Closed

variable {code : List Instruction}

/-- Closed code is not empty. -/
theorem length_pos (hClosed : Closed code) : 0 < code.length := by
  obtain ⟨i, hLast, _⟩ := hClosed.last
  cases code with
  | nil => simp at hLast
  | cons _ _ => simp

/-- What falls through has an instruction behind it. -/
theorem next_lt (hClosed : Closed code) {k : Nat} {i : Instruction} (hAt : code[k]? = some i)
    (hFalls : i.fallsThrough = true) : k + 1 < code.length := by
  obtain ⟨j, hLast, hStays⟩ := hClosed.last
  have hLt : k < code.length := (List.getElem?_eq_some_iff.mp hAt).1
  refine Nat.lt_of_not_le fun hEnd => ?_
  have hk : k = code.length - 1 := by omega
  rw [List.getLast?_eq_getElem?, ← hk, hAt] at hLast
  obtain rfl : i = j := Option.some.inj hLast
  rw [hFalls] at hStays
  cases hStays

/-- Inside longer code a label keeps its place, counted from where the code starts. -/
theorem position?_within {front back : List Instruction} {l : Label}
    (hFront : l ∉ placed front) (hCode : l ∈ placed code) :
    position? (front ++ code ++ back) l = (position? code l).map (· + front.length) := by
  rw [List.append_assoc, position?_append_left hFront, position?_append_right hCode]

end Closed

end Code

/-- A body that can be encoded places its labels once. -/
theorem Body.nodup_placed {b : Body} (h : b.error? = none) :
    (Code.placed b.instructions).Nodup := by
  unfold Body.error? at h
  split at h
  · cases h
  · next hNone => exact (Code.repeated?_eq_none_iff.mp hNone).1

/-- Control stays inside the body, its labels are placed once, and all were handed out before. -/
structure Body.Tidy (b : Body) : Prop extends Code.Closed b.instructions where
  distinct : (Code.placed b.instructions).Nodup
  below : ∀ l ∈ Code.placed b.instructions, l.number < b.nextLabel

end HotPatch
