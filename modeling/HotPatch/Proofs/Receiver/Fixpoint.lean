import HotPatch.Proofs.Receiver.Transfer

/-!
# What the receiver analysis settles on

A position whose state has grown is on the stack until it is visited, and a
visit passes its state on to all successors.  So when the stack is empty,
every state has been passed on as it is in the end: what `transfer` makes of
it is in the states of the successors.  This is no least fixpoint, since the
transfer is not monotone; it is what every order of visits ends with.
-/

namespace HotPatch.Receiver

/-- A visit changes states only by adding to them, and puts what it changes on the stack. -/
structure Grows (flow flow' : Flow) : Prop where
  length : flow'.states.length = flow.states.length
  states : ∀ {k : Nat} {s : RegisterSet}, flow.states[k]? = some (some s) →
    ∃ s' : RegisterSet, flow'.states[k]? = some (some s') ∧ ∀ r ∈ s, r ∈ s'
  pending : ∀ {k : Nat}, k ∈ flow.pending → k ∈ flow'.pending
  changed : ∀ {k : Nat} {s : RegisterSet}, flow'.states[k]? = some (some s) →
    flow.states[k]? = some (some s) ∨ k ∈ flow'.pending

namespace Grows

theorem refl (flow : Flow) : Grows flow flow where
  length := rfl
  states h := ⟨_, h, fun _ hr => hr⟩
  pending h := h
  changed h := .inl h

theorem trans {flow flow' flow'' : Flow} (h : Grows flow flow') (h' : Grows flow' flow'') :
    Grows flow flow'' where
  length := h'.length.trans h.length
  states hs := by
    obtain ⟨s', hs', hSub⟩ := h.states hs
    obtain ⟨s'', hs'', hSub'⟩ := h'.states hs'
    exact ⟨s'', hs'', fun r hr => hSub' r (hSub r hr)⟩
  pending hk := h'.pending (h.pending hk)
  changed hs := by
    rcases h'.changed hs with hs' | hk
    · exact (h.changed hs').imp_right h'.pending
    · exact .inr hk

end Grows

/-- Nothing changes at a join if all that comes in is there. -/
theorem join_eq_none {possible : List Register} {incoming : RegisterSet} {old : State}
    (h : join possible incoming old = none) :
    ∃ s, old = some s ∧ ∀ r ∈ incoming, r ∈ possible → r ∈ s := by
  cases old with
  | none => cases h
  | some s =>
      simp only [join] at h
      split at h
      · next hNew =>
          refine ⟨s, rfl, fun r hr hPossible => ?_⟩
          rw [List.isEmpty_iff, List.filter_eq_nil_iff] at hNew
          have hNot := hNew r hr
          simpa [hPossible] using hNot
      · cases h

/-- What is in a state that a join has changed. -/
theorem mem_join {possible : List Register} {incoming new : RegisterSet} {old : State}
    (h : join possible incoming old = some new) {r : Register} :
    r ∈ new ↔ (∃ s, old = some s ∧ r ∈ s) ∨ r ∈ incoming ∧ (old = none ∨ r ∈ possible) := by
  cases old with
  | none =>
      cases h
      simp
  | some s =>
      simp only [join] at h
      split at h
      · cases h
      · cases h
        by_cases hs : r ∈ s <;>
          simp [RegisterSet.mem_addAll, hs]

/-- Offers only add to the states. -/
theorem offer_grows {possible : List Register} {incoming : RegisterSet} (flow : Flow)
    (position : Nat) : Grows flow (offer possible incoming flow position) := by
  unfold offer
  split
  · exact .refl flow
  · next old hOld =>
      split
      · exact .refl flow
      · next new hNew =>
          have hLt : position < flow.states.length := (List.getElem?_eq_some_iff.mp hOld).1
          refine ⟨List.length_set, ?_, List.mem_cons_of_mem _, ?_⟩
          · intro k s hs
            by_cases hk : position = k
            · subst hk
              obtain rfl := Option.some.inj (hs.symm.trans hOld)
              refine ⟨new, by simp [hLt], fun r hr => ?_⟩
              exact (mem_join hNew).mpr (.inl ⟨s, rfl, hr⟩)
            · exact ⟨s, by rw [List.getElem?_set_ne hk, hs], fun _ hr => hr⟩
          · intro k s hs
            by_cases hk : position = k
            · subst hk
              exact .inr (List.mem_cons_self)
            · rw [List.getElem?_set_ne hk] at hs
              exact .inl hs

/-- Offering a state to a position makes the position's state hold it. -/
theorem offer_covers {possible : List Register} {incoming : RegisterSet} (flow : Flow)
    {position : Nat} (hLt : position < flow.states.length)
    (hPossible : ∀ r ∈ incoming, r ∈ possible) :
    ∃ s, (offer possible incoming flow position).states[position]? = some (some s) ∧
      ∀ r ∈ incoming, r ∈ s := by
  unfold offer
  rw [List.getElem?_eq_getElem hLt]
  simp only
  split
  · next hNone =>
      obtain ⟨s, hOld, hSub⟩ := join_eq_none hNone
      exact ⟨s, by rw [List.getElem?_eq_getElem hLt, hOld], fun r hr =>
        hSub r hr (hPossible r hr)⟩
  · next new hNew =>
      refine ⟨new, by simp [hLt], fun r hr => ?_⟩
      exact (mem_join hNew).mpr (.inr ⟨hr, .inr (hPossible r hr)⟩)

/-- Only candidates are in the states. -/
def Within (code : List Instruction) (flow : Flow) : Prop :=
  ∀ {k : Nat} {s : RegisterSet}, flow.states[k]? = some (some s) →
    ∀ r ∈ s, r ∈ candidates code

private theorem offer_within {code : List Instruction} {incoming : RegisterSet} {flow : Flow}
    {position : Nat} (hFlow : Within code flow) (hIncoming : ∀ r ∈ incoming, r ∈ candidates code) :
    Within code (offer (candidates code) incoming flow position) := by
  unfold offer
  split
  · exact hFlow
  · next old hOld =>
      split
      · exact hFlow
      · next new hNew =>
          intro k s hs r hr
          by_cases hk : position = k
          · subst hk
            have hLt : position < flow.states.length := (List.getElem?_eq_some_iff.mp hOld).1
            simp only [List.getElem?_set_self hLt, Option.some.injEq] at hs
            subst hs
            rcases (mem_join hNew).mp hr with ⟨s, rfl, hs⟩ | ⟨hIn, _⟩
            · exact hFlow hOld r hs
            · exact hIncoming r hIn
          · rw [List.getElem?_set_ne hk] at hs
            exact hFlow hs r hr

/-- Offering to several positions, one after the other. -/
theorem foldl_offer {code : List Instruction} {incoming : RegisterSet}
    (hIncoming : ∀ r ∈ incoming, r ∈ candidates code) :
    ∀ (positions : List Nat) (flow : Flow), Within code flow →
      (∀ p ∈ positions, p < flow.states.length) →
      Grows flow (positions.foldl (offer (candidates code) incoming) flow) ∧
      Within code (positions.foldl (offer (candidates code) incoming) flow) ∧
      ∀ p ∈ positions, ∃ s,
        (positions.foldl (offer (candidates code) incoming) flow).states[p]? = some (some s) ∧
          ∀ r ∈ incoming, r ∈ s := by
  intro positions
  induction positions with
  | nil =>
      intro flow hFlow _
      exact ⟨.refl flow, hFlow, fun p hp => by simp at hp⟩
  | cons p rest ih =>
      intro flow hFlow hLt
      have hFirst : Grows flow (offer (candidates code) incoming flow p) := offer_grows flow p
      obtain ⟨hGrows, hWithin, hCovers⟩ := ih (offer (candidates code) incoming flow p)
        (offer_within hFlow hIncoming)
        (fun q hq => by rw [hFirst.length]; exact hLt q (List.mem_cons_of_mem _ hq))
      refine ⟨hFirst.trans hGrows, hWithin, fun q hq => ?_⟩
      rcases List.mem_cons.mp hq with rfl | hq
      · obtain ⟨s, hs, hSub⟩ := offer_covers flow (hLt q List.mem_cons_self) hIncoming
        obtain ⟨s', hs', hSub'⟩ := hGrows.states hs
        exact ⟨s', hs', fun r hr => hSub' r (hSub r hr)⟩
      · exact hCovers q hq

/-- The state `s` before the instruction `i` at `k` is passed on to all successors. -/
def PassedOn (code : List Instruction) (states : List State) (k : Nat) (i : Instruction)
    (s : RegisterSet) : Prop :=
  ∃ next, successors code k i = .ok next ∧
    ∀ t ∈ next, ∃ s' : RegisterSet,
      states[t]? = some (some s') ∧ ∀ r ∈ transfer i s, r ∈ s'

/-- Every state is passed on, or its position is yet to be visited. -/
structure Sound (code : List Instruction) (flow : Flow) : Prop where
  length : flow.states.length = code.length
  within : Within code flow
  passed : ∀ {k : Nat} {s : RegisterSet} {i : Instruction}, flow.states[k]? = some (some s) →
    code[k]? = some i → k ∈ flow.pending ∨ PassedOn code flow.states k i s

/-- A visit keeps the analysis sound. -/
theorem Sound.visit {code : List Instruction} {states : List State} {k : Nat} {rest : List Nat}
    {s : RegisterSet} {i : Instruction} {next : List Nat}
    (hSound : Sound code ⟨states, k :: rest⟩) (hState : states[k]? = some (some s))
    (hAt : code[k]? = some i) (hNext : successors code k i = .ok next) :
    Grows ⟨states, rest⟩ (next.foldl (offer (candidates code) (transfer i s)) ⟨states, rest⟩) ∧
      Sound code (next.foldl (offer (candidates code) (transfer i s)) ⟨states, rest⟩) := by
  have hTransfer := transfer_candidates (List.mem_of_getElem? hAt) (hSound.within hState)
  have hLt : ∀ t ∈ next, t < states.length := by
    intro t ht
    rw [hSound.length]
    exact ((mem_successors hAt hNext t).mp ht).lt
  obtain ⟨hGrows, hWithin, hCovers⟩ :=
    foldl_offer hTransfer next ⟨states, rest⟩ hSound.within hLt
  refine ⟨hGrows, hGrows.length.trans hSound.length, hWithin, ?_⟩
  intro j s' i' hState' hAt'
  rcases hGrows.changed hState' with hOld | hPending
  · -- The state at `j` is the one before the visit: it is `k` itself, or was passed on before.
    by_cases hj : j = k
    · subst hj
      obtain rfl := Option.some.inj (hAt.symm.trans hAt')
      obtain rfl := Option.some.inj (Option.some.inj (hState.symm.trans hOld))
      exact .inr ⟨next, hNext, hCovers⟩
    · rcases hSound.passed hOld hAt' with hMem | ⟨next', hNext', hPass⟩
      · exact .inl (hGrows.pending ((List.mem_cons.mp hMem).resolve_left hj))
      · refine .inr ⟨next', hNext', fun t ht => ?_⟩
        obtain ⟨u, hu, hSub⟩ := hPass t ht
        obtain ⟨u', hu', hSub'⟩ := hGrows.states hu
        exact ⟨u', hu', fun r hr => hSub' r (hSub r hr)⟩
  · exact .inl hPending

/-- Taking a position off the stack that has no state, or no instruction, keeps it sound. -/
theorem Sound.skip {code : List Instruction} {states : List State} {k : Nat} {rest : List Nat}
    (hSound : Sound code ⟨states, k :: rest⟩)
    (hNone : ∀ s i, states[k]? = some (some s) → code[k]? = some i → False) :
    Sound code ⟨states, rest⟩ := by
  refine ⟨hSound.length, hSound.within, fun {j s i} hState hAt => ?_⟩
  refine (hSound.passed hState hAt).imp_left fun hMem => ?_
  refine (List.mem_cons.mp hMem).resolve_left ?_
  rintro rfl
  exact hNone s i hState hAt

/-- In the end every state is passed on, and holds what it held at any time before. -/
theorem settle_sound {code : List Instruction} {flow : Flow} {found : List State}
    (hSound : Sound code flow) (h : settle code flow = .ok found) :
    Sound code ⟨found, []⟩ ∧
      ∀ {k : Nat} {s : RegisterSet}, flow.states[k]? = some (some s) →
        ∃ s' : RegisterSet, found[k]? = some (some s') ∧ ∀ r ∈ s, r ∈ s' := by
  fun_induction settle code flow with
  | case1 flow hPending =>
      cases h
      obtain ⟨states, pending⟩ := flow
      obtain rfl : pending = [] := hPending
      exact ⟨hSound, fun hs => ⟨_, hs, fun _ hr => hr⟩⟩
  | case2 flow k rest hPending state i hAt hState e hNext => cases h
  | case3 flow k rest hPending state i hAt hState next hNext ih =>
      obtain ⟨states, pending⟩ := flow
      obtain rfl : pending = k :: rest := hPending
      obtain ⟨hGrows, hVisited⟩ := hSound.visit hState hAt hNext
      obtain ⟨hFound, hKept⟩ := ih hVisited h
      refine ⟨hFound, fun hs => ?_⟩
      obtain ⟨s', hs', hSub⟩ := hGrows.states hs
      obtain ⟨s'', hs'', hSub'⟩ := hKept hs'
      exact ⟨s'', hs'', fun r hr => hSub' r (hSub r hr)⟩
  | case4 flow k rest hPending hNone ih =>
      obtain ⟨states, pending⟩ := flow
      obtain rfl : pending = k :: rest := hPending
      exact ih (hSound.skip hNone) h

/-- Before the first visit only the entry has a state, and it is on the stack. -/
theorem entry_sound (code : List Instruction) : Sound code (entry code) := by
  cases code with
  | nil =>
      refine ⟨rfl, fun h => ?_, fun h => ?_⟩ <;> simp [entry] at h
  | cons i rest =>
      have hOnly : ∀ {k : Nat} {s : RegisterSet},
          (entry (i :: rest)).states[k]? = some (some s) → k = 0 ∧ s = [.p 0] := by
        intro k s h
        cases k with
        | zero => exact ⟨rfl, by simpa [entry] using h.symm⟩
        | succ k =>
            have hRest : (rest.map fun _ => (none : State))[k]? = some (some s) := h
            obtain ⟨_, _, hNone⟩ := List.mem_map.mp (List.mem_of_getElem? hRest)
            cases hNone
      refine ⟨by simp [entry], fun h r hr => ?_, fun h _ => .inl ?_⟩
      · rw [(hOnly h).2, List.mem_singleton] at hr
        subst hr
        exact List.mem_cons_self
      · rw [(hOnly h).1]
        exact List.mem_singleton_self 0

/-- What the analysis finds: states that are passed on along all ways control may go, and that of
the first instruction holds `p0`. -/
theorem states_sound {code : List Instruction} {found : List State}
    (h : states code = .ok found) :
    Sound code ⟨found, []⟩ ∧
      (0 < code.length → ∃ s : RegisterSet, found[0]? = some (some s) ∧ .p 0 ∈ s) := by
  unfold states at h
  split at h
  · cases h
  · obtain ⟨hSound, hKept⟩ := settle_sound (entry_sound code) h
    refine ⟨hSound, fun hPos => ?_⟩
    have hEntry : (entry code).states[0]? = some (some [.p 0]) := by
      cases code with
      | nil => simp at hPos
      | cons i rest => rfl
    obtain ⟨s, hs, hSub⟩ := hKept hEntry
    exact ⟨s, hs, hSub _ (List.mem_singleton_self _)⟩

/-- The calls listed are those on a register that the state before them has. -/
theorem mem_initCalls {code : List Instruction} {found : List State} {call : InitCall} :
    call ∈ initCalls code found ↔ ∃ s i, found[call.position]? = some (some s) ∧
      code[call.position]? = some i ∧ initOn? s i = some call.method := by
  simp only [initCalls, List.mem_filterMap, Prod.exists, List.mem_zipIdx_iff_getElem?, before]
  constructor
  · rintro ⟨i, k, hAt, hCall⟩
    split at hCall
    · cases hCall
    · next s hState =>
        obtain ⟨method, hInit, rfl⟩ := Option.map_eq_some_iff.mp hCall
        exact ⟨s, i, Option.join_eq_some_iff.mp hState, hAt, hInit⟩
  · rintro ⟨s, i, hState, hAt, hInit⟩
    exact ⟨i, call.position, hAt, by simp [hState, hInit]⟩

end HotPatch.Receiver
