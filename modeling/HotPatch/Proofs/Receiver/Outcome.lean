import Mathlib.Data.List.Duplicate
import HotPatch.Proofs.Bytecode.Encodable
import HotPatch.Proofs.Receiver.Visits

/-!
# What the receiver analysis comes to

The analysis refuses code in two cases only: a label is placed twice, or an
instruction that control can get to jumps to a label that is not placed.  For
all other code it finds states that are exact in three ways.  A position has
a state if and only if control can get there.  Every state is passed on along
all ways control may go.  And every register in a state holds the receiver on
some path (`Solves`).

The last one does not follow from joining states over paths, since a larger
state may be emptied where a smaller one is kept.  What carries it through
the visits is `Witnessed`: each register of a state has a path whose own set
is a part of that state.  A call that leaves the state alone then leaves that
part alone too.

`Settles` are the visits as such, with states that grow by plain unions.  That
they come to an end is what the analysis knows by counting candidates; the
count takes nothing away from a state (`settles_settle`).
-/

namespace HotPatch.Receiver

/-- A way from the first instruction to a position, with the instructions it passes. -/
inductive Walk (code : List Instruction) : List Instruction → Nat → Prop where
  | start : 0 < code.length → Walk code [] 0
  | onward {passed : List Instruction} {k t : Nat} {i : Instruction} : Walk code passed k →
      code[k]? = some i → Code.Follows code k t → Walk code (passed ++ [i]) t

/-- Control can get to the position. -/
def Reachable (code : List Instruction) (k : Nat) : Prop := ∃ passed, Walk code passed k

/-- The label is placed at two positions. -/
def PlacedTwice (code : List Instruction) (l : Label) : Prop := code.Duplicate (.label l)

/-- Control can get to a jump to the label, which is not placed. -/
def LeadsNowhere (code : List Instruction) (l : Label) : Prop :=
  ∃ k i, Reachable code k ∧ code[k]? = some i ∧ l ∈ i.targets ∧ .label l ∉ code

/-- The registers that hold the receiver on a path, at its end. -/
def heldAfter (passed : List Instruction) : RegisterSet := after [.p 0] passed

/-- What the states found say of the code. -/
structure Solves (code : List Instruction) (found : List State) : Prop where
  reached : ∀ k, (before found k).isSome ↔ Reachable code k
  entry : 0 < code.length → ∃ s, before found 0 = some s ∧ .p 0 ∈ s
  passed : ∀ {k t : Nat} {i : Instruction} {s : RegisterSet}, before found k = some s →
    code[k]? = some i → Code.Follows code k t →
    ∃ s', before found t = some s' ∧ ∀ r ∈ transfer i s, r ∈ s'
  witnessed : ∀ {k : Nat} {s : RegisterSet} {r : Register}, before found k = some s → r ∈ s →
    ∃ passed, Walk code passed k ∧ r ∈ heldAfter passed

/-- A state is offered to positions in order: a position without one takes it, and one that lacks
a part of it takes that part.  Both are put on the stack. -/
inductive Offered (incoming : RegisterSet) : List Nat → Flow → Flow → Prop where
  | done {flow : Flow} : Offered incoming [] flow flow
  | new {states : List State} {pending rest : List Nat} {k : Nat} {flow : Flow} :
      states[k]? = some none →
      Offered incoming rest ⟨states.set k (some incoming), k :: pending⟩ flow →
      Offered incoming (k :: rest) ⟨states, pending⟩ flow
  | more {states : List State} {pending rest : List Nat} {k : Nat} {s s' : RegisterSet}
      {flow : Flow} : states[k]? = some (some s) → (∃ r ∈ incoming, r ∉ s) →
      (∀ r, r ∈ s' ↔ r ∈ s ∨ r ∈ incoming) →
      Offered incoming rest ⟨states.set k (some s'), k :: pending⟩ flow →
      Offered incoming (k :: rest) ⟨states, pending⟩ flow
  | known {states : List State} {pending rest : List Nat} {k : Nat} {s : RegisterSet}
      {flow : Flow} : states[k]? = some (some s) → (∀ r ∈ incoming, r ∈ s) →
      Offered incoming rest ⟨states, pending⟩ flow →
      Offered incoming (k :: rest) ⟨states, pending⟩ flow

/-- Finitely many visits, the last in first, until no position is left or one cannot be left. -/
inductive Settles (code : List Instruction) : Flow → Except BodyError (List State) → Prop where
  | done {states : List State} : Settles code ⟨states, []⟩ (.ok states)
  | refused {states : List State} {k : Nat} {rest : List Nat} {s : RegisterSet} {i : Instruction}
      {e : BodyError} : states[k]? = some (some s) → code[k]? = some i →
      successors code k i = .error e → Settles code ⟨states, k :: rest⟩ (.error e)
  | visit {states : List State} {k : Nat} {rest next : List Nat} {s : RegisterSet}
      {i : Instruction} {flow : Flow} {outcome : Except BodyError (List State)} :
      states[k]? = some (some s) → code[k]? = some i → successors code k i = .ok next →
      Offered (transfer i s) next ⟨states, rest⟩ flow → Settles code flow outcome →
      Settles code ⟨states, k :: rest⟩ outcome

private theorem before_eq_some_iff {found : List State} {k : Nat} {s : RegisterSet} :
    before found k = some s ↔ found[k]? = some (some s) :=
  Option.join_eq_some_iff

/-! ## Labels -/

private theorem placedTwice_iff {code : List Instruction} {l : Label} :
    PlacedTwice code l ↔ 2 ≤ (Code.placed code).count l := by
  have hCount : (Code.placed code).count l = code.count (.label l) := by
    rw [Code.placed, List.count_filterMap, List.count]
    refine List.countP_congr fun i _ => ?_
    cases i <;> simp [Instruction.placed?]
  rw [PlacedTwice, List.duplicate_iff_two_le_count, hCount]

/-- The repetition that is found is one. -/
theorem count_of_repeated? {labels : List Label} :
    ∀ {seen : List Label} {l : Label}, Code.repeated? seen labels = some l →
      1 ≤ labels.count l ∧ (l ∈ seen ∨ 2 ≤ labels.count l) := by
  induction labels with
  | nil => intro seen l h; cases h
  | cons first rest ih =>
      intro seen l h
      rw [Code.repeated?] at h
      split at h
      · next hSeen =>
          obtain rfl := Option.some.inj h
          exact ⟨by simp, .inl (List.contains_iff_mem.mp hSeen)⟩
      · obtain ⟨hOnce, hMore⟩ := ih h
        have hLe : rest.count l ≤ (first :: rest).count l := List.count_le_count_cons
        refine ⟨Nat.le_trans hOnce hLe, ?_⟩
        rcases hMore with hSeen | hTwice
        · rcases List.mem_cons.mp hSeen with rfl | hSeen
          · exact .inr (by rw [List.count_cons_self]; omega)
          · exact .inl hSeen
        · exact .inr (Nat.le_trans hTwice hLe)

private theorem placedTwice_of_repeated? {code : List Instruction} {l : Label}
    (h : Code.repeated? [] (Code.placed code) = some l) : PlacedTwice code l :=
  placedTwice_iff.mpr ((count_of_repeated? h).2.resolve_left List.not_mem_nil)

private theorem repeated?_eq_none {code : List Instruction} (h : ∀ l, ¬ PlacedTwice code l) :
    Code.repeated? [] (Code.placed code) = none := by
  cases hRepeated : Code.repeated? [] (Code.placed code) with
  | none => rfl
  | some l => exact absurd (placedTwice_of_repeated? hRepeated) (h l)

private theorem repeated?_isSome {code : List Instruction} {l : Label} (h : PlacedTwice code l) :
    ∃ l', Code.repeated? [] (Code.placed code) = some l' := by
  refine Option.ne_none_iff_exists'.mp fun hNone => ?_
  have hNodup := (Code.repeated?_eq_none_iff.mp hNone).1
  have hOnce := List.nodup_iff_count_le_one.mp hNodup l
  have hTwice := placedTwice_iff.mp h
  omega

/-- Targets cannot be found exactly if one of them is not placed. -/
theorem targetPositions_eq_error {code : List Instruction} {e : BodyError} {labels : List Label}
    (h : targetPositions code labels = .error e) :
    ∃ l ∈ labels, e = .unplacedLabel l ∧ .label l ∉ code := by
  induction labels with
  | nil => cases h
  | cons l rest ih =>
      rw [targetPositions] at h
      split at h
      · next hNone =>
          cases h
          refine ⟨l, List.mem_cons_self, rfl, fun hMem => ?_⟩
          obtain ⟨k, hk⟩ := Code.exists_position? (Code.mem_placed.mpr hMem)
          rw [hNone] at hk
          cases hk
      · cases hRest : targetPositions code rest with
        | error e' =>
            rw [hRest] at h
            obtain rfl : e' = e := Except.error.inj h
            obtain ⟨l', hl', hIs⟩ := ih hRest
            exact ⟨l', List.mem_cons_of_mem l hl', hIs⟩
        | ok targets => rw [hRest] at h; cases h

private theorem mem_of_targetPositions_eq_ok {code : List Instruction} {labels : List Label}
    {targets : List Nat} (h : targetPositions code labels = .ok targets) :
    ∀ l ∈ labels, .label l ∈ code := by
  induction labels generalizing targets with
  | nil => intro l hl; cases hl
  | cons first rest ih =>
      rw [targetPositions] at h
      split at h
      · cases h
      · next k hAt =>
          cases hRest : targetPositions code rest with
          | error e => rw [hRest] at h; cases h
          | ok others =>
              intro l hl
              rcases List.mem_cons.mp hl with rfl | hl
              · exact List.mem_of_getElem? (Code.getElem?_position? hAt)
              · exact ih hRest l hl

private theorem successors_eq_error {code : List Instruction} {k : Nat} {i : Instruction}
    {e : BodyError} (h : successors code k i = .error e) :
    ∃ l ∈ i.targets, e = .unplacedLabel l ∧ .label l ∉ code := by
  unfold successors at h
  cases hTargets : targetPositions code i.targets with
  | error e' =>
      rw [hTargets] at h
      obtain rfl : e' = e := Except.error.inj h
      exact targetPositions_eq_error hTargets
  | ok targets => rw [hTargets] at h; cases h

private theorem mem_of_successors_eq_ok {code : List Instruction} {k : Nat} {i : Instruction}
    {next : List Nat} (h : successors code k i = .ok next) : ∀ l ∈ i.targets, .label l ∈ code := by
  unfold successors at h
  cases hTargets : targetPositions code i.targets with
  | error e => rw [hTargets] at h; cases h
  | ok targets => exact mem_of_targetPositions_eq_ok hTargets

/-! ## Paths behind the states -/

/-- Control can get to the position, and each register of the state holds the receiver on some path
there, which holds it in registers of the state alone. -/
structure Witnessed (code : List Instruction) (k : Nat) (s : RegisterSet) : Prop where
  reached : Reachable code k
  paths : ∀ r ∈ s, ∃ passed, Walk code passed k ∧ r ∈ heldAfter passed ∧
    ∀ x ∈ heldAfter passed, x ∈ s

private theorem heldAfter_concat (passed : List Instruction) (i : Instruction) :
    heldAfter (passed ++ [i]) = transfer i (heldAfter passed) := by
  rw [heldAfter, after_append]
  rfl

/-- A part of a state that is not emptied goes along with it. -/
theorem transfer_subset {i : Instruction} {part s : RegisterSet} (hPart : ∀ x ∈ part, x ∈ s)
    (hInit : ¬ Initializes i (· ∈ s)) : ∀ x ∈ transfer i part, x ∈ transfer i s := by
  intro x hx
  rw [mem_transfer] at hx ⊢
  exact along_mono hPart (fun h => absurd h hInit) hx

/-- Nothing comes out of a call on the receiver. -/
theorem not_initializes_of_mem {i : Instruction} {s : RegisterSet} {x : Register}
    (h : x ∈ transfer i s) : ¬ Initializes i (· ∈ s) := by
  rw [mem_transfer] at h
  rcases objectMove_or i with ⟨dst, src, rfl⟩ | hMove
  · rintro ⟨r, method, hCall, _⟩
    cases hCall
  · exact ((along_of_ne hMove).mp h).2.2

/-- **One instruction.**  What comes out of a state has paths, too, one step longer. -/
theorem Witnessed.transfer {code : List Instruction} {k t : Nat} {i : Instruction}
    {s : RegisterSet} (h : Witnessed code k s) (hAt : code[k]? = some i)
    (hFollows : Code.Follows code k t) : Witnessed code t (transfer i s) := by
  obtain ⟨⟨passed, hWalk⟩, hPaths⟩ := h
  refine ⟨⟨_, hWalk.onward hAt hFollows⟩, fun r hr => ?_⟩
  have hInit := not_initializes_of_mem hr
  -- The register that the receiver in `r` comes from is the source of a move, or `r` itself.
  obtain ⟨source, hSource, hMoves⟩ : ∃ source ∈ s, ∀ part : RegisterSet, (∀ x ∈ part, x ∈ s) →
      source ∈ part → r ∈ Receiver.transfer i part := by
    simp only [mem_transfer] at hr ⊢
    rcases objectMove_or i with ⟨dst, src, rfl⟩ | hMove
    · rw [along_move] at hr
      by_cases hDst : r = dst
      · rw [if_pos hDst] at hr
        exact ⟨src, hr, fun part _ hMem => by rw [along_move, if_pos hDst]; exact hMem⟩
      · rw [if_neg hDst] at hr
        exact ⟨r, hr, fun part _ hMem => by rw [along_move, if_neg hDst]; exact hMem⟩
    · obtain ⟨hMem, hWritten, _⟩ := (along_of_ne hMove).mp hr
      refine ⟨r, hMem, fun part hPart hr => (along_of_ne hMove).mpr ⟨hr, hWritten, ?_⟩⟩
      rintro ⟨x, method, hCall, hx⟩
      exact hInit ⟨x, method, hCall, hPart x hx⟩
  obtain ⟨way, hWay, hHeld, hPart⟩ := hPaths source hSource
  refine ⟨way ++ [i], hWay.onward hAt hFollows, ?_, ?_⟩
  · rw [heldAfter_concat]
    exact hMoves _ hPart hHeld
  · rw [heldAfter_concat]
    exact transfer_subset hPart hInit

/-- Two states of one position together. -/
theorem Witnessed.join {code : List Instruction} {k : Nat} {possible : List Register}
    {incoming new : RegisterSet} {old : State} (hOld : ∀ s, old = some s → Witnessed code k s)
    (hIncoming : Witnessed code k incoming) (hPossible : ∀ r ∈ incoming, r ∈ possible)
    (h : Receiver.join possible incoming old = some new) : Witnessed code k new := by
  have hAll : ∀ r ∈ incoming, r ∈ new := fun r hr =>
    (mem_join h).mpr (.inr ⟨hr, .inr (hPossible r hr)⟩)
  refine ⟨hIncoming.reached, fun r hr => ?_⟩
  rcases (mem_join h).mp hr with ⟨s, hs, hMem⟩ | ⟨hMem, _⟩
  · obtain ⟨passed, hWalk, hHeld, hPart⟩ := (hOld s hs).paths r hMem
    exact ⟨passed, hWalk, hHeld, fun x hx => (mem_join h).mpr (.inl ⟨s, hs, hPart x hx⟩)⟩
  · obtain ⟨passed, hWalk, hHeld, hPart⟩ := hIncoming.paths r hMem
    exact ⟨passed, hWalk, hHeld, fun x hx => hAll x (hPart x hx)⟩

/-- All states are witnessed. -/
def Grounded (code : List Instruction) (flow : Flow) : Prop :=
  ∀ {k : Nat} {s : RegisterSet}, flow.states[k]? = some (some s) → Witnessed code k s

private theorem offer_grounded {code : List Instruction} {incoming : RegisterSet} {flow : Flow}
    {position : Nat} (hFlow : Grounded code flow) (hIncoming : Witnessed code position incoming)
    (hPossible : ∀ r ∈ incoming, r ∈ candidates code) :
    Grounded code (offer (candidates code) incoming flow position) := by
  unfold offer
  split
  · exact hFlow
  · next old hOld =>
      split
      · exact hFlow
      · next new hNew =>
          intro k s hs
          by_cases hk : position = k
          · subst hk
            have hLt : position < flow.states.length := (List.getElem?_eq_some_iff.mp hOld).1
            simp only [List.getElem?_set_self hLt, Option.some.injEq] at hs
            subst hs
            exact .join (fun s hs => hFlow (hs ▸ hOld)) hIncoming hPossible hNew
          · rw [List.getElem?_set_ne hk] at hs
            exact hFlow hs

private theorem foldl_offer_grounded {code : List Instruction} {incoming : RegisterSet}
    (hPossible : ∀ r ∈ incoming, r ∈ candidates code) :
    ∀ (positions : List Nat) (flow : Flow), Grounded code flow →
      (∀ p ∈ positions, Witnessed code p incoming) →
      Grounded code (positions.foldl (offer (candidates code) incoming) flow) := by
  intro positions
  induction positions with
  | nil => intro flow hFlow _; exact hFlow
  | cons p rest ih =>
      intro flow hFlow hAll
      obtain ⟨hFirst, hRest⟩ := List.forall_mem_cons.mp hAll
      exact ih _ (offer_grounded hFlow hFirst hPossible) hRest

/-- A visit grounds what it adds. -/
theorem Grounded.visit {code : List Instruction} {states : List State} {k : Nat} {rest : List Nat}
    {s : RegisterSet} {i : Instruction} {next : List Nat}
    (hSound : Sound code ⟨states, k :: rest⟩) (hGrounded : Grounded code ⟨states, k :: rest⟩)
    (hState : states[k]? = some (some s)) (hAt : code[k]? = some i)
    (hNext : successors code k i = .ok next) :
    Grounded code (next.foldl (offer (candidates code) (Receiver.transfer i s))
      ⟨states, rest⟩) := by
  refine foldl_offer_grounded (transfer_candidates (List.mem_of_getElem? hAt)
    (hSound.within hState)) next ⟨states, rest⟩ hGrounded fun t ht => ?_
  exact (hGrounded hState).transfer hAt ((mem_successors hAt hNext t).mp ht)

/-- **All visits.**  Either a reachable jump leads nowhere, or states are left that are grounded. -/
theorem settle_grounded {code : List Instruction} {flow : Flow} (hSound : Sound code flow)
    (hGrounded : Grounded code flow) :
    (∃ l, settle code flow = .error (.unplacedLabel l) ∧ LeadsNowhere code l) ∨
      ∃ found, settle code flow = .ok found ∧ Grounded code ⟨found, []⟩ := by
  fun_induction settle code flow with
  | case1 flow hPending =>
      obtain ⟨states, pending⟩ := flow
      exact .inr ⟨states, rfl, hGrounded⟩
  | case2 flow k rest hPending s i hAt hState e hNext =>
      obtain ⟨l, hTarget, rfl, hUnplaced⟩ := successors_eq_error hNext
      exact .inl ⟨l, rfl, k, i, (hGrounded hState).reached, hAt, hTarget, hUnplaced⟩
  | case3 flow k rest hPending s i hAt hState next hNext ih =>
      obtain ⟨states, pending⟩ := flow
      obtain rfl : pending = k :: rest := hPending
      exact ih (hSound.visit hState hAt hNext).2 (hGrounded.visit hSound hState hAt hNext)
  | case4 flow k rest hPending hNone ih =>
      obtain ⟨states, pending⟩ := flow
      obtain rfl : pending = k :: rest := hPending
      exact ih (hSound.skip hNone) hGrounded

private theorem entry_grounded (code : List Instruction) : Grounded code (entry code) := by
  intro k s hState
  cases code with
  | nil => simp [entry] at hState
  | cons i rest =>
      have hStart : Walk (i :: rest) [] 0 := .start (by simp)
      cases k with
      | zero =>
          obtain rfl : s = [.p 0] := by simpa [entry] using hState.symm
          exact ⟨⟨[], hStart⟩, fun r hr => ⟨[], hStart, hr, fun _ hx => hx⟩⟩
      | succ k =>
          have hRest : (rest.map fun _ => (none : State))[k]? = some (some s) := hState
          obtain ⟨_, _, hNone⟩ := List.mem_map.mp (List.mem_of_getElem? hRest)
          cases hNone

/-! ## Visits without a count -/

private theorem offered_offer {possible : List Register} {incoming : RegisterSet}
    (hPossible : ∀ r ∈ incoming, r ∈ possible) {flow flow' : Flow} {k : Nat} {rest : List Nat}
    (hk : k < flow.states.length)
    (h : Offered incoming rest (offer possible incoming flow k) flow') :
    Offered incoming (k :: rest) flow flow' := by
  obtain ⟨states, pending⟩ := flow
  obtain ⟨old, hOld⟩ : ∃ old, states[k]? = some old := ⟨_, List.getElem?_eq_getElem hk⟩
  simp only [offer, hOld] at h
  cases hJoin : join possible incoming old with
  | none =>
      rw [hJoin] at h
      obtain ⟨s, rfl, hSub⟩ := join_eq_none hJoin
      exact .known hOld (fun r hr => hSub r hr (hPossible r hr)) h
  | some new =>
      rw [hJoin] at h
      cases old with
      | none =>
          cases hJoin
          exact .new hOld h
      | some s =>
          refine .more hOld ?_ (fun r => ?_) h
          · refine Classical.byContradiction fun hNone => ?_
            have hSub : ∀ r ∈ incoming, r ∈ s := fun r hr =>
              Classical.byContradiction fun hr' => hNone ⟨r, hr, hr'⟩
            have hKnown := offer_known possible hSub states pending hOld
            simp [offer, hOld, hJoin] at hKnown
          · rw [mem_join hJoin]
            constructor
            · rintro (⟨s', hs', hr⟩ | ⟨hr, _⟩)
              · exact .inl (Option.some.inj hs' ▸ hr)
              · exact .inr hr
            · rintro (hr | hr)
              · exact .inl ⟨s, rfl, hr⟩
              · exact .inr ⟨hr, .inr (hPossible r hr)⟩

private theorem offered_foldl {possible : List Register} {incoming : RegisterSet}
    (hPossible : ∀ r ∈ incoming, r ∈ possible) :
    ∀ (next : List Nat) (flow : Flow), (∀ k ∈ next, k < flow.states.length) →
      Offered incoming next flow (next.foldl (offer possible incoming) flow) := by
  intro next
  induction next with
  | nil => intro flow _; exact .done
  | cons k rest ih =>
      intro flow hLt
      obtain ⟨hFirst, hRest⟩ := List.forall_mem_cons.mp hLt
      refine offered_offer hPossible hFirst (ih _ fun t ht => ?_)
      rw [(offer_grows flow k).length]
      exact hRest t ht

/-- The positions on the stack have states. -/
def Stacked (flow : Flow) : Prop :=
  ∀ k ∈ flow.pending, ∃ s : RegisterSet, flow.states[k]? = some (some s)

/-- A visit keeps the order of the stack. -/
theorem Stacked.visit {code : List Instruction} {states : List State} {k : Nat} {rest : List Nat}
    {s : RegisterSet} {i : Instruction} {next : List Nat} (hSound : Sound code ⟨states, k :: rest⟩)
    (hStacked : Stacked ⟨states, k :: rest⟩) (hState : states[k]? = some (some s))
    (hAt : code[k]? = some i) (hNext : successors code k i = .ok next) :
    Stacked (next.foldl (offer (candidates code) (transfer i s)) ⟨states, rest⟩) := by
  have hTransfer := transfer_candidates (List.mem_of_getElem? hAt) (hSound.within hState)
  have hLt : ∀ t ∈ next, t < states.length := fun t ht => by
    rw [hSound.length]
    exact ((mem_successors hAt hNext t).mp ht).lt
  obtain ⟨hGrows, _, hCovers⟩ := foldl_offer hTransfer next ⟨states, rest⟩ hSound.within hLt
  intro t ht
  rcases pending_foldl_offer next _ t ht with hOld | hNew
  · obtain ⟨u, hu⟩ := hStacked t (List.mem_cons_of_mem k hOld)
    obtain ⟨u', hu', _⟩ := hGrows.states hu
    exact ⟨u', hu'⟩
  · obtain ⟨u, hu, _⟩ := hCovers t hNew
    exact ⟨u, hu⟩

/-- **The visits come to an end**, and the count of candidates takes nothing away. -/
theorem settles_settle {code : List Instruction} {flow : Flow} (hSound : Sound code flow)
    (hStacked : Stacked flow) : Settles code flow (settle code flow) := by
  fun_induction settle code flow with
  | case1 flow hPending =>
      obtain ⟨states, pending⟩ := flow
      obtain rfl : pending = [] := hPending
      exact .done
  | case2 flow k rest hPending s i hAt hState e hNext =>
      obtain ⟨states, pending⟩ := flow
      obtain rfl : pending = k :: rest := hPending
      exact .refused hState hAt hNext
  | case3 flow k rest hPending s i hAt hState next hNext ih =>
      obtain ⟨states, pending⟩ := flow
      obtain rfl : pending = k :: rest := hPending
      have hTransfer := transfer_candidates (List.mem_of_getElem? hAt) (hSound.within hState)
      refine .visit hState hAt hNext (offered_foldl hTransfer next ⟨states, rest⟩ fun t ht => ?_)
        (ih (hSound.visit hState hAt hNext).2 (hStacked.visit hSound hState hAt hNext))
      rw [hSound.length]
      exact ((mem_successors hAt hNext t).mp ht).lt
  | case4 flow k rest hPending hNone ih =>
      obtain ⟨s, hs⟩ := hStacked k (hPending ▸ List.mem_cons_self)
      have hLt : k < code.length := hSound.length ▸ (List.getElem?_eq_some_iff.mp hs).1
      exact (hNone s _ hs (List.getElem?_eq_getElem hLt)).elim

private theorem entry_stacked (code : List Instruction) : Stacked (entry code) := by
  cases code with
  | nil => intro k hk; cases hk
  | cons i rest =>
      intro k hk
      obtain rfl := List.mem_singleton.mp hk
      exact ⟨[.p 0], rfl⟩

/-! ## The outcome -/

/-- Every position that control can get to has a state in the end. -/
theorem Walk.exists_state {code : List Instruction} {found : List State}
    (hFound : states code = .ok found) {passed : List Instruction} {k : Nat}
    (h : Walk code passed k) : ∃ s : RegisterSet, found[k]? = some (some s) := by
  obtain ⟨hSound, hEntry⟩ := states_sound hFound
  induction h with
  | start hPos =>
      obtain ⟨s, hs, _⟩ := hEntry hPos
      exact ⟨s, hs⟩
  | onward _ hAt hFollows ih =>
      obtain ⟨s, hs⟩ := ih
      obtain ⟨next, hNext, hPassed⟩ := (hSound.passed hs hAt).resolve_left List.not_mem_nil
      obtain ⟨s', hs', _⟩ := hPassed _ ((mem_successors hAt hNext _).mpr hFollows)
      exact ⟨s', hs'⟩

private theorem Solves.of_states {code : List Instruction} {found : List State}
    (hFound : states code = .ok found) (hGrounded : Grounded code ⟨found, []⟩) :
    Solves code found := by
  obtain ⟨hSound, hEntry⟩ := states_sound hFound
  refine ⟨fun k => ?_, fun hPos => ?_, fun {k t i s} hs hAt hFollows => ?_, fun {k s r} hs hr => ?_⟩
  · rw [Option.isSome_iff_exists]
    simp only [before_eq_some_iff]
    constructor
    · rintro ⟨s, hs⟩
      exact (hGrounded hs).reached
    · rintro ⟨_, hWalk⟩
      exact hWalk.exists_state hFound
  · obtain ⟨s, hs, hp0⟩ := hEntry hPos
    exact ⟨s, before_eq_some_iff.mpr hs, hp0⟩
  · rw [before_eq_some_iff] at hs
    obtain ⟨next, hNext, hPassed⟩ := (hSound.passed hs hAt).resolve_left List.not_mem_nil
    obtain ⟨s', hs', hSub⟩ := hPassed t ((mem_successors hAt hNext t).mpr hFollows)
    exact ⟨s', before_eq_some_iff.mpr hs', hSub⟩
  · obtain ⟨passed, hWalk, hHeld, _⟩ := (hGrounded (before_eq_some_iff.mp hs)).paths r hr
    exact ⟨passed, hWalk, hHeld⟩

/-- Where states are found, every jump that control can get to leads somewhere. -/
theorem not_leadsNowhere {code : List Instruction} {found : List State}
    (hFound : states code = .ok found) (l : Label) : ¬ LeadsNowhere code l := by
  rintro ⟨k, i, ⟨_, hWalk⟩, hAt, hTarget, hUnplaced⟩
  obtain ⟨s, hs⟩ := hWalk.exists_state hFound
  obtain ⟨next, hNext, _⟩ := ((states_sound hFound).1.passed hs hAt).resolve_left List.not_mem_nil
  exact hUnplaced (mem_of_successors_eq_ok hNext l hTarget)

/-- What is known of code whose labels are placed once. -/
theorem states_outcome {code : List Instruction} (h : ∀ l, ¬ PlacedTwice code l) :
    Settles code (entry code) (states code) ∧
      ((∃ l, states code = .error (.unplacedLabel l) ∧ LeadsNowhere code l) ∨
        ∃ found, states code = .ok found ∧ Solves code found) := by
  have hStates : states code = settle code (entry code) := by
    simp only [states, repeated?_eq_none h]
  refine ⟨hStates ▸ settles_settle (entry_sound code) (entry_stacked code), ?_⟩
  rcases settle_grounded (entry_sound code) (entry_grounded code) with
    ⟨l, hRefused, hNowhere⟩ | ⟨found, hFound, hGrounded⟩
  · exact .inl ⟨l, hStates.trans hRefused, hNowhere⟩
  · exact .inr ⟨found, hStates.trans hFound, .of_states (hStates.trans hFound) hGrounded⟩

private theorem states_of_placedTwice {code : List Instruction} {l : Label}
    (h : PlacedTwice code l) :
    ∃ l', states code = .error (.duplicateLabel l') ∧ PlacedTwice code l' := by
  obtain ⟨l', hRepeated⟩ := repeated?_isSome h
  exact ⟨l', by simp only [states, hRepeated], placedTwice_of_repeated? hRepeated⟩

private theorem analyze_eq_error_iff {code : List Instruction} {e : BodyError} :
    analyze code = .error e ↔ states code = .error e := by
  rw [analyze]
  cases states code <;> simp [Except.map]

private theorem analyze_of_states {code : List Instruction} {found : List State}
    (h : states code = .ok found) : analyze code = .ok (found, initCalls code found) := by
  rw [analyze, h]
  rfl

/-- A body that can be encoded places each label once, and all targets. -/
theorem clear_of_check {b : Body} (h : b.check = .ok ()) :
    (∀ l, ¬ PlacedTwice b.instructions l) ∧ ∀ l, ¬ LeadsNowhere b.instructions l := by
  obtain ⟨hNodup, hEach⟩ := Body.error?_eq_none_iff.mp (Body.check_eq_ok_iff.mp h)
  constructor
  · intro l hTwice
    have hOnce := List.nodup_iff_count_le_one.mp hNodup l
    have hCount := placedTwice_iff.mp hTwice
    omega
  · rintro l ⟨k, i, _, hAt, hTarget, hUnplaced⟩
    exact hUnplaced (Code.mem_placed.mp ((hEach i (List.mem_of_getElem? hAt)).1 l hTarget))

/--
**What the analysis comes to.**  It refuses code because a label is placed twice if and only if one
is.  It refuses code because a label is not placed if and only if none is placed twice and control
can get to a jump to such a label.  Both times it names a label of which this is so.  Unless a label
is placed twice, its outcome is that of finitely many visits.  All other code, and so all that can
be encoded, gets states that are exact: a position has one if and only if control can get there,
`p0` is in the first one, every state is passed on to all successors, and every register in a state
holds the receiver at the end of some path.
-/
theorem analyze_outcome (code : List Instruction) :
    ((∃ l, analyze code = .error (.duplicateLabel l)) ↔ ∃ l, PlacedTwice code l) ∧
    ((∃ l, analyze code = .error (.unplacedLabel l)) ↔
      (∀ l, ¬ PlacedTwice code l) ∧ ∃ l, LeadsNowhere code l) ∧
    (∀ l, analyze code = .error (.duplicateLabel l) → PlacedTwice code l) ∧
    (∀ l, analyze code = .error (.unplacedLabel l) → LeadsNowhere code l) ∧
    ((∀ l, ¬ PlacedTwice code l) → Settles code (entry code) (states code)) ∧
    ((∀ l, ¬ PlacedTwice code l) → (∀ l, ¬ LeadsNowhere code l) →
      ∃ found, analyze code = .ok (found, initCalls code found) ∧ Solves code found) ∧
    ∀ b : Body, b.instructions = code → b.check = .ok () →
      ∃ found, analyze code = .ok (found, initCalls code found) ∧ Solves code found := by
  simp only [analyze_eq_error_iff]
  have hSolved : (∀ l, ¬ PlacedTwice code l) → (∀ l, ¬ LeadsNowhere code l) →
      ∃ found, analyze code = .ok (found, initCalls code found) ∧ Solves code found := by
    intro hOnce hSomewhere
    rcases (states_outcome hOnce).2 with ⟨l, _, hNowhere⟩ | ⟨found, hFound, hSolves⟩
    · exact absurd hNowhere (hSomewhere l)
    · exact ⟨found, analyze_of_states hFound, hSolves⟩
  by_cases hTwice : ∃ l, PlacedTwice code l
  · obtain ⟨l, hl⟩ := hTwice
    obtain ⟨l', hStates, hl'⟩ := states_of_placedTwice hl
    refine ⟨⟨fun _ => ⟨l, hl⟩, fun _ => ⟨l', hStates⟩⟩, ⟨?_, fun h => absurd hl (h.1 l)⟩, ?_, ?_,
      fun h => absurd hl (h l), fun h => absurd hl (h l), ?_⟩
    · rintro ⟨x, hx⟩
      rw [hStates] at hx
      cases hx
    · intro x hx
      rw [hStates] at hx
      cases hx
      exact hl'
    · intro x hx
      rw [hStates] at hx
      cases hx
    · rintro b rfl hCheck
      exact absurd hl ((clear_of_check hCheck).1 l)
  · have hOnce : ∀ l, ¬ PlacedTwice code l := fun l hl => hTwice ⟨l, hl⟩
    obtain ⟨hSettles, hStates⟩ := states_outcome hOnce
    have hNotDuplicate : ∀ l, states code ≠ .error (.duplicateLabel l) := by
      intro l hl
      rcases hStates with ⟨l', hRefused, _⟩ | ⟨found, hFound, _⟩
      · rw [hRefused] at hl
        cases hl
      · rw [hFound] at hl
        cases hl
    have hNamed : ∀ l, states code = .error (.unplacedLabel l) → LeadsNowhere code l := by
      intro l hl
      rcases hStates with ⟨l', hRefused, hNowhere⟩ | ⟨found, hFound, _⟩
      · rw [hRefused] at hl
        cases hl
        exact hNowhere
      · rw [hFound] at hl
        cases hl
    refine ⟨⟨?_, fun h => absurd h hTwice⟩, ⟨?_, ?_⟩, fun l hl => absurd hl (hNotDuplicate l),
      hNamed, fun _ => hSettles, hSolved, ?_⟩
    · rintro ⟨l, hl⟩
      exact absurd hl (hNotDuplicate l)
    · rintro ⟨l, hl⟩
      exact ⟨hOnce, l, hNamed l hl⟩
    · rintro ⟨_, l, hNowhere⟩
      rcases hStates with ⟨l', hRefused, _⟩ | ⟨found, hFound, _⟩
      · exact ⟨l', hRefused⟩
      · exact absurd hNowhere (not_leadsNowhere hFound l)
    · rintro b rfl hCheck
      exact hSolved hOnce (clear_of_check hCheck).2

end HotPatch.Receiver
