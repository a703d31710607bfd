import Mathlib.Data.List.Basic
import HotPatch.Proofs.Receiver.Fixpoint

/-!
# Visits in order

The order of visits is part of the analysis, so what it finds in composed
code is found by following it.  Two things make that short.  A straight line
of instructions is visited from its start to its end, whatever waits below it
on the stack (`settle_straight`).  And code that control cannot leave is
analyzed inside longer code exactly as on its own, visit by visit
(`settle_within`).
-/

namespace HotPatch.Receiver

/-- With nothing pending the states are final. -/
theorem settle_nil (code : List Instruction) (states : List State) :
    settle code ⟨states, []⟩ = .ok states := by
  rw [settle]

private theorem settle_visit {code : List Instruction} {states : List State} {k : Nat}
    {rest : List Nat}
    {s : RegisterSet} {i : Instruction} {next : List Nat} (hState : states[k]? = some (some s))
    (hAt : code[k]? = some i) (hNext : successors code k i = .ok next) :
    settle code ⟨states, k :: rest⟩ =
      settle code (next.foldl (offer (candidates code) (transfer i s)) ⟨states, rest⟩) := by
  rw [settle]
  simp only [hState, hAt, hNext]

private theorem settle_skip {code : List Instruction} {states : List State} {k : Nat}
    {rest : List Nat} (hNone : states[k]? = some none) :
    settle code ⟨states, k :: rest⟩ = settle code ⟨states, rest⟩ := by
  rw [settle]
  simp only [hNone]

/-- With labels placed once, what is found is what the visits from the entry settle on. -/
theorem states_eq_settle {code : List Instruction} (hPlaced : (Code.placed code).Nodup) :
    states code = settle code (entry code) := by
  have hNone : Code.repeated? [] (Code.placed code) = none :=
    Code.repeated?_eq_none_iff.mpr ⟨hPlaced, fun _ _ => List.not_mem_nil⟩
  simp only [states, hNone]

/-- A position without a state takes what it is offered, and is to be visited. -/
theorem offer_unseen (possible : List Register) (incoming : RegisterSet) (seen later : List State)
    (pending : List Nat) {k : Nat} (hk : k = seen.length) :
    offer possible incoming ⟨seen ++ none :: later, pending⟩ k =
      ⟨seen ++ some incoming :: later, k :: pending⟩ := by
  subst hk
  simp [offer, join]

/-- A position that has all it is offered stays as it is. -/
theorem offer_known (possible : List Register) {incoming s : RegisterSet}
    (hSub : ∀ r ∈ incoming, r ∈ s) (states : List State) (pending : List Nat) {k : Nat}
    (hk : states[k]? = some (some s)) :
    offer possible incoming ⟨states, pending⟩ k = ⟨states, pending⟩ := by
  have hNone : join possible incoming (some s) = none := by
    simp only [join]
    rw [if_pos]
    rw [List.isEmpty_iff, List.filter_eq_nil_iff]
    intro r hr
    simp [hSub r hr]
  simp only [offer, hk, hNone]

/-! ## Straight lines -/

/-- The instruction only goes on to the next one. -/
def Straight (i : Instruction) : Prop := i.targets = [] ∧ i.fallsThrough = true

instance (i : Instruction) : Decidable (Straight i) := inferInstanceAs (Decidable (_ ∧ _))

/-- The states before the instructions of a straight line. -/
def trail (s : RegisterSet) : List Instruction → List State
  | [] => []
  | i :: rest => some s :: trail (transfer i s) rest

/-- The state behind a straight line. -/
def after (s : RegisterSet) (code : List Instruction) : RegisterSet :=
  code.foldl (fun s i => transfer i s) s

@[simp] theorem length_trail (s : RegisterSet) (code : List Instruction) :
    (trail s code).length = code.length := by
  induction code generalizing s with
  | nil => rfl
  | cons i rest ih => simp [trail, ih]

/-- The states along joined code. -/
theorem trail_append (s : RegisterSet) (front back : List Instruction) :
    trail s (front ++ back) = trail s front ++ trail (after s front) back := by
  induction front generalizing s with
  | nil => rfl
  | cons i rest ih => simp [trail, after, ih]

theorem after_append (s : RegisterSet) (front back : List Instruction) :
    after s (front ++ back) = after (after s front) back := by
  simp [after]

private theorem successors_straight {code : List Instruction} {k : Nat} {i : Instruction}
    (hStraight : Straight i) (hLt : k + 1 < code.length) :
    successors code k i = .ok [k + 1] := by
  obtain ⟨hTargets, hFalls⟩ := hStraight
  simp [successors, hTargets, hFalls, hLt, targetPositions, Except.map]

/-- A straight line that starts on top of the stack is visited to its end. -/
theorem settle_straight {code back : List Instruction} (hBack : back ≠ []) (later : List State)
    (pending : List Nat) :
    ∀ (line front : List Instruction) (seen : List State) (s : RegisterSet),
      code = front ++ (line ++ back) → seen.length = front.length →
      (∀ i ∈ line, Straight i) →
      settle code ⟨seen ++ some s :: (List.replicate line.length none ++ later),
          front.length :: pending⟩ =
        settle code ⟨seen ++ (trail s line ++ some (after s line) :: later),
          (front.length + line.length) :: pending⟩ := by
  intro line
  induction line with
  | nil =>
      intro front seen s _ _ _
      rfl
  | cons i rest ih =>
      intro front seen s hCode hLen hStraight
      have hState : (seen ++ some s :: (List.replicate (i :: rest).length none ++
          later))[front.length]? = some (some s) := by
        simp [← hLen]
      have hAt : code[front.length]? = some i := by
        simp [hCode]
      have hLt : front.length + 1 < code.length := by
        have := List.length_pos_iff.mpr hBack
        simp only [hCode, List.length_append, List.length_cons]
        omega
      have hNext := successors_straight (hStraight i List.mem_cons_self) hLt
      have hOffer := offer_unseen (candidates code) (transfer i s) (seen ++ [some s])
        (List.replicate rest.length none ++ later) pending (k := front.length + 1)
        (by simp [hLen])
      have hRest := ih (front ++ [i]) (seen ++ [some s]) (transfer i s) (by simp [hCode])
        (by simp [hLen]) fun j hj => hStraight j (List.mem_cons_of_mem i hj)
      rw [settle_visit hState hAt hNext]
      simp only [List.append_assoc, List.singleton_append, List.length_append,
        List.length_singleton] at hOffer hRest
      simp only [List.foldl_cons, List.foldl_nil, List.length_cons, List.replicate_succ,
        List.cons_append, hOffer, hRest, trail, after, Nat.add_assoc, Nat.add_comm 1]

/-- An instruction that ends the method is visited, and that is all. -/
theorem settle_end {code : List Instruction} {states : List State} {k : Nat} {pending : List Nat}
    {s : RegisterSet} {i : Instruction} (hState : states[k]? = some (some s))
    (hAt : code[k]? = some i) (hTargets : i.targets = []) (hFalls : i.fallsThrough = false) :
    settle code ⟨states, k :: pending⟩ = settle code ⟨states, pending⟩ := by
  have hNext : successors code k i = .ok [] := by
    simp [successors, hTargets, hFalls, targetPositions, Except.map]
  rw [settle_visit hState hAt hNext]
  rfl

/-! ## Jumps -/

private theorem transfer_branchZero (test : Comparison) (r : Register) (l : Label)
    (s : RegisterSet) :
    transfer (.branchZero test r l) s = s := rfl

private theorem successors_branchZero {code : List Instruction} {test : Comparison} {r : Register}
    {l : Label} {k t : Nat} (hLt : k + 1 < code.length) (hl : Code.position? code l = some t) :
    successors code k (.branchZero test r l) = .ok [k + 1, t] := by
  simp [successors, Instruction.targets, Instruction.fallsThrough, targetPositions, hLt, hl,
    Except.map]

/-- When neither way on has been seen, the target of a conditional jump is visited first. -/
theorem settle_branchZero {code front back : List Instruction} {test : Comparison} {r : Register}
    {l : Label} (hCode : code = front ++ .branchZero test r l :: back) (hBack : back ≠ [])
    (seen between later : List State) (hSeen : seen.length = front.length) (s : RegisterSet)
    (pending : List Nat)
    (hl : Code.position? code l = some (front.length + (between.length + 2))) :
    settle code ⟨seen ++ some s :: none :: (between ++ none :: later), front.length :: pending⟩ =
      settle code ⟨seen ++ some s :: some s :: (between ++ some s :: later),
        (front.length + (between.length + 2)) :: (front.length + 1) :: pending⟩ := by
  have hState : (seen ++ some s :: none :: (between ++ none :: later))[front.length]? =
      some (some s) := by simp [← hSeen]
  have hAt : code[front.length]? = some (.branchZero test r l) := by simp [hCode]
  have hLt : front.length + 1 < code.length := by
    simp [hCode, List.length_pos_iff.mpr hBack]
  have hOn := offer_unseen (candidates code) s (seen ++ [some s]) (between ++ none :: later)
    pending (k := front.length + 1) (by simp [hSeen])
  have hJump := offer_unseen (candidates code) s (seen ++ some s :: some s :: between) later
    ((front.length + 1) :: pending) (k := front.length + (between.length + 2)) (by simp [hSeen])
  simp only [List.append_assoc, List.cons_append, List.nil_append] at hOn hJump
  rw [settle_visit hState hAt (successors_branchZero hLt hl), transfer_branchZero]
  simp only [List.foldl_cons, List.foldl_nil, hOn, hJump]

/-- When the target of a conditional jump has all it is offered, only the next one is visited. -/
theorem settle_branchZero_known {code front back : List Instruction} {test : Comparison}
    {r : Register} {l : Label} (hCode : code = front ++ .branchZero test r l :: back)
    (hBack : back ≠ []) (seen later : List State) (hSeen : seen.length = front.length)
    {s u : RegisterSet} (pending : List Nat) {t : Nat} (hl : Code.position? code l = some t)
    (hKnown : seen[t]? = some (some u)) (hSub : ∀ x ∈ s, x ∈ u) :
    settle code ⟨seen ++ some s :: none :: later, front.length :: pending⟩ =
      settle code ⟨seen ++ some s :: some s :: later, (front.length + 1) :: pending⟩ := by
  have hState : (seen ++ some s :: none :: later)[front.length]? = some (some s) := by
    simp [← hSeen]
  have hAt : code[front.length]? = some (.branchZero test r l) := by simp [hCode]
  have hLt : front.length + 1 < code.length := by
    simp [hCode, List.length_pos_iff.mpr hBack]
  have hOn := offer_unseen (candidates code) s (seen ++ [some s]) later pending
    (k := front.length + 1) (by simp [hSeen])
  have hKnown' : (seen ++ some s :: some s :: later)[t]? = some (some u) := by
    rw [List.getElem?_append_left (List.getElem?_eq_some_iff.mp hKnown).1, hKnown]
  simp only [List.append_assoc, List.cons_append, List.nil_append] at hOn
  rw [settle_visit hState hAt (successors_branchZero hLt hl), transfer_branchZero]
  simp only [List.foldl_cons, List.foldl_nil, hOn, offer_known _ hSub _ _ hKnown']

/-- A jump to a position that has all it is offered is visited, and that is all. -/
theorem settle_goto_known {code : List Instruction} {l : Label} {states : List State} {k t : Nat}
    {s u : RegisterSet} {pending : List Nat} (hState : states[k]? = some (some s))
    (hAt : code[k]? = some (.goto l)) (hl : Code.position? code l = some t)
    (hKnown : states[t]? = some (some u)) (hSub : ∀ x ∈ s, x ∈ u) :
    settle code ⟨states, k :: pending⟩ = settle code ⟨states, pending⟩ := by
  have hNext : successors code k (.goto l) = .ok [t] := by
    simp [successors, Instruction.targets, Instruction.fallsThrough, targetPositions, hl,
      Except.map]
  have hTransfer : transfer (.goto l) s = s := rfl
  rw [settle_visit hState hAt hNext, hTransfer]
  simp only [List.foldl_cons, List.foldl_nil, offer_known _ hSub _ _ hKnown]

/-- **Two ways that meet again.**  The way that is jumped to is visited first, and what is behind
both with it; the other way then finds its end settled. -/
theorem settle_diamond {code front line line' back : List Instruction} {test : Comparison}
    {r : Register} {l l' : Label}
    (hCode : code = front ++ .branchZero test r l ::
      (line ++ .goto l' :: .label l :: (line' ++ .label l' :: back)))
    (hPlaced : (Code.placed code).Nodup) (hBack : back ≠ []) (hLine : ∀ i ∈ line, Straight i)
    (hLine' : ∀ i ∈ line', Straight i) (seen later settled : List State)
    (hSeen : seen.length = front.length) (s : RegisterSet) (pending : List Nat)
    (hMeet : ∀ x ∈ after s line, x ∈ after s line')
    (hSettled : ∀ (seen' : List State) (pending' : List Nat),
      seen'.length + back.length = code.length →
      settle code ⟨seen' ++ some (after s line') :: later, seen'.length :: pending'⟩ =
        settle code ⟨seen' ++ settled, pending'⟩) :
    settle code ⟨seen ++ some s :: none :: (List.replicate line.length none ++
        none :: (List.replicate (line'.length + 2) none ++ later)), front.length :: pending⟩ =
      settle code ⟨seen ++ some s :: (trail s line ++ some (after s line) :: some s ::
        (trail s line' ++ some (after s line') :: settled)), pending⟩ := by
  have hJump : code = (front ++ .branchZero test r l :: (line ++ [.goto l'])) ++
      .label l :: (line' ++ .label l' :: back) := by simp [hCode]
  have hJump' : code = (front ++ .branchZero test r l :: (line ++ .goto l' :: .label l :: line')) ++
      .label l' :: back := by simp [hCode]
  have hAt := Code.position?_of_nodup (hJump ▸ hPlaced)
  have hAt' := Code.position?_of_nodup (hJump' ▸ hPlaced)
  rw [← hJump] at hAt
  rw [← hJump'] at hAt'
  have hFork := settle_branchZero hCode (by simp) seen (List.replicate line.length none)
    (List.replicate (line'.length + 2) none ++ later) hSeen s pending
    (by rw [hAt]; simp)
  have hTrail : trail s (.label l :: (line' ++ [.label l'])) =
      some s :: (trail s line' ++ [some (after s line')]) := by
    rw [trail, trail_append]
    rfl
  have hAfter : after s (.label l :: (line' ++ [.label l'])) = after s line' :=
    after_append s line' [.label l']
  have hWayCode' : code = (front ++ .branchZero test r l :: (line ++ [.goto l'])) ++
      ((.label l :: (line' ++ [.label l'])) ++ back) := by simp [hCode]
  have hWay' := settle_straight hBack later ((front.length + 1) :: pending)
    (.label l :: (line' ++ [.label l'])) (front ++ .branchZero test r l :: (line ++ [.goto l']))
    (seen ++ some s :: some s :: List.replicate line.length none) s hWayCode'
    (by simp [hSeen]) (by simpa [or_imp, forall_and] using ⟨⟨rfl, rfl⟩, hLine', ⟨rfl, rfl⟩⟩)
  have hEnd := hSettled (seen ++ some s :: some s :: (List.replicate line.length none ++
    some s :: (trail s line' ++ [some (after s line')]))) ((front.length + 1) :: pending)
    (by simp [hCode, hSeen]; omega)
  have hWayCode : code = (front ++ [.branchZero test r l]) ++
      (line ++ (.goto l' :: .label l :: (line' ++ .label l' :: back))) := by simp [hCode]
  have hWay := settle_straight (by simp) (some s :: (trail s line' ++ some (after s line') ::
    settled)) pending line (front ++ [.branchZero test r l]) (seen ++ [some s]) s hWayCode
    (by simp [hSeen]) hLine
  have hGoto : settle code ⟨seen ++ some s :: (trail s line ++ some (after s line) :: some s ::
        (trail s line' ++ some (after s line') :: settled)),
        (front.length + (line.length + 1)) :: pending⟩ = settle code ⟨seen ++ some s ::
          (trail s line ++ some (after s line) :: some s ::
            (trail s line' ++ some (after s line') :: settled)), pending⟩ := by
    refine settle_goto_known ?_ ?_ hAt' ?_ hMeet
    · rw [← hSeen]
      simp
    · simp [hCode]
    · have hLength : (front ++ .branchZero test r l ::
            (line ++ .goto l' :: .label l :: line')).length =
          (seen ++ some s :: (trail s line ++ some (after s line) :: some s ::
            trail s line')).length := by simp [hSeen]
      have hSplit : seen ++ some s :: (trail s line ++ some (after s line) :: some s ::
            (trail s line' ++ some (after s line') :: settled)) =
          (seen ++ some s :: (trail s line ++ some (after s line) :: some s :: trail s line')) ++
            some (after s line') :: settled := by simp
      rw [hLength, hSplit]
      simp
  simp only [hTrail, hAfter, List.append_assoc, List.cons_append, List.nil_append,
    List.length_append, List.length_cons, List.length_nil, List.length_replicate,
    length_trail] at hFork hWay' hEnd hWay
  have hTurn' : front.length + (line.length + (0 + 1) + 1) + (line'.length + (0 + 1) + 1) =
      seen.length + (line.length + (line'.length + (0 + 1) + 1) + 1 + 1) := by omega
  have hTurn : front.length + (0 + 1) + line.length = front.length + (line.length + 1) := by omega
  rw [hTurn'] at hWay'
  rw [hTurn] at hWay
  exact hFork.trans (hWay'.trans (hEnd.trans (hWay.trans hGoto)))

/-! ## Code inside longer code -/

private theorem candidates_within {front code back : List Instruction} {r : Register}
    (h : r ∈ candidates code) : r ∈ candidates (front ++ code ++ back) := by
  simp only [candidates, List.mem_cons, List.filterMap_append, List.mem_append] at h ⊢
  rcases h with rfl | h
  · exact .inl rfl
  · exact .inr (.inl (.inr h))

/-- Which registers are possible makes no difference when all that comes in is. -/
theorem join_congr {possible possible' : List Register} {incoming : RegisterSet} (old : State)
    (h : ∀ r ∈ incoming, r ∈ possible) (h' : ∀ r ∈ incoming, r ∈ possible') :
    join possible' incoming old = join possible incoming old := by
  cases old with
  | none => rfl
  | some s =>
      have hFilter : (incoming.filter fun r => possible'.contains r && !s.contains r) =
          incoming.filter fun r => possible.contains r && !s.contains r := by
        refine List.filter_congr fun r hr => ?_
        rw [List.contains_iff_mem.mpr (h r hr), List.contains_iff_mem.mpr (h' r hr)]
      simp only [join, hFilter]

private theorem targetPositions_within {front code back : List Instruction} {labels : List Label} :
    ∀ {targets : List Nat}, (∀ l ∈ labels, l ∉ Code.placed front ∧ l ∈ Code.placed code) →
      targetPositions code labels = .ok targets →
      targetPositions (front ++ code ++ back) labels =
        .ok (targets.map (· + front.length)) := by
  induction labels with
  | nil =>
      intro targets _ h
      cases h
      rfl
  | cons l rest ih =>
      intro targets hLabels h
      obtain ⟨hFront, hCode⟩ := hLabels l List.mem_cons_self
      obtain ⟨k, hk⟩ := Code.exists_position? hCode
      have hWithin : Code.position? (front ++ code ++ back) l = some (k + front.length) := by
        rw [Code.Closed.position?_within hFront hCode, hk]
        rfl
      rw [targetPositions, hk] at h
      cases hRest : targetPositions code rest with
      | error e => rw [hRest] at h; cases h
      | ok others =>
          rw [hRest] at h
          cases h
          have hOthers := ih (fun x hx => hLabels x (List.mem_cons_of_mem l hx)) hRest
          simp only [targetPositions, hWithin, hOthers]
          rfl

private theorem successors_within {front code back : List Instruction} (hClosed : Code.Closed code)
    (hFresh : ∀ l ∈ Code.placed code, l ∉ Code.placed front) {k : Nat} {i : Instruction}
    {next : List Nat} (hAt : code[k]? = some i) (h : successors code k i = .ok next) :
    successors (front ++ code ++ back) (k + front.length) i =
      .ok (next.map (· + front.length)) := by
  unfold successors at h ⊢
  cases hTargets : targetPositions code i.targets with
  | error e => rw [hTargets] at h; cases h
  | ok targets =>
      rw [hTargets] at h
      cases h
      have hPlaced : ∀ l ∈ i.targets, l ∉ Code.placed front ∧ l ∈ Code.placed code := by
        intro l hl
        have hMem := hClosed.targets i (List.mem_of_getElem? hAt) l hl
        exact ⟨hFresh l hMem, hMem⟩
      rw [targetPositions_within hPlaced hTargets]
      cases hFalls : i.fallsThrough with
      | false => simp [Except.map]
      | true =>
          have hLt := hClosed.next_lt hAt hFalls
          have hLt' : k + front.length + 1 < (front ++ code ++ back).length := by
            simp only [List.length_append]
            omega
          simp only [Except.map, Bool.true_and, decide_eq_true_eq, if_pos hLt, if_pos hLt',
            List.map_append, List.map_cons, List.map_nil]
          congr 3
          omega

/-- Offers to inner positions, seen from outside. -/
theorem foldl_offer_within {possible possible' : List Register} {incoming : RegisterSet}
    (h : ∀ r ∈ incoming, r ∈ possible) (h' : ∀ r ∈ incoming, r ∈ possible')
    (seen later : List State) (below : List Nat) :
    ∀ (next : List Nat) (flow : Flow), (∀ t ∈ next, t < flow.states.length) →
      (next.map (· + seen.length)).foldl (offer possible' incoming)
          ⟨seen ++ flow.states ++ later, flow.pending.map (· + seen.length) ++ below⟩ =
        ⟨seen ++ (next.foldl (offer possible incoming) flow).states ++ later,
          (next.foldl (offer possible incoming) flow).pending.map (· + seen.length) ++ below⟩ := by
  intro next
  induction next with
  | nil => intro flow _; rfl
  | cons t rest ih =>
      intro flow hLt
      have ht := hLt t List.mem_cons_self
      have hOld : (seen ++ flow.states ++ later)[t + seen.length]? = flow.states[t]? := by
        rw [List.append_assoc, List.getElem?_append_right (Nat.le_add_left _ _),
          Nat.add_sub_cancel, List.getElem?_append_left ht]
      have hSet : ∀ x, (seen ++ flow.states ++ later).set (t + seen.length) x =
          seen ++ flow.states.set t x ++ later := by
        intro x
        rw [List.append_assoc, List.set_append_right _ _ (Nat.le_add_left _ _),
          Nat.add_sub_cancel, List.set_append_left _ _ ht, List.append_assoc]
      have hOffer : offer possible' incoming
          ⟨seen ++ flow.states ++ later, flow.pending.map (· + seen.length) ++ below⟩
            (t + seen.length) =
          ⟨seen ++ (offer possible incoming flow t).states ++ later,
            (offer possible incoming flow t).pending.map (· + seen.length) ++ below⟩ := by
        simp only [offer, hOld, join_congr _ h h', hSet]
        split
        · rfl
        · split <;> rfl
      rw [List.map_cons, List.foldl_cons, hOffer, List.foldl_cons]
      refine ih (offer possible incoming flow t) fun u hu => ?_
      rw [(offer_grows flow t).length]
      exact hLt u (List.mem_cons_of_mem t hu)

/-- Only what was offered is pending anew. -/
theorem pending_foldl_offer {possible : List Register} {incoming : RegisterSet} :
    ∀ (next : List Nat) (flow : Flow), ∀ k ∈ (next.foldl (offer possible incoming) flow).pending,
      k ∈ flow.pending ∨ k ∈ next := by
  intro next
  induction next with
  | nil => intro flow k hk; exact .inl hk
  | cons t rest ih =>
      intro flow k hk
      rcases ih _ k hk with hMem | hMem
      · have hOffer : k ∈ flow.pending ∨ k = t := by
          unfold offer at hMem
          split at hMem
          · exact .inl hMem
          · split at hMem
            · exact .inl hMem
            · exact (List.mem_cons.mp hMem).symm
        rcases hOffer with hOld | rfl
        · exact .inl hOld
        · exact .inr List.mem_cons_self
      · exact .inr (List.mem_cons_of_mem t hMem)

/-- **Code that control cannot leave is analyzed as on its own.**  The states around it and the
positions below on the stack are as they were when it is done. -/
theorem settle_within {front code : List Instruction} (back : List Instruction)
    (hClosed : Code.Closed code) (hFresh : ∀ l ∈ Code.placed code, l ∉ Code.placed front)
    (seen later : List State) (hSeen : seen.length = front.length) (below : List Nat)
    {flow : Flow} {found : List State}
    (hSound : Sound code flow) (hPending : ∀ k ∈ flow.pending, k < code.length)
    (h : settle code flow = .ok found) :
    settle (front ++ code ++ back)
        ⟨seen ++ flow.states ++ later, flow.pending.map (· + seen.length) ++ below⟩ =
      settle (front ++ code ++ back) ⟨seen ++ found ++ later, below⟩ := by
  have hInner : ∀ {states : List State} {k : Nat}, k < states.length →
      (seen ++ states ++ later)[k + seen.length]? = states[k]? := by
    intro states k hk
    rw [List.append_assoc, List.getElem?_append_right (Nat.le_add_left _ _),
      Nat.add_sub_cancel, List.getElem?_append_left hk]
  have hCode : ∀ {k : Nat}, k < code.length →
      (front ++ code ++ back)[k + seen.length]? = code[k]? := by
    intro k hk
    rw [hSeen, List.append_assoc, List.getElem?_append_right (Nat.le_add_left _ _),
      Nat.add_sub_cancel, List.getElem?_append_left hk]
  fun_induction settle code flow with
  | case1 flow hNone =>
      cases h
      simp [hNone]
  | case2 flow k rest hStack s i hAt hState e hNext => cases h
  | case3 flow k rest hStack s i hAt hState next hNext ih =>
      obtain ⟨states, pending⟩ := flow
      obtain rfl : pending = k :: rest := hStack
      have hk : k < code.length := hPending k List.mem_cons_self
      have hk' : k < states.length := by rw [hSound.length]; exact hk
      have hNext' : successors (front ++ code ++ back) (k + seen.length) i =
          .ok (next.map (· + seen.length)) := by
        rw [hSeen]
        exact successors_within hClosed hFresh hAt hNext
      have hPossible := transfer_candidates (List.mem_of_getElem? hAt) (hSound.within hState)
      have hNextLt : ∀ t ∈ next, t < states.length := by
        intro t ht
        rw [hSound.length]
        exact ((mem_successors hAt hNext t).mp ht).lt
      rw [List.map_cons, List.cons_append,
        settle_visit ((hInner hk').trans hState) ((hCode hk).trans hAt) hNext',
        foldl_offer_within hPossible (fun r hr => candidates_within (hPossible r hr)) seen later
          below next ⟨states, rest⟩ hNextLt]
      refine ih (hSound.visit hState hAt hNext).2 ?_ h
      intro t ht
      rcases pending_foldl_offer next ⟨states, rest⟩ t ht with hMem | hMem
      · exact hPending t (List.mem_cons_of_mem k hMem)
      · rw [← hSound.length]
        exact hNextLt t hMem
  | case4 flow k rest hStack hNone ih =>
      obtain ⟨states, pending⟩ := flow
      obtain rfl : pending = k :: rest := hStack
      have hk : k < code.length := hPending k List.mem_cons_self
      have hk' : k < states.length := by rw [hSound.length]; exact hk
      have hState : states[k]? = some none := by
        rw [List.getElem?_eq_getElem hk']
        cases hs : states[k] with
        | none => rfl
        | some s =>
            refine (hNone s code[k] ?_ (List.getElem?_eq_getElem hk)).elim
            rw [List.getElem?_eq_getElem hk', hs]
      rw [List.map_cons, List.cons_append, settle_skip ((hInner hk').trans hState)]
      exact ih (hSound.skip hNone) (fun t ht => hPending t (List.mem_cons_of_mem k ht)) h

/-! ## Calls in composed code -/

/-- The calls of code behind other code are found in their order, further back. -/
theorem initCalls_append {front back : List Instruction} {seen later : List State}
    (hLen : seen.length = front.length) :
    initCalls (front ++ back) (seen ++ later) =
      initCalls front seen ++ (initCalls back later).map fun call =>
        ⟨call.position + front.length, call.method⟩ := by
  unfold initCalls
  rw [List.zipIdx_append, List.filterMap_append]
  congr 1
  · refine List.filterMap_congr fun ⟨i, k⟩ hMem => ?_
    have hk : k < seen.length := by
      rw [hLen]
      exact (List.getElem?_eq_some_iff.mp (List.mem_zipIdx_iff_getElem?.mp hMem)).1
    simp only [before, List.getElem?_append_left hk]
  · have hShift : back.zipIdx (0 + front.length) =
        back.zipIdx.map fun p => (p.1, p.2 + front.length) := by
      rw [Nat.zero_add, List.zipIdx_eq_map_add]
      simp [Nat.add_comm]
    rw [hShift, List.filterMap_map, List.map_filterMap]
    refine List.filterMap_congr fun ⟨i, k⟩ _ => ?_
    have hBefore : before (seen ++ later) (k + front.length) = before later k := by
      rw [before, before, ← hLen, List.getElem?_append_right (Nat.le_add_left _ _),
        Nat.add_sub_cancel]
    simp only [Function.comp_apply, hBefore]
    cases before later k with
    | none => rfl
    | some s => simp only [Option.map_map]; rfl

end HotPatch.Receiver
