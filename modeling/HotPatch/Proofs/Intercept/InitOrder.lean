import HotPatch.Proofs.Intercept.InitBlock
import HotPatch.Proofs.Receiver.Paths

/-!
# Interception keeps the order of initialization

A constructor must call another one on its receiver before it uses it.  The
analysis of an intercepted constructor finds this order kept: in the body as
it was, every state is the one found without interception, and in the code
for the interceptor the receiver is used for nothing but constructor calls
until one of them has been made.

The test in front leads to the interceptor first, since a jump is on top of
the stack.  Its way back to the body offers what is known there already.  So
the body is visited last, from the same start as on its own.
-/

namespace HotPatch.Intercept

open Receiver

/-- The states before the test of the slot: the receiver is in `p0` alone. -/
def forkStates : List State := [some [.p 0], some [.p 0], some [.p 0]]

/-- All code behind the body of an intercepted constructor. -/
def initBlock (signature : Signature) (id : Nat) (fork : Boxing.Fork) (delegated : MethodRef)
    (next : Nat) (buddy : Option MethodRef) : List Instruction :=
  opening signature id fork.intercept ++ .branchZero .eq (.v 4) fork.origin ::
    (initCode delegated next buddy ++ runInitBody)

/-- The states before it. -/
def initBlockStates (signature : Signature) (id : Nat) (fork : Boxing.Fork)
    (delegated : MethodRef) (buddy : Option MethodRef) : List State :=
  trail [.p 0] (opening signature id fork.intercept) ++ some [.p 0] ::
    (initStates delegated buddy ++ [some [], some [], some []])

private theorem guardCode_constructorBlock (m : Method) (id : Nat) (delegated : MethodRef)
    (buddy : Option MethodRef) (b : Body) (slot : FieldRef) :
    guardCode b slot ++ constructorBlock m id delegated buddy b =
      Boxing.forkCode (.v 0) slot (ownFork b) ++ b.instructions ++
        initBlock m.signature id (ownFork b) delegated (b.nextLabel + 2) buddy := by
  simp [guardCode, constructorBlock, initBlock, opening, askInterceptor]

/-! ## The order of visits -/

section Visits

variable {code body back : List Instruction} {slot : FieldRef} {fork : Boxing.Fork}

/-- From the test of the slot the interceptor comes first, and the body waits. -/
theorem settle_fork
    (hCode : code = Boxing.forkCode (.v 0) slot fork ++ body ++ .label fork.intercept :: back)
    (hPlaced : (Code.placed code).Nodup) :
    settle code (entry code) =
      settle code ⟨forkStates ++ (List.replicate body.length none ++
        some [.p 0] :: List.replicate back.length none), [body.length + 3, 2]⟩ := by
  have hAt := Code.position?_of_nodup (hCode ▸ hPlaced)
  rw [← hCode] at hAt
  unfold Boxing.forkCode at hCode hAt
  have hEntry : entry code = ⟨some [.p 0] :: (List.replicate 1 none ++ none ::
      (List.replicate body.length none ++ none :: List.replicate back.length none)), [0]⟩ := by
    simp [hCode, entry]
  have hLoad := settle_straight (List.cons_ne_nil _ _) (none :: (List.replicate body.length none ++
      none :: List.replicate back.length none)) [] [.staticGet .object (.v 0) slot] [] [] [.p 0]
    hCode rfl (by simp [Straight, Instruction.targets, Instruction.fallsThrough])
  have hTested : code = [.staticGet .object (.v 0) slot] ++ .branchZero .ne (.v 0) fork.intercept ::
      .label fork.origin :: (body ++ .label fork.intercept :: back) := by simp [hCode]
  have hTurn : [Instruction.staticGet .object (.v 0) slot].length +
      ((List.replicate body.length (none : State)).length + 2) = body.length + 3 := by
    simp
    omega
  have hTest := settle_branchZero hTested (List.cons_ne_nil _ _) [some [.p 0]]
    (List.replicate body.length none) (List.replicate back.length none) rfl [.p 0] []
    (by rw [hAt, hTurn]; simp)
  rw [hTurn] at hTest
  rw [hEntry]
  exact hLoad.trans hTest

/-- When the interceptor is settled the body is visited, from the start that it has on its own. -/
theorem settle_origin (hCode : code = Boxing.forkCode (.v 0) slot fork ++ body ++ back)
    (hPlaced : (Code.placed code).Nodup) (hClosed : Code.Closed body) {found : List State}
    (hFound : settle body (entry body) = .ok found) (later : List State) :
    settle code ⟨forkStates ++
        (List.replicate body.length none ++ later), [2]⟩ =
      .ok (forkStates ++ found ++ later) := by
  have hPos := hClosed.length_pos
  have hBody : body ≠ [] := List.length_pos_iff.mp hPos
  have hStarted : code = [.staticGet .object (.v 0) slot,
      .branchZero .ne (.v 0) fork.intercept] ++ ([.label fork.origin] ++ (body ++ back)) := by
    simp [hCode, Boxing.forkCode]
  have hFresh : ∀ l ∈ Code.placed body,
      l ∉ Code.placed (Boxing.forkCode (.v 0) slot fork) := by
    intro l hl hFork
    rw [hCode, Code.placed_append, Code.placed_append, List.nodup_append] at hPlaced
    exact (List.nodup_append.mp hPlaced.1).2.2 l hFork l hl rfl
  have hEntry : (entry body).states = some [.p 0] :: List.replicate (body.length - 1) none ∧
      (entry body).pending = [0] := by
    cases body with
    | nil => exact (hBody rfl).elim
    | cons i rest => simp [entry]
  have hUnseen : List.replicate body.length (none : State) =
      List.replicate 1 none ++ List.replicate (body.length - 1) none := by
    rw [List.replicate_append_replicate]
    congr 1
    omega
  have hStart := settle_straight (by simp [hBody]) (List.replicate (body.length - 1) none ++ later)
    [] [.label fork.origin] _ [some [.p 0], some [.p 0]] [.p 0] hStarted rfl
    (by simp [Straight, Instruction.targets, Instruction.fallsThrough])
  have hWithin := settle_within back hClosed hFresh forkStates later
    rfl [] (entry_sound body) (by rw [hEntry.2]; simpa using hPos) hFound
  rw [← hCode, hEntry.1, hEntry.2, settle_nil] at hWithin
  rw [hUnseen]
  exact hStart.trans hWithin

end Visits

/-- All states of an intercepted constructor: the receiver is in `p0` at the test, the body has the
states it has on its own, and then come those of the block.  The visits go through the test, the
opening, the way back and the calls, and at last through the body. -/
theorem settle_constructor {code body : List Instruction} {slot : FieldRef} {fork : Boxing.Fork}
    {signature : Signature} {id next : Nat} {delegated : MethodRef} {buddy : Option MethodRef}
    {found : List State}
    (hCode : code = Boxing.forkCode (.v 0) slot fork ++ body ++
      initBlock signature id fork delegated next buddy)
    (hPlaced : (Code.placed code).Nodup) (hClosed : Code.Closed body)
    (hInit : delegated.name.isInit = true)
    (hInit' : ∀ target, buddy = some target → target.name.isInit = true)
    (hFound : settle body (entry body) = .ok found) :
    settle code (entry code) = .ok (forkStates ++ found ++
      initBlockStates signature id fork delegated buddy) := by
  have hOpen := opening_ignores signature id fork.intercept
  have hAfter := after_of_ignores hOpen
  obtain ⟨rest, hRest⟩ :
      ∃ rest, opening signature id fork.intercept = .label fork.intercept :: rest := ⟨_, rfl⟩
  have hForked : code = Boxing.forkCode (.v 0) slot fork ++ body ++ .label fork.intercept ::
      (rest ++ .branchZero .eq (.v 4) fork.origin ::
        (initCode delegated next buddy ++ runInitBody)) := by
    rw [hCode, initBlock, hRest]
    rfl
  have hOrigin : Code.position? code fork.origin = some 2 := by
    have hStarted : code = [.staticGet .object (.v 0) slot,
        .branchZero .ne (.v 0) fork.intercept] ++ .label fork.origin ::
          (body ++ initBlock signature id fork delegated next buddy) := by
      simp [hCode, Boxing.forkCode]
    have hAt := Code.position?_of_nodup (hStarted ▸ hPlaced)
    rwa [← hStarted] at hAt
  have hUnseen : List.replicate (rest ++ .branchZero .eq (.v 4) fork.origin ::
      (initCode delegated next buddy ++ runInitBody)).length (none : State) =
      List.replicate (opening signature id fork.intercept).length none ++
        none :: List.replicate ((initCode delegated next buddy).length + 2) none := by
    refine (List.eq_replicate_iff.mpr ⟨?_, ?_⟩).symm
    · simp [hRest, runInitBody]
      omega
    · simp only [List.mem_append, List.mem_cons, List.mem_replicate]
      grind
  have hOpened : code = (Boxing.forkCode (.v 0) slot fork ++ body) ++
      (opening signature id fork.intercept ++ .branchZero .eq (.v 4) fork.origin ::
        (initCode delegated next buddy ++ runInitBody)) := by
    rw [hCode, initBlock]
  have hAsked : code = (Boxing.forkCode (.v 0) slot fork ++ body ++
      opening signature id fork.intercept) ++ .branchZero .eq (.v 4) fork.origin ::
        (initCode delegated next buddy ++ runInitBody) := by
    simp [hOpened]
  have hInited : code = (Boxing.forkCode (.v 0) slot fork ++ body ++
      opening signature id fork.intercept ++ [.branchZero .eq (.v 4) fork.origin]) ++
        (initCode delegated next buddy ++ runInitBody) := by
    simp [hOpened]
  have hFork := settle_fork hForked hPlaced
  have hLine := settle_straight (List.cons_ne_nil _ _)
    (none :: List.replicate ((initCode delegated next buddy).length + 2) none) [2]
    (opening signature id fork.intercept) _
    (forkStates ++ List.replicate body.length none) [.p 0] hOpened
    (by simp [Boxing.forkCode, forkStates]) fun i hi => (hOpen i hi).straight
  have hAsk := settle_branchZero_known hAsked (by simp [runInitBody])
    (forkStates ++ (List.replicate body.length none ++
      trail [.p 0] (opening signature id fork.intercept)))
    (List.replicate ((initCode delegated next buddy).length + 2) none)
    (by simp [Boxing.forkCode, forkStates]) [2] hOrigin rfl fun x (hx : x ∈ [.p 0]) => hx
  have hCalls := settle_initCode hInited hPlaced hInit hInit'
    (forkStates ++ (List.replicate body.length none ++
      (trail [.p 0] (opening signature id fork.intercept) ++ [some [.p 0]])))
    (by simp [Boxing.forkCode, forkStates]) [2]
  have hBody := settle_origin hCode hPlaced hClosed hFound
    (initBlockStates signature id fork delegated buddy)
  rw [hUnseen] at hFork
  rw [hAfter] at hLine
  simp only [initBlockStates, forkStates, List.append_assoc, List.cons_append, List.nil_append,
    List.length_append, List.length_cons, List.length_nil, Boxing.forkCode]
    at hFork hLine hAsk hCalls hBody ⊢
  have hTurn : body.length + 1 + 1 + 1 + (opening signature id fork.intercept).length =
      body.length + (opening signature id fork.intercept).length + 1 + 1 + 1 := by omega
  rw [hTurn] at hLine
  exact hFork.trans (hLine.trans (hAsk.trans (hCalls.trans hBody)))

/-! ## What the block does with the receiver -/

private theorem initCode_discreet {delegated : MethodRef} (next : Nat) {buddy : Option MethodRef}
    (hInit : delegated.name.isInit = true)
    (hInit' : ∀ target, buddy = some target → target.name.isInit = true) :
    Discreet (initCode delegated next buddy) (initStates delegated buddy) := by
  have hDelegated := (initCall_analyzed hInit).2.1
  cases buddy with
  | none => exact hDelegated
  | some target =>
      have hBuddy := (initCall_analyzed (hInit' target rfl)).2.1
      refine (((Discreet.append rfl ?_ hDelegated).append ?_ ?_).append ?_ hBuddy).append ?_ ?_
      · exact discreet_of_operands (by simp [Instruction.registers]; decide)
      · simp
      · exact discreet_of_operands (by simp [Instruction.registers])
      · simp
      · simp
      · exact discreet_of_operands (by simp [Instruction.registers])

/-- The calls on the receiver are the delegated one and that of the buddy, if there is one. -/
theorem initCode_calls {delegated : MethodRef} (next : Nat) {buddy : Option MethodRef}
    (hInit : delegated.name.isInit = true)
    (hInit' : ∀ target, buddy = some target → target.name.isInit = true) :
    ∃ g h, g < h ∧ initCalls (initCode delegated next buddy) (initStates delegated buddy) =
      ⟨g, delegated⟩ :: buddy.toList.map (⟨h, ·⟩) := by
  obtain ⟨k, hDelegated⟩ := (initCall_analyzed hInit).2.2
  cases buddy with
  | none => exact ⟨k, k + 1, Nat.lt_succ_self k, hDelegated⟩
  | some target =>
      obtain ⟨k', hBuddy⟩ := (initCall_analyzed (hInit' target rfl)).2.2
      have hLt : k < (initCall delegated).length := by
        have hMem : ⟨k, delegated⟩ ∈ initCalls (initCall delegated)
            (trail [.p 0] (initCall delegated)) := hDelegated ▸ List.mem_singleton_self _
        obtain ⟨_, _, _, hAt, _⟩ := mem_initCalls.mp hMem
        exact (List.getElem?_eq_some_iff.mp hAt).1
      refine ⟨k + 2, k' + ((initCall delegated).length + 4), by omega, ?_⟩
      simp only [initCode, chooseInit, initStates]
      rw [initCalls_append (by simp), initCalls_append (by simp), initCalls_append (by simp),
        initCalls_append (by simp), hDelegated, hBuddy]
      simp [initCalls, before, initOn?, initCall?]

private theorem initBlock_discreet (signature : Signature) (id next : Nat) (fork : Boxing.Fork)
    {delegated : MethodRef} {buddy : Option MethodRef} (hInit : delegated.name.isInit = true)
    (hInit' : ∀ target, buddy = some target → target.name.isInit = true) :
    Discreet (initBlock signature id fork delegated next buddy)
      (initBlockStates signature id fork delegated buddy) := by
  have hAsk : Discreet [.branchZero .eq (.v 4) fork.origin] [some [.p 0]] :=
    discreet_of_operands (by simp [Instruction.registers]; decide)
  have hRun : Discreet runInitBody [some [], some [], some []] :=
    discreet_of_operands (by simp [Avoids])
  exact (discreet_of_ignores (opening_ignores signature id fork.intercept)).append (by simp)
    (hAsk.append rfl ((initCode_discreet next hInit hInit').append
      (length_initStates delegated next buddy) hRun))

private theorem initBlock_calls (signature : Signature) (id next : Nat) (fork : Boxing.Fork)
    {delegated : MethodRef} {buddy : Option MethodRef} (hInit : delegated.name.isInit = true)
    (hInit' : ∀ target, buddy = some target → target.name.isInit = true) :
    ∃ g h, g < h ∧ initCalls (initBlock signature id fork delegated next buddy)
        (initBlockStates signature id fork delegated buddy) =
      ⟨g, delegated⟩ :: buddy.toList.map (⟨h, ·⟩) := by
  obtain ⟨g, h, hLt, hCalls⟩ := initCode_calls next hInit hInit'
  have hAsk : initCalls [.branchZero .eq (.v 4) fork.origin] [some [.p 0]] = [] := rfl
  have hRun : initCalls runInitBody [some [], some [], some []] = [] := rfl
  have hBlock : initBlock signature id fork delegated next buddy =
      opening signature id fork.intercept ++ ([.branchZero .eq (.v 4) fork.origin] ++
        (initCode delegated next buddy ++ runInitBody)) := rfl
  have hStates : initBlockStates signature id fork delegated buddy =
      trail [.p 0] (opening signature id fork.intercept) ++ ([some [.p 0]] ++
        (initStates delegated buddy ++ [some [], some [], some []])) := rfl
  refine ⟨g + (1 + (opening signature id fork.intercept).length),
    h + (1 + (opening signature id fork.intercept).length), by omega, ?_⟩
  rw [hBlock, hStates, initCalls_append (by simp),
    initCalls_of_ignores (opening_ignores signature id fork.intercept), initCalls_append rfl, hAsk,
    initCalls_append (length_initStates delegated next buddy), hRun, hCalls]
  cases buddy <;> simp [Nat.add_assoc]

/-! ## The order is kept -/

/-- Every method of the class is declared as its own. -/
def OwnsMethods (c : ClassDef) : Prop := ∀ n ∈ c.methods, n.owner = c.name

/-- The buddy constructor is that of the direct superclass. -/
theorem buddyTarget_eq_some {form : InitForm} {owner : ClassName} {superclass : Option ClassDef}
    {target : MethodRef} (hOwns : ∀ s, superclass = some s → OwnsMethods s)
    (h : buddyTarget form owner superclass = .ok (some target)) :
    ∃ s, superclass = some s ∧ target = Interceptor.buddyConstructor s.name := by
  cases superclass with
  | none => cases form <;> cases h
  | some s =>
      refine ⟨s, rfl, ?_⟩
      cases form with
      | direct =>
          cases h
          rfl
      | normal =>
          obtain ⟨n, hFind, rfl⟩ := Option.map_eq_some_iff.mp (Except.ok.inj h)
          have hNamed := List.find?_some hFind
          simp only [Method.isNamed, Bool.and_eq_true, beq_iff_eq] at hNamed
          rw [Method.ref, hOwns s rfl n (List.mem_of_find?_eq_some hFind), hNamed.1, hNamed.2]
          rfl

/-- What the analysis finds in an intercepted constructor, next to what it finds without
interception: the states `found` and the one call `call`. -/
structure KeepsInitOrder (owner : ClassName) (superclass : Option ClassName)
    (buddy : Option MethodRef) (old new : List Instruction) (found : List State)
    (call : InitCall) (found' : List State) (calls : List InitCall) : Prop where
  /-- The body has the states that it has on its own. -/
  body : ∀ k < old.length, before found' (3 + k) = before found k
  /-- The call is still there; the block makes it again, or one of the buddy constructor. -/
  made : ∃ g h, old.length + 3 ≤ g ∧ g < h ∧ calls =
    ⟨call.position + 3, call.method⟩ :: ⟨g, call.method⟩ :: buddy.toList.map (⟨h, ·⟩)
  /-- All calls lead to the class itself or its direct superclass. -/
  home : ∀ c ∈ calls, Delegation.leadsHome owner superclass c.method.owner = true
  /-- The receiver is initialized when it is handed to the interceptor. -/
  initialized : ∃ front, new = front ++ runInitBody ∧ before found' front.length = some [] ∧
    before found' (front.length + 1) = some []
  /-- In the block it is read by nothing but these calls and the copy for a range call. -/
  discreet : ∀ (k : Nat) (i : Instruction) (s : RegisterSet) (r : Register),
    old.length + 3 ≤ k → new[k]? = some i → before found' k = some s → r ∈ s →
    r ∈ i.readSlots → i = .move .object (.v 5) (.p 0) ∨ ∃ c ∈ calls, c.position = k

private theorem before_append_right {seen later : List State} (k : Nat) :
    before (seen ++ later) (seen.length + k) = before later k := by
  rw [before, List.getElem?_append_right (Nat.le_add_right _ _), Nat.add_sub_cancel_left]
  rfl

/-- The states and calls of an intercepted constructor keep the order of initialization. -/
theorem keepsInitOrder_of_shape {owner : ClassName} {superclass : Option ClassName}
    {old new : List Instruction} {slot : FieldRef} {fork : Boxing.Fork} {signature : Signature}
    {id next : Nat} {buddy : Option MethodRef} {found : List State} {call : InitCall}
    (hNew : new = Boxing.forkCode (.v 0) slot fork ++ old ++
      initBlock signature id fork call.method next buddy)
    (hLength : found.length = old.length) (hCalls : initCalls old found = [call])
    (hInit : call.method.name.isInit = true)
    (hHome : Delegation.leadsHome owner superclass call.method.owner = true)
    (hBuddy : ∀ target, buddy = some target → target.name.isInit = true ∧
      Delegation.leadsHome owner superclass target.owner = true) :
    KeepsInitOrder owner superclass buddy old new found call
      (forkStates ++ found ++
        initBlockStates signature id fork call.method buddy)
      (initCalls new (forkStates ++ found ++
        initBlockStates signature id fork call.method buddy)) := by
  have hInit' := fun target hTarget => (hBuddy target hTarget).1
  obtain ⟨g, h, hLt, hBlock⟩ := initBlock_calls signature id next fork hInit hInit'
  have hSeen : (forkStates ++ found).length =
      (Boxing.forkCode (.v 0) slot fork ++ old).length := by
    simp [Boxing.forkCode, forkStates, hLength]
  have hFront : (Boxing.forkCode (.v 0) slot fork ++ old).length = old.length + 3 := by
    simp [Boxing.forkCode]
  have hAll : initCalls new (forkStates ++ found ++
      initBlockStates signature id fork call.method buddy) =
      ⟨call.position + 3, call.method⟩ :: ⟨g + (old.length + 3), call.method⟩ ::
        buddy.toList.map (⟨h + (old.length + 3), ·⟩) := by
    have hFork : initCalls (Boxing.forkCode (.v 0) slot fork)
        forkStates = [] := rfl
    rw [hNew, initCalls_append hSeen, initCalls_append rfl, hFork, hCalls, hBlock, hFront]
    cases buddy <;> rfl
  refine ⟨?_, ⟨_, _, ?_, ?_, hAll⟩, ?_, ?_, ?_⟩
  · intro k hk
    rw [List.append_assoc]
    refine (before_append_right k).trans ?_
    rw [before, List.getElem?_append_left (hLength ▸ hk)]
    rfl
  · exact Nat.le_add_left _ _
  · exact Nat.add_lt_add_right hLt _
  · rw [hAll]
    intro c hc
    simp only [List.mem_cons, List.mem_map, Option.mem_toList] at hc
    rcases hc with rfl | rfl | ⟨target, hTarget, rfl⟩
    · exact hHome
    · exact hHome
    · exact (hBuddy target hTarget).2
  · refine ⟨Boxing.forkCode (.v 0) slot fork ++ old ++ (opening signature id fork.intercept ++
      .branchZero .eq (.v 4) fork.origin :: initCode call.method next buddy), ?_, ?_⟩
    · simp [hNew, initBlock]
    · have hSplit : forkStates ++ found ++ initBlockStates signature id fork call.method buddy =
          (forkStates ++ found ++ (trail [.p 0] (opening signature id fork.intercept) ++
            some [.p 0] :: initStates call.method buddy)) ++ [some [], some [], some []] := by
        simp [initBlockStates]
      have hLen : (Boxing.forkCode (.v 0) slot fork ++ old ++
          (opening signature id fork.intercept ++ .branchZero .eq (.v 4) fork.origin ::
            initCode call.method next buddy)).length =
          (forkStates ++ found ++ (trail [.p 0] (opening signature id fork.intercept) ++
            some [.p 0] :: initStates call.method buddy)).length := by
        rw [List.length_append, ← hSeen]
        simp [length_initStates call.method next buddy, Nat.add_assoc]
      rw [hLen, hSplit]
      exact ⟨before_append_right 0, before_append_right 1⟩
  · intro k i s r hk hAt hState hMem hRead
    obtain ⟨j, rfl⟩ := Nat.exists_eq_add_of_le hk
    have hAtBlock : (initBlock signature id fork call.method next buddy)[j]? = some i := by
      rw [hNew, ← hFront, List.getElem?_append_right (Nat.le_add_right _ _),
        Nat.add_sub_cancel_left] at hAt
      exact hAt
    have hBefore : before (initBlockStates signature id fork call.method buddy) j = some s := by
      rw [← hFront, ← hSeen, before_append_right] at hState
      exact hState
    refine (initBlock_discreet signature id next fork hInit hInit' j i s r hAtBlock
      (Option.join_eq_some_iff.mp hBefore) hMem hRead).imp_right fun hSome => ?_
    obtain ⟨method, hOn⟩ := Option.isSome_iff_exists.mp hSome
    exact ⟨⟨_, method⟩, mem_initCalls.mpr ⟨s, i, Option.join_eq_some_iff.mp hState, hAt, hOn⟩, rfl⟩

/-- **Interception keeps the order of initialization.**  When a constructor has been intercepted,
its new body can be analyzed; the old one has the states it had, the new calls are on the receiver
and lead home, and nothing else uses it before one of them has been made. -/
theorem constructor_keepsInitOrder (form : InitForm) (superclass : Option ClassDef)
    (m m' : Method) (b b' : Body) (hOwns : ∀ s, superclass = some s → OwnsMethods s)
    (hBody : m.body = some b) (hBody' : m'.body = some b') (hTidy : b.Tidy)
    (h : Intercept.constructor form superclass m = .ok m') :
    ∃ found call buddy found' calls,
      analyze b.instructions = .ok (found, [call]) ∧
      buddyTarget form m.owner superclass = .ok buddy ∧
      (∀ target, buddy = some target →
        ∃ s, superclass = some s ∧ target = Interceptor.buddyConstructor s.name) ∧
      analyze b'.instructions = .ok (found', calls) ∧
      KeepsInitOrder m.owner (superclass.map (·.name)) buddy b.instructions b'.instructions found
        call found' calls := by
  obtain ⟨id, call, buddy, _, hFind, hTarget, hNew⟩ := constructor_eq_ok hBody hBody' h
  obtain ⟨hHome, found, hFound, hCalls⟩ := Delegation.find_eq_ok hFind
  obtain ⟨hCode, hCheck⟩ := constructorBody_eq_ok hNew
  rw [guardCode_constructorBlock] at hCode
  have hPlaced := Body.nodup_placed hCheck
  have hBuddy : ∀ target, buddy = some target →
      ∃ s, superclass = some s ∧ target = Interceptor.buddyConstructor s.name := by
    rintro target rfl
    exact buddyTarget_eq_some hOwns hTarget
  have hBuddyInit : ∀ target, buddy = some target → target.name.isInit = true ∧
      Delegation.leadsHome m.owner (superclass.map (·.name)) target.owner = true := by
    intro target hEq
    obtain ⟨s, rfl, rfl⟩ := hBuddy target hEq
    exact ⟨rfl, by simp [Delegation.leadsHome, Interceptor.buddyConstructor]⟩
  have hInit : call.method.name.isInit = true := by
    have hMem : call ∈ initCalls b.instructions found := hCalls ▸ List.mem_singleton_self call
    obtain ⟨s, i, _, _, hOn⟩ := mem_initCalls.mp hMem
    simp only [initOn?] at hOn
    split at hOn
    · next r method hCall =>
        obtain ⟨_, _, _, _, _, hName⟩ := initCall?_eq_some hCall
        split at hOn
        · cases hOn
          exact hName
        · cases hOn
    · cases hOn
  have hFound' := settle_constructor hCode hPlaced hTidy.toClosed hInit
    (fun target hEq => (hBuddyInit target hEq).1) (states_eq_settle hTidy.distinct ▸ hFound)
  rw [← states_eq_settle hPlaced] at hFound'
  refine ⟨found, call, buddy, _, _, ?_, hTarget, hBuddy, ?_, keepsInitOrder_of_shape hCode
    (states_sound hFound).1.length hCalls hInit hHome hBuddyInit⟩
  · simp [analyze, hFound, hCalls, Except.map]
  · simp [analyze, hFound', Except.map]

/-- A constructor whose delegated call needs the range form. -/
def wideBody : Body :=
  ⟨0, 7, [.invoke .direct .range [.p 0, (Register.p 1).withWide true,
      (Register.p 3).withWide true, (Register.p 5).withWide true]
      ⟨.of "a/Base", .init, .void [.base .long, .base .long, .base .long]⟩, .returnVoid], 0⟩

def wideConstructor : Method where
  owner := .of "a/Main"
  name := .init
  signature := .void [.base .long, .base .long, .base .long]
  access := {}
  id := some 4
  body := some wideBody

def baseClass : ClassDef where
  name := .of "a/Base"
  kind := .program
  access := {}

/-- A constructor with wide parameters, and a buddy branch. -/
theorem constructor_keepsInitOrder_wide :
    ∃ m' b' found call buddy found' calls,
      Intercept.constructor .direct (some baseClass) wideConstructor = .ok m' ∧
      m'.body = some b' ∧ analyze wideBody.instructions = .ok (found, [call]) ∧
      buddy = some (Interceptor.buddyConstructor (.of "a/Base")) ∧
      analyze b'.instructions = .ok (found', calls) ∧
      KeepsInitOrder (.of "a/Main") (some (.of "a/Base")) buddy wideBody.instructions
        b'.instructions found call found' calls := by
  have hSome : ((Intercept.constructor .direct (some baseClass) wideConstructor).toOption.bind
      (·.body)).isSome = true := by decide +kernel
  obtain ⟨b', hBody'⟩ := Option.isSome_iff_exists.mp hSome
  obtain ⟨m', hNew, hBody'⟩ := Option.bind_eq_some_iff.mp hBody'
  have hOk : Intercept.constructor .direct (some baseClass) wideConstructor = .ok m' := by
    cases h : Intercept.constructor .direct (some baseClass) wideConstructor with
    | error e => rw [h] at hNew; cases hNew
    | ok n => rw [h] at hNew; cases hNew; rfl
  have hTidy : wideBody.Tidy := ⟨⟨by decide, ⟨_, rfl, rfl⟩⟩, by decide, by decide⟩
  have hOwns : ∀ s, some baseClass = some s → OwnsMethods s := by
    rintro s hEq n hn
    cases hEq
    cases hn
  obtain ⟨found, call, buddy, found', calls, hFound, hBuddy, _, hFound', hKeeps⟩ :=
    constructor_keepsInitOrder .direct (some baseClass) wideConstructor m' wideBody b' hOwns rfl
      hBody' hTidy hOk
  exact ⟨m', b', found, call, buddy, found', calls, hOk, hBody', hFound,
    (Except.ok.inj hBuddy).symm, hFound', hKeeps⟩

end HotPatch.Intercept
