import HotPatch.Proofs.Bytecode.Constants
import HotPatch.Proofs.Intercept.InitBlock

/-!
# The number that goes to the interceptor

An interceptor tells the methods of a class apart by their numbers.  Every
call to it passes one, in the register behind the interceptor itself; the
register was loaded on the way, and nothing in between writes to it
(`methodCall_hands`, `constructorBlock_hands`).
-/

namespace HotPatch

namespace Intercept

open Code Receiver

/-- The code calls the interceptor's method with a number, which is a constant by then. -/
def Hands (code : List Instruction) (id : Nat) (form : InvokeForm) (target : MethodRef) : Prop :=
  ∃ (k : Nat) (interceptor number : Register) (rest : RegisterList),
    code[k]? = some (.invoke .interface form (interceptor :: number :: rest) target) ∧
      HoldsAt code k number (Int32.ofNat id)

/-- The calls by which a method of each kind reaches its interceptor. -/
def HandsOver (code : List Instruction) (id : Nat) : Dispatch → Prop
  | .common => Hands code id .fixed Interceptor.invokeCommon
  | .special shape => Hands code id .range (Interceptor.invokeShape shape)
  | .init => Hands code id .fixed Interceptor.invokeUnInit ∧
      Hands code id .fixed Interceptor.invokeInitBody

section

variable {front line back : List Instruction} {number : Register} {id : Nat}
  {form : InvokeForm} {interceptor : Register} {rest : RegisterList} {target : MethodRef}

private theorem Hands.of_holdsAt
    (h : HoldsAt (loading front number (Int32.ofNat id) line
      (.invoke .interface form (interceptor :: number :: rest) target) back)
        (front.length + 1 + line.length) number (Int32.ofNat id)) :
    Hands (loading front number (Int32.ofNat id) line
      (.invoke .interface form (interceptor :: number :: rest) target) back) id form target :=
  ⟨_, interceptor, number, rest, getElem?_loading_call, h⟩

end

/-! ## Ordinary methods -/

/-- Packed arguments are stored without a jump. -/
theorem storeAll_straight (array index scratch : Register) (values : List (Register × ValueType)) :
    ∀ i ∈ Boxing.storeAll array index scratch values, Straight i := by
  have hNone : ∀ r, Avoids [] r := fun r slot _ hMem => by cases hMem
  intro i hi
  exact (storeAll_ignores (hNone array) (hNone index) (hNone scratch)
    (fun v _ wide => hNone _) i hi).straight

private theorem commonCall_hands (m : Method) (id : Nat) (arguments : List (Register × ValueType))
    (back : List Instruction) :
    Hands (commonCall m id arguments ++ back) id .fixed Interceptor.invokeCommon := by
  let front : List Instruction :=
    .const (.v 3) (Int32.ofNat arguments.length) :: .newArray (.v 3) (.v 3) .objectArray ::
      Boxing.storeAll (.v 3) (.v 1) (.v 2) arguments
  let receiver : Instruction :=
    if m.isStatic then .const (.v 2) 0 else .move .object (.v 2) (.p 0)
  have hCode : commonCall m id arguments ++ back =
      loading front (.v 1) (Int32.ofNat id) [receiver]
        (.invoke .interface .fixed [.v 0, .v 1, .v 2, .v 3] Interceptor.invokeCommon) back := by
    simp [commonCall, loading, front, receiver]
  have hFront : ∀ i ∈ front, Straight i := by
    intro i hi
    rcases List.mem_cons.mp hi with rfl | hi
    · exact ⟨rfl, rfl⟩
    rcases List.mem_cons.mp hi with rfl | hi
    · exact ⟨rfl, rfl⟩
    · exact storeAll_straight _ _ _ _ i hi
  have hReceiver : Straight receiver ∧ Register.v 1 ∉ receiver.writtenSlots ∧
      receiver.placed? = none := by
    simp only [receiver]
    split <;> exact ⟨⟨rfl, rfl⟩, by decide, rfl⟩
  rw [hCode]
  apply Hands.of_holdsAt
  apply Loads.holdsAt_of_line
  · exact {
      narrow := rfl
      straight := fun i hi => (hFront i hi).1
      keeps := by simpa using hReceiver.2.1
      plain := ⟨rfl, rfl⟩
      away := by simp [placed, hReceiver.2.2] }
  · exact fun i hi => (hFront i hi).2
  · simpa using hReceiver.1.2

private theorem shapeCall_hands (m : Method) (id : Nat) (shape : String) (locals : Nat)
    (arguments : List (Register × ValueType)) (back : List Instruction) :
    Hands (shapeCall m id shape locals arguments ++ back) id .range
      (Interceptor.invokeShape shape) := by
  let first := if m.isStatic then locals - 3 else locals - 2
  let front : List Instruction := if first = 0 then [] else [.move .object (.v first) (.v 0)]
  let receiver : List Instruction := if m.isStatic then [.const (.v (first + 2)) 0] else []
  have hCode : shapeCall m id shape locals arguments ++ back =
      loading front (.v (first + 1)) (Int32.ofNat id) receiver
        (.invoke .interface .range (.v first :: .v (first + 1) ::
          (if m.isStatic then .v (first + 2) else .p 0) :: arguments.map Prod.fst)
          (Interceptor.invokeShape shape)) back := by
    simp [shapeCall, loading, front, first, receiver]
  have hFront : ∀ i ∈ front, Straight i := by
    intro i hi
    simp only [front] at hi
    split at hi
    · cases hi
    · obtain rfl := List.mem_singleton.mp hi
      exact ⟨rfl, rfl⟩
  have hReceiver : ∀ i ∈ receiver, i = .const (.v (first + 2)) 0 := by
    intro i hi
    simp only [receiver] at hi
    split at hi
    · exact List.mem_singleton.mp hi
    · cases hi
  rw [hCode]
  apply Hands.of_holdsAt
  apply Loads.holdsAt_of_line
  · exact {
      narrow := rfl
      straight := fun i hi => (hFront i hi).1
      keeps := by
        intro i hi
        rw [hReceiver i hi]
        simp [Instruction.writtenSlots, Instruction.written?, Register.slots, Register.v,
          Register.narrow, Register.withWide]
      plain := ⟨rfl, rfl⟩
      away := by
        intro i _ l _ hl
        cases hReceiver _ (mem_placed.mp hl) }
  · exact fun i hi => (hFront i hi).2
  · intro i hi
    rw [hReceiver i hi]
    rfl

/-- **An ordinary method hands its number over**, in the form that its dispatch says. -/
theorem methodCall_hands (m : Method) (id locals : Nat) {dispatch : Dispatch}
    (h : dispatch ≠ .init) (back : List Instruction) :
    HandsOver (methodCall m id locals dispatch ++ back) id dispatch := by
  cases dispatch with
  | common => exact commonCall_hands m id _ back
  | special shape => exact shapeCall_hands m id shape locals _ back
  | init => exact absurd rfl h

/-! ## Constructors -/

private theorem not_mem_writtenSlots {s : RegisterSet} {i : Instruction} (h : Ignores s i)
    {slot : Register} (hSlot : slot ∈ s) : slot ∉ i.writtenSlots := by
  unfold Instruction.writtenSlots
  cases hWritten : i.written? with
  | none => exact List.not_mem_nil
  | some r =>
      intro hMem
      exact h.operands r (Instruction.written_mem_registers hWritten) slot hMem hSlot

/-- A constructor call leaves the number alone. -/
theorem initCall_keeps (target : MethodRef) :
    ∀ i ∈ initCall target, Register.v 2 ∉ i.writtenSlots := by
  have hUnpack : ∀ next, 2 < next →
      ∀ i ∈ (if (Boxing.layout .locals next target.signature.parameters).isEmpty then []
        else .instanceGet .object (.v 3) (.v 1) Interceptor.callArgs ::
          Boxing.loadAll (.v 3) (.v 4)
            (Boxing.layout .locals next target.signature.parameters)),
      Register.v 2 ∉ i.writtenSlots := by
    intro next hNext i hi
    have hIgnores : Ignores [.v 2] i := by
      refine unpack_ignores _ (by decide) (by decide) (by decide) ?_ i hi
      simpa [Register.v] using hNext
    exact not_mem_writtenSlots hIgnores (List.mem_singleton_self _)
  intro i hi
  unfold initCall callInit initLayout initStart at hi
  by_cases hRanged : ranged target = true
  · simp only [hRanged, if_true, List.mem_cons, List.mem_append, List.not_mem_nil, or_false] at hi
    rcases hi with rfl | hi | rfl
    · decide
    · exact hUnpack 6 (by decide) i hi
    · exact List.not_mem_nil
  · simp only [hRanged, Bool.false_eq_true, if_false, List.mem_append, List.mem_singleton] at hi
    rcases hi with hi | rfl
    · exact hUnpack 5 (by decide) i hi
    · exact List.not_mem_nil

private theorem initCode_keeps (delegated : MethodRef) (next : Nat) (buddy : Option MethodRef) :
    ∀ i ∈ initCode delegated next buddy, Register.v 2 ∉ i.writtenSlots := by
  intro i hi
  cases buddy with
  | none => exact initCall_keeps delegated i hi
  | some target =>
      simp only [initCode, chooseInit, List.mem_append, List.mem_cons, List.not_mem_nil,
        or_false] at hi
      rcases hi with ((((rfl | rfl) | hi) | rfl | rfl) | hi) | rfl
      · decide
      · exact List.not_mem_nil
      · exact initCall_keeps delegated i hi
      · exact List.not_mem_nil
      · exact List.not_mem_nil
      · exact initCall_keeps target i hi
      · exact List.not_mem_nil

/-- Control gets through the code that initializes the receiver.  It takes the delegated call, and
then jumps over the call of the buddy constructor. -/
theorem goesTo_initCode {code front back : List Instruction} {delegated : MethodRef} {next : Nat}
    {buddy : Option MethodRef} (hCode : code = front ++ (initCode delegated next buddy ++ back))
    (hPlaced : (placed code).Nodup) (hBack : back ≠ []) :
    GoesTo code front.length (front.length + (initCode delegated next buddy).length) := by
  cases buddy with
  | none =>
      exact goesTo_line hBack (initCall delegated) front hCode
        fun i hi => (initCall_straight delegated i hi).2
  | some target =>
      let test : List Instruction :=
        [.binaryLit .and (.v 4) (.v 3) Interceptor.buddyBit, .branchZero .ne (.v 4) ⟨next⟩]
      let around : List Instruction := .goto ⟨next + 1⟩ :: .label ⟨next⟩ :: initCall target
      have hCalled : code = front ++ ((test ++ initCall delegated) ++
          (around ++ .label ⟨next + 1⟩ :: back)) := by
        simp [hCode, initCode, chooseInit, test, around]
      have hJoined : code = (front ++ (test ++ initCall delegated) ++ around) ++
          .label ⟨next + 1⟩ :: back := by
        simp [hCalled]
      have hFalls : ∀ i ∈ test ++ initCall delegated, i.fallsThrough = true := by
        intro i hi
        rcases List.mem_append.mp hi with hi | hi
        · simp only [test, List.mem_cons, List.not_mem_nil, or_false] at hi
          rcases hi with rfl | rfl <;> rfl
        · exact (initCall_straight delegated i hi).2
      have hFirst := goesTo_line (List.cons_ne_nil _ _) (test ++ initCall delegated) front hCalled
        hFalls
      have hJump : Follows code (front.length + (test ++ initCall delegated).length)
          (front ++ (test ++ initCall delegated) ++ around).length := by
        refine .jump (i := .goto ⟨next + 1⟩) ?_ (List.mem_singleton_self _)
          (hJoined ▸ position?_of_nodup (hJoined ▸ hPlaced))
        rw [hCalled, List.getElem?_append_right (Nat.le_add_right _ _), Nat.add_sub_cancel_left,
          List.getElem?_append_right (Nat.le_refl _), Nat.sub_self]
        rfl
      have hLast := goesTo_line hBack [.label ⟨next + 1⟩] _ hJoined (by simp; rfl)
      have hLength : (front ++ (test ++ initCall delegated) ++ around).length + 1 =
          front.length + (initCode delegated next (some target)).length := by
        simp only [initCode, chooseInit, test, around, List.length_append, List.length_cons,
          List.length_nil]
        omega
      rw [List.length_singleton, hLength] at hLast
      exact (hFirst.tail hJump).trans hLast

/-- The code between the two calls of the interceptor, up to the choice of a constructor. -/
def testFlag (origin : Label) : List Instruction :=
  [.instanceGet .plain (.v 3) (.v 1) Interceptor.initFlag,
    .binaryLit .and (.v 4) (.v 3) Interceptor.interceptedBit,
    .branchZero .eq (.v 4) origin]

section

variable (m : Method) (id : Nat) (delegated : MethodRef) (buddy : Option MethodRef) (b : Body)

private theorem constructorBlock_hands_unInit :
    Hands (constructorBlock m id delegated buddy b) id .fixed Interceptor.invokeUnInit := by
  have hFront : ∀ i ∈ ownContext m.signature, Straight i :=
    fun i hi => (ownContext_ignores m.signature i hi).straight
  have hCode : constructorBlock m id delegated buddy b =
      loading (ownContext m.signature) (.v 2) (Int32.ofNat id) []
        (.invoke .interface .fixed [.v 0, .v 2, .v 1] Interceptor.invokeUnInit)
        (testFlag (ownFork b).origin ++
          (initCode delegated (b.nextLabel + 2) buddy ++ runInitBody)) := by
    simp [constructorBlock, loading, askInterceptor, testFlag]
  rw [hCode]
  apply Hands.of_holdsAt
  apply Loads.holdsAt_of_line
  · exact {
      narrow := rfl
      straight := fun i hi => (hFront i hi).1
      keeps := by simp
      plain := ⟨rfl, rfl⟩
      away := by simp [placed] }
  · exact fun i hi => (hFront i hi).2
  · simp

/-- The code between the load of the number and the second call with it. -/
def betweenCalls : List Instruction :=
  .invoke .interface .fixed [.v 0, .v 2, .v 1] Interceptor.invokeUnInit ::
    (testFlag (ownFork b).origin ++ (initCode delegated (b.nextLabel + 2) buddy ++
      [.instancePut .object (.p 0) (.v 1) Interceptor.thisArg]))

private theorem betweenCalls_keeps :
    ∀ i ∈ betweenCalls delegated buddy b, Register.v 2 ∉ i.writtenSlots := by
  intro i hi
  simp only [betweenCalls, testFlag, List.mem_append, List.mem_cons, List.not_mem_nil,
    or_false] at hi
  rcases hi with rfl | (rfl | rfl | rfl) | hi | rfl
  · exact List.not_mem_nil
  · decide
  · decide
  · exact List.not_mem_nil
  · exact initCode_keeps _ _ _ i hi
  · exact List.not_mem_nil

/-- Control gets from the start of the code for the interceptor to the second call. -/
theorem goesTo_initBody (hPlaced : (placed (constructorBlock m id delegated buddy b)).Nodup) :
    GoesTo (constructorBlock m id delegated buddy b) 0
      ((ownContext m.signature).length + 1 + (betweenCalls delegated buddy b).length) := by
  let start : List Instruction :=
    ownContext m.signature ++ .const (.v 2) (Int32.ofNat id) ::
      .invoke .interface .fixed [.v 0, .v 2, .v 1] Interceptor.invokeUnInit ::
      testFlag (ownFork b).origin
  let inits := initCode delegated (b.nextLabel + 2) buddy
  have hCode : constructorBlock m id delegated buddy b = start ++ (inits ++ runInitBody) := by
    simp [constructorBlock, askInterceptor, start, inits, testFlag]
  have hCode' : constructorBlock m id delegated buddy b =
      (start ++ inits) ++ ([.instancePut .object (.p 0) (.v 1) Interceptor.thisArg] ++
        runInitBody.tail) :=
    hCode.trans (List.append_assoc start inits runInitBody).symm
  have hStart : ∀ i ∈ start, i.fallsThrough = true := by
    intro i hi
    simp only [start, testFlag, List.mem_append, List.mem_cons, List.not_mem_nil, or_false] at hi
    rcases hi with hi | rfl | rfl | rfl | rfl | rfl
    · exact (ownContext_ignores m.signature i hi).straight.2
    all_goals rfl
  have hAsked := goesTo_line (List.append_ne_nil_of_right_ne_nil inits (List.cons_ne_nil _ _))
    start [] (hCode.trans (List.nil_append _).symm) hStart
  have hInit := goesTo_initCode hCode hPlaced (List.cons_ne_nil _ _)
  have hPut := goesTo_line (List.cons_ne_nil _ _)
    [.instancePut .object (.p 0) (.v 1) Interceptor.thisArg] (start ++ inits) hCode' (by simp; rfl)
  have hLength : (start ++ inits).length + 1 =
      (ownContext m.signature).length + 1 + (betweenCalls delegated buddy b).length := by
    simp only [start, inits, betweenCalls, testFlag, List.length_append, List.length_cons,
      List.length_nil]
    omega
  rw [List.length_nil, Nat.zero_add] at hAsked
  rw [List.length_singleton, hLength, List.length_append] at hPut
  exact (hAsked.trans hInit).trans hPut

private theorem constructorBlock_hands_initBody
    (hPlaced : (placed (constructorBlock m id delegated buddy b)).Nodup) :
    Hands (constructorBlock m id delegated buddy b) id .fixed Interceptor.invokeInitBody := by
  have hCode : constructorBlock m id delegated buddy b =
      loading (ownContext m.signature) (.v 2) (Int32.ofNat id) (betweenCalls delegated buddy b)
        (.invoke .interface .fixed [.v 0, .v 2, .v 1] Interceptor.invokeInitBody)
        [.returnVoid] := by
    simp [constructorBlock, loading, askInterceptor, betweenCalls, testFlag, runInitBody]
  have hGoes := goesTo_initBody m id delegated buddy b hPlaced
  have hLoads : Loads (ownContext m.signature) (.v 2) (betweenCalls delegated buddy b)
      (.invoke .interface .fixed [.v 0, .v 2, .v 1] Interceptor.invokeInitBody) [.returnVoid] := {
    narrow := rfl
    straight := fun i hi => (ownContext_ignores m.signature i hi).straight.1
    keeps := betweenCalls_keeps delegated buddy b
    plain := ⟨rfl, rfl⟩
    away := by simp [Instruction.targets] }
  rw [hCode] at hGoes ⊢
  exact .of_holdsAt (hLoads.holdsAt hGoes)

/-- **A constructor hands its number over** in both phases, if its labels are placed once. -/
theorem constructorBlock_hands
    (hPlaced : (placed (constructorBlock m id delegated buddy b)).Nodup) :
    HandsOver (constructorBlock m id delegated buddy b) id .init :=
  ⟨constructorBlock_hands_unInit m id delegated buddy b,
    constructorBlock_hands_initBody m id delegated buddy b hPlaced⟩

end

end Intercept

end HotPatch
