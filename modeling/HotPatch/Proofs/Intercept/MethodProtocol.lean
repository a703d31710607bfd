import HotPatch.Proofs.Bytecode.Interpreter
import HotPatch.Proofs.Intercept.ClosedBody
import HotPatch.Proofs.Intercept.Packing

/-!
# What an intercepted method does

While an interceptor is installed, an intercepted method asks it first, with
the method's number, the receiver and all arguments, and then either runs its
body or returns what the interceptor answered.  The arguments arrive packed
in an array or one by one, by the method's dispatch; what arrives is the same.
-/

namespace HotPatch.Intercept

/-- The method of an interceptor that is asked. -/
def entry : Dispatch → MethodRef
  | .special shape => Interceptor.invokeShape shape
  | _ => Interceptor.invokeCommon

section Protocol

variable {V H E R : Type} (M : Runtime V H E R)

/-- What is passed for a receiver; null if there is none. -/
def IsReceiver (receiver : Option V) (value : V) : Prop :=
  match receiver with
  | none => M.isZero value
  | some object => value = object

/-- How the arguments of a method arrive: one by one in a call over a range of registers, or as one
array. -/
def Passes (call : Call V H) (arguments : List (ValueType × List V)) (rest : List V) :
    Dispatch → Prop
  | .special _ => call.form = .range ∧ rest = arguments.flatMap Prod.snd
  | _ => call.form = .fixed ∧ ∃ array, rest = [array] ∧ M.Packs call.before array arguments

/-- The call asks the interceptor about a method, with all there is to know. -/
structure Asks (id : Nat) (dispatch : Dispatch) (receiver : Option V)
    (arguments : List (ValueType × List V)) (interceptor : V) (call : Call V H) : Prop where
  kind : call.kind = .interface
  target : call.target = entry dispatch
  values : ∃ object rest,
    call.values = interceptor :: M.int (.ofNat id) :: object :: rest ∧
      IsReceiver M receiver object ∧ Passes M call arguments rest dispatch

variable {M} {m : Method} {id : Nat} {registers : Register → V} {heap : H} {interceptor : V}
  {receiver : Option V} {arguments : List (ValueType × List V)}

/-- What a call to the interceptor leaves behind, made after some boxing. -/
def Asked (M : Runtime V H E R) (id : Nat) (dispatch : Dispatch) (receiver : Option V)
    (arguments : List (ValueType × List V)) (interceptor : V) (start : Register → V)
    (calls : List (Call V H)) (registers : Register → V) (heap : H) : Prop :=
  (∃ boxing call, calls = boxing ++ [call] ∧ (∀ c ∈ boxing, c.boxes) ∧
      Asks M id dispatch receiver arguments interceptor call ∧ call.after = heap) ∧
    SameParameters start registers ∧
    ∃ answer, M.answer heap = [answer] ∧ (M.isZero answer ∨ M.IsResult heap answer)

/-- The receiver of a call to the interceptor, in a local. -/
theorem goes_receiver {n : Nat} {rest : List Instruction}
    {required : List (Call V H) → (Register → V) → H → Prop}
    (hCalled : Boxing.CalledWith m.signature receiver arguments registers)
    (hReceiver : receiver.isSome = !m.isStatic)
    (hRest : ∀ object heap', IsReceiver M receiver object → M.Keeps [] heap heap' →
      M.Goes rest (Function.update registers (.v n) object) heap' required) :
    M.Goes ((if m.isStatic then .const (.v n) 0 else .move .object (.v n) (.p 0)) :: rest)
      registers heap required := by
  cases receiver with
  | none =>
      rw [if_pos (by simpa using hReceiver)]
      exact Runtime.goes_sets rfl rfl rfl (M.const rfl) fun h₁ k₁ =>
        hRest _ h₁ ((M.isZero_int 0).mpr rfl) k₁
  | some object =>
      rw [if_neg (by simpa using hReceiver)]
      exact Runtime.goes_sets rfl rfl rfl (M.move rfl) fun h₁ k₁ =>
        hRest _ h₁ hCalled.receiver_eq k₁

/-- The code of a call with an array of arguments, up to the call. -/
def commonLine (m : Method) (id : Nat) : List Instruction :=
  let declared := Boxing.declared m.signature (!m.isStatic)
  .const (.v 3) (Int32.ofNat declared.length) :: .newArray (.v 3) (.v 3) .objectArray ::
    (Boxing.storeAll (.v 3) (.v 1) (.v 2) declared ++
      [.const (.v 1) (Int32.ofNat id),
        if m.isStatic then .const (.v 2) 0 else .move .object (.v 2) (.p 0)])

/-- The common call is a line that packs the arguments, and the call. -/
theorem commonCall_eq (m : Method) (id : Nat) :
    commonCall m id (Boxing.declared m.signature (!m.isStatic)) = commonLine m id ++
      [.invoke .interface .fixed [.v 0, .v 1, .v 2, .v 3] Interceptor.invokeCommon] := by
  simp [commonCall, commonLine]

/-- The line packs number, receiver and arguments, and changes no parameter. -/
theorem goes_commonLine (hCalled : Boxing.CalledWith m.signature receiver arguments registers)
    (hReceiver : receiver.isSome = !m.isStatic)
    (hCount : m.signature.parameters.length < 2 ^ 31) :
    M.Goes (commonLine m id) registers heap fun boxing registers' heap' =>
      (∀ c ∈ boxing, c.boxes) ∧ SameParameters registers registers' ∧
        registers' (.v 0) = registers (.v 0) ∧ registers' (.v 1) = M.int (.ofNat id) ∧
        IsReceiver M receiver (registers' (.v 2)) ∧ M.Packs heap' (registers' (.v 3)) arguments ∧
        ∀ value type, M.fits heap value type → M.fits heap' value type := by
  have hLength : (Boxing.declared m.signature (!m.isStatic)).length =
      m.signature.parameters.length := Boxing.length_layout _ _ _
  refine Runtime.goes_newArray rfl (hLength ▸ hCount) fun array h₁ k₁ hLook => .append ?_
  have hSame₁ : SameParameters registers (Function.update registers (.v 3) array) :=
    .update (fun _ _ => rfl) 3 array
  refine (Boxing.goes_storeAll (by decide) (by decide) (by decide)
    (fun x => Boxing.isParameter_of_mem_declared) (hLength ▸ hCount) (Function.update_self _ _ _)
    hLook (by simp)).mono ?_
  rintro boxing registers₂ h₂ ⟨hBoxing, k₂, hSame, hPacks⟩
  have hSame₂ : SameParameters registers registers₂ := hSame₁.trans fun r hr =>
    hSame r (Register.ne_v_of_params hr 1) (Register.ne_v_of_params hr 2)
  refine Runtime.goes_sets rfl rfl rfl (M.const rfl) fun h₃ k₃ => ?_
  refine goes_receiver (hCalled.same (hSame₂.update 1 _)) hReceiver fun object h₄ hObject k₄ => ?_
  rw [← hReceiver, (hCalled.same hSame₁).held_declared] at hPacks
  have hArray : Function.update (Function.update registers₂ (.v 1) (M.int (.ofNat id))) (.v 2)
      object (.v 3) = array := by
    simp [hSame]
  refine ⟨by simpa using hBoxing, (hSame₂.update 1 _).update 2 _, by simp [hSame], by simp,
    by simpa using hObject, ?_, fun _ _ hFits => k₄.fits (k₃.fits (k₂.fits (k₁.fits hFits)))⟩
  rw [hArray]
  exact (k₃.trans k₄).packs hPacks

private theorem goes_commonCall
    (hCalled : Boxing.CalledWith m.signature receiver arguments registers)
    (hReceiver : receiver.isSome = !m.isStatic)
    (hCount : m.signature.parameters.length < 2 ^ 31)
    (hReturns : M.returns Interceptor.invokeCommon)
    (hInterceptor : registers (.v 0) = interceptor) :
    M.Goes (commonCall m id (Boxing.declared m.signature (!m.isStatic))) registers heap
      (Asked M id .common receiver arguments interceptor registers) := by
  rw [commonCall_eq]
  refine .append ((goes_commonLine hCalled hReceiver hCount).mono ?_)
  rintro boxing registers₁ h₁ ⟨hBoxing, hSame, hv0, hv1, hObject, hPacks, -⟩
  have hValues : ([.v 0, .v 1, .v 2, .v 3].flatMap Register.slots).map registers₁ =
      [interceptor, M.int (.ofNat id), registers₁ (.v 2), registers₁ (.v 3)] := by
    simp [Register.slots_v, hv0, hv1, hInterceptor]
  refine Runtime.goes_call hValues (M.call hReturns) fun out hOut => ⟨hOut.control, ?_⟩
  exact ⟨⟨boxing, _, rfl, hBoxing, ⟨rfl, rfl, _, _, rfl, hObject, rfl, _, rfl, hPacks⟩, rfl⟩,
    hSame, hOut.result rfl⟩

/-- The first of the locals right below the parameters that a call over a range of registers
starts with.  The interceptor's own register is never among them. -/
theorem shapeCall_eq {shape : String} {locals : Nat} (hLocals : methodScratch ≤ locals) :
    ∃ first, 0 < first ∧
      shapeCall m id shape locals (Boxing.declared m.signature (!m.isStatic)) =
      .move .object (.v first) (.v 0) :: .const (.v (first + 1)) (.ofNat id) ::
        (if m.isStatic then
          [.const (.v (first + 2)) 0, .invoke .interface .range
            (.v first :: .v (first + 1) :: .v (first + 2) ::
              (Boxing.declared m.signature (!m.isStatic)).map Prod.fst)
            (Interceptor.invokeShape shape)]
        else
          [.invoke .interface .range
            (.v first :: .v (first + 1) :: .p 0 ::
              (Boxing.declared m.signature (!m.isStatic)).map Prod.fst)
            (Interceptor.invokeShape shape)]) := by
  have hFour : 4 ≤ locals := hLocals
  cases hStatic : m.isStatic with
  | true =>
      have hFirst : ¬ locals - 3 = 0 := by omega
      exact ⟨locals - 3, by omega, by simp [shapeCall, hStatic, hFirst]⟩
  | false =>
      have hFirst : ¬ locals - 2 = 0 := by omega
      exact ⟨locals - 2, by omega, by simp [shapeCall, hStatic, hFirst]⟩

/-- The call itself, with everything in its register. -/
theorem goes_invokeShape {shape : String} {first : Nat} {r : Register} {start : Register → V}
    (hCalled : Boxing.CalledWith m.signature receiver arguments registers)
    (hReceiver : receiver.isSome = !m.isStatic)
    (hReturns : M.returns (Interceptor.invokeShape shape)) (hNarrow : r.wide = false)
    (hSame : SameParameters start registers) (hInterceptor : registers (.v first) = interceptor)
    (hId : registers (.v (first + 1)) = M.int (.ofNat id))
    (hObject : IsReceiver M receiver (registers r)) :
    M.Goes [.invoke .interface .range (.v first :: .v (first + 1) :: r ::
        (Boxing.declared m.signature (!m.isStatic)).map Prod.fst)
        (Interceptor.invokeShape shape)] registers heap
      (Asked M id (.special shape) receiver arguments interceptor start) := by
  have hValues : ((.v first :: .v (first + 1) :: r ::
      (Boxing.declared m.signature (!m.isStatic)).map Prod.fst).flatMap Register.slots).map
        registers = interceptor :: M.int (.ofNat id) :: registers r ::
      arguments.flatMap Prod.snd := by
    rw [← hReceiver, ← hCalled.held_declared, ← Boxing.map_slots_eq_held]
    simp [Register.slots_v, Register.slots_of_narrow hNarrow, hInterceptor, hId]
  refine Runtime.goes_call hValues (M.call hReturns) fun out hOut => ⟨hOut.control, ?_⟩
  exact ⟨⟨[], _, rfl, nofun, ⟨rfl, rfl, registers r, _, rfl, hObject, rfl, rfl⟩, rfl⟩, hSame,
    hOut.result rfl⟩

private theorem goes_shapeCall {shape : String} {locals : Nat}
    (hCalled : Boxing.CalledWith m.signature receiver arguments registers)
    (hReceiver : receiver.isSome = !m.isStatic) (hLocals : methodScratch ≤ locals)
    (hReturns : M.returns (Interceptor.invokeShape shape))
    (hInterceptor : registers (.v 0) = interceptor) :
    M.Goes (shapeCall m id shape locals (Boxing.declared m.signature (!m.isStatic))) registers heap
      (Asked M id (.special shape) receiver arguments interceptor registers) := by
  obtain ⟨first, hFirst, hLine⟩ : ∃ first, _ := shapeCall_eq hLocals
  have hRead : (Instruction.move .object (.v first) (.v 0)).readSlots.map registers =
      [interceptor] := by
    rw [← hInterceptor]
    rfl
  rw [hLine]
  refine Runtime.goes_sets rfl rfl hRead (M.move rfl) fun h₁ k₁ => ?_
  refine Runtime.goes_sets rfl rfl rfl (M.const rfl) fun h₂ k₂ => ?_
  have hSame : SameParameters registers (Function.update (Function.update registers (.v first)
      interceptor) (.v (first + 1)) (M.int (.ofNat id))) :=
    SameParameters.update (.update (fun _ _ => rfl) first _) (first + 1) _
  cases receiver with
  | none =>
      rw [if_pos (by simpa using hReceiver)]
      refine Runtime.goes_sets rfl rfl rfl (M.const rfl) fun h₃ k₃ => ?_
      refine goes_invokeShape (hCalled.same (hSame.update _ _)) hReceiver hReturns rfl
        (hSame.update _ _) ?_ ?_ ?_
      · simp
      · simp
      · simp [IsReceiver, M.isZero_int]
  | some object =>
      rw [if_neg (by simpa using hReceiver)]
      refine goes_invokeShape (hCalled.same hSame) hReceiver hReturns rfl hSame ?_ ?_ ?_
      · simp
      · simp
      · exact (hCalled.same hSame).receiver_eq

/-- **The question.**  Whatever the dispatch, the interceptor is asked once, after nothing but
boxing, and the parameters stay as they are. -/
theorem goes_methodCall {dispatch : Dispatch} {locals : Nat}
    (hCalled : Boxing.CalledWith m.signature receiver arguments registers)
    (hReceiver : receiver.isSome = !m.isStatic) (hLocals : methodScratch ≤ locals)
    (hCount : m.signature.parameters.length < 2 ^ 31) (hReturns : M.returns (entry dispatch))
    (hInterceptor : registers (.v 0) = interceptor) :
    M.Goes (methodCall m id locals dispatch) registers heap
      (Asked M id dispatch receiver arguments interceptor registers) := by
  cases dispatch with
  | special shape => exact goes_shapeCall hCalled hReceiver hLocals hReturns hInterceptor
  | common => exact goes_commonCall hCalled hReceiver hCount hReturns hInterceptor
  | init =>
      refine (goes_commonCall hCalled hReceiver hCount hReturns hInterceptor).mono ?_
      rintro calls registers' heap' ⟨⟨boxing, call, rfl, hBoxing, hAsks, hAfter⟩, hRest⟩
      exact ⟨⟨boxing, call, rfl, hBoxing, ⟨hAsks.kind, hAsks.target, hAsks.values⟩, hAfter⟩, hRest⟩

/-! ## The answer -/

/-- The values that a method returns for an answer: those of the field for its type. -/
def resultOf (M : Runtime V H E R) (heap : H) (answer : V) : Option ValueType → Option (List V)
  | none => some []
  | some type => M.look heap (.field answer (Interceptor.resultValue type))

private theorem exists_resultOf {answer : V} (h : M.IsResult heap answer)
    (result : Option ValueType) :
    ∃ values, resultOf M heap answer result = some values := by
  cases result with
  | none => exact ⟨[], rfl⟩
  | some type => exact Option.isSome_iff_exists.mp (h type)

/-- The cast of an answered reference to the type of the method's result succeeds. -/
def Narrows (M : Runtime V H E R) (heap : H) (values : List V) : Option ValueType → Prop
  | none => True
  | some (.base _) => True
  | some type => ∀ object ∈ values, M.Casts heap object type

/-- What a result can be narrowed to stays while nothing is stored. -/
theorem Narrows.keep {heap' : H} {values : List V} {result : Option ValueType}
    (h : Narrows M heap values result) (hKeeps : M.Keeps [] heap heap') :
    Narrows M heap' values result := by
  match result, h with
  | none, _ => trivial
  | some (.base _), _ => trivial
  | some (.object _), h => exact fun object hMem => hKeeps.casts (h object hMem)
  | some (.array _), h => exact fun object hMem => hKeeps.casts (h object hMem)

private theorem type_resultValue_width (type : ValueType) :
    (Interceptor.resultValue type).type.width = type.width := by
  cases type <;> rfl

private theorem goes_narrowTo {type : ValueType} {values : List V}
    (hValues : ((Register.v 1).withWide type.isWide).slots.map registers = values)
    (hNarrows : Narrows M heap values (some type)) :
    M.Goes (narrowTo (.v 1) type) registers heap fun calls registers' heap' =>
      calls = [] ∧ registers' = registers ∧ M.Keeps [] heap heap' := by
  cases type with
  | base p => exact ⟨rfl, rfl, .refl _ _⟩
  | object cls =>
      have hCasts := hNarrows (registers (.v 1)) (hValues ▸ List.mem_cons_self)
      show M.Goes (if cls = .object then [] else _) _ _ _
      split
      · exact ⟨rfl, rfl, .refl _ _⟩
      · next hCls => exact Boxing.goes_checkCast rfl (hCasts hCls)
  | array element =>
      have hCasts := hNarrows (registers (.v 1)) (hValues ▸ List.mem_cons_self)
      exact Boxing.goes_checkCast rfl hCasts

private theorem goes_loadResult {type : ValueType} {answer : V} {values : List V}
    (hAnswer : registers (.v 0) = answer)
    (hLook : M.look heap (.field answer (Interceptor.resultValue type)) = some values)
    (hNarrows : Narrows M heap values (some type)) :
    M.Goes (.instanceGet (.of (Interceptor.resultValue type).type)
        ((Register.v 1).withWide type.isWide) (.v 0) (Interceptor.resultValue type) ::
        narrowTo (.v 1) type) registers heap fun calls registers' heap' =>
      calls = [] ∧ M.Keeps [] heap heap' ∧
        ((Register.v 1).withWide type.isWide).slots.map registers' = values := by
  have hWidth : values.length = ((Register.v 1).withWide type.isWide).width := by
    rw [M.field_width hLook, type_resultValue_width]
    rfl
  subst hAnswer
  refine Runtime.goes_yields rfl rfl (M.instanceGet hLook hWidth) ?_
  intro registers₁ h₁ hWrote k₁
  refine (goes_narrowTo hWrote.on (hNarrows.keep k₁)).mono ?_
  rintro calls registers₂ h₂ ⟨rfl, rfl, k₂⟩
  exact ⟨rfl, k₁.trans k₂, hWrote.on⟩

/-- Without another call, and without any of the body, the method returns the values. -/
def Returns (M : Runtime V H E R) (b : Body) (code : List Instruction) (values : List V)
    (heap : H) (c : Config V H R) : Prop :=
  M.Leads code (Added b) c fun calls d => calls = [] ∧
    ∃ heap', d = .ended (M.returned values) heap' ∧ M.Keeps [] heap heap'

section Answer

variable {b : Body} {slot : FieldRef} {code call : List Instruction} {result : Option ValueType}
  {answer : V} {k : Nat}

/-- The answer is looked at: null leads back to the body, and anything else on. -/
theorem leads_answer {t : Nat} {goal : List (Call V H) → Config V H R → Prop}
    (hCode : code = guardCode b slot ++ (call ++ returnAnswer result (ownFork b).origin))
    (hk : (guardCode b slot ++ call).length = k) (hAnswer : M.answer heap = [answer])
    (ht : M.isZero answer ∧ t = 2 ∨ ¬ M.isZero answer ∧ t = k + 2)
    (hRest : ∀ heap', M.Keeps [] heap heap' → M.Leads code (Added b)
      (.running t (Function.update registers (.v 0) answer) heap') goal) :
    M.Leads code (Added b) (.running k registers heap) goal := by
  obtain ⟨rest, hSplit⟩ : ∃ rest, code = (guardCode b slot ++ call) ++
      ([.moveResult .object (.v 0)] ++ (.branchZero .eq (.v 0) (ownFork b).origin :: rest)) :=
    ⟨_, hCode.trans (List.append_assoc _ _ _).symm⟩
  have hStart : blockStart b ≤ k := by
    rw [← hk, List.length_append, length_guardCode]
    exact Nat.le_add_right _ _
  have hBranch : code[k + 1]? = some (.branchZero .eq (.v 0) (ownFork b).origin) := by
    rw [hSplit, ← hk, List.getElem?_append_right (Nat.le_succ _)]
    simp
  have hMove : M.Goes [.moveResult .object (.v 0)] registers heap fun calls registers' heap' =>
      calls = [] ∧ registers' = Function.update registers (.v 0) answer ∧
        M.Keeps [] heap heap' :=
    Runtime.goes_result hAnswer rfl fun _ h₁ hWrote k₁ => ⟨rfl, hWrote.eq_update rfl, k₁⟩
  refine hMove.leads hSplit hk (fun t ht _ => added_of_blockStart_le (Nat.le_trans hStart ht)) ?_
  rintro calls registers₁ h₁ ⟨rfl, rfl, k₁⟩
  refine Runtime.leads_branch t (.inl rfl) (added_of_blockStart_le (Nat.le_succ_of_le hStart))
    hBranch rfl (Function.update_self _ _ _) (ht.imp_left ?_) fun h₂ k₂ => hRest h₂ (k₁.trans k₂)
  rintro ⟨hNull, rfl⟩
  exact ⟨hNull, position?_origin hCode⟩

private theorem entersBody_of_null
    (hCode : code = guardCode b slot ++ (call ++ returnAnswer result (ownFork b).origin))
    (hk : (guardCode b slot ++ call).length = k) (hAnswer : M.answer heap = [answer])
    (hNull : M.isZero answer) {start : Register → V} (hSame : SameParameters start registers) :
    EntersBody M b code start heap (.running k registers heap) :=
  leads_answer hCode hk hAnswer (.inl ⟨hNull, rfl⟩) fun h₁ k₁ =>
    leads_body (added_of_lt (by decide)) hCode ⟨rfl, _, h₁, rfl, hSame.update 0 answer, k₁⟩

private theorem returns_of_answer {values : List V}
    (hCode : code = guardCode b slot ++ (call ++ returnAnswer result (ownFork b).origin))
    (hk : (guardCode b slot ++ call).length = k) (hAnswer : M.answer heap = [answer])
    (hSet : ¬ M.isZero answer) (hValues : resultOf M heap answer result = some values)
    (hNarrows : Narrows M heap values result) :
    Returns M b code values heap (.running k registers heap) := by
  refine leads_answer hCode hk hAnswer (.inr ⟨hSet, rfl⟩) fun h₁ k₁ => ?_
  have hStart : blockStart b ≤ k := by
    rw [← hk, List.length_append, length_guardCode]
    exact Nat.le_add_right _ _
  cases result with
  | none =>
      obtain rfl : [] = values := Option.some.inj hValues
      have hAt : code[k + 2]? = some .returnVoid := by
        rw [hCode, ← List.append_assoc, ← hk, List.getElem?_append_right (Nat.le_add_right _ 2)]
        simp [returnAnswer, Boxing.returnAs]
      exact Runtime.leads_stop (added_of_blockStart_le (Nat.le_add_right_of_le hStart)) hAt rfl rfl
        M.returnVoid fun h₂ k₂ => ⟨rfl, h₂, rfl, k₁.trans k₂⟩
  | some type =>
      have hSplit : code = (guardCode b slot ++ call ++ [.moveResult .object (.v 0),
            .branchZero .eq (.v 0) (ownFork b).origin]) ++
          ((.instanceGet (.of (Interceptor.resultValue type).type)
              ((Register.v 1).withWide type.isWide) (.v 0) (Interceptor.resultValue type) ::
              narrowTo (.v 1) type) ++
            [Boxing.returnAs (some type) (.v 1)]) := by
        rw [hCode, List.append_assoc, List.append_assoc]
        rfl
      have hLength : (guardCode b slot ++ call ++ [Instruction.moveResult .object (.v 0),
          .branchZero .eq (.v 0) (ownFork b).origin]).length = k + 2 := by
        rw [List.length_append, hk]
        rfl
      refine (goes_loadResult (Function.update_self _ _ _) (k₁.look List.not_mem_nil hValues)
        (hNarrows.keep k₁)).leads hSplit hLength ?_ ?_
      · intro t ht _
        exact added_of_blockStart_le (by omega)
      rintro calls registers₂ h₂ ⟨rfl, k₂, hRead⟩
      have hReads : (Boxing.returnAs (some type) (.v 1)).readSlots.map registers₂ = values :=
        (congrArg (List.map registers₂) (List.append_nil _)).trans hRead
      exact Runtime.leads_stop (added_of_blockStart_le (by omega))
        (Machine.getElem?_behind hSplit hLength) rfl hReads M.returnValue
        fun h₃ k₃ => ⟨rfl, h₃, rfl, (k₁.trans k₂).trans k₃⟩

end Answer

/--
**The interceptor decides.**  Take any runtime, and a method that was intercepted, with an
interceptor in the slot of its class, and call it with any receiver and arguments.  Every run of the
new body first asks the interceptor, exactly once and after no other calls than those that box
arguments: with the method's number, the receiver (null if the method is static) and the arguments,
all in place or all in one array.  If the answer is null, the run then enters the body as it was,
with every parameter as it was; a body that control cannot run out of is entered once.  If not, the
run executes none of the body, and the method returns what the answer holds in the field for its
result.
-/
theorem method_asksInterceptor (M : Runtime V H E R) {dispatch : Dispatch} {m m' : Method}
    {b b' : Body} (hDone : Intercept.method dispatch m = .ok m') (hBody : m.body = some b)
    (hBody' : m'.body = some b') (hReturns : M.returns (entry dispatch)) {receiver : Option V}
    {arguments : List (ValueType × List V)} {registers : Register → V}
    (hCalled : Boxing.CalledWith m.signature receiver arguments registers)
    (hReceiver : receiver.isSome = !m.isStatic) {heap : H} {interceptor : V}
    (hSlot : M.look heap (.static (Interceptor.slot m.owner)) = some [interceptor])
    (hSet : ¬ M.isZero interceptor) :
    ∃ id, m.id = some id ∧
      (∀ j < b.instructions.length, b'.instructions[bodyStart + j]? = b.instructions[j]?) ∧
      (Code.Closed b.instructions → ∀ registers' heap',
        Confined M.toMachine b b'.instructions (.running bodyStart registers' heap')) ∧
      M.Leads b'.instructions (Added b) (.running 0 registers heap) fun calls c =>
        ∃ boxing call answer, calls = boxing ++ [call] ∧ (∀ x ∈ boxing, x.boxes) ∧
          Asks M id dispatch receiver arguments interceptor call ∧
          M.answer call.after = [answer] ∧
          (M.isZero answer → EntersBody M b b'.instructions registers call.after c) ∧
          (¬ M.isZero answer →
            ∃ values, resultOf M call.after answer m.signature.result = some values ∧
              (Narrows M call.after values m.signature.result →
                Returns M b b'.instructions values call.after c)) := by
  obtain ⟨id, hId, hNew⟩ := method_eq_ok hBody hBody' hDone
  have hCount := Signature.length_lt_of_slots (slots_le_of_methodBody hNew)
  obtain ⟨locals, hLocals, hCode, hCheck⟩ := methodBody_eq_ok hNew
  have hNodup := Body.nodup_placed hCheck
  refine ⟨id, hId, fun j hj => getElem?_body hCode hj,
    fun hClosed => confined_bodyStart hCode hNodup hClosed, ?_⟩
  refine leads_guard hCode hNodup hSlot hSet fun h₁ k₁ => ?_
  have hSame₁ : SameParameters registers (Function.update registers (.v 0) interceptor) :=
    .update (fun _ _ => rfl) 0 interceptor
  refine (goes_methodCall (hCalled.same hSame₁) hReceiver hLocals hCount hReturns
    (Function.update_self _ _ _)).leads hCode (length_guardCode b _)
    (fun t ht _ => added_of_blockStart_le ht) ?_
  rintro calls registers₂ h₂ ⟨⟨boxing, call, rfl, hBoxing, hAsks, rfl⟩, hSame₂, answer, hAnswer,
    hKind⟩
  have hk : (guardCode b (Interceptor.slot m.owner) ++ methodCall m id locals dispatch).length =
      blockStart b + (methodCall m id locals dispatch).length := by
    rw [List.length_append, length_guardCode]
  refine .done ⟨boxing, call, answer, List.append_nil _, hBoxing, hAsks, hAnswer,
    fun hNull => entersBody_of_null hCode hk hAnswer hNull (hSame₁.trans hSame₂), fun hSet => ?_⟩
  obtain ⟨values, hValues⟩ := exists_resultOf (hKind.resolve_left hSet) m.signature.result
  exact ⟨values, hValues, returns_of_answer hCode hk hAnswer hSet hValues⟩

end Protocol

/-- Picks one of its parameters, which are wide, narrow and an object. -/
def pickMethod : Method where
  owner := .of "a/Main"
  name := ⟨"pick"⟩
  signature := ⟨[.base .long, .base .int, .rootObject], some (.base .long)⟩
  access := {}
  id := some 5
  body := some ⟨0, 5, [.returnValue .wide ((Register.p 1).withWide true)], 0⟩

/-- Values for the parameters; the object is the receiver itself. -/
def pickArguments : List (ValueType × List Interpreter.Datum) :=
  [(.base .long, [.int 7, .int 8]), (.base .int, [.int 9]), (.rootObject, [.ref 0])]

/-- With a patch in place the method answers with its result, and never gets to its body. -/
theorem method_asksInterceptor_pick :
    let M := Interpreter.runtime Interpreter.patch
    ∃ m' b b', Intercept.method .common pickMethod = .ok m' ∧ pickMethod.body = some b ∧
      m'.body = some b' ∧
      M.Leads b'.instructions (Added b)
        (.running 0 (Interpreter.entered [.ref 0, .int 7, .int 8, .int 9, .ref 0])
          (Interpreter.installed (.of "a/Main"))) fun calls c =>
        ∃ boxing call heap, calls = boxing ++ [call] ∧ (∀ x ∈ boxing, x.boxes) ∧
          Asks M 5 .common (some (.ref 0)) pickArguments (.ref 1) call ∧
          c = .ended [.int 0, .int 0] heap := by
  have hCalled : Boxing.CalledWith pickMethod.signature (some (.ref 0)) pickArguments
      (Interpreter.entered [.ref 0, .int 7, .int 8, .int 9, .ref 0]) :=
    ⟨rfl, by decide, fun j value => Interpreter.entered_p⟩
  have hSlot : (Interpreter.runtime Interpreter.patch).look
      (Interpreter.installed (.of "a/Main")) (.static (Interceptor.slot pickMethod.owner)) =
      some [.ref 1] := rfl
  obtain ⟨m', b', hDone, hBody'⟩ : ∃ m' b', Intercept.method .common pickMethod = .ok m' ∧
      m'.body = some b' := ⟨_, _, rfl, rfl⟩
  obtain ⟨id, hId, _, _, hLeads⟩ := method_asksInterceptor _ hDone rfl hBody' rfl hCalled rfl hSlot
    (Interpreter.ref_ne_zero 1)
  obtain rfl : 5 = id := Option.some.inj hId
  refine ⟨m', _, b', hDone, rfl, hBody', hLeads.makes.trans ?_⟩
  rintro calls c ⟨⟨boxing, call, answer, rfl, hBoxing, hAsks, hAnswer, _, hReturns⟩, hMade⟩
  have hTarget : call.target = Interceptor.invokeCommon := hAsks.target
  have hAfter : call.after = call.before.alloc Interpreter.blank := by
    rw [Interpreter.after_of_makes (hMade call (by simp)) (by rw [hTarget]; rfl), hTarget]
    rfl
  rw [hAfter] at hAnswer hReturns
  obtain rfl : .ref call.before.objects.length = answer := (List.cons.inj hAnswer).1
  obtain ⟨values, hValues, hReturns⟩ := hReturns (Interpreter.ref_ne_zero _)
  obtain rfl : [.int 0, .int 0] = values := Option.some.inj
    ((Interpreter.look_blank Interpreter.Store.item?_alloc_self _).symm.trans hValues)
  refine (hReturns trivial).trans ?_
  rintro more d ⟨rfl, heap, rfl, _⟩
  exact .done ⟨boxing, call, heap, by simp, hBoxing, hAsks, rfl⟩

end HotPatch.Intercept
