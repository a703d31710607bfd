import HotPatch.Proofs.Intercept.Shape

/-!
# The slots that intercepted code names

Of all fields that the code for the interceptor names, only two go by the name
of an interceptor slot: the slot of the method's class, and in static
initializers the one of the process.  Each is named by an access to a static
field, and the body in between names what it named before
(`Intercepted.exists_slotRefs`).
-/

namespace HotPatch

/-- The field that an instruction names, and whether it takes it for a static one. -/
def Instruction.field? : Instruction → Option (FieldRef × Bool)
  | .instanceGet _ _ _ field | .instancePut _ _ _ field => some (field, false)
  | .staticGet _ _ field | .staticPut _ _ field => some (field, true)
  | _ => none

/-- The name of all interceptor slots. -/
def Interceptor.slotName : MemberName := Interceptor.clinitSlot.name

/-- The field that an instruction names, if it goes by the name of an interceptor slot. -/
def Instruction.slotRef? (i : Instruction) : Option (FieldRef × Bool) :=
  i.field?.filter (·.1.name == Interceptor.slotName)

namespace Code

/-- The fields with the name of an interceptor slot that code names, in order. -/
def slotRefs (code : List Instruction) : List (FieldRef × Bool) :=
  code.filterMap Instruction.slotRef?

private theorem slotRefs_cons (i : Instruction) (code : List Instruction) :
    slotRefs (i :: code) = i.slotRef?.toList ++ slotRefs code := by
  unfold slotRefs
  rw [List.filterMap_cons]
  cases i.slotRef? <;> rfl

private theorem slotRefs_append (code code' : List Instruction) :
    slotRefs (code ++ code') = slotRefs code ++ slotRefs code' := List.filterMap_append

/-- Code that is put together from pieces that name no slot. -/
theorem slotRefs_flatMap_eq_nil {α : Type} {l : List α} {piece : α → List Instruction}
    (h : ∀ a ∈ l, slotRefs (piece a) = []) : slotRefs (l.flatMap piece) = [] := by
  refine List.filterMap_eq_nil_iff.mpr fun i hi => ?_
  obtain ⟨a, ha, hi⟩ := List.mem_flatMap.mp hi
  exact List.filterMap_eq_nil_iff.mp (h a ha) i hi

end Code

/-- The fields with the name of an interceptor slot that a method names. -/
def Method.slotRefs (m : Method) : List (FieldRef × Bool) :=
  match m.body with
  | none => []
  | some b => Code.slotRefs b.instructions

namespace Intercept

open Code

/-! ## Pieces of code -/

private theorem slotRefs_storeAll (array index scratch : Register)
    (values : List (Register × ValueType)) :
    slotRefs (Boxing.storeAll array index scratch values) = [] := by
  refine slotRefs_flatMap_eq_nil fun p _ => ?_
  obtain ⟨⟨value, type⟩, k⟩ := p
  cases type <;> rfl

private theorem slotRefs_unbox (dst : Register) (type : ValueType) :
    slotRefs (Boxing.unbox dst type) = [] := by
  cases type with
  | base p => rfl
  | object cls =>
      rw [Boxing.unbox]
      split <;> rfl
  | array element => rfl

private theorem slotRefs_loadAll (array index : Register) (values : List (Register × ValueType)) :
    slotRefs (Boxing.loadAll array index values) = [] :=
  slotRefs_flatMap_eq_nil fun _ _ => slotRefs_unbox _ _

variable (m : Method) (id : Nat) (arguments : List (Register × ValueType))

private theorem slotRefs_commonCall : slotRefs (commonCall m id arguments) = [] := by
  have hEnd : slotRefs [.const (.v 1) (Int32.ofNat id),
      if m.isStatic then .const (.v 2) 0 else .move .object (.v 2) (.p 0),
      .invoke .interface .fixed [.v 0, .v 1, .v 2, .v 3] Interceptor.invokeCommon] = [] := by
    cases m.isStatic <;> rfl
  rw [commonCall, slotRefs_cons, slotRefs_cons, slotRefs_append, slotRefs_storeAll, hEnd]
  rfl

private theorem slotRefs_shapeCall (shape : String) (locals : Nat) :
    slotRefs (shapeCall m id shape locals arguments) = [] := by
  have hMove : ∀ first, slotRefs
      (if first = 0 then [] else [.move .object (.v first) (.v 0)]) = [] := by
    intro first
    split <;> rfl
  cases hStatic : m.isStatic <;>
    · simp only [shapeCall, slotRefs_append, hMove, hStatic]
      rfl

private theorem slotRefs_methodCall (locals : Nat) (dispatch : Dispatch) :
    slotRefs (methodCall m id locals dispatch) = [] := by
  cases dispatch with
  | special shape => exact slotRefs_shapeCall m id _ shape locals
  | init => exact slotRefs_commonCall m id _
  | common => exact slotRefs_commonCall m id _

private theorem slotRefs_returnAnswer (result : Option ValueType) (origin : Label) :
    slotRefs (returnAnswer result origin) = [] := by
  cases result with
  | none => rfl
  | some type =>
      cases type with
      | base p => cases p <;> rfl
      | object cls =>
          unfold returnAnswer narrowTo
          by_cases hRoot : cls = .object
          · simp only [hRoot, if_true]
            rfl
          · simp only [hRoot, if_false]
            rfl
      | array element => rfl

private theorem slotRefs_makeContext : slotRefs (makeContext arguments) = [] := by
  unfold makeContext
  simp only
  split
  · rfl
  · exact slotRefs_storeAll _ _ _ _

private theorem slotRefs_callInit (target : MethodRef) : slotRefs (callInit target arguments) =
    [] := by
  have hUnpack : slotRefs
      (if arguments.isEmpty then [] else
        .instanceGet .object (.v 3) (.v 1) Interceptor.callArgs ::
          Boxing.loadAll (.v 3) (.v 4) arguments) = [] := by
    split
    · rfl
    · exact slotRefs_loadAll _ _ _
  unfold callInit
  simp only
  split <;>
    · simp only [slotRefs_cons, slotRefs_append, hUnpack]
      rfl

private theorem slotRefs_initCode (delegated : MethodRef) (next : Nat) (buddy : Option MethodRef) :
    slotRefs (initCode delegated next buddy) = [] := by
  cases buddy with
  | none => exact slotRefs_callInit _ delegated
  | some buddy =>
      simp only [initCode, initCall, chooseInit, slotRefs_append, slotRefs_callInit]
      rfl

private theorem slotRefs_constructorBlock (delegated : MethodRef) (buddy : Option MethodRef)
    (b : Body) :
    slotRefs (constructorBlock m id delegated buddy b) = [] := by
  simp only [constructorBlock, ownContext, slotRefs_append, slotRefs_makeContext, slotRefs_initCode]
  rfl

private theorem slotRefs_announceClass (owner : ClassName) (origin checkFlags : Label) :
    slotRefs (announceClass owner origin checkFlags) = [(Interceptor.slot owner, true)] := rfl

private theorem slotRefs_guardCode (b : Body) {slot : FieldRef}
    (hSlot : slot.name = Interceptor.slotName) :
    slotRefs (guardCode b slot) = (slot, true) :: slotRefs b.instructions := by
  have hTest : (Instruction.staticGet .object (.v 0) slot).slotRef? = some (slot, true) := by
    simp [Instruction.slotRef?, Instruction.field?, hSlot]
  rw [guardCode, slotRefs_append, slotRefs_append, Boxing.forkCode, slotRefs_cons, hTest]
  exact List.append_nil _

/-! ## Whole bodies -/

private theorem Intercepted.slot_name {m m' : Method} {slot : FieldRef}
    (h : Intercepted m slot m') :
    slot.name = Interceptor.slotName := by
  cases h <;> rfl

/-- **The slots that interception adds to what a method names**: the slot of its class, and in a
static initializer first that of the process. -/
theorem Intercepted.exists_slotRefs {m m' : Method} {slot : FieldRef} (h : Intercepted m slot m')
    (hBody : m.hasBody = true) :
    ∃ before after, m'.slotRefs = before ++ m.slotRefs ++ after ∧
      (before ++ after = [(Interceptor.slot m.owner, true)] ∨
        before ++ after =
          [(Interceptor.clinitSlot, true), (Interceptor.slot m.owner, true)]) := by
  obtain ⟨b, hb⟩ := Option.isSome_iff_exists.mp hBody
  have hSome := h.body.2
  rw [hb] at hSome
  obtain ⟨b', hb'⟩ := Option.isSome_iff_exists.mp hSome
  have hRefs : m.slotRefs = slotRefs b.instructions := by rw [Method.slotRefs, hb]
  have hRefs' : m'.slotRefs = slotRefs b'.instructions := by rw [Method.slotRefs, hb']
  have hGuard := slotRefs_guardCode b h.slot_name
  cases h with
  | method dispatch h =>
      obtain ⟨id, _, hNew⟩ := method_eq_ok hb hb' h
      obtain ⟨locals, _, hCode, _⟩ := methodBody_eq_ok hNew
      refine ⟨[_], [], ?_, .inl rfl⟩
      rw [hRefs', hRefs, hCode, slotRefs_append, slotRefs_append, slotRefs_methodCall,
        slotRefs_returnAnswer, hGuard]
      rfl
  | constructor form superclass h =>
      obtain ⟨id, call, buddy, _, _, _, hNew⟩ := constructor_eq_ok hb hb' h
      obtain ⟨hCode, _⟩ := constructorBody_eq_ok hNew
      refine ⟨[_], [], ?_, .inl rfl⟩
      rw [hRefs', hRefs, hCode, slotRefs_append, slotRefs_constructorBlock, hGuard]
      rfl
  | staticInit h =>
      obtain ⟨hCode, _⟩ := staticInit_eq_ok hb hb' h
      refine ⟨[_], [_], ?_, .inr rfl⟩
      rw [hRefs', hRefs, hCode, slotRefs_append, slotRefs_announceClass, hGuard]
      rfl

end Intercept

end HotPatch
