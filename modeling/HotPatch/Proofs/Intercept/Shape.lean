import HotPatch.Intercept.StaticInit
import HotPatch.Intercept.Constructor
import HotPatch.Proofs.Bytecode.Encodable

/-!
# The shape of intercepted bodies

Methods, constructors and static initializers are intercepted in one way: the
test of a slot, the instructions as they were, and behind them the code for
the interceptor.  The two labels of the test are the first that the body has
not handed out.
-/

namespace HotPatch.Intercept

/-- A method and what interception makes of it, with the slot that is tested. -/
inductive Intercepted (m : Method) : FieldRef → Method → Prop where
  | method {m' : Method} (dispatch : Dispatch) : Intercept.method dispatch m = .ok m' →
      Intercepted m (Interceptor.slot m.owner) m'
  | constructor {m' : Method} (form : InitForm) (superclass : Option ClassDef) :
      Intercept.constructor form superclass m = .ok m' →
      Intercepted m (Interceptor.slot m.owner) m'
  | staticInit {m' : Method} : Intercept.staticInit m = .ok m' →
      Intercepted m Interceptor.clinitSlot m'

/-- The labels for the test of a slot in front of a body. -/
def ownFork (b : Body) : Boxing.Fork := ⟨⟨b.nextLabel⟩, ⟨b.nextLabel + 1⟩⟩

/-- The body behind the test of a slot, up to where the code for the interceptor starts. -/
def guardCode (b : Body) (slot : FieldRef) : List Instruction :=
  Boxing.forkCode (.v 0) slot (ownFork b) ++ b.instructions ++ [.label (ownFork b).intercept]

@[simp] theorem append_instructions (d : Draft) (code : List Instruction) :
    (d.append code).instructions = d.instructions ++ code := rfl

@[simp] theorem skipLabels_instructions (d : Draft) (count : Nat) :
    (d.skipLabels count).instructions = d.instructions := rfl

theorem guardBody_instructions (b : Body) (scratch : Nat) (slot : FieldRef) :
    (guardBody b scratch slot).2.instructions = guardCode b slot := rfl

/-- Code that starts with the guard. -/
def Guarded (b : Body) (slot : FieldRef) (b' : Body) : Prop :=
  (∃ block, b'.instructions = guardCode b slot ++ block) ∧ b'.error? = none

/-- The call to the interceptor of an ordinary method, in a frame with the given locals. -/
def methodCall (m : Method) (id locals : Nat) : Dispatch → List Instruction
  | .special shape => shapeCall m id shape locals (Boxing.declared m.signature (!m.isStatic))
  | _ => commonCall m id (Boxing.declared m.signature (!m.isStatic))

/-- The first register into which an argument of a constructor is unpacked. -/
def initStart (target : MethodRef) : Nat := if ranged target then 6 else 5

/-- The registers into which the arguments of a constructor are unpacked, however many there are. -/
def initLayout (target : MethodRef) : List (Register × ValueType) :=
  Boxing.layout .locals (initStart target) target.signature.parameters

/-- The call of a constructor on the receiver, with arguments unpacked from the context. -/
def initCall (target : MethodRef) : List Instruction := callInit target (initLayout target)

/-- There are registers for all arguments of a constructor. -/
def InitFits (target : MethodRef) : Prop :=
  initStart target + ValueType.totalWidth target.signature.parameters ≤ Register.maxIndex

theorem InitFits.length_lt {target : MethodRef} (h : InitFits target) :
    target.signature.parameters.length < 0x80000000 :=
  ValueType.length_lt_of_totalWidth (Nat.le_trans (Nat.le_add_left _ _) h)

/-- The arguments of a constructor are laid out in a row exactly as long as their registers can be
counted. -/
theorem initArguments_eq_ok_iff {target : MethodRef} {registers : List (Register × ValueType)} :
    initArguments target = .ok registers ↔ InitFits target ∧ registers = initLayout target :=
  Boxing.assign_eq_ok_iff (by split <;> decide)

/-- The code that initializes the receiver of an intercepted constructor; with a buddy constructor
there are two ways, and two labels from `next` on. -/
def initCode (delegated : MethodRef) (next : Nat) : Option MethodRef → List Instruction
  | none => initCall delegated
  | some buddy => chooseInit (initCall delegated) (initCall buddy) ⟨next⟩ ⟨next + 1⟩

/-- Make a context that holds the declared arguments of a constructor. -/
def ownContext (s : Signature) : List Instruction := makeContext (Boxing.declared s true)

/-- The whole code for the interceptor of a constructor. -/
def constructorBlock (m : Method) (id : Nat) (delegated : MethodRef) (buddy : Option MethodRef)
    (b : Body) : List Instruction :=
  ownContext m.signature ++ askInterceptor id (ownFork b).origin ++
    initCode delegated (b.nextLabel + 2) buddy ++ runInitBody

/-- The draft of an intercepted method. -/
def methodDraft (m : Method) (id : Nat) (dispatch : Dispatch) (b : Body) : Draft :=
  ((guardBody b methodScratch (Interceptor.slot m.owner)).2.append
    (methodCall m id (guardBody b methodScratch (Interceptor.slot m.owner)).2.locals
      dispatch)).append (returnAnswer m.signature.result (ownFork b).origin)

/-- The body of an intercepted method is its draft, as long as the parameters can be counted. -/
theorem methodBody_eq {m : Method} (id : Nat) (dispatch : Dispatch) (b : Body)
    (h : m.signature.slots (!m.isStatic) ≤ Register.maxIndex) :
    methodBody m id dispatch b = (methodDraft m id dispatch b).finish m.parameterRegisters := by
  have hOk := Boxing.parameters_eq_ok_iff.mpr ⟨h, rfl⟩
  simp only [methodBody, hOk, bind, Except.bind]
  cases dispatch <;> rfl

/-- A method that was intercepted has parameters that can be counted. -/
theorem slots_le_of_methodBody {m : Method} {id : Nat} {dispatch : Dispatch} {b b' : Body}
    (h : methodBody m id dispatch b = .ok b') :
    m.signature.slots (!m.isStatic) ≤ Register.maxIndex := by
  cases hArguments : Boxing.parameters m.signature (!m.isStatic) with
  | error e => simp [methodBody, hArguments, bind, Except.bind] at h
  | ok registers => exact (Boxing.parameters_eq_ok_iff.mp hArguments).1

/-- There is room for the scratch registers. -/
theorem methodScratch_le_locals (b : Body) (slot : FieldRef) :
    methodScratch ≤ (guardBody b methodScratch slot).2.locals :=
  Nat.le_trans (Nat.le_max_right b.locals methodScratch) (Nat.le_max_left _ _)

/-- The code of an intercepted method, whose scratch registers are among the locals. -/
theorem methodBody_eq_ok {m : Method} {id : Nat} {dispatch : Dispatch} {b b' : Body}
    (h : methodBody m id dispatch b = .ok b') :
    ∃ locals, methodScratch ≤ locals ∧
      b'.instructions = guardCode b (Interceptor.slot m.owner) ++
        (methodCall m id locals dispatch ++
          returnAnswer m.signature.result (ownFork b).origin) ∧
      b'.error? = none := by
  rw [methodBody_eq id dispatch b (slots_le_of_methodBody h)] at h
  obtain ⟨_, rfl, hCheck⟩ := Draft.finish_eq_ok_iff.mp h
  refine ⟨_, methodScratch_le_locals b (Interceptor.slot m.owner), ?_, hCheck⟩
  rw [methodDraft, append_instructions, append_instructions, guardBody_instructions,
    List.append_assoc]

/-- What goes into an intercepted method: its number. -/
theorem method_eq_ok {dispatch : Dispatch} {m m' : Method} {b b' : Body}
    (hBody : m.body = some b) (hBody' : m'.body = some b')
    (h : Intercept.method dispatch m = .ok m') :
    ∃ id, m.id = some id ∧ methodBody m id dispatch b = .ok b' := by
  simp only [Intercept.method, hBody] at h
  split at h
  · cases h
  · next id hId =>
      split at h
      · cases h
      · next hNew =>
          cases h
          obtain rfl := Option.some.inj hBody'
          exact ⟨id, hId, hNew⟩

/-- The code of an intercepted static initializer. -/
theorem staticInit_eq_ok {m m' : Method} {b b' : Body} (hBody : m.body = some b)
    (hBody' : m'.body = some b') (h : Intercept.staticInit m = .ok m') :
    b'.instructions = guardCode b Interceptor.clinitSlot ++
        announceClass m.owner (ownFork b).origin ⟨b.nextLabel + 2⟩ ∧
      b'.error? = none := by
  have hEq : staticInitBody m.owner b =
      (((guardBody b clinitScratch Interceptor.clinitSlot).2.skipLabels 1).append
        (announceClass m.owner (ownFork b).origin ⟨b.nextLabel + 2⟩)).finish 0 := rfl
  simp only [Intercept.staticInit, hBody] at h
  split at h
  · cases h
  · next hNew =>
      cases h
      obtain rfl := Option.some.inj hBody'
      obtain ⟨_, rfl, hCheck⟩ := Draft.finish_eq_ok_iff.mp (hEq.symm.trans hNew)
      refine ⟨?_, hCheck⟩
      rw [append_instructions, skipLabels_instructions, guardBody_instructions]

/-- There are registers for the parameters of a constructor and for everything it unpacks. -/
structure ConstructorFits (m : Method) (delegated : MethodRef) (buddy : Option MethodRef) :
    Prop where
  own : m.signature.slots true ≤ Register.maxIndex
  delegated : InitFits delegated
  buddy : ∀ target ∈ buddy, InitFits target

/-- The draft of an intercepted constructor. -/
def constructorDraft (m : Method) (id : Nat) (delegated : MethodRef) (buddy : Option MethodRef)
    (b : Body) : Draft :=
  (((guardBody b initScratch (Interceptor.slot m.owner)).2.skipLabels
    (if buddy.isSome then 2 else 0)).append (constructorBlock m id delegated buddy b))

/-- The body of an intercepted constructor is its draft, as long as its registers can be
counted. -/
theorem constructorBody_eq {m : Method} (id : Nat) {delegated : MethodRef}
    {buddy : Option MethodRef} (b : Body) (h : ConstructorFits m delegated buddy) :
    constructorBody m id delegated buddy b =
      (constructorDraft m id delegated buddy b).finish m.parameterRegisters := by
  have hOwn := Boxing.parameters_eq_ok_iff.mpr ⟨h.own, rfl⟩
  have hDelegated := initArguments_eq_ok_iff.mpr ⟨h.delegated, rfl⟩
  cases buddy with
  | none =>
      simp only [constructorBody, hOwn, hDelegated, bind, Except.bind, pure, Except.pure]
      refine congrArg (Draft.finish · m.parameterRegisters) ?_
      simp [constructorDraft, constructorBlock, ownContext, initCode, initCall, Draft.append,
        Draft.skipLabels]
      rfl
  | some target =>
      have hBuddy := initArguments_eq_ok_iff.mpr ⟨h.buddy target rfl, rfl⟩
      simp only [constructorBody, hOwn, hDelegated, hBuddy, bind, Except.bind, pure, Except.pure]
      refine congrArg (Draft.finish · m.parameterRegisters) ?_
      simp [constructorDraft, constructorBlock, ownContext, initCode, initCall, Draft.append,
        Draft.skipLabels]
      rfl

/-- A constructor that was intercepted has registers that can be counted, to pack from and to unpack
into. -/
theorem constructorFits_of_constructorBody {m : Method} {id : Nat} {delegated : MethodRef}
    {buddy : Option MethodRef} {b b' : Body}
    (h : constructorBody m id delegated buddy b = .ok b') :
    ConstructorFits m delegated buddy := by
  cases hOwn : Boxing.parameters m.signature true with
  | error e => simp [constructorBody, hOwn, bind, Except.bind] at h
  | ok registers =>
      cases hDelegated : initArguments delegated with
      | error e => simp [constructorBody, hOwn, hDelegated, bind, Except.bind] at h
      | ok unpacked =>
          refine ⟨(Boxing.parameters_eq_ok_iff.mp hOwn).1,
            (initArguments_eq_ok_iff.mp hDelegated).1, ?_⟩
          rintro target rfl
          cases hBuddy : initArguments target with
          | error e => simp [constructorBody, hOwn, hDelegated, hBuddy, bind, Except.bind] at h
          | ok context => exact (initArguments_eq_ok_iff.mp hBuddy).1

/-- What an intercepted constructor is made of. -/
theorem constructorBody_eq_ok {m : Method} {id : Nat} {delegated : MethodRef}
    {buddy : Option MethodRef} {b b' : Body}
    (h : constructorBody m id delegated buddy b = .ok b') :
    b'.instructions =
        guardCode b (Interceptor.slot m.owner) ++ constructorBlock m id delegated buddy b ∧
      b'.error? = none := by
  rw [constructorBody_eq id b (constructorFits_of_constructorBody h)] at h
  obtain ⟨_, rfl, hCheck⟩ := Draft.finish_eq_ok_iff.mp h
  exact ⟨rfl, hCheck⟩

/-- What goes into an intercepted constructor: its number, the delegated call and the buddy. -/
theorem constructor_eq_ok {form : InitForm} {superclass : Option ClassDef} {m m' : Method}
    {b b' : Body} (hBody : m.body = some b) (hBody' : m'.body = some b')
    (h : Intercept.constructor form superclass m = .ok m') :
    ∃ id call buddy, m.id = some id ∧
      Delegation.find (superclass.map (·.name)) m b = .ok call ∧
      buddyTarget form m.owner superclass = .ok buddy ∧
      constructorBody m id call.method buddy b = .ok b' := by
  cases hId : m.id with
  | none => simp [Intercept.constructor, hId] at h
  | some id =>
      simp only [Intercept.constructor, hId, hBody] at h
      cases hFind : Delegation.find (superclass.map (·.name)) m b with
      | error e => simp [hFind, bind, Except.bind] at h
      | ok call =>
          cases hBuddy : buddyTarget form m.owner superclass with
          | error e => simp [hFind, hBuddy, bind, Except.bind] at h
          | ok buddy =>
              simp only [hFind, hBuddy, bind, Except.bind] at h
              split at h
              · cases h
              · next b'' hNew =>
                  cases h
                  obtain rfl : b'' = b' := Option.some.inj hBody'
                  exact ⟨id, call, buddy, rfl, rfl, rfl, hNew⟩

/-- Interception replaces the body of a method that has one, and nothing else. -/
theorem Intercepted.body {m m' : Method} {slot : FieldRef} (h : Intercepted m slot m') :
    m' = { m with body := m'.body } ∧ m'.body.isSome = m.body.isSome := by
  cases h with
  | method dispatch h =>
      unfold Intercept.method at h
      split at h
      · cases h
      · split at h
        · cases h
          exact ⟨rfl, rfl⟩
        · next hBody =>
            split at h
            · cases h
            · cases h
              exact ⟨rfl, by rw [hBody]; rfl⟩
  | constructor form superclass h =>
      cases hBody : m.body with
      | none =>
          unfold Intercept.constructor at h
          split at h
          · cases h
          · simp only [hBody] at h
            cases h
            exact ⟨rfl, by rw [hBody]⟩
      | some b =>
          unfold Intercept.constructor at h
          split at h
          · cases h
          · simp only [hBody] at h
            cases hFind : Delegation.find (superclass.map (·.name)) m b with
            | error e => simp [hFind, bind, Except.bind] at h
            | ok call =>
                cases hBuddy : buddyTarget form m.owner superclass with
                | error e => simp [hFind, hBuddy, bind, Except.bind] at h
                | ok buddy =>
                    simp only [hFind, hBuddy, bind, Except.bind] at h
                    split at h
                    · cases h
                    · cases h
                      exact ⟨rfl, rfl⟩
  | staticInit h =>
      unfold Intercept.staticInit at h
      split at h
      · cases h
        exact ⟨rfl, rfl⟩
      · next hBody =>
          split at h
          · cases h
          · cases h
            exact ⟨rfl, by rw [hBody]; rfl⟩

/-- Every intercepted body starts with the guard, and passes the check. -/
theorem Intercepted.guarded {m m' : Method} {slot : FieldRef} {b b' : Body}
    (hIntercepted : Intercepted m slot m') (hBody : m.body = some b)
    (hBody' : m'.body = some b') : Guarded b slot b' := by
  cases hIntercepted with
  | method dispatch h =>
      obtain ⟨id, _, hNew⟩ := method_eq_ok hBody hBody' h
      obtain ⟨_, _, hCode, hCheck⟩ := methodBody_eq_ok hNew
      exact ⟨⟨_, hCode⟩, hCheck⟩
  | constructor form superclass h =>
      obtain ⟨id, call, buddy, _, _, _, hNew⟩ := constructor_eq_ok hBody hBody' h
      obtain ⟨hCode, hCheck⟩ := constructorBody_eq_ok hNew
      exact ⟨⟨_, hCode⟩, hCheck⟩
  | staticInit h =>
      obtain ⟨hCode, hCheck⟩ := staticInit_eq_ok hBody hBody' h
      exact ⟨⟨_, hCode⟩, hCheck⟩

end HotPatch.Intercept
