import HotPatch.Proofs.Bytecode.Interpreter
import HotPatch.Proofs.Intercept.ClosedBody
import HotPatch.Proofs.Intercept.InitOrder
import HotPatch.Proofs.Intercept.Packing

/-!
# What an intercepted constructor does

While an interceptor is installed, an intercepted constructor asks it in two
phases.  It first makes a context that holds the arguments, and hands it over
with the constructor's number.  The flag in the context then says whether the
patch takes over.  If not, the body runs.  If it does, one constructor is
called on the receiver, with arguments that the patch left in the context,
and only then the interceptor sees the receiver.

All this happens once if control cannot run out of the body.  Out of another
body it comes to the first phase again (`constructor_asksTwice`).
-/

namespace HotPatch.Intercept

section Protocol

variable {V H E R : Type} (M : Runtime V H E R)

/-- The call makes the context. -/
structure MakesContext (context : V) (call : Call V H) : Prop where
  kind : call.kind = .static
  target : call.target = Interceptor.newInitContext
  answer : M.answer call.after = [context]

/-- The call hands a constructor's number and context to the interceptor. -/
structure Consults (target : MethodRef) (id : Nat) (interceptor context : V) (call : Call V H) :
    Prop where
  kind : call.kind = .interface
  target : call.target = target
  values : call.values = [interceptor, M.int (.ofNat id), context]

/-- The arguments of a constructor, if it has any, are in its context. -/
def ShowsArguments (heap : H) (context : V) (arguments : List (ValueType × List V)) : Prop :=
  arguments ≠ [] → ∃ array, M.look heap (.field context Interceptor.initArgs) = some [array] ∧
    M.Packs heap array arguments

/-- The context has objects that can be turned into arguments for a constructor call. -/
def Supplies (heap : H) (context : V) (arguments : List (ValueType × List V)) : Prop :=
  arguments ≠ [] → ∃ array objects rest,
    M.look heap (.field context Interceptor.callArgs) = some [array] ∧
      M.look heap (.array array) = some (objects ++ rest) ∧
      List.Forall₂ (M.Converts heap) objects arguments

/-- The call initializes the receiver. -/
structure Initializes (target : MethodRef) (receiver : V)
    (arguments : List (ValueType × List V)) (call : Call V H) : Prop where
  kind : call.kind = .direct
  target : call.target = target
  values : call.values = receiver :: arguments.flatMap Prod.snd

/-- What the code for the interceptor holds on to from the first phase to the second. -/
structure Ready (id : Nat) (interceptor context receiver : V) (registers : Register → V)
    (heap : H) : Prop where
  v0 : registers (.v 0) = interceptor
  v1 : registers (.v 1) = context
  v2 : registers (.v 2) = M.int (.ofNat id)
  p0 : registers (.p 0) = receiver
  fields : M.IsContext heap context

variable {M} {id : Nat} {interceptor context receiver : V} {registers : Register → V} {heap : H}
  {arguments : List (ValueType × List V)}

private theorem ne_v_of_low {r : Register} {n : Nat} (h : r.bank = .locals → r.index < 3)
    (hn : 3 ≤ n) : r ≠ .v n := by
  rintro rfl
  exact Nat.not_lt.mpr hn (h rfl)

/-- Nothing is lost by writing other locals. -/
theorem Ready.of_same {registers' : Register → V} {heap' : H}
    (h : Ready M id interceptor context receiver registers heap)
    (hSame : ∀ r : Register, (r.bank = .locals → r.index < 3) → registers' r = registers r)
    (hStays : M.Stays heap heap') : Ready M id interceptor context receiver registers' heap' where
  v0 := (hSame _ fun _ => by decide).trans h.v0
  v1 := (hSame _ fun _ => by decide).trans h.v1
  v2 := (hSame _ fun _ => by decide).trans h.v2
  p0 := (hSame _ fun hBank => by cases hBank).trans h.p0
  fields := h.fields.stays hStays

/-! ## The first phase -/

/-- The arguments are packed into an array, and the array is shown in the context. -/
private theorem goes_showArguments {s : Signature}
    (hCalled : Boxing.CalledWith s (some receiver) arguments registers)
    (hCount : s.parameters.length < 2 ^ 31) (hv1 : registers (.v 1) = context)
    (hContext : M.IsContext heap context) :
    M.Goes (.const (.v 2) (.ofNat (Boxing.declared s true).length) ::
        .newArray (.v 2) (.v 2) .objectArray ::
        .instancePut .object (.v 2) (.v 1) Interceptor.initArgs ::
        Boxing.storeAll (.v 2) (.v 3) (.v 4) (Boxing.declared s true)) registers heap
      fun boxing registers' heap' =>
        (∀ c ∈ boxing, c.boxes) ∧ registers' (.v 0) = registers (.v 0) ∧
        registers' (.v 1) = context ∧ SameParameters registers registers' ∧
        M.IsContext heap' context ∧
        M.look heap' (.field context Interceptor.initArgs) = some [registers' (.v 2)] ∧
        M.Packs heap' (registers' (.v 2)) arguments ∧
        (∀ value, M.look heap (.field context Interceptor.initFlag) = some value →
          M.look heap' (.field context Interceptor.initFlag) = some value) ∧
        ∀ value type, M.fits heap value type → M.fits heap' value type := by
  have hLength : (Boxing.declared s true).length = s.parameters.length :=
    Boxing.length_layout _ _ _
  refine Runtime.goes_newArray rfl (hLength ▸ hCount) fun array h₁ k₁ hArray => ?_
  have hContext₁ : M.IsContext h₁ context := hContext.stays k₁.stays_of_nil
  have hReads : (Instruction.instancePut .object (.v 2) (.v 1) Interceptor.initArgs).readSlots.map
      (Function.update registers (.v 2) array) = [array, context] := by
    simp [Instruction.readSlots, Instruction.reads, Instruction.written?, Instruction.registers,
      Register.slots_v, hv1]
  have hType : ∀ p, Interceptor.initArgs.type ≠ .base p := by
    intro p hEq
    cases hEq
  refine Runtime.goes_plain rfl rfl hReads
    (M.instancePut (hContext₁ _ List.mem_cons_self) hType) fun out₂ hChanges => ?_
  refine ⟨hChanges.control, ?_⟩
  refine (Boxing.goes_storeAll (by decide) (by decide) (by decide)
    (fun x => Boxing.isParameter_of_mem_declared) (hLength ▸ hCount)
    (Function.update_self _ _ _) (hChanges.keeps.look (by simp) hArray) (by simp)).mono ?_
  rintro boxing registers₃ h₃ ⟨hBoxing, k₃, hSame₃, hPacks⟩
  have hSame : SameParameters registers (Function.update registers (.v 2) array) :=
    .update (fun _ _ => rfl) 2 array
  have hHeld : Boxing.held _ (Boxing.declared s true) = arguments :=
    (hCalled.same hSame).held_declared
  rw [hHeld] at hPacks
  have hv2 : registers₃ (.v 2) = array := by simp [hSame₃]
  have hStays : M.Stays h₁ h₃ := by
    refine World.Stays.trans (hChanges.keeps.stays ?_) (k₃.stays ?_)
    · simp [hChanges.now]
    · obtain ⟨elements, hElements, _⟩ := hPacks
      simp [hElements]
  rw [hv2]
  refine ⟨hBoxing, by simp [hSame₃], by simp [hSame₃, hv1], ?_, hContext₁.stays hStays,
    k₃.look (by simp) hChanges.now, hPacks, fun _ hFlag => ?_, fun _ _ hFits => ?_⟩
  · exact hSame.trans fun r hr =>
      hSame₃ r (Register.ne_v_of_params hr 3) (Register.ne_v_of_params hr 4)
  · have hOther : Interceptor.initFlag ≠ Interceptor.initArgs := by decide
    exact k₃.look (by simp) (hChanges.keeps.look (by simp [hOther])
      (k₁.look List.not_mem_nil hFlag))
  · exact k₃.fits (hChanges.keeps.fits (k₁.fits hFits))

/-- A constructor makes one context and shows its arguments in it, with all its parameters as they
were. -/
theorem goes_ownContext {s : Signature}
    (hCalled : Boxing.CalledWith s (some receiver) arguments registers)
    (hCount : s.parameters.length < 2 ^ 31) :
    M.Goes (ownContext s) registers heap fun calls registers' heap' =>
      ∃ made boxing context, calls = made :: boxing ∧ MakesContext M context made ∧
        (∀ c ∈ boxing, c.boxes) ∧ registers' (.v 0) = registers (.v 0) ∧
        registers' (.v 1) = context ∧ SameParameters registers registers' ∧
        M.IsContext heap' context ∧ ShowsArguments M heap' context arguments ∧
        (arguments ≠ [] →
          M.look heap' (.field context Interceptor.initArgs) = some [registers' (.v 2)]) ∧
        (∀ value, M.look made.after (.field context Interceptor.initFlag) = some value →
          M.look heap' (.field context Interceptor.initFlag) = some value) ∧
        ∀ value type, M.fits heap value type → M.fits heap' value type := by
  refine Runtime.goes_call rfl M.newContext ?_
  rintro out ⟨context, hAnswers, hContext⟩
  refine ⟨hAnswers.control, Runtime.goes_result hAnswers.answer rfl ?_⟩
  intro registers₁ h₁ hWrote k₁
  obtain rfl := hWrote.eq_update rfl
  have hSame₁ : SameParameters registers (Function.update registers (.v 1) context) :=
    .update (fun _ _ => rfl) 1 context
  have hContext₁ : M.IsContext h₁ context := hContext.stays k₁.stays_of_nil
  have hFits₁ : ∀ value type, M.fits heap value type → M.fits h₁ value type :=
    fun _ _ hFits => k₁.fits (hAnswers.keeps.fits hFits)
  have hv0 : Function.update registers (.v 1) context (.v 0) = registers (.v 0) :=
    Function.update_of_ne (by simp) _ _
  show M.Goes (if (Boxing.declared s true).isEmpty then [] else _) _ _ _
  split
  · next hEmpty =>
      have hNone : arguments = [] := by
        rw [← List.length_eq_zero_iff, ← hCalled.held_declared, Boxing.held, List.length_map]
        simpa using hEmpty
      exact ⟨_, [], context, rfl, ⟨rfl, rfl, hAnswers.answer⟩, List.forall_mem_nil _, hv0,
        Function.update_self _ _ _, hSame₁, hContext₁, fun h => (h hNone).elim,
        fun h => (h hNone).elim, fun _ => k₁.look List.not_mem_nil, hFits₁⟩
  · refine (goes_showArguments (hCalled.same hSame₁) hCount (Function.update_self _ _ _)
      hContext₁).mono ?_
    rintro boxing registers₂ h₂ ⟨hBoxing, hv0', hv1, hSame₂, hContext₂, hField, hPacks, hFlag,
      hFits₂⟩
    exact ⟨_, boxing, context, rfl, ⟨rfl, rfl, hAnswers.answer⟩, hBoxing, hv0'.trans hv0, hv1,
      hSame₁.trans hSame₂, hContext₂, fun _ => ⟨_, hField, hPacks⟩, fun _ => hField,
      fun value hLook => hFlag value (k₁.look List.not_mem_nil hLook),
      fun value type hFits => hFits₂ value type (hFits₁ value type hFits)⟩

/-- The code of the first phase, up to the question. -/
def firstPhase (s : Signature) (id : Nat) : List Instruction :=
  ownContext s ++ [.const (.v 2) (.ofNat id),
    .invoke .interface .fixed [.v 0, .v 2, .v 1] Interceptor.invokeUnInit]

/-- **The first phase.**  The context is made, the arguments are put into it, and the interceptor
is asked once. -/
theorem goes_firstPhase {s : Signature}
    (hCalled : Boxing.CalledWith s (some receiver) arguments registers)
    (hCount : s.parameters.length < 2 ^ 31) (hReturns : M.returns Interceptor.invokeUnInit)
    (hInterceptor : registers (.v 0) = interceptor) :
    M.Goes (firstPhase s id) registers heap fun calls registers' heap' =>
      ∃ made boxing asked context, calls = made :: (boxing ++ [asked]) ∧
        MakesContext M context made ∧ (∀ c ∈ boxing, c.boxes) ∧
        Consults M Interceptor.invokeUnInit id interceptor context asked ∧
        ShowsArguments M asked.before context arguments ∧
        (∀ value, M.look made.after (.field context Interceptor.initFlag) = some value →
          M.look asked.before (.field context Interceptor.initFlag) = some value) ∧
        asked.after = heap' ∧
        Ready M id interceptor context receiver registers' heap' ∧
        SameParameters registers registers' := by
  refine .append ((goes_ownContext hCalled hCount).mono ?_)
  rintro calls registers₁ h₁ ⟨made, boxing, context, rfl, hMade, hBoxing, hv0, hv1, hSame₁,
    hContext, hShows, -, hFlag, -⟩
  refine Runtime.goes_sets rfl rfl rfl (M.const rfl) fun h₂ k₂ => ?_
  have hValues : ([.v 0, .v 2, .v 1].flatMap Register.slots).map
      (Function.update registers₁ (.v 2) (M.int (.ofNat id))) =
      [interceptor, M.int (.ofNat id), context] := by
    simp [Register.slots_v, hv0, hv1, hInterceptor]
  have hSame₂ := hSame₁.update 2 (M.int (.ofNat id))
  refine Runtime.goes_call hValues (M.call hReturns) fun out hOut => ⟨hOut.control, ?_⟩
  refine ⟨made, boxing, _, context, rfl, hMade, hBoxing, ⟨rfl, rfl, rfl⟩, ?_,
    fun value hValue => k₂.look List.not_mem_nil (hFlag value hValue), rfl, ?_, hSame₂⟩
  · intro hSome
    obtain ⟨array, hField, hPacks⟩ := hShows hSome
    exact ⟨array, k₂.look List.not_mem_nil hField, k₂.packs hPacks⟩
  · exact {
      v0 := by simp [hv0, hInterceptor]
      v1 := by simp [hv1]
      v2 := Function.update_self _ _ _
      p0 := (hCalled.same hSame₂).receiver_eq
      fields := hContext.stays (k₂.stays_of_nil.trans hOut.stays) }

/-! ## A constructor call with arguments from the context -/

/-- The arguments in a context stay while nothing is stored. -/
theorem Supplies.keep {heap' : H} (h : Supplies M heap context arguments)
    (hKeeps : M.Keeps [] heap heap') : Supplies M heap' context arguments := by
  intro hSome
  obtain ⟨array, objects, rest, hField, hLook, hConverts⟩ := h hSome
  exact ⟨array, objects, rest, hKeeps.look List.not_mem_nil hField,
    hKeeps.look List.not_mem_nil hLook, hConverts.imp fun _ _ => hKeeps.converts⟩

/-- The arguments in a context are loaded into registers in a row, and no others but the scratch
registers change. -/
theorem goes_unpack {types : List ValueType} {next : Nat}
    (hContext : registers (.v 1) = context) (hNext : 5 ≤ next)
    (hTypes : arguments.map Prod.fst = types) (hCount : types.length < 2 ^ 31)
    (hSupplies : Supplies M heap context arguments) :
    M.Goes (if (Boxing.layout .locals next types).isEmpty then [] else
        .instanceGet .object (.v 3) (.v 1) Interceptor.callArgs ::
          Boxing.loadAll (.v 3) (.v 4) (Boxing.layout .locals next types)) registers heap
      fun calls registers' heap' =>
        (∀ c ∈ calls, c.unboxes) ∧ M.Keeps [] heap heap' ∧
          Boxing.held registers' (Boxing.layout .locals next types) = arguments ∧
          (∀ r : Register, r ≠ .v 3 → r ≠ .v 4 → (r.bank = .locals → r.index < next) →
            registers' r = registers r) ∧
          (arguments ≠ [] → M.look heap (.field context Interceptor.callArgs) =
            some [registers' (.v 3)]) := by
  subst hTypes
  cases arguments with
  | nil => exact ⟨nofun, .refl _ _, rfl, fun _ _ _ _ => rfl, fun h => (h rfl).elim⟩
  | cons first rest =>
      obtain ⟨array, objects, others, hField, hLook, hConverts⟩ := hSupplies nofun
      rw [if_neg (by simp [Boxing.layout])]
      refine Runtime.goes_sets rfl rfl (congrArg (· :: []) hContext) (M.instanceGet hField rfl)
        fun h₁ k₁ => ?_
      refine (Boxing.goes_loadAll (by decide) (by omega) (by omega) (by simpa using hCount)
        (Function.update_self _ _ _) (k₁.look List.not_mem_nil hLook)
        (hConverts.imp fun _ _ => k₁.converts)).mono ?_
      rintro calls registers₂ h₂ ⟨hCalls, k₂, hHeld, hSame⟩
      refine ⟨hCalls, k₁.trans k₂, hHeld, fun r h3 h4 hBelow => ?_, fun _ => ?_⟩
      · rw [hSame r h4 hBelow, Function.update_of_ne h3]
      · rw [hSame (.v 3) (by simp) (fun _ => Nat.lt_of_lt_of_le (by decide) hNext),
          Function.update_self]
        exact hField

/-- What a constructor call leaves behind, made after some unboxing. -/
def Inited (M : Runtime V H E R) (id : Nat) (interceptor context receiver : V)
    (target : MethodRef) (arguments : List (ValueType × List V)) (calls : List (Call V H))
    (registers : Register → V) (heap : H) : Prop :=
  (∃ unboxing call, calls = unboxing ++ [call] ∧ (∀ c ∈ unboxing, c.unboxes) ∧
      Initializes target receiver arguments call) ∧
    Ready M id interceptor context receiver registers heap

/-- The call itself, with its arguments from `next` on and the receiver in `r`. -/
theorem goes_invokeInit {target : MethodRef} {form : InvokeForm} {r : Register} {next : Nat}
    {unboxing : List (Call V H)} (hReturns : M.returns target) (hNarrow : r.wide = false)
    (hReceiver : registers r = receiver) (hUnboxing : ∀ c ∈ unboxing, c.unboxes)
    (hHeld : Boxing.held registers (Boxing.layout .locals next target.signature.parameters) =
      arguments)
    (hReady : Ready M id interceptor context receiver registers heap) :
    M.Goes [.invoke .direct form
        (r :: (Boxing.layout .locals next target.signature.parameters).map Prod.fst) target]
      registers heap fun calls =>
        Inited M id interceptor context receiver target arguments (unboxing ++ calls) := by
  refine Runtime.goes_call (Boxing.map_slots_receiver hNarrow hReceiver hHeld) (M.call hReturns)
    fun out hOut => ⟨hOut.control, ?_⟩
  exact ⟨⟨unboxing, _, rfl, hUnboxing, rfl, rfl, rfl⟩,
    hReady.of_same (fun _ _ => rfl) hOut.stays⟩

/-- **One constructor call.**  Whatever the number and width of its arguments, in either form, the
call gets the receiver and every argument as the context supplies it. -/
theorem goes_initCall {target : MethodRef}
    (hReady : Ready M id interceptor context receiver registers heap)
    (hTypes : arguments.map Prod.fst = target.signature.parameters)
    (hCount : target.signature.parameters.length < 2 ^ 31)
    (hSupplies : Supplies M heap context arguments) (hReturns : M.returns target) :
    M.Goes (initCall target) registers heap
      (Inited M id interceptor context receiver target arguments) := by
  simp only [initCall, callInit, initLayout, initStart]
  split
  · refine Runtime.goes_sets rfl rfl (congrArg (· :: []) hReady.p0) (M.move rfl) fun h₁ k₁ => ?_
    have hReady₁ : Ready M id interceptor context receiver
        (Function.update registers (.v 5) receiver) h₁ :=
      hReady.of_same (fun r hr => Function.update_of_ne (ne_v_of_low hr (by decide)) _ _)
        k₁.stays_of_nil
    refine .append ((goes_unpack hReady₁.v1 (by decide) hTypes hCount (hSupplies.keep k₁)).mono ?_)
    rintro unboxing registers₂ h₂ ⟨hUnboxing, k₂, hHeld, hSame, -⟩
    refine goes_invokeInit hReturns rfl ?_ hUnboxing hHeld (hReady₁.of_same ?_ k₂.stays_of_nil)
    · rw [hSame (.v 5) (by simp) (by simp) fun _ => by decide]
      exact Function.update_self _ _ _
    · intro r hr
      exact hSame r (ne_v_of_low hr (by decide)) (ne_v_of_low hr (by decide)) fun hBank =>
        Nat.lt_trans (hr hBank) (by decide)
  · refine .append ((goes_unpack hReady.v1 (by decide) hTypes hCount hSupplies).mono ?_)
    rintro unboxing registers₂ h₂ ⟨hUnboxing, k₂, hHeld, hSame, -⟩
    have hReady₂ : Ready M id interceptor context receiver registers₂ h₂ := by
      refine hReady.of_same (fun r hr => ?_) k₂.stays_of_nil
      exact hSame r (ne_v_of_low hr (by decide)) (ne_v_of_low hr (by decide)) fun hBank =>
        Nat.lt_trans (hr hBank) (by decide)
    exact goes_invokeInit hReturns rfl hReady₂.p0 hUnboxing hHeld hReady₂

/-! ## The second phase -/

/-- The constructor that is called on the receiver: the buddy constructor if there is one and the
flag asks for it, and else the delegated one. -/
def chosenInit (delegated : MethodRef) (buddy : Option MethodRef) (flag : Int32) : MethodRef :=
  match buddy with
  | none => delegated
  | some target => if flag &&& Interceptor.buddyBit.toInt32 = 0 then delegated else target

section Code

variable {code front rest : List Instruction} {within : Nat → Prop} {k : Nat} {flag : Int32}
  {goal : List (Call V H) → Config V H R → Prop}

/-- A bit of the flag is masked out for a test. -/
theorem goes_mask {bit : Int16} (hFlag : registers (.v 3) = M.int flag) :
    M.Goes [.binaryLit .and (.v 4) (.v 3) bit] registers heap fun calls registers' heap' =>
      calls = [] ∧
        registers' = Function.update registers (.v 4) (M.int (flag &&& bit.toInt32)) ∧
        M.Keeps [] heap heap' :=
  Runtime.goes_sets rfl rfl (congrArg (· :: []) hFlag) (M.and rfl) fun _ k₁ => ⟨rfl, rfl, k₁⟩

/-- **The way through one constructor call.**  With a buddy constructor there are two calls in the
code, and the flag picks one; both ways end behind. -/
theorem leads_initCode {delegated : MethodRef} {buddy : Option MethodRef} {next : Nat}
    (hCode : code = front ++ (initCode delegated next buddy ++ rest))
    (hNodup : (Code.placed code).Nodup) (hStart : front.length = k)
    (hWithin : ∀ j, k ≤ j → within j)
    (hReady : Ready M id interceptor context receiver registers heap)
    (hFlag : registers (.v 3) = M.int flag)
    (hTypes : arguments.map Prod.fst = (chosenInit delegated buddy flag).signature.parameters)
    (hCount : (chosenInit delegated buddy flag).signature.parameters.length < 2 ^ 31)
    (hSupplies : Supplies M heap context arguments)
    (hReturns : M.returns (chosenInit delegated buddy flag))
    (hRest : ∀ calls registers' heap',
      Inited M id interceptor context receiver (chosenInit delegated buddy flag) arguments calls
        registers' heap' →
      M.Leads code within (.running (k + (initCode delegated next buddy).length) registers' heap')
        fun more => goal (calls ++ more)) :
    M.Leads code within (.running k registers heap) goal := by
  cases buddy with
  | none =>
      exact (goes_initCall hReady hTypes hCount hSupplies hReturns).leads hCode hStart
        (fun j hj _ => hWithin j hj) hRest
  | some buddy =>
      have hMask : code = front ++ ([.binaryLit .and (.v 4) (.v 3) Interceptor.buddyBit] ++
          .branchZero .ne (.v 4) ⟨next⟩ :: (initCall delegated ++ .goto ⟨next + 1⟩ ::
            .label ⟨next⟩ :: (initCall buddy ++ .label ⟨next + 1⟩ :: rest))) := by
        simp [hCode, initCode, chooseInit]
      have hLength : (initCode delegated next (some buddy)).length =
          1 + (initCall delegated).length + (initCall buddy).length + 4 := by
        simp [initCode, chooseInit]
        omega
      refine (goes_mask hFlag).leads hMask hStart (fun j hj _ => hWithin j hj) ?_
      rintro calls registers₁ h₁ ⟨rfl, rfl, k₁⟩
      have hGoes : ∀ {target : MethodRef} {h₂ : H},
          chosenInit delegated (some buddy) flag = target → M.Keeps [] h₁ h₂ →
          M.Goes (initCall target) (Function.update registers (.v 4)
            (M.int (flag &&& Interceptor.buddyBit.toInt32))) h₂ (Inited M id interceptor context
              receiver (chosenInit delegated (some buddy) flag) arguments) := by
        rintro target h₂ rfl k₂
        refine goes_initCall (hReady.of_same (fun r hr => ?_) (k₁.trans k₂).stays_of_nil) hTypes
          hCount (hSupplies.keep (k₁.trans k₂)) hReturns
        exact Function.update_of_ne (ne_v_of_low hr (by decide)) _ _
      refine Runtime.leads_diamond (.inr rfl) rfl (Function.update_self _ _ _)
        (hMask.trans (List.append_assoc _ _ _).symm) hNodup (by simp [hStart])
        (fun j hj => hWithin j (Nat.le_of_succ_le hj)) (fun hClear h₂ k₂ => hGoes ?_ k₂)
        (fun hBit h₂ k₂ => hGoes ?_ k₂) ?_
      · exact if_pos ((M.isZero_int _).mp (not_not.mp hClear))
      · exact if_neg fun hZero => hBit ((M.isZero_int _).mpr hZero)
      · rintro calls registers₃ h₃ h₄ ⟨hCalls, hReady₃⟩ k₄
        have hBehind := hRest calls registers₃ h₄
          ⟨hCalls, hReady₃.of_same (fun _ _ => rfl) k₄.stays_of_nil⟩
        rw [hLength] at hBehind
        simpa only [List.length_singleton, Nat.add_assoc, List.nil_append] using hBehind

/-- There are registers for the arguments, whichever constructor is called. -/
theorem ConstructorFits.chosenInit {m : Method} {delegated : MethodRef} {buddy : Option MethodRef}
    (h : ConstructorFits m delegated buddy) (flag : Int32) :
    InitFits (chosenInit delegated buddy flag) := by
  cases buddy with
  | none => exact h.delegated
  | some target =>
      show InitFits (if _ then delegated else target)
      split
      · exact h.delegated
      · exact h.buddy target rfl

/-- The flag is looked at: without the bit control goes back to the body, and else on. -/
theorem leads_flag {origin : Label} (t : Nat)
    (hCode : code = front ++ ([.instanceGet .plain (.v 3) (.v 1) Interceptor.initFlag,
      .binaryLit .and (.v 4) (.v 3) Interceptor.interceptedBit] ++
        .branchZero .eq (.v 4) origin :: rest))
    (hStart : front.length = k) (hWithin : ∀ j, k ≤ j → within j)
    (hReady : Ready M id interceptor context receiver registers heap)
    (hFlag : M.look heap (.field context Interceptor.initFlag) = some [M.int flag])
    (hTo : flag &&& Interceptor.interceptedBit.toInt32 = 0 ∧
        Code.position? code origin = some t ∨
      flag &&& Interceptor.interceptedBit.toInt32 ≠ 0 ∧ t = k + 3)
    (hRest : ∀ registers' heap', M.Keeps [] heap heap' → registers' (.v 3) = M.int flag →
      Ready M id interceptor context receiver registers' heap' →
      SameParameters registers registers' →
      M.Leads code within (.running t registers' heap') goal) :
    M.Leads code within (.running k registers heap) goal := by
  have hLine : M.Goes [.instanceGet .plain (.v 3) (.v 1) Interceptor.initFlag,
      .binaryLit .and (.v 4) (.v 3) Interceptor.interceptedBit] registers heap
      fun calls registers' heap' => calls = [] ∧ registers' =
        Function.update (Function.update registers (.v 3) (M.int flag)) (.v 4)
          (M.int (flag &&& Interceptor.interceptedBit.toInt32)) ∧ M.Keeps [] heap heap' := by
    refine Runtime.goes_sets rfl rfl (congrArg (· :: []) hReady.v1) (M.instanceGet hFlag rfl)
      fun h₁ k₁ => (goes_mask (Function.update_self _ _ _)).mono ?_
    rintro calls registers₂ h₂ ⟨rfl, rfl, k₂⟩
    exact ⟨rfl, rfl, k₁.trans k₂⟩
  refine hLine.leads hCode hStart (fun j hj _ => hWithin j hj) ?_
  rintro calls registers₁ h₁ ⟨rfl, rfl, k₁⟩
  have hTo' := hTo.imp (And.imp_left (M.isZero_int _).mpr)
    (And.imp_left (mt (M.isZero_int _).mp))
  refine Runtime.leads_branch t (.inl rfl) (hWithin _ (Nat.le_add_right _ _))
    (Machine.getElem?_behind hCode hStart) rfl (Function.update_self _ _ _) hTo' fun h₂ k₂ => ?_
  refine hRest _ h₂ (k₁.trans k₂) (by simp) (hReady.of_same ?_ (k₁.trans k₂).stays_of_nil)
    (SameParameters.update (.update (fun _ _ => rfl) 3 _) 4 _)
  intro r hr
  rw [Function.update_of_ne (ne_v_of_low hr (by decide)),
    Function.update_of_ne (ne_v_of_low hr (by decide))]

private theorem leads_runInitBody (hCode : code = front ++ runInitBody) (hStart : front.length = k)
    (hWithin : ∀ j, k ≤ j → within j) (hReturns : M.returns Interceptor.invokeInitBody)
    (hReady : Ready M id interceptor context receiver registers heap)
    (hGoal : ∀ call heap', Consults M Interceptor.invokeInitBody id interceptor context call →
      M.look call.before (.field context Interceptor.thisArg) = some [receiver] →
      goal [call] (.ended (M.returned []) heap')) :
    M.Leads code within (.running k registers heap) goal := by
  have hLine : M.Goes [.instancePut .object (.p 0) (.v 1) Interceptor.thisArg,
      .invoke .interface .fixed [.v 0, .v 2, .v 1] Interceptor.invokeInitBody] registers heap
      fun calls _ _ => ∃ call, calls = [call] ∧
        Consults M Interceptor.invokeInitBody id interceptor context call ∧
        M.look call.before (.field context Interceptor.thisArg) = some [receiver] := by
    have hReads : (Instruction.instancePut .object (.p 0) (.v 1) Interceptor.thisArg).readSlots.map
        registers = [receiver, context] := by
      rw [← hReady.p0, ← hReady.v1]
      rfl
    refine Runtime.goes_plain rfl rfl hReads
      (M.instancePut (hReady.fields _ (by simp)) nofun) fun out hChanges => ?_
    have hValues : ([.v 0, .v 2, .v 1].flatMap Register.slots).map registers =
        [interceptor, M.int (.ofNat id), context] := by
      simp [Register.slots_v, hReady.v0, hReady.v1, hReady.v2]
    refine ⟨hChanges.control, Runtime.goes_call hValues (M.call hReturns) fun out' hOut => ?_⟩
    exact ⟨hOut.control, _, rfl, ⟨rfl, rfl, rfl⟩, hChanges.now⟩
  refine hLine.leads hCode hStart (fun j hj _ => hWithin j hj) ?_
  rintro calls registers₁ h₁ ⟨call, rfl, hConsults, hThis⟩
  exact Runtime.leads_stop (hWithin _ (Nat.le_add_right _ _))
    (Machine.getElem?_behind hCode hStart) rfl rfl M.returnVoid fun h₂ _ =>
      hGoal call h₂ hConsults hThis

end Code

/-- The patch takes over from a configuration on: without any of the body, one constructor is called
on the receiver, the interceptor then gets the receiver in the context, and the constructor
returns. -/
def TakesOver (M : Runtime V H E R) (b : Body) (code : List Instruction) (id : Nat)
    (interceptor context receiver : V) (target : MethodRef)
    (arguments : List (ValueType × List V)) (c : Config V H R) : Prop :=
  M.Leads code (Added b) c fun calls d => ∃ unboxing init body heap,
    calls = unboxing ++ [init, body] ∧ (∀ x ∈ unboxing, x.unboxes) ∧
      Initializes target receiver arguments init ∧
      Consults M Interceptor.invokeInitBody id interceptor context body ∧
      M.look body.before (.field context Interceptor.thisArg) = some [receiver] ∧
      d = .ended (M.returned []) heap

section Flag

variable {m : Method} {b : Body} {delegated : MethodRef} {buddy : Option MethodRef}
  {slot : FieldRef} {code : List Instruction} {flag : Int32}

/-- Where the flag is tested. -/
def flagStart (m : Method) (id : Nat) (b : Body) : Nat :=
  blockStart b + (firstPhase m.signature id).length

private theorem length_flagStart :
    (guardCode b slot ++ firstPhase m.signature id).length = flagStart m id b := by
  rw [List.length_append, length_guardCode, flagStart]

private theorem added_of_flagStart_le {j : Nat} (h : flagStart m id b ≤ j) : Added b j :=
  added_of_blockStart_le (Nat.le_of_add_right_le h)

/-- An intercepted constructor, taken apart at the test of the flag. -/
theorem code_eq_flag (hCode : code = guardCode b slot ++ constructorBlock m id delegated buddy b) :
    code = (guardCode b slot ++ firstPhase m.signature id) ++
      ([.instanceGet .plain (.v 3) (.v 1) Interceptor.initFlag,
        .binaryLit .and (.v 4) (.v 3) Interceptor.interceptedBit] ++
      .branchZero .eq (.v 4) (ownFork b).origin ::
        (initCode delegated (b.nextLabel + 2) buddy ++ runInitBody)) := by
  simp [hCode, constructorBlock, firstPhase, askInterceptor]

/-- From the start of an intercepted constructor to the test of the flag. -/
private theorem leads_firstPhase
    (hCode : code = guardCode b slot ++ constructorBlock m id delegated buddy b)
    (hNodup : (Code.placed code).Nodup)
    (hCalled : Boxing.CalledWith m.signature (some receiver) arguments registers)
    (hCount : m.signature.parameters.length < 2 ^ 31)
    (hUnInit : M.returns Interceptor.invokeUnInit)
    (hSlot : M.look heap (.static slot) = some [interceptor]) (hSet : ¬ M.isZero interceptor) :
    M.Leads code (Added b) (.running 0 registers heap) fun calls c =>
      ∃ made boxing asked context registers', calls = made :: (boxing ++ [asked]) ∧
        MakesContext M context made ∧ (∀ x ∈ boxing, x.boxes) ∧
        Consults M Interceptor.invokeUnInit id interceptor context asked ∧
        ShowsArguments M asked.before context arguments ∧
        (∀ value, M.look made.after (.field context Interceptor.initFlag) = some value →
          M.look asked.before (.field context Interceptor.initFlag) = some value) ∧
        Ready M id interceptor context receiver registers' asked.after ∧
        SameParameters registers registers' ∧
        c = .running (flagStart m id b) registers' asked.after := by
  refine leads_guard hCode hNodup hSlot hSet fun h₁ k₁ => ?_
  have hSame₁ : SameParameters registers (Function.update registers (.v 0) interceptor) :=
    .update (fun _ _ => rfl) 0 interceptor
  have hPhase : code = guardCode b slot ++ (firstPhase m.signature id ++ _) :=
    (code_eq_flag hCode).trans (List.append_assoc _ _ _)
  refine (goes_firstPhase (hCalled.same hSame₁) hCount hUnInit
    (Function.update_self _ _ _)).leads hPhase (length_guardCode b _)
    (fun t ht _ => added_of_blockStart_le ht) ?_
  rintro calls registers₂ h₂ ⟨made, boxing, asked, context, rfl, hMade, hBoxing, hConsults, hShows,
    hKept, rfl, hReady, hSame₂⟩
  exact .done ⟨made, boxing, asked, context, registers₂, List.append_nil _, hMade, hBoxing,
    hConsults, hShows, hKept, hReady, hSame₁.trans hSame₂, rfl⟩

private theorem entersBody_of_clear
    (hCode : code = guardCode b slot ++ constructorBlock m id delegated buddy b)
    (hReady : Ready M id interceptor context receiver registers heap)
    (hFlag : M.look heap (.field context Interceptor.initFlag) = some [M.int flag])
    (hClear : flag &&& Interceptor.interceptedBit.toInt32 = 0) {start : Register → V}
    (hSame : SameParameters start registers) :
    EntersBody M b code start heap (.running (flagStart m id b) registers heap) :=
  leads_flag 2 (code_eq_flag hCode) length_flagStart (fun _ => added_of_flagStart_le) hReady hFlag
    (.inl ⟨hClear, position?_origin hCode⟩) fun _ h₁ k₁ _ _ hSame₁ =>
      leads_body (added_of_lt (by decide)) hCode ⟨rfl, _, h₁, rfl, hSame.trans hSame₁, k₁⟩

private theorem takesOver_of_set
    (hCode : code = guardCode b slot ++ constructorBlock m id delegated buddy b)
    (hNodup : (Code.placed code).Nodup)
    (hReady : Ready M id interceptor context receiver registers heap)
    (hFlag : M.look heap (.field context Interceptor.initFlag) = some [M.int flag])
    (hSet : flag &&& Interceptor.interceptedBit.toInt32 ≠ 0)
    (hInitBody : M.returns Interceptor.invokeInitBody)
    (hReturns : M.returns (chosenInit delegated buddy flag))
    (hCount : (chosenInit delegated buddy flag).signature.parameters.length < 2 ^ 31)
    (hTypes : arguments.map Prod.fst = (chosenInit delegated buddy flag).signature.parameters)
    (hSupplies : Supplies M heap context arguments) :
    TakesOver M b code id interceptor context receiver (chosenInit delegated buddy flag) arguments
      (.running (flagStart m id b) registers heap) := by
  have hWithin : ∀ j, flagStart m id b ≤ j → Added b j := fun _ => added_of_flagStart_le
  obtain ⟨front, hInit, hLength⟩ : ∃ front : List Instruction,
      code = front ++ (initCode delegated (b.nextLabel + 2) buddy ++ runInitBody) ∧
        front.length = flagStart m id b + 3 := by
    refine ⟨guardCode b slot ++ firstPhase m.signature id ++
      [.instanceGet .plain (.v 3) (.v 1) Interceptor.initFlag,
        .binaryLit .and (.v 4) (.v 3) Interceptor.interceptedBit,
        .branchZero .eq (.v 4) (ownFork b).origin], ?_, ?_⟩
    · simp [code_eq_flag hCode]
    · rw [List.length_append, length_flagStart]
      rfl
  refine leads_flag (flagStart m id b + 3) (code_eq_flag hCode) length_flagStart hWithin hReady
    hFlag (.inr ⟨hSet, rfl⟩) ?_
  intro registers₁ h₁ k₁ hFlag₁ hReady₁ _
  refine leads_initCode hInit hNodup hLength (fun j hj => hWithin j (by omega)) hReady₁ hFlag₁
    hTypes hCount (hSupplies.keep k₁) hReturns ?_
  rintro calls registers₂ h₂ ⟨⟨unboxing, init, rfl, hUnboxing, hInitializes⟩, hReady₂⟩
  refine leads_runInitBody (hInit.trans (List.append_assoc _ _ _).symm) ?_
    (fun j hj => hWithin j (by omega)) hInitBody hReady₂ fun body h₃ hConsults hThis => ?_
  · rw [List.length_append, hLength]
  · exact ⟨unboxing, init, body, h₃, by simp, hUnboxing, hInitializes, hConsults, hThis, rfl⟩

end Flag

/--
**Two phases.**  Take any runtime, and a constructor that was intercepted, with an interceptor in
the slot of its class, and call it with any receiver and arguments.  Every run of the new body first
makes one context, shows the arguments in it, boxed and in order, and asks the interceptor once.  If
the flag in the context then has the bit for interception clear, the run enters the body as it was,
with every parameter as it was, and control, which cannot run out of it, never comes to any other
code again.  If the bit is set, the run executes none of the body.  It calls exactly one constructor
on the receiver, with the arguments that the patch has left in the context, each turned into a value
of its parameter's type: the buddy constructor of the superclass, if there is one and the flag asks
for it, and else the delegated one.  Then it hands the receiver to the interceptor, once, and
returns.
-/
theorem constructor_asksInterceptor (M : Runtime V H E R) {form : InitForm}
    {superclass : Option ClassDef} {m m' : Method} {b b' : Body}
    (hDone : Intercept.constructor form superclass m = .ok m') (hBody : m.body = some b)
    (hBody' : m'.body = some b') (hOwns : ∀ s, superclass = some s → OwnsMethods s)
    (hClosed : Code.Closed b.instructions) (hUnInit : M.returns Interceptor.invokeUnInit)
    (hInitBody : M.returns Interceptor.invokeInitBody) {receiver : V}
    {arguments : List (ValueType × List V)} {registers : Register → V}
    (hCalled : Boxing.CalledWith m.signature (some receiver) arguments registers) {heap : H}
    {interceptor : V}
    (hSlot : M.look heap (.static (Interceptor.slot m.owner)) = some [interceptor])
    (hSet : ¬ M.isZero interceptor) :
    ∃ id delegated buddy, m.id = some id ∧
      Delegation.find (superclass.map (·.name)) m b = .ok delegated ∧
      buddyTarget form m.owner superclass = .ok buddy ∧
      (∀ target, buddy = some target →
        ∃ s, superclass = some s ∧ target = Interceptor.buddyConstructor s.name) ∧
      (∀ j < b.instructions.length, b'.instructions[bodyStart + j]? = b.instructions[j]?) ∧
      (∀ registers' heap',
        Confined M.toMachine b b'.instructions (.running bodyStart registers' heap')) ∧
      M.Leads b'.instructions (Added b) (.running 0 registers heap) fun calls c =>
        ∃ made boxing asked context flag, calls = made :: (boxing ++ [asked]) ∧
          MakesContext M context made ∧ (∀ x ∈ boxing, x.boxes) ∧
          Consults M Interceptor.invokeUnInit id interceptor context asked ∧
          ShowsArguments M asked.before context arguments ∧
          M.look asked.after (.field context Interceptor.initFlag) = some [M.int flag] ∧
          (flag &&& Interceptor.interceptedBit.toInt32 = 0 →
            EntersBody M b b'.instructions registers asked.after c) ∧
          (flag &&& Interceptor.interceptedBit.toInt32 ≠ 0 → ∀ target supplied,
            target = chosenInit delegated.method buddy flag → M.returns target →
            supplied.map Prod.fst = target.signature.parameters →
            Supplies M asked.after context supplied →
            TakesOver M b b'.instructions id interceptor context receiver target supplied c) := by
  obtain ⟨id, delegated, buddy, hId, hFind, hBuddy, hNew⟩ := constructor_eq_ok hBody hBody' hDone
  obtain ⟨hCode, hCheck⟩ := constructorBody_eq_ok hNew
  have hFits := constructorFits_of_constructorBody hNew
  have hNodup := Body.nodup_placed hCheck
  refine ⟨id, delegated, buddy, hId, hFind, hBuddy, ?_, fun j hj => getElem?_body hCode hj,
    fun _ _ => confined_bodyStart hCode hNodup hClosed _ _, ?_⟩
  · rintro target rfl
    exact buddyTarget_eq_some hOwns hBuddy
  refine (leads_firstPhase hCode hNodup hCalled (Signature.length_lt_of_slots hFits.own) hUnInit
    hSlot hSet).trans ?_
  rintro calls c ⟨made, boxing, asked, context, registers₂, rfl, hMade, hBoxing, hConsults, hShows,
    _, hReady, hSame, rfl⟩
  obtain ⟨flag, hFlag⟩ : ∃ flag,
      M.look asked.after (.field context Interceptor.initFlag) = some [M.int flag] := by
    obtain ⟨value, hLook⟩ := Option.isSome_iff_exists.mp (hReady.fields Interceptor.initFlag
      (by simp))
    obtain ⟨flag, rfl⟩ := M.field_int hLook rfl
    exact ⟨flag, hLook⟩
  refine .done ⟨made, boxing, asked, context, flag, List.append_nil _, hMade, hBoxing, hConsults,
    hShows, hFlag, fun hClear => ?_, ?_⟩
  · exact entersBody_of_clear hCode hReady hFlag hClear hSame
  · rintro hBit target supplied rfl hReturns hTypes hSupplies
    exact takesOver_of_set hCode hNodup hReady hFlag hBit hInitBody hReturns
      (hFits.chosenInit flag).length_lt hTypes hSupplies

end Protocol

/-- In the interpreter, the arguments that a constructor shows can be handed back to it.  Every cast
succeeds there. -/
theorem supplies_takeOver {oracle : Interpreter.Oracle} {h : Interpreter.Store}
    {context : Interpreter.Datum} {arguments : List (ValueType × List Interpreter.Datum)}
    (hShows : ShowsArguments (Interpreter.runtime oracle) h context arguments) :
    Supplies (Interpreter.runtime oracle) (Interpreter.takeOver h context) context arguments := by
  intro hSome
  obtain ⟨array, hArgs, elements, hElements, hCarries⟩ := hShows hSome
  have hKeeps : (Interpreter.runtime oracle).Keeps _ h (Interpreter.takeOver h context) :=
    Interpreter.keeps_takeOver
  refine ⟨array, elements, [], (Interpreter.look_takeOver hArgs).2, ?_, ?_⟩
  · rw [List.append_nil]
    exact hKeeps.look (by simp) hElements
  · refine hCarries.imp fun object argument hCarries => ⟨?_, hKeeps.carries (by simp) hCarries⟩
    cases argument.1 with
    | base p => trivial
    | object cls => exact fun _ => trivial
    | array element => trivial

def wideArguments : List (ValueType × List Interpreter.Datum) :=
  [(.base .long, [.int 1, .int 2]), (.base .long, [.int 3, .int 4]),
    (.base .long, [.int 5, .int 6])]

private theorem exists_intercepted {form : InitForm} {superclass : Option ClassDef} {m : Method}
    (h : ((Intercept.constructor form superclass m).toOption.bind (·.body)).isSome = true) :
    ∃ m' b', Intercept.constructor form superclass m = .ok m' ∧ m'.body = some b' := by
  cases hDone : Intercept.constructor form superclass m with
  | error e =>
      rw [hDone] at h
      cases h
  | ok m' =>
      rw [hDone] at h
      obtain ⟨b', hBody'⟩ := Option.isSome_iff_exists.mp h
      exact ⟨m', b', rfl, hBody'⟩

/-- With a patch in place that hands the arguments back, they reach the delegated constructor. -/
theorem constructor_asksInterceptor_wide :
    let M := Interpreter.runtime Interpreter.patch
    ∃ m' b', Intercept.constructor .direct (some baseClass) wideConstructor = .ok m' ∧
      m'.body = some b' ∧
      M.Leads b'.instructions (Added wideBody)
        (.running 0
          (Interpreter.entered [.ref 0, .int 1, .int 2, .int 3, .int 4, .int 5, .int 6])
          (Interpreter.installed (.of "a/Main"))) fun calls c =>
        ∃ made boxing asked context unboxing init body heap,
          calls = made :: (boxing ++ [asked]) ++ (unboxing ++ [init, body]) ∧
          MakesContext M context made ∧ (∀ x ∈ boxing, x.boxes) ∧
          Consults M Interceptor.invokeUnInit 4 (.ref 1) context asked ∧
          (∀ x ∈ unboxing, x.unboxes) ∧
          Initializes ⟨.of "a/Base", .init, .void [.base .long, .base .long, .base .long]⟩ (.ref 0)
            wideArguments init ∧
          Consults M Interceptor.invokeInitBody 4 (.ref 1) context body ∧ c = .ended [] heap := by
  have hCalled : Boxing.CalledWith wideConstructor.signature (some (.ref 0)) wideArguments
      (Interpreter.entered [.ref 0, .int 1, .int 2, .int 3, .int 4, .int 5, .int 6]) :=
    ⟨rfl, by decide, fun j value => Interpreter.entered_p⟩
  have hSlot : (Interpreter.runtime Interpreter.patch).look
      (Interpreter.installed (.of "a/Main")) (.static (Interceptor.slot wideConstructor.owner)) =
      some [.ref 1] := rfl
  have hOwns : ∀ s, some baseClass = some s → OwnsMethods s := by
    rintro s hEq n hn
    cases hEq
    cases hn
  obtain ⟨m', b', hDone, hBody'⟩ : ∃ m' b',
      Intercept.constructor .direct (some baseClass) wideConstructor = .ok m' ∧
        m'.body = some b' := exists_intercepted (by decide +kernel)
  have hClosed : Code.Closed wideBody.instructions := ⟨by decide, _, rfl, rfl⟩
  obtain ⟨id, delegated, buddy, hId, hFind, hBuddy, _, _, _, hLeads⟩ :=
    constructor_asksInterceptor _ hDone rfl hBody' hOwns hClosed rfl rfl hCalled hSlot
      (Interpreter.ref_ne_zero 1)
  obtain rfl : 4 = id := Option.some.inj hId
  obtain rfl : some (Interceptor.buddyConstructor (.of "a/Base")) = buddy := Except.ok.inj hBuddy
  have hDelegated : delegated.method =
      ⟨.of "a/Base", .init, .void [.base .long, .base .long, .base .long]⟩ := by
    have hMethod : (Delegation.find (some (.of "a/Base")) wideConstructor wideBody).toOption.map
        (·.method) = some ⟨.of "a/Base", .init, .void [.base .long, .base .long, .base .long]⟩ := by
      decide +kernel
    rw [show Delegation.find (some (.of "a/Base")) _ _ = _ from hFind] at hMethod
    exact Option.some.inj hMethod
  refine ⟨m', b', hDone, hBody', hLeads.makes.trans ?_⟩
  rintro calls c ⟨⟨made, boxing, asked, context, flag, rfl, hMakes, hBoxing, hConsults, hShows,
    hFlag, _, hTakesOver⟩, hMade⟩
  have hAfter : asked.after = Interpreter.takeOver asked.before context := by
    rw [Interpreter.after_of_makes (hMade asked (by simp)) (by rw [hConsults.target]; rfl),
      hConsults.target, hConsults.values]
    rfl
  rw [hAfter] at hFlag hTakesOver
  obtain ⟨array, hArgs, _⟩ := hShows (by simp [wideArguments])
  obtain rfl : 1 = flag := Interpreter.Datum.int.inj (List.cons.inj (Option.some.inj
    ((Interpreter.look_takeOver hArgs).1.symm.trans hFlag))).1
  refine (hTakesOver (by decide) _ wideArguments rfl ?_ ?_ (supplies_takeOver hShows)).trans ?_
  · show Interpreter.builtin? delegated.method = none
    rw [hDelegated]
    rfl
  · show _ = delegated.method.signature.parameters
    rw [hDelegated]
    rfl
  · rintro more d ⟨unboxing, init, body, heap, rfl, hUnboxing, hInit, hBody, _, rfl⟩
    have hInit' : Initializes delegated.method (.ref 0) wideArguments init := hInit
    rw [hDelegated] at hInit'
    exact .done ⟨made, boxing, asked, context, unboxing, init, body, heap, by simp, hMakes, hBoxing,
      hConsults, hUnboxing, hInit', hBody, rfl⟩

/-- A body that ends with a call. -/
def openBody : Body := ⟨0, 1, [.invoke .direct .fixed [.p 0] ⟨.of "a/Base", .init, .void []⟩], 0⟩

def openConstructor : Method where
  owner := .of "a/Main"
  name := .init
  signature := .void []
  access := {}
  id := some 4
  body := some openBody

/-- Control runs out of the body into the first phase: another context is made, and the interceptor
is asked again. -/
theorem constructor_asksTwice :
    let M := Interpreter.runtime Interpreter.silent
    ∃ m' b', Intercept.constructor .normal (some baseClass) openConstructor = .ok m' ∧
      m'.body = some b' ∧
      M.Leads b'.instructions (fun _ => True)
        (.running 0 (Interpreter.entered [.ref 0]) (Interpreter.installed (.of "a/Main")))
        fun calls _ => ∃ made boxing asked inited made' boxing' asked' context context' interceptor,
          calls = made :: (boxing ++ [asked, inited, made']) ++ (boxing' ++ [asked']) ∧
          MakesContext M context made ∧
          Consults M Interceptor.invokeUnInit 4 (.ref 1) context asked ∧
          Initializes ⟨.of "a/Base", .init, .void []⟩ (.ref 0) [] inited ∧
          MakesContext M context' made' ∧
          Consults M Interceptor.invokeUnInit 4 interceptor context' asked' := by
  intro M
  obtain ⟨m', b', hDone, hBody'⟩ : ∃ m' b',
      Intercept.constructor .normal (some baseClass) openConstructor = .ok m' ∧
        m'.body = some b' := exists_intercepted (by decide +kernel)
  refine ⟨m', b', hDone, hBody', ?_⟩
  obtain ⟨id, delegated, buddy, hId, _, _, hNew⟩ := constructor_eq_ok rfl hBody' hDone
  obtain rfl : 4 = id := Option.some.inj hId
  obtain ⟨hCode, hCheck⟩ := constructorBody_eq_ok hNew
  have hNodup := Body.nodup_placed hCheck
  have hCalled : Boxing.CalledWith openConstructor.signature (some (.ref 0)) []
      (Interpreter.entered [.ref 0]) := ⟨rfl, by decide, fun j value => Interpreter.entered_p⟩
  have hSlot : M.look (Interpreter.installed (.of "a/Main"))
      (.static (Interceptor.slot openConstructor.owner)) = some [.ref 1] := rfl
  have hFirst := leads_firstPhase hCode hNodup hCalled (by decide) rfl hSlot
    (Interpreter.ref_ne_zero 1)
  refine (hFirst.makes.widen fun _ _ => trivial).trans ?_
  rintro calls c ⟨⟨made, boxing, asked, context, registers₁, rfl, hMade, _, hConsults, _, hKept,
    hReady, hSame₁, rfl⟩, hMakes⟩
  have hNewContext := Interpreter.after_of_newContext (hMakes made (by simp)) hMade.target
  have hFlag : M.look asked.after (.field context Interceptor.initFlag) = some [.int 0] := by
    have hAnswer := hMade.answer
    rw [hNewContext] at hAnswer
    obtain rfl : .ref made.before.objects.length = context := (List.cons.inj hAnswer).1
    rw [Interpreter.after_of_makes (hMakes asked (by simp)) (by rw [hConsults.target]; rfl),
      hConsults.target]
    refine hKept _ ?_
    rw [hNewContext]
    exact Interpreter.look_blank Interpreter.Store.item?_alloc_self _
  have hEnters : EntersBody M openBody b'.instructions (Interpreter.entered [.ref 0]) asked.after
      (.running (flagStart openConstructor 4 openBody) registers₁ asked.after) :=
    entersBody_of_clear hCode hReady hFlag (by decide) hSame₁
  refine (hEnters.widen fun _ _ => trivial).trans ?_
  rintro more d ⟨rfl, registers, heap, rfl, hSame, _⟩
  have hBody : M.Goes openBody.instructions registers heap fun calls registers' _ =>
      ∃ inited, calls = [inited] ∧
        Initializes ⟨.of "a/Base", .init, .void []⟩ (.ref 0) [] inited ∧
        registers' = registers := by
    have hValues : ([.p 0].flatMap Register.slots).map registers = [.ref 0] :=
      congrArg (· :: []) (hSame (.p 0) rfl)
    exact Runtime.goes_call hValues (M.call rfl) fun out hOut =>
      ⟨hOut.control, _, rfl, ⟨rfl, rfl, rfl⟩, rfl⟩
  have hPhase : b'.instructions = guardCode openBody (Interceptor.slot openConstructor.owner) ++
      (firstPhase openConstructor.signature 4 ++ _) :=
    (code_eq_flag hCode).trans (List.append_assoc _ _ _)
  refine leads_runOff hCode hNodup (fun _ => trivial) hBody ?_
  rintro calls registers' heap' ⟨inited, rfl, hInited, rfl⟩
  refine (goes_firstPhase (hCalled.same hSame) (by decide) rfl rfl).leads hPhase
    (length_guardCode openBody _) (fun _ _ _ => trivial) ?_
  rintro calls registers₂ h₂ ⟨made', boxing', asked', context', rfl, hMade', _, hConsults', _⟩
  exact .done ⟨made, boxing, asked, inited, made', boxing', asked', context, context', _, by simp,
    hMade, hConsults, hInited, hMade', hConsults'⟩

end HotPatch.Intercept
