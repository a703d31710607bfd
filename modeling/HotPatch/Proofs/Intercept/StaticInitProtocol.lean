import HotPatch.Proofs.Bytecode.Interpreter
import HotPatch.Proofs.Intercept.ClosedBody

/-!
# What an intercepted static initializer does

While the interceptor of the process is installed, a static initializer first
announces its class.  The answer may carry an interceptor for the class, which
goes into the class's slot, and a flag that says whether the initializer
itself has changed.  With the flag set the replacement runs and then nothing
else; without it, or without any answer, the body runs.  All this happens once
if control cannot run out of the body; a body that it runs out of announces
the class again (`staticInit_announcesTwice`).

What is stored on the way is told by the instructions that are executed
(`Storing`), not only by what can be looked up afterwards.
-/

namespace HotPatch

/-- The instruction stores nothing, or only into a static field that is allowed. -/
def Instruction.StoresOnly (allowed : FieldRef → Prop) : Instruction → Prop
  | .arrayPut _ _ _ _ | .instancePut _ _ _ _ => False
  | .staticPut _ _ field => allowed field
  | _ => True

namespace Intercept

/-- The positions of added code with instructions that store only into the allowed fields. -/
def Storing (b : Body) (code : List Instruction) (allowed : FieldRef → Prop) (k : Nat) : Prop :=
  Added b k ∧ ∀ i, code[k]? = some i → i.StoresOnly allowed

/-- No field is allowed. -/
def nowhere : FieldRef → Prop := fun _ => False

section Positions

variable {b : Body} {code : List Instruction} {allowed : FieldRef → Prop} {k : Nat}

private theorem storing_at {i : Instruction} (hAdded : Added b k) (hAt : code[k]? = some i)
    (hStores : i.StoresOnly allowed) : Storing b code allowed k := by
  refine ⟨hAdded, fun j hj => ?_⟩
  obtain rfl : i = j := Option.some.inj (hAt.symm.trans hj)
  exact hStores

private theorem storing_line {front line back : List Instruction}
    (hCode : code = front ++ (line ++ back))
    (hStart : front.length = k) (hBehind : blockStart b ≤ k)
    (hLine : ∀ i ∈ line, i.StoresOnly allowed) :
    ∀ t, k ≤ t → t < k + line.length → Storing b code allowed t := by
  intro t hLe hLt
  refine ⟨added_of_blockStart_le (Nat.le_trans hBehind hLe), fun i hi => hLine i ?_⟩
  rw [hCode, List.getElem?_append_right (by omega), List.getElem?_append_left (by omega)] at hi
  exact List.mem_of_getElem? hi

end Positions

section Protocol

variable {V H E R : Type} (M : Platform V H E R)

/-- The call tells the interceptor of the process about a class, by hash and descriptor. -/
structure Announces (target : MethodRef) (owner : ClassName) (interceptor : V)
    (call : Call V H) : Prop where
  kind : call.kind = .interface
  target : call.target = target
  values : call.values = [interceptor, M.int (Text.hash owner.render), M.string owner.render]

/-- What the announcement leaves in registers for the replacement. -/
structure Announced (owner : ClassName) (interceptor : V) (registers : Register → V) : Prop where
  v0 : registers (.v 0) = interceptor
  v1 : registers (.v 1) = M.int (Text.hash owner.render)
  v2 : registers (.v 2) = M.string owner.render

/-- Without a call and without a store, control enters the body. -/
def EntersPlainly (b : Body) (code : List Instruction) (heap : H) (c : Config V H R) : Prop :=
  M.Leads code (Storing b code nowhere) c fun calls d => calls = [] ∧
    ∃ registers' heap', d = .running bodyStart registers' heap' ∧ M.Keeps [] heap heap'

/-- Without a store and without any of the body, the replacement is called once and the static
initializer returns. -/
def RunsReplacement (b : Body) (code : List Instruction) (owner : ClassName) (interceptor : V)
    (c : Config V H R) : Prop :=
  M.Leads code (Storing b code nowhere) c fun calls d => ∃ call heap', calls = [call] ∧
    Announces M Interceptor.invokePostClinit owner interceptor call ∧
    M.Keeps [] c.heap call.before ∧ d = .ended (M.returned []) heap' ∧
    M.Keeps [] call.after heap'

/-- The interceptor that was carried is in the slot of the class; if there is none, everything is
as it was. -/
structure Installs (owner : ClassName) (carried : V) (before after : H) : Prop where
  absent : M.isZero carried → M.Keeps [] before after
  present : ¬ M.isZero carried → M.Keeps [.static (Interceptor.slot owner)] before after ∧
    M.look after (.static (Interceptor.slot owner)) = some [carried]

variable {M} {owner : ClassName} {interceptor : V} {registers : Register → V} {heap : H}

/-- What the class was announced with stays in its registers. -/
theorem Announced.update (h : Announced M owner interceptor registers) {n : Nat} (hn : 3 ≤ n)
    (value : V) : Announced M owner interceptor (Function.update registers (.v n) value) where
  v0 := (Function.update_of_ne (by simp; omega) _ _).trans h.v0
  v1 := (Function.update_of_ne (by simp; omega) _ _).trans h.v1
  v2 := (Function.update_of_ne (by simp; omega) _ _).trans h.v2

/-- A call to the interceptor of the process: it comes back, with null or a report. -/
theorem must_report {target : MethodRef} {args : RegisterList} {values : List V}
    (hReturns : M.returns target)
    (hResult : target.signature.result = some (.object Interceptor.interceptResult)) :
    M.Must (.invoke .interface .fixed args target) values heap fun out => out.control = .next ∧
      M.Stays heap out.heap ∧
      ∃ object, M.answer out.heap = [object] ∧ (M.isZero object ∨ M.IsReport out.heap object) := by
  have hCall : M.Must (.invoke .interface .fixed args target) values heap
      (M.Returned heap target) := M.call hReturns
  refine ⟨hCall.can, fun hDoes => ?_⟩
  have hOut := hCall.must hDoes
  obtain ⟨object, hAnswer, _⟩ := hOut.result hResult
  exact ⟨hOut.control, hOut.stays, object, hAnswer, M.report hReturns hResult hDoes hAnswer⟩

/-- Fields of objects stay as they are. -/
theorem Installs.look {carried object : V} {name : FieldRef} {content : List V} {before after : H}
    (h : Installs M owner carried before after)
    (hLook : M.look before (.field object name) = some content) :
    M.look after (.field object name) = some content := by
  by_cases hNull : M.isZero carried
  · exact (h.absent hNull).look List.not_mem_nil hLook
  · exact (h.present hNull).1.look (by simp) hLook

private theorem Installs.of_keeps {carried : V} {first before after : H}
    (h : Installs M owner carried before after) (hKeeps : M.Keeps [] first before) :
    Installs M owner carried first after where
  absent hNull := hKeeps.trans (h.absent hNull)
  present hSet := ⟨hKeeps.weaken.trans (h.present hSet).1, (h.present hSet).2⟩

/-- A line without calls, and a test against zero behind it. -/
theorem leads_tested {code front line back : List Instruction} {within : Nat → Prop} {k : Nat}
    {goal : List (Call V H) → Config V H R → Prop} {test : Comparison} {r : Register}
    {target : Label} {value : V} {registers' : Register → V} (t : Nat)
    (hTest : test = .eq ∨ test = .ne)
    (hCode : code = front ++ (line ++ .branchZero test r target :: back))
    (hStart : front.length = k) (hWithin : ∀ j, k ≤ j → j < k + line.length → within j)
    (hBranch : within (k + line.length)) (hNarrow : r.wide = false)
    (hLine : M.Goes line registers heap fun calls registers₁ h₁ =>
      calls = [] ∧ registers₁ = registers' ∧ M.Keeps [] heap h₁)
    (hValue : registers' r = value)
    (hTo : M.Takes test value ∧ Code.position? code target = some t ∨
      ¬ M.Takes test value ∧ t = k + line.length + 1)
    (hRest : ∀ heap', M.Keeps [] heap heap' →
      M.Leads code within (.running t registers' heap') goal) :
    M.Leads code within (.running k registers heap) goal := by
  refine hLine.leads hCode hStart hWithin ?_
  rintro calls registers₁ h₁ ⟨rfl, rfl, k₁⟩
  exact Runtime.leads_branch t hTest hBranch (Machine.getElem?_behind hCode hStart) hNarrow hValue
    hTo fun h₂ k₂ => hRest h₂ (k₁.trans k₂)

section Code

variable {b : Body} {code : List Instruction}

/-- The code that announces a class, up to the call. -/
def announcement (owner : ClassName) : List Instruction :=
  [.const (.v 1) (Text.hash owner.render), .constString (.v 2) owner.render,
    .invoke .interface .fixed [.v 0, .v 1, .v 2] Interceptor.invokeClinit]

private theorem goes_announcement (hReturns : M.returns Interceptor.invokeClinit)
    (hInterceptor : registers (.v 0) = interceptor) :
    M.Goes (announcement owner) registers heap fun calls registers' heap' =>
      ∃ asked, calls = [asked] ∧
        Announces M Interceptor.invokeClinit owner interceptor asked ∧ asked.after = heap' ∧
        Announced M owner interceptor registers' ∧ M.Stays heap heap' ∧
        ∃ answer, M.answer heap' = [answer] ∧ (M.isZero answer ∨ M.IsReport heap' answer) := by
  refine Runtime.goes_sets rfl rfl rfl (M.const rfl) fun h₁ k₁ => ?_
  refine Runtime.goes_sets rfl rfl rfl (M.constString rfl) fun h₂ k₂ => ?_
  have hAnnounced : Announced M owner interceptor (Function.update (Function.update registers (.v 1)
      (M.int (Text.hash owner.render))) (.v 2) (M.string owner.render)) :=
    ⟨by simp [hInterceptor], by simp, by simp⟩
  have hValues : ([.v 0, .v 1, .v 2].flatMap Register.slots).map (Function.update
      (Function.update registers (.v 1) (M.int (Text.hash owner.render))) (.v 2)
      (M.string owner.render)) =
      [interceptor, M.int (Text.hash owner.render), M.string owner.render] := by
    simp [Register.slots_v, hInterceptor]
  refine Runtime.goes_call hValues (must_report hReturns rfl) ?_
  rintro out ⟨hNext, hStays, hAnswer⟩
  exact ⟨hNext, _, rfl, ⟨rfl, rfl, rfl⟩, rfl, hAnnounced,
    (k₁.trans k₂).stays_of_nil.trans hStays, hAnswer⟩

variable (hCode : code = guardCode b Interceptor.clinitSlot ++
  announceClass owner (ownFork b).origin ⟨b.nextLabel + 2⟩)

include hCode

private theorem storing_origin (allowed : FieldRef → Prop) : Storing b code allowed 2 :=
  storing_at (added_of_lt (by decide)) (Code.getElem?_position? (position?_origin hCode)) trivial

/-- The code behind the guard, cut anywhere. -/
theorem exists_lead (n : Nat) {back : List Instruction}
    (hBack : (announceClass owner (ownFork b).origin ⟨b.nextLabel + 2⟩).drop n = back)
    (hn : n ≤ 14) :
    ∃ lead : List Instruction, code = lead ++ back ∧ lead.length = blockStart b + n := by
  refine ⟨guardCode b Interceptor.clinitSlot ++
    (announceClass owner (ownFork b).origin ⟨b.nextLabel + 2⟩).take n, ?_, ?_⟩
  · rw [hCode, ← hBack, List.append_assoc, List.take_append_drop]
  · rw [List.length_append, length_guardCode, List.length_take]
    exact congrArg (blockStart b + ·) (Nat.min_eq_left hn)

/-- The answer is looked at: null leads back to the body, and anything else on. -/
theorem leads_clinitAnswer {answer : V} {allowed : FieldRef → Prop}
    {goal : List (Call V H) → Config V H R → Prop} (t : Nat)
    (hAnswer : M.answer heap = [answer])
    (hTo : M.isZero answer ∧ t = 2 ∨ ¬ M.isZero answer ∧ t = blockStart b + 5)
    (hRest : ∀ heap', M.Keeps [] heap heap' → M.Leads code (Storing b code allowed)
      (.running t (Function.update registers (.v 4) answer) heap') goal) :
    M.Leads code (Storing b code allowed) (.running (blockStart b + 3) registers heap) goal := by
  obtain ⟨lead, hSplit, hLength⟩ : ∃ lead : List Instruction, code = lead ++
      ([.moveResult .object (.v 4)] ++ .branchZero .eq (.v 4) (ownFork b).origin :: _) ∧
        lead.length = blockStart b + 3 :=
    exists_lead hCode 3 rfl (by decide)
  have hLine : M.Goes [.moveResult .object (.v 4)] registers heap fun calls registers₁ h₁ =>
      calls = [] ∧ registers₁ = Function.update registers (.v 4) answer ∧ M.Keeps [] heap h₁ :=
    Runtime.goes_result hAnswer rfl fun _ h₁ hWrote k₁ => ⟨rfl, hWrote.eq_update rfl, k₁⟩
  refine leads_tested t (.inl rfl) hSplit hLength
    (storing_line hSplit hLength (Nat.le_add_right _ _) (by simp [Instruction.StoresOnly]))
    (storing_at (added_of_blockStart_le (by omega)) (Machine.getElem?_behind hSplit hLength)
      trivial)
    rfl hLine (Function.update_self _ _ _) (hTo.imp_left ?_) hRest
  rintro ⟨hNull, rfl⟩
  exact ⟨hNull, position?_origin hCode⟩

/-- The flags decide: with the bit set the replacement runs, and without it the body. -/
theorem leads_clinitFlags {answer : V} {flags : Int32}
    (hReturns : M.returns Interceptor.invokePostClinit)
    (hAnnounced : Announced M owner interceptor registers) (hAnswer : registers (.v 4) = answer)
    (hFlags : M.look heap (.field answer Interceptor.resultFlags) = some [M.int flags]) :
    (flags &&& Interceptor.clinitChangedBit.toInt32 ≠ 0 →
        RunsReplacement M b code owner interceptor
          (.running (blockStart b + 9) registers heap)) ∧
      (flags &&& Interceptor.clinitChangedBit.toInt32 = 0 →
        EntersPlainly M b code heap (.running (blockStart b + 9) registers heap)) := by
  obtain ⟨lead, hSplit, hLength⟩ : ∃ lead : List Instruction, code = lead ++
      ([.instanceGet .plain (.v 5) (.v 4) Interceptor.resultFlags,
        .binaryLit .and (.v 5) (.v 5) Interceptor.clinitChangedBit] ++
        .branchZero .eq (.v 5) (ownFork b).origin ::
          [.invoke .interface .fixed [.v 0, .v 1, .v 2] Interceptor.invokePostClinit,
            .returnVoid]) ∧ lead.length = blockStart b + 9 :=
    exists_lead hCode 9 rfl (by decide)
  have hWithin : ∀ t, blockStart b + 9 ≤ t → t < blockStart b + 9 + 2 →
      Storing b code nowhere t :=
    storing_line hSplit hLength (Nat.le_add_right _ _) (by simp [Instruction.StoresOnly])
  have hBranch : Storing b code nowhere (blockStart b + 9 + 2) :=
    storing_at (added_of_blockStart_le (by omega)) (Machine.getElem?_behind hSplit hLength) trivial
  have hLine : M.Goes [.instanceGet .plain (.v 5) (.v 4) Interceptor.resultFlags,
      .binaryLit .and (.v 5) (.v 5) Interceptor.clinitChangedBit] registers heap
      fun calls registers₁ h₁ => calls = [] ∧ registers₁ = Function.update registers (.v 5)
        (M.int (flags &&& Interceptor.clinitChangedBit.toInt32)) ∧ M.Keeps [] heap h₁ := by
    refine Runtime.goes_sets rfl rfl (congrArg (· :: []) hAnswer) (M.instanceGet hFlags rfl)
      fun h₁ k₁ => ?_
    refine Runtime.goes_sets rfl rfl (congrArg (· :: []) (Function.update_self _ _ _)) (M.and rfl)
      fun h₂ k₂ => ?_
    exact ⟨rfl, Function.update_idem _ _ _, k₁.trans k₂⟩
  have hKept := hAnnounced.update (show 3 ≤ 5 by decide)
    (M.int (flags &&& Interceptor.clinitChangedBit.toInt32))
  constructor
  · intro hSet
    refine leads_tested (blockStart b + 12) (.inl rfl) hSplit hLength hWithin hBranch rfl hLine
      (Function.update_self _ _ _) (.inr ⟨mt (M.isZero_int _).mp hSet, rfl⟩) fun h₁ k₁ => ?_
    obtain ⟨lead', hSplit', hLength'⟩ : ∃ lead' : List Instruction, code = lead' ++
        ([.invoke .interface .fixed [.v 0, .v 1, .v 2] Interceptor.invokePostClinit] ++
          [.returnVoid]) ∧ lead'.length = blockStart b + 12 :=
      exists_lead hCode 12 rfl (by decide)
    have hValues : ([.v 0, .v 1, .v 2].flatMap Register.slots).map (Function.update registers
        (.v 5) (M.int (flags &&& Interceptor.clinitChangedBit.toInt32))) =
        [interceptor, M.int (Text.hash owner.render), M.string owner.render] := by
      simp [Register.slots_v, hAnnounced.v0, hAnnounced.v1, hAnnounced.v2]
    have hCall : M.Goes [.invoke .interface .fixed [.v 0, .v 1, .v 2]
        Interceptor.invokePostClinit] (Function.update registers (.v 5)
          (M.int (flags &&& Interceptor.clinitChangedBit.toInt32))) h₁ fun calls _ h₂ =>
        ∃ call, calls = [call] ∧
          Announces M Interceptor.invokePostClinit owner interceptor call ∧ call.before = h₁ ∧
          call.after = h₂ :=
      Runtime.goes_call hValues (M.call hReturns) fun out hOut =>
        ⟨hOut.control, _, rfl, ⟨rfl, rfl, rfl⟩, rfl, rfl⟩
    refine hCall.leads hSplit' hLength' (storing_line hSplit' hLength' (Nat.le_add_right _ _)
      (by simp [Instruction.StoresOnly])) ?_
    rintro calls registers₂ h₂ ⟨call, rfl, hAnnounces, rfl, rfl⟩
    have hReturn : code[blockStart b + 12 + 1]? = some .returnVoid :=
      Machine.getElem?_behind hSplit' hLength'
    exact Runtime.leads_stop (storing_at (added_of_blockStart_le (by omega)) hReturn trivial)
      hReturn rfl rfl M.returnVoid fun h₃ k₃ => ⟨call, h₃, rfl, hAnnounces, k₁, rfl, k₃⟩
  · intro hClear
    exact leads_tested 2 (.inl rfl) hSplit hLength hWithin hBranch rfl hLine
      (Function.update_self _ _ _) (.inl ⟨(M.isZero_int _).mpr hClear, position?_origin hCode⟩)
      fun h₁ k₁ => leads_body (storing_origin hCode _) hCode ⟨rfl, _, h₁, rfl, k₁⟩

/-- The carried interceptor goes into the slot of the class, if there is one. -/
theorem leads_install (hNodup : (Code.placed code).Nodup) {answer carried : V}
    {goal : List (Call V H) → Config V H R → Prop}
    (hAnnounced : Announced M owner interceptor registers) (hAnswer : registers (.v 4) = answer)
    (hCarried : M.look heap (.field answer Interceptor.resultInterceptor) = some [carried])
    (hField : (M.look heap (.static (Interceptor.slot owner))).isSome)
    (hGoal : ∀ registers' heap', Announced M owner interceptor registers' →
      registers' (.v 4) = answer → Installs M owner carried heap heap' →
      goal [] (.running (blockStart b + 9) registers' heap')) :
    M.Leads code (Storing b code fun field => field = Interceptor.slot owner ∧ ¬ M.isZero carried)
      (.running (blockStart b + 5) registers heap) goal := by
  obtain ⟨lead, hSplit, hLength⟩ : ∃ lead : List Instruction, code = lead ++
      ([.instanceGet .object (.v 3) (.v 4) Interceptor.resultInterceptor] ++
        .branchZero .eq (.v 3) ⟨b.nextLabel + 2⟩ ::
          .staticPut .object (.v 3) (Interceptor.slot owner) :: .label ⟨b.nextLabel + 2⟩ :: _) ∧
        lead.length = blockStart b + 5 :=
    exists_lead hCode 5 rfl (by decide)
  obtain ⟨lead', hSplit', hLength'⟩ : ∃ lead' : List Instruction, code = lead' ++
      .label ⟨b.nextLabel + 2⟩ :: _ ∧ lead'.length = blockStart b + 8 :=
    exists_lead hCode 8 rfl (by decide)
  have hCheck : Code.position? code ⟨b.nextLabel + 2⟩ = some (blockStart b + 8) := by
    rw [hSplit'] at hNodup ⊢
    rw [Code.position?_of_nodup hNodup, hLength']
  have hLabel : code[blockStart b + 8]? = some (.label ⟨b.nextLabel + 2⟩) :=
    Code.getElem?_position? hCheck
  have hLine : M.Goes [.instanceGet .object (.v 3) (.v 4) Interceptor.resultInterceptor] registers
      heap fun calls registers₁ h₁ => calls = [] ∧
        registers₁ = Function.update registers (.v 3) carried ∧ M.Keeps [] heap h₁ :=
    Runtime.goes_sets rfl rfl (congrArg (· :: []) hAnswer) (M.instanceGet hCarried rfl)
      fun h₁ k₁ => ⟨rfl, rfl, k₁⟩
  have hKept := hAnnounced.update (show 3 ≤ 3 by decide) carried
  have hStill : Function.update registers (.v 3) carried (.v 4) = answer := by
    simp [hAnswer]
  have hWithin : ∀ t, blockStart b + 5 ≤ t → t < blockStart b + 5 + 1 → Storing b code
      (fun field => field = Interceptor.slot owner ∧ ¬ M.isZero carried) t :=
    storing_line hSplit hLength (Nat.le_add_right _ _) (by simp [Instruction.StoresOnly])
  have hBranch : Storing b code (fun field => field = Interceptor.slot owner ∧ ¬ M.isZero carried)
      (blockStart b + 5 + 1) :=
    storing_at (added_of_blockStart_le (by omega)) (Machine.getElem?_behind hSplit hLength) trivial
  by_cases hNull : M.isZero carried
  · refine leads_tested (blockStart b + 8) (.inl rfl) hSplit hLength hWithin hBranch rfl hLine
      (Function.update_self _ _ _) (.inl ⟨hNull, hCheck⟩) fun h₁ k₁ => ?_
    refine Runtime.leads_label (storing_at (added_of_blockStart_le (by omega)) hLabel trivial)
      hLabel (.done (hGoal _ h₁ hKept hStill ⟨fun _ => k₁, fun hSet => absurd hNull hSet⟩))
  · refine leads_tested (blockStart b + 7) (.inl rfl) hSplit hLength hWithin hBranch rfl hLine
      (Function.update_self _ _ _) (.inr ⟨hNull, rfl⟩) fun h₁ k₁ => ?_
    obtain ⟨lead'', hSplit'', hLength''⟩ : ∃ lead'' : List Instruction, code = lead'' ++
        ([.staticPut .object (.v 3) (Interceptor.slot owner)] ++
          .label ⟨b.nextLabel + 2⟩ :: _) ∧ lead''.length = blockStart b + 7 :=
      exists_lead hCode 7 rfl (by decide)
    have hReads : (Instruction.staticPut .object (.v 3) (Interceptor.slot owner)).readSlots.map
        (Function.update registers (.v 3) carried) = [carried] :=
      congrArg (· :: []) (Function.update_self _ _ _)
    have hPut : M.Goes [.staticPut .object (.v 3) (Interceptor.slot owner)]
        (Function.update registers (.v 3) carried) h₁ fun calls registers₂ h₂ => calls = [] ∧
          registers₂ = Function.update registers (.v 3) carried ∧
          M.Keeps [.static (Interceptor.slot owner)] h₁ h₂ ∧
          M.look h₂ (.static (Interceptor.slot owner)) = some [carried] :=
      Runtime.goes_plain rfl rfl hReads
        (M.staticPut (k₁.stays_of_nil _ hField) fun _ hType => by cases hType) fun out hOut =>
          ⟨hOut.control, rfl, rfl, hOut.keeps, hOut.now⟩
    refine hPut.leads hSplit'' hLength'' (storing_line hSplit'' hLength'' (Nat.le_add_right _ _)
      (by simp [Instruction.StoresOnly, hNull])) ?_
    rintro calls registers₂ h₂ ⟨rfl, rfl, k₂, hNow⟩
    exact Runtime.leads_label (storing_at (added_of_blockStart_le (by omega)) hLabel trivial) hLabel
      (.done (hGoal _ h₂ hKept hStill
        ⟨fun hZero => absurd hZero hNull, fun _ => ⟨k₁.weaken.trans k₂, hNow⟩⟩))

end Code

/--
**A class is announced.**  Take any platform, and a static initializer that was intercepted, with an
interceptor in the slot of the process.  Every run of the new body first announces the class, once
and before any other call, by the hash of its descriptor and the descriptor.  If the answer is null,
the run then enters the body, and nothing was stored.  If not, the run stores the interceptor that
the answer carries into the slot of the class, and nothing if it carries none.  Then the flags of
the answer decide.  If their first bit is set, the replacement is called once, with the same
interceptor, hash and descriptor, and the static initializer returns; no instruction of the body is
executed.  If it is clear, the run enters the body without another call.  The body is entered once,
since control cannot run out of it and never comes back to what is around it.
-/
theorem staticInit_announcesClass (M : Platform V H E R) {m m' : Method} {b b' : Body}
    (hDone : Intercept.staticInit m = .ok m') (hBody : m.body = some b)
    (hBody' : m'.body = some b') (hClosed : Code.Closed b.instructions)
    (hClinit : M.returns Interceptor.invokeClinit)
    (hPostClinit : M.returns Interceptor.invokePostClinit) {registers : Register → V} {heap : H}
    {interceptor : V}
    (hSlot : M.look heap (.static Interceptor.clinitSlot) = some [interceptor])
    (hSet : ¬ M.isZero interceptor)
    (hField : (M.look heap (.static (Interceptor.slot m.owner))).isSome) :
    (∀ j < b.instructions.length, b'.instructions[bodyStart + j]? = b.instructions[j]?) ∧
      (∀ registers' heap',
        Confined M.toMachine b b'.instructions (.running bodyStart registers' heap')) ∧
      M.Leads b'.instructions (Storing b b'.instructions nowhere) (.running 0 registers heap)
        fun calls c => ∃ asked answer, calls = [asked] ∧
          Announces M Interceptor.invokeClinit m.owner interceptor asked ∧
          M.answer asked.after = [answer] ∧
          (M.isZero answer → EntersPlainly M b b'.instructions asked.after c) ∧
          (¬ M.isZero answer → ∃ carried flags,
            M.look asked.after (.field answer Interceptor.resultInterceptor) = some [carried] ∧
            M.look asked.after (.field answer Interceptor.resultFlags) = some [M.int flags] ∧
            M.Leads b'.instructions
              (Storing b b'.instructions fun field =>
                field = Interceptor.slot m.owner ∧ ¬ M.isZero carried) c
              fun calls d => calls = [] ∧ Installs M m.owner carried asked.after d.heap ∧
                (flags &&& Interceptor.clinitChangedBit.toInt32 ≠ 0 →
                  RunsReplacement M b b'.instructions m.owner interceptor d) ∧
                (flags &&& Interceptor.clinitChangedBit.toInt32 = 0 →
                  EntersPlainly M b b'.instructions d.heap d)) := by
  obtain ⟨hCode, hCheck⟩ := staticInit_eq_ok hBody hBody' hDone
  have hNodup := Body.nodup_placed hCheck
  refine ⟨fun j hj => getElem?_body hCode hj,
    fun _ _ => confined_bodyStart hCode hNodup hClosed _ _, ?_⟩
  have hRead : Storing b b'.instructions nowhere 0 :=
    storing_at (i := .staticGet .object (.v 0) Interceptor.clinitSlot) (added_of_lt (by decide))
      (by rw [hCode]; rfl) trivial
  have hTest : Storing b b'.instructions nowhere 1 :=
    storing_at (i := .branchZero .ne (.v 0) (ownFork b).intercept) (added_of_lt (by decide))
      (by rw [hCode]; rfl) trivial
  have hIntercept : Storing b b'.instructions nowhere (bodyStart + b.instructions.length) :=
    storing_at (added_of_le (Nat.le_refl _))
      (Code.getElem?_position? (position?_intercept hCode hNodup)) trivial
  refine leads_test hRead hTest hIntercept hCode hNodup hSlot hSet fun h₁ k₁ => ?_
  have hAsk : b'.instructions = guardCode b Interceptor.clinitSlot ++ (announcement m.owner ++ _) :=
    hCode
  refine (goes_announcement hClinit (Function.update_self _ _ _)).leads hAsk (length_guardCode b _)
    (storing_line hAsk (length_guardCode b _) (Nat.le_refl _)
      (by simp [announcement, Instruction.StoresOnly])) ?_
  rintro calls registers₂ h₂ ⟨asked, rfl, hAnnounces, rfl, hAnnounced, hStays, answer, hAnswer,
    hReport⟩
  refine .done ⟨asked, answer, rfl, hAnnounces, hAnswer, fun hNull => ?_, fun hReal => ?_⟩
  · exact leads_clinitAnswer hCode 2 hAnswer (.inl ⟨hNull, rfl⟩) fun h₃ k₃ =>
      leads_body (storing_origin hCode _) hCode ⟨rfl, _, h₃, rfl, k₃⟩
  · have hReport := hReport.resolve_left hReal
    obtain ⟨carried, hCarried⟩ : ∃ carried, M.look asked.after
        (.field answer Interceptor.resultInterceptor) = some [carried] := by
      obtain ⟨value, hLook⟩ := Option.isSome_iff_exists.mp (hReport _ List.mem_cons_self)
      obtain ⟨carried, rfl⟩ := List.length_eq_one_iff.mp (M.field_width hLook)
      exact ⟨carried, hLook⟩
    obtain ⟨flags, hFlags⟩ : ∃ flags, M.look asked.after
        (.field answer Interceptor.resultFlags) = some [M.int flags] := by
      obtain ⟨value, hLook⟩ := Option.isSome_iff_exists.mp
        (hReport _ (List.mem_cons_of_mem _ List.mem_cons_self))
      obtain ⟨flags, rfl⟩ := M.field_int hLook rfl
      exact ⟨flags, hLook⟩
    refine ⟨carried, flags, hCarried, hFlags, ?_⟩
    refine leads_clinitAnswer hCode (blockStart b + 5) hAnswer (.inr ⟨hReal, rfl⟩) fun h₃ k₃ => ?_
    refine leads_install hCode hNodup (hAnnounced.update (by decide) answer)
      (Function.update_self _ _ _) (k₃.look List.not_mem_nil hCarried)
      ((k₁.stays_of_nil.trans (hStays.trans k₃.stays_of_nil)) _ hField) ?_
    intro registers₄ h₄ hAnnounced₄ hAnswer₄ hInstalls
    have hFlags₄ : M.look h₄ (.field answer Interceptor.resultFlags) = some [M.int flags] :=
      hInstalls.look (k₃.look List.not_mem_nil hFlags)
    obtain ⟨hRuns, hEnters⟩ := leads_clinitFlags hCode hPostClinit hAnnounced₄ hAnswer₄ hFlags₄
    exact ⟨rfl, hInstalls.of_keeps k₃, hRuns, hEnters⟩

end Protocol

/-- A static initializer that sets a counter. -/
def countingInit : Method where
  owner := .of "a/Main"
  name := .clinit
  signature := .void []
  access := { isStatic := true, isInitializer := true }
  body := some ⟨1, 0, [.const (.v 0) 3,
    .staticPut .plain (.v 0) ⟨.of "a/Main", ⟨"count"⟩, .base .int⟩, .returnVoid], 0⟩

/-- The process has an interceptor, and the class has none yet. -/
def watched : Interpreter.Store where
  objects := [Interpreter.blank, Interpreter.blank]
  statics name :=
    if name = Interceptor.clinitSlot then some [.ref 0]
    else if name = Interceptor.slot (.of "a/Main") then some [.int 0] else none
  answer := []

/-- A patch for the class is installed and its replacement called; the counter is never set. -/
theorem staticInit_announcesClass_counting :
    let M := Interpreter.platform (Interpreter.overhaul (.ref 1)) (Interpreter.reports_overhaul _)
    ∃ m' b b', Intercept.staticInit countingInit = .ok m' ∧ countingInit.body = some b ∧
      m'.body = some b' ∧
      M.Leads b'.instructions (Added b) (.running 0 (Interpreter.entered []) watched) fun calls c =>
        ∃ asked replaced heap, calls = [asked, replaced] ∧
          Announces M Interceptor.invokeClinit (.of "a/Main") (.ref 0) asked ∧
          Announces M Interceptor.invokePostClinit (.of "a/Main") (.ref 0) replaced ∧
          M.look replaced.before (.static (Interceptor.slot (.of "a/Main"))) = some [.ref 1] ∧
          c = .ended [] heap := by
  intro M
  obtain ⟨m', b', hDone, hBody'⟩ : ∃ m' b', Intercept.staticInit countingInit = .ok m' ∧
      m'.body = some b' := ⟨_, _, rfl, rfl⟩
  have hSlot : M.look watched (.static Interceptor.clinitSlot) = some [.ref 0] := rfl
  obtain ⟨_, _, hLeads⟩ := staticInit_announcesClass M hDone rfl hBody'
    ⟨by decide, _, rfl, rfl⟩ rfl rfl hSlot (Interpreter.ref_ne_zero 0) rfl
  refine ⟨m', _, b', hDone, rfl, hBody', (hLeads.makes.widen fun _ h => h.1).trans ?_⟩
  rintro calls c ⟨⟨asked, answer, rfl, hAsked, hAnswer, _, hChanged⟩, hMade⟩
  have hAfter : asked.after = asked.before.alloc (Interpreter.changed (.ref 1)) := by
    rw [Interpreter.after_of_makes (hMade asked List.mem_cons_self)
      (by rw [hAsked.target]; rfl), hAsked.target]
    rfl
  rw [hAfter] at hAnswer hChanged
  obtain rfl : .ref asked.before.objects.length = answer := (List.cons.inj hAnswer).1
  obtain ⟨carried, flags, hCarried, hFlags, hLeads'⟩ := hChanged (Interpreter.ref_ne_zero _)
  have hLook := Interpreter.look_changed (h := asked.before.alloc (Interpreter.changed (.ref 1)))
    Interpreter.Store.item?_alloc_self
  obtain rfl : .ref 1 = carried :=
    (List.cons.inj (Option.some.inj (hLook.1.symm.trans hCarried))).1
  obtain rfl : 1 = flags := Interpreter.Datum.int.inj
    (List.cons.inj (Option.some.inj (hLook.2.1.symm.trans hFlags))).1
  refine (hLeads'.widen fun _ h => h.1).trans ?_
  rintro more d ⟨rfl, hInstalls, hRuns, _⟩
  refine ((hRuns (by decide)).widen fun _ h => h.1).trans ?_
  rintro last e ⟨replaced, heap, rfl, hReplaced, hKeeps, rfl, _⟩
  exact .done ⟨asked, replaced, heap, rfl, hAsked, hReplaced, hKeeps.look List.not_mem_nil
    (hInstalls.present (Interpreter.ref_ne_zero 1)).2, rfl⟩

/-- A body that ends with a constant. -/
def openInitBody : Body := ⟨1, 0, [.const (.v 0) 42], 0⟩

def openInit : Method := { countingInit with body := some openInitBody }

/-- Control runs out of the body into the announcement, which is made again, to what the body has
left in the register of the interceptor. -/
theorem staticInit_announcesTwice :
    let M := Interpreter.platform Interpreter.silent Interpreter.reports_silent
    ∃ m' b', Intercept.staticInit openInit = .ok m' ∧ m'.body = some b' ∧
      M.Leads b'.instructions (fun _ => True) (.running 0 (Interpreter.entered []) watched)
        fun calls _ => ∃ asked asked', calls = [asked, asked'] ∧
          Announces M Interceptor.invokeClinit (.of "a/Main") (.ref 0) asked ∧
          Announces M Interceptor.invokeClinit (.of "a/Main") (.int 42) asked' := by
  intro M
  obtain ⟨m', b', hDone, hBody'⟩ : ∃ m' b', Intercept.staticInit openInit = .ok m' ∧
      m'.body = some b' := ⟨_, _, rfl, rfl⟩
  refine ⟨m', b', hDone, hBody', ?_⟩
  obtain ⟨hCode, hCheck⟩ := staticInit_eq_ok rfl hBody' hDone
  have hNodup := Body.nodup_placed hCheck
  have hSlot : M.look watched (.static Interceptor.clinitSlot) = some [.ref 0] := rfl
  have hAsk : b'.instructions = guardCode openInitBody Interceptor.clinitSlot ++
      (announcement openInit.owner ++ _) := hCode
  refine leads_test trivial trivial trivial hCode hNodup hSlot (Interpreter.ref_ne_zero 0)
    fun h₁ _ => ?_
  have hFirst : M.Leads b'.instructions (fun _ => True) (.running (blockStart openInitBody)
      (Function.update (Interpreter.entered []) (.v 0) (.ref 0)) h₁) fun calls c =>
        ∃ asked registers, calls = [asked] ∧
          Announces M Interceptor.invokeClinit (.of "a/Main") (.ref 0) asked ∧
          c = .running (blockStart openInitBody + 3) registers asked.after := by
    refine (goes_announcement rfl (Function.update_self _ _ _)).leads hAsk
      (length_guardCode openInitBody _) (fun _ _ _ => trivial) ?_
    rintro calls registers heap ⟨asked, rfl, hAsked, rfl, _⟩
    exact .done ⟨asked, registers, rfl, hAsked, rfl⟩
  refine hFirst.makes.trans ?_
  rintro calls c ⟨⟨asked, registers, rfl, hAsked, rfl⟩, hMakes⟩
  have hNull : M.answer asked.after = [.int 0] := by
    rw [Interpreter.after_of_makes (hMakes asked List.mem_cons_self)
      (by rw [hAsked.target]; rfl), hAsked.target]
    rfl
  have hEnters : EntersPlainly M openInitBody b'.instructions asked.after
      (.running (blockStart openInitBody + 3) registers asked.after) :=
    leads_clinitAnswer hCode 2 hNull (.inl ⟨rfl, rfl⟩) fun h₃ k₃ =>
      leads_body (storing_origin hCode _) hCode ⟨rfl, _, h₃, rfl, k₃⟩
  refine (hEnters.widen fun _ _ => trivial).trans ?_
  rintro more d ⟨rfl, registers₂, h₂, rfl, _⟩
  have hBody : M.Goes openInitBody.instructions registers₂ h₂ fun calls registers' _ =>
      calls = [] ∧ registers' (.v 0) = .int 42 :=
    Runtime.goes_sets rfl rfl rfl (M.const rfl) fun _ _ => ⟨rfl, Function.update_self _ _ _⟩
  refine leads_runOff hCode hNodup (fun _ => trivial) hBody ?_
  rintro calls registers₃ h₃ ⟨rfl, hLeft⟩
  refine (goes_announcement rfl hLeft).leads hAsk (length_guardCode openInitBody _)
    (fun _ _ _ => trivial) ?_
  rintro calls registers₄ h₄ ⟨asked', rfl, hAsked', _⟩
  exact .done ⟨asked, asked', rfl, hAsked, hAsked'⟩

end Intercept

end HotPatch
