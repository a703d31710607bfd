import HotPatch.Proofs.Bytecode.FrameSize
import HotPatch.Proofs.Intercept.InitOrder
import HotPatch.Proofs.Intercept.ParameterShapes
import HotPatch.Proofs.Program.Methods

/-!
# Interception of a well-formed body

A body that can be encoded, whose labels were all handed out by its own
counter, is intercepted without fail as long as its registers can be counted
in the new frame, and what comes out can be encoded again.  The code for the
interceptor is built from the back: a `Tail` of an intercepted body takes
plain code, forward jumps and unused labels in front, and closes off a body
(`finish_guard`).

The one call that depends on the size of the frame is the one that passes the
arguments in place.  It uses the last locals, so nothing behind it may make
the frame larger.
-/

namespace HotPatch

namespace Intercept

/-! ## The code behind a body -/

/-- Code that can stand behind a guarded body: its labels are its own, numbered from behind those
of the guard up to `next`, it jumps to them or back to the body, its calls fit the frame, and
control does not run off its end. -/
structure Tail (b : Body) (next locals : Nat) (code : List Instruction) : Prop where
  nodup : (Code.placed code).Nodup
  own : ∀ l ∈ Code.placed code, b.nextLabel + 2 ≤ l.number ∧ l.number < next
  targets : ∀ i ∈ code, ∀ l ∈ i.targets, l = (ownFork b).origin ∨ l ∈ Code.placed code
  calls : ∀ i ∈ code, Code.invokeError? locals i = none
  last : ∃ i, code.getLast? = some i ∧ i.fallsThrough = false

namespace Tail

variable {b : Body} {next locals : Nat} {code : List Instruction}

/-- An instruction that control does not fall through is a tail. -/
theorem stop {i : Instruction} (hPlain : i.Plain locals) (hStop : i.fallsThrough = false) :
    Tail b next locals [i] where
  nodup := by simp [Code.placed, hPlain.placed]
  own := by simp [Code.placed, hPlain.placed]
  targets := by simp [hPlain.targets]
  calls := by simp [hPlain.call]
  last := ⟨i, rfl, hStop⟩

/-- In front of a tail: an instruction that at most jumps, back to the body or forward. -/
theorem jump {i : Instruction} (hTail : Tail b next locals code) (hPlaced : i.placed? = none)
    (hTargets : ∀ l ∈ i.targets, l = (ownFork b).origin ∨ .label l ∈ code)
    (hCall : Code.invokeError? locals i = none) : Tail b next locals (i :: code) := by
  have hSame : Code.placed (i :: code) = Code.placed code := by
    simp [Code.placed, hPlaced]
  refine ⟨hSame ▸ hTail.nodup, hSame ▸ hTail.own, ?_, ?_, ?_⟩
  · rw [hSame]
    intro j hj l hl
    rcases List.mem_cons.mp hj with rfl | hj
    · exact (hTargets l hl).imp_right Code.mem_placed.mpr
    · exact hTail.targets j hj l hl
  · exact List.forall_mem_cons.mpr ⟨hCall, hTail.calls⟩
  · obtain ⟨last, hLast, hStop⟩ := hTail.last
    exact ⟨last, by rw [List.getLast?_cons, hLast]; rfl, hStop⟩

/-- In front of a tail: a label that it does not have. -/
theorem label {l : Label} (hTail : Tail b next locals code) (hNew : .label l ∉ code)
    (hOwn : b.nextLabel + 2 ≤ l.number ∧ l.number < next) :
    Tail b next locals (.label l :: code) := by
  have hMore : Code.placed (.label l :: code) = l :: Code.placed code := rfl
  refine ⟨?_, ?_, ?_, ?_, ?_⟩
  · rw [hMore, List.nodup_cons, Code.mem_placed]
    exact ⟨hNew, hTail.nodup⟩
  · rw [hMore]
    exact List.forall_mem_cons.mpr ⟨hOwn, hTail.own⟩
  · rw [hMore]
    intro j hj l' hl'
    rcases List.mem_cons.mp hj with rfl | hj
    · cases hl'
    · exact (hTail.targets j hj l' hl').imp_right (List.mem_cons_of_mem l)
  · exact List.forall_mem_cons.mpr ⟨rfl, hTail.calls⟩
  · obtain ⟨last, hLast, hStop⟩ := hTail.last
    exact ⟨last, by rw [List.getLast?_cons, hLast]; rfl, hStop⟩

/-- Plain instructions go in front of a tail. -/
theorem plain {i : Instruction} (hTail : Tail b next locals code) (hPlain : i.Plain locals) :
    Tail b next locals (i :: code) :=
  hTail.jump hPlain.placed (by simp [hPlain.targets]) hPlain.call

/-- Plain lines go in front of a tail. -/
theorem line {line : List Instruction} (hTail : Tail b next locals code)
    (hPlain : ∀ i ∈ line, i.Plain locals) : Tail b next locals (line ++ code) := by
  induction line with
  | nil => exact hTail
  | cons i rest ih =>
      obtain ⟨hHere, hRest⟩ := List.forall_mem_cons.mp hPlain
      exact (ih hRest).plain hHere

/-- Jumps back to the body go in front of a tail. -/
theorem back (hTail : Tail b next locals code) (test : Comparison) (value : Register) :
    Tail b next locals (.branchZero test value (ownFork b).origin :: code) :=
  hTail.jump rfl (fun _ h => .inl (List.mem_singleton.mp h)) rfl

private theorem forward {i : Instruction} {l : Label} (hTail : Tail b next locals code)
    (hPlaced : i.placed? = none) (hTargets : i.targets = [l]) (hMem : .label l ∈ code)
    (hCall : Code.invokeError? locals i = none) : Tail b next locals (i :: code) :=
  hTail.jump hPlaced (fun _ h => .inr (List.mem_singleton.mp (hTargets ▸ h) ▸ hMem)) hCall

end Tail

/-- A body that is kept whole inside another that can be encoded. -/
structure Encloses (scratch : Nat) (b b' : Body) : Prop where
  check : b'.check = .ok ()
  distinct : (Code.placed b'.instructions).Nodup
  below : ∀ l ∈ Code.placed b'.instructions, l.number < b'.nextLabel
  kept : ∃ front back, b'.instructions = front ++ (b.instructions ++ back) ∧ front.length = 3
  last : ∃ i, b'.instructions.getLast? = some i ∧ i.fallsThrough = false
  locals : b.locals ≤ b'.locals
  scratch : scratch ≤ b'.locals

/-- A body that can be intercepted: it can be encoded in a frame of any size from its own on, and
it uses no label that is still to be handed out. -/
structure WellFormed (b : Body) : Prop where
  check : b.check = .ok ()
  below : ∀ l ∈ Code.placed b.instructions, l.number < b.nextLabel
  banks : ∀ i ∈ b.instructions, i.KeepsBank

/-- The locals of a body with room for some of the interceptor's. -/
def frame (b : Body) (scratch : Nat) : Nat :=
  max (max b.locals scratch) (Code.usedLocals b.instructions)

/-- With room for the interceptor, the registers of a body and the slots of its parameters have
indices in 16 bits. -/
structure Counted (b : Body) (scratch slots : Nat) : Prop where
  locals : frame b scratch ≤ Register.maxIndex
  parameters : frame b scratch + slots ≤ Register.maxIndex + 1
  inReach : ∀ i ∈ b.instructions, i.InReach (frame b scratch)

/-- What can be counted in a frame can be counted by itself. -/
theorem Counted.slots_le {b : Body} {scratch slots : Nat} (h : Counted b scratch slots)
    (hScratch : 0 < scratch) : slots ≤ Register.maxIndex := by
  have hPos : scratch ≤ frame b scratch :=
    Nat.le_trans (Nat.le_max_right _ _) (Nat.le_max_left _ _)
  have hSum := h.parameters
  omega

section Guard

variable {b : Body} {slot : FieldRef} {code : List Instruction}

private theorem placed_guardCode (b : Body) (slot : FieldRef) (code : List Instruction) :
    Code.placed (guardCode b slot ++ code) = (ownFork b).origin ::
      (Code.placed b.instructions ++ (ownFork b).intercept :: Code.placed code) := by
  have hFork : Code.placed (Boxing.forkCode (.v 0) slot (ownFork b)) = [(ownFork b).origin] := rfl
  have hLabel : Code.placed [.label (ownFork b).intercept] = [(ownFork b).intercept] := rfl
  rw [guardCode, Code.placed_append, Code.placed_append, Code.placed_append, hFork, hLabel]
  simp

/-- Behind a well-formed body a tail places no label a second time. -/
theorem WellFormed.nodup_guardCode (hBody : WellFormed b) {next locals : Nat}
    (hTail : Tail b next locals code) : (Code.placed (guardCode b slot ++ code)).Nodup := by
  have hBelow : ∀ l ∈ Code.placed b.instructions, l.number < b.nextLabel := hBody.below
  have hAbove : ∀ l ∈ Code.placed code, b.nextLabel + 2 ≤ l.number :=
    fun l hl => (hTail.own l hl).1
  rw [placed_guardCode, List.nodup_cons, List.nodup_append, List.nodup_cons]
  refine ⟨?_, Body.nodup_placed (Body.check_eq_ok_iff.mp hBody.check), ⟨?_, hTail.nodup⟩, ?_⟩
  · simp only [List.mem_append, List.mem_cons, not_or]
    refine ⟨fun h => ?_, by simp [ownFork], fun h => ?_⟩
    · exact Nat.lt_irrefl _ (hBelow _ h)
    · have : b.nextLabel + 2 ≤ b.nextLabel := hAbove _ h
      omega
  · intro h
    have : b.nextLabel + 2 ≤ b.nextLabel + 1 := hAbove _ h
    omega
  · rintro l hl l' hl' rfl
    have hLt := hBelow l hl
    rcases List.mem_cons.mp hl' with rfl | hl'
    · have : b.nextLabel + 1 < b.nextLabel := hLt
      omega
    · have := hAbove l hl'
      omega

/-- The test of a slot, a well-formed body and a tail behind it make up a body that can be
encoded. -/
theorem WellFormed.finish_guard (hBody : WellFormed b) {d : Draft} {scratch params : Nat}
    (hCode : d.instructions = guardCode b slot ++ code)
    (hNext : b.nextLabel + 2 ≤ d.nextLabel) (hLocals : d.minimumLocals = max b.locals scratch)
    (hTail : Tail b d.nextLabel d.locals code) {room slots : Nat} (hCounted : Counted b room slots)
    (hRoom : d.locals ≤ frame b room) :
    ∃ b', d.finish params = .ok b' ∧ Encloses scratch b b' := by
  have hNodup : (Code.placed d.instructions).Nodup := hCode ▸ hBody.nodup_guardCode hTail
  have hPlaced : Code.placed d.instructions = (ownFork b).origin ::
      (Code.placed b.instructions ++ (ownFork b).intercept :: Code.placed code) :=
    hCode ▸ placed_guardCode b slot code
  obtain ⟨_, hOld⟩ := Body.error?_eq_none_iff.mp (Body.check_eq_ok_iff.mp hBody.check)
  have hEach : ∀ i ∈ d.instructions, (∀ l ∈ i.targets, l ∈ Code.placed d.instructions) ∧
      Code.invokeError? d.locals i = none := by
    intro i hi
    rw [hPlaced]
    simp only [hCode, guardCode, Boxing.forkCode, List.mem_append, List.mem_cons,
      List.not_mem_nil, or_false] at hi
    rcases hi with (((rfl | rfl | rfl) | hi) | rfl) | hi
    · exact ⟨by simp [Instruction.targets], rfl⟩
    · exact ⟨by simp [Instruction.targets], rfl⟩
    · exact ⟨by simp [Instruction.targets], rfl⟩
    · refine ⟨fun l hl => ?_, (hBody.banks i hi).invokeError? (hOld i hi).2
        ((hCounted.inReach i hi).of_le hRoom)⟩
      exact List.mem_cons_of_mem _ (List.mem_append_left _ ((hOld i hi).1 l hl))
    · exact ⟨by simp [Instruction.targets], rfl⟩
    · refine ⟨fun l hl => ?_, hTail.calls i hi⟩
      rcases hTail.targets i hi l hl with rfl | hl
      · exact List.mem_cons_self
      · exact List.mem_cons_of_mem _ (List.mem_append_right _ (List.mem_cons_of_mem _ hl))
  have hUsed : Code.usedLocals d.instructions ≤ Register.maxIndex :=
    Nat.le_trans (Nat.le_max_right _ _) (Nat.le_trans hRoom hCounted.locals)
  obtain ⟨hFinish, hCheck⟩ := Draft.finish_eq params hNodup hEach hUsed
  have hMost : max b.locals scratch ≤ d.locals := hLocals ▸ Nat.le_max_left _ _
  refine ⟨_, hFinish, hCheck, hNodup, ?_, ?_, ?_, Nat.le_trans (Nat.le_max_left _ _) hMost,
    Nat.le_trans (Nat.le_max_right _ _) hMost⟩
  · show ∀ l ∈ Code.placed d.instructions, l.number < d.nextLabel
    rw [hPlaced]
    intro l hl
    rcases List.mem_cons.mp hl with rfl | hl
    · exact Nat.lt_of_lt_of_le (Nat.lt_add_of_pos_right (by decide)) hNext
    rcases List.mem_append.mp hl with hl | hl
    · have := hBody.below l hl
      omega
    rcases List.mem_cons.mp hl with rfl | hl
    · exact Nat.lt_of_succ_le hNext
    · exact (hTail.own l hl).2
  · exact ⟨Boxing.forkCode (.v 0) slot (ownFork b), .label (ownFork b).intercept :: code,
      by simp [hCode, guardCode], rfl⟩
  · obtain ⟨i, hLast, hStop⟩ := hTail.last
    refine ⟨i, ?_, hStop⟩
    show d.instructions.getLast? = some i
    rw [hCode, List.getLast?_append, hLast]
    rfl

private theorem usedLocals_guardCode (b : Body) (slot : FieldRef) {scratch : Nat}
    (h : 0 < scratch) :
    Code.usedLocals (guardCode b slot) ≤ frame b scratch := by
  have hScratch : scratch ≤ frame b scratch :=
    Nat.le_trans (Nat.le_max_right _ _) (Nat.le_max_left _ _)
  have hFork : Code.usedLocals (Boxing.forkCode (.v 0) slot (ownFork b)) ≤ frame b scratch :=
    Nat.le_trans h hScratch
  rw [guardCode, Code.usedLocals_append_le_iff, Code.usedLocals_append_le_iff]
  exact ⟨⟨hFork, Nat.le_max_right _ _⟩, Nat.zero_le _⟩

/-- The frame of a draft that only adds code with few locals to a guarded body. -/
theorem locals_le_frame {d : Draft} {scratch room : Nat}
    (hCode : d.instructions = guardCode b slot ++ code)
    (hLocals : d.minimumLocals = max b.locals scratch) (hPos : 0 < scratch) (hLe : scratch ≤ room)
    (hUsed : Code.usedLocals code ≤ room) : d.locals ≤ frame b room := by
  have hRoom : max b.locals room ≤ frame b room := Nat.le_max_left _ _
  refine Nat.max_le.mpr ⟨?_, ?_⟩
  · rw [hLocals]
    omega
  · rw [hCode, Code.usedLocals_append_le_iff]
    exact ⟨usedLocals_guardCode b slot (Nat.lt_of_lt_of_le hPos hLe), by omega⟩

end Guard

/-! ## The code for the interceptor -/

section Plain

variable {locals : Nat}

private theorem plain_commonCall (m : Method) (id : Nat) (arguments : List (Register × ValueType)) :
    ∀ i ∈ commonCall m id arguments, i.Plain locals := by
  intro i hi
  simp only [commonCall, List.mem_cons, List.mem_append, List.not_mem_nil, or_false] at hi
  rcases hi with rfl | rfl | hi | rfl | rfl | rfl
  · exact ⟨rfl, rfl, rfl⟩
  · exact ⟨rfl, rfl, rfl⟩
  · exact Boxing.plain_storeAll i hi
  · exact ⟨rfl, rfl, rfl⟩
  · split <;> exact ⟨rfl, rfl, rfl⟩
  · exact ⟨rfl, rfl, Code.invokeError?_fixed rfl (by decide)⟩

/-- The registers of a call that passes the arguments in place: the last locals and then the
parameters, a run in a frame of exactly this size. -/
theorem absoluteSlots_inPlace (s : Signature) (isStatic : Bool) {first : Nat}
    (hFirst : first + (if isStatic then 3 else 2) = locals) :
    RegisterList.absoluteSlots (.v first :: .v (first + 1) ::
        (if isStatic then .v (first + 2) else .p 0) ::
          (Boxing.declared s (!isStatic)).map Prod.fst) locals =
      List.range' first (3 + ValueType.totalWidth s.parameters) := by
  rw [Boxing.declared, RegisterList.absoluteSlots_cons, RegisterList.absoluteSlots_cons,
    RegisterList.absoluteSlots_cons, Boxing.absoluteSlots_layout, ← List.range'_append_1]
  subst hFirst
  cases isStatic <;> rfl

/-- Where the registers of a call in place start, below the parameters. -/
theorem exists_first (m : Method) (hLocals : methodScratch ≤ locals) :
    ∃ first, (if m.isStatic then locals - 3 else locals - 2) = first ∧
      first + (if m.isStatic then 3 else 2) = locals := by
  have hScratch : 4 ≤ locals := hLocals
  refine ⟨_, rfl, ?_⟩
  split <;> omega

private theorem plain_shapeCall (m : Method) (id : Nat) (hLocals : methodScratch ≤ locals)
    (hCounted : locals + m.signature.slots (!m.isStatic) ≤ Register.maxIndex + 1) :
    ∀ i ∈ shapeCall m id m.signature.shape locals (Boxing.declared m.signature (!m.isStatic)),
      i.Plain locals := by
  obtain ⟨first, hFirst, hAt⟩ := exists_first m hLocals
  intro i hi
  simp only [shapeCall, hFirst, List.mem_append, List.mem_cons, List.not_mem_nil, or_false] at hi
  rcases hi with ((hi | rfl) | hi) | rfl
  · split at hi
    · cases hi
    · obtain rfl := List.mem_singleton.mp hi
      exact ⟨rfl, rfl, rfl⟩
  · exact ⟨rfl, rfl, rfl⟩
  · split at hi
    · obtain rfl := List.mem_singleton.mp hi
      exact ⟨rfl, rfl, rfl⟩
    · cases hi
  · refine ⟨rfl, rfl, Code.invokeError?_range_iff.mpr ?_⟩
    rw [RegisterList.isContiguous, absoluteSlots_inPlace m.signature m.isStatic hAt]
    refine ⟨?_, RegisterList.isRun_range' _ _, fun p hp => ?_⟩
    · have hExpected : (Interceptor.invokeShape m.signature.shape).signature.slots
          InvokeKind.interface.hasReceiver =
            3 + (0 + ValueType.totalWidth m.signature.parameters) :=
        Interceptor.slots_invokeShape m.signature
      rw [hExpected]
      simp only [RegisterList.slotCount, Boxing.declared, Boxing.slotCount_layout]
      cases m.isStatic <;> simp [Register.width, Register.v, Register.p] <;> omega
    · have hLast := (List.mem_range'_1.mp hp).2
      rw [Signature.slots] at hCounted
      cases hStatic : m.isStatic <;> simp [hStatic] at hAt hCounted <;> omega

/-- The registers of a call in place are all below the parameters, so it makes no frame larger. -/
theorem usedLocals_shapeCall (m : Method) (id : Nat) (shape : String)
    (hLocals : methodScratch ≤ locals) :
    Code.usedLocals (shapeCall m id shape locals (Boxing.declared m.signature (!m.isStatic))) ≤
      locals := by
  obtain ⟨first, hFirst, hAt⟩ := exists_first m hLocals
  have hLocal : ∀ k, k < locals → (Register.v k).localExtent ≤ locals := fun k hk => hk
  have hArgument : ∀ r ∈ (Boxing.declared m.signature (!m.isStatic)).map Prod.fst,
      r.localExtent ≤ locals := by
    intro r hr
    obtain ⟨x, hMem, rfl⟩ := List.mem_map.mp hr
    rw [Register.localExtent_of_params (Boxing.bank_of_mem_layout hMem).1]
    exact Nat.zero_le locals
  rw [Code.usedLocals_le_iff]
  simp only [shapeCall, hFirst, List.forall_mem_append, List.forall_mem_singleton,
    Instruction.registers, List.forall_mem_cons]
  have hBelow : first + 1 < locals := by
    split at hAt <;> omega
  refine ⟨⟨⟨?_, hLocal _ hBelow⟩, ?_⟩, hLocal _ (Nat.lt_of_succ_lt hBelow), hLocal _ hBelow, ?_,
    hArgument⟩
  · by_cases hZero : first = 0
    · simp [hZero]
    · rw [if_neg hZero]
      simp only [List.forall_mem_singleton, List.forall_mem_cons]
      exact ⟨hLocal _ (Nat.lt_of_succ_lt hBelow), hLocal _ (Nat.zero_lt_of_lt hBelow)⟩
  · cases hStatic : m.isStatic with
    | false => simp
    | true =>
        rw [hStatic] at hAt
        exact List.forall_mem_singleton.mpr (List.forall_mem_singleton.mpr
          (hLocal _ (hAt ▸ Nat.lt_succ_self _)))
  · cases hStatic : m.isStatic with
    | false => exact Nat.zero_le locals
    | true =>
        rw [hStatic] at hAt
        exact hLocal _ (hAt ▸ Nat.lt_succ_self _)

private theorem usedLocals_commonCall (m : Method) (id : Nat) (s : Signature) (hasReceiver : Bool) :
    Code.usedLocals (commonCall m id (Boxing.declared s hasReceiver)) ≤ methodScratch := by
  have hStore : Code.usedLocals (Boxing.storeAll (.v 3) (.v 1) (.v 2)
      (Boxing.declared s hasReceiver)) ≤ methodScratch :=
    Boxing.usedLocals_storeAll (by decide) (by decide) (by decide) fun x hx =>
      (Boxing.bank_of_mem_layout hx).1
  have hCall : Code.usedLocals [.const (.v 1) (Int32.ofNat id),
      if m.isStatic then .const (.v 2) 0 else .move .object (.v 2) (.p 0),
      .invoke .interface .fixed [.v 0, .v 1, .v 2, .v 3] Interceptor.invokeCommon] ≤
        methodScratch := by
    cases m.isStatic <;> exact Nat.le_refl 4
  rw [commonCall, Code.usedLocals_cons_le_iff, Code.usedLocals_cons_le_iff,
    Code.usedLocals_append_le_iff]
  exact ⟨List.forall_mem_singleton.mpr (Nat.le_refl 4), by decide, hStore, hCall⟩

private theorem plain_initCall {target : MethodRef} (hFits : InitFits target) :
    ∀ i ∈ initCall target, i.Plain locals := by
  have hUnpack : ∀ arguments : List (Register × ValueType),
      ∀ i ∈ (if arguments.isEmpty then []
        else .instanceGet .object (.v 3) (.v 1) Interceptor.callArgs ::
          Boxing.loadAll (.v 3) (.v 4) arguments), i.Plain locals := by
    intro arguments i hi
    split at hi
    · cases hi
    · rcases List.mem_cons.mp hi with rfl | hi
      · exact ⟨rfl, rfl, rfl⟩
      · exact Boxing.plain_loadAll i hi
  have hSlots : target.signature.slots InvokeKind.direct.hasReceiver =
      1 + ValueType.totalWidth target.signature.parameters := rfl
  intro i hi
  unfold initCall callInit at hi
  by_cases hRanged : ranged target = true
  · have hStart : initLayout target = Boxing.layout .locals 6 target.signature.parameters := by
      rw [initLayout, initStart, if_pos hRanged]
    simp only [hRanged, if_true, List.mem_cons, List.mem_append, List.not_mem_nil,
      or_false] at hi
    rcases hi with rfl | hi | rfl
    · exact ⟨rfl, rfl, rfl⟩
    · exact hUnpack _ i hi
    · have hRun : RegisterList.absoluteSlots (.v 5 :: (initLayout target).map Prod.fst) locals =
          List.range' 5 (ValueType.totalWidth target.signature.parameters + 1) := by
        rw [hStart, RegisterList.absoluteSlots_cons, Boxing.absoluteSlots_layout,
          List.range'_succ]
        rfl
      refine ⟨rfl, rfl, Code.invokeError?_range_iff.mpr ?_⟩
      rw [RegisterList.isContiguous, hRun]
      refine ⟨?_, RegisterList.isRun_range' _ _, fun p hp => ?_⟩
      · rw [RegisterList.slotCount, hStart, Boxing.slotCount_layout, hSlots]
        rfl
      · have hLast := (List.mem_range'_1.mp hp).2
        rw [InitFits, initStart, if_pos hRanged] at hFits
        omega
  · have hFew : target.signature.slots true ≤ maxFixedSlots := by
      simpa [ranged] using hRanged
    simp only [hRanged, Bool.false_eq_true, if_false, List.mem_append, List.mem_singleton] at hi
    rcases hi with hi | rfl
    · exact hUnpack _ i hi
    · refine ⟨rfl, rfl, Code.invokeError?_fixed ?_ hFew⟩
      rw [RegisterList.slotCount, initLayout, Boxing.slotCount_layout, hSlots]
      rfl

private theorem plain_ownContext (s : Signature) : ∀ i ∈ ownContext s, i.Plain locals := by
  intro i hi
  simp only [ownContext, makeContext, List.mem_cons] at hi
  rcases hi with rfl | rfl | hi
  · exact ⟨rfl, rfl, Code.invokeError?_fixed rfl (by decide)⟩
  · exact ⟨rfl, rfl, rfl⟩
  · split at hi
    · cases hi
    · simp only [List.mem_cons] at hi
      rcases hi with rfl | rfl | rfl | hi
      · exact ⟨rfl, rfl, rfl⟩
      · exact ⟨rfl, rfl, rfl⟩
      · exact ⟨rfl, rfl, rfl⟩
      · exact Boxing.plain_storeAll i hi

private theorem plain_narrowTo (value : Register) (type : ValueType) :
    ∀ i ∈ narrowTo value type, i.Plain locals := by
  intro i hi
  cases type with
  | base p => cases hi
  | object cls =>
      rw [narrowTo] at hi
      split at hi
      · cases hi
      · obtain rfl := List.mem_singleton.mp hi
        exact ⟨rfl, rfl, rfl⟩
  | array element =>
      obtain rfl := List.mem_singleton.mp hi
      exact ⟨rfl, rfl, rfl⟩

end Plain

/-! ## Locals of the code for the interceptor -/

section Locals

/-- The locals from which a constructor is called on the receiver; the buddy constructor takes one
argument. -/
def initRoom (target : MethodRef) : Nat :=
  max 6 (initStart target + ValueType.totalWidth target.signature.parameters)

private theorem usedLocals_initCall (target : MethodRef) :
    Code.usedLocals (initCall target) ≤ initRoom target := by
  have hSix : 6 ≤ initRoom target := Nat.le_max_left _ _
  have hV : ∀ k, k < 6 → (Register.v k).localExtent ≤ initRoom target := fun k hk =>
    Nat.le_trans hk hSix
  have hArguments : ∀ x ∈ initLayout target, x.1.wide = x.2.isWide ∧
      x.1.localExtent ≤ initRoom target := fun x hx =>
    ⟨(Boxing.bank_of_mem_layout hx).2,
      Nat.le_trans (Boxing.localExtent_of_mem_layout hx) (Nat.le_max_right _ _)⟩
  have hUnpack : Code.usedLocals (if (initLayout target).isEmpty then []
      else .instanceGet .object (.v 3) (.v 1) Interceptor.callArgs ::
        Boxing.loadAll (.v 3) (.v 4) (initLayout target)) ≤ initRoom target := by
    split
    · exact Nat.zero_le _
    · rw [Code.usedLocals_cons_le_iff]
      refine ⟨?_, Boxing.usedLocals_loadAll (hV 3 (by decide)) (hV 4 (by decide)) hArguments⟩
      simp [Instruction.registers, hV]
  have hPassed : ∀ r ∈ (initLayout target).map Prod.fst, r.localExtent ≤ initRoom target := by
    intro r hr
    obtain ⟨x, hx, rfl⟩ := List.mem_map.mp hr
    exact (hArguments x hx).2
  have hReceiver : (Register.p 0).localExtent ≤ initRoom target := Nat.zero_le _
  simp only [initCall, callInit]
  split
  · rw [Code.usedLocals_cons_le_iff, Code.usedLocals_append_le_iff, Code.usedLocals_cons_le_iff]
    refine ⟨?_, hUnpack, List.forall_mem_cons.mpr ⟨hV 5 (by decide), hPassed⟩, Nat.zero_le _⟩
    simp [Instruction.registers, hV, hReceiver]
  · rw [Code.usedLocals_append_le_iff, Code.usedLocals_cons_le_iff]
    exact ⟨hUnpack, List.forall_mem_cons.mpr ⟨hReceiver, hPassed⟩, Nat.zero_le _⟩

private theorem usedLocals_ownContext (s : Signature) :
    Code.usedLocals (ownContext s) ≤ initScratch := by
  have hStore : Code.usedLocals (Boxing.storeAll (.v 2) (.v 3) (.v 4) (Boxing.declared s true)) ≤
      initScratch :=
    Boxing.usedLocals_storeAll (by decide) (by decide) (by decide) fun x hx =>
      (Boxing.bank_of_mem_layout hx).1
  rw [ownContext, makeContext, Code.usedLocals_cons_le_iff, Code.usedLocals_cons_le_iff]
  refine ⟨by decide, by decide, ?_⟩
  split
  · exact Nat.zero_le _
  · rw [Code.usedLocals_cons_le_iff, Code.usedLocals_cons_le_iff, Code.usedLocals_cons_le_iff]
    exact ⟨List.forall_mem_singleton.mpr (by decide), by decide, by decide, hStore⟩

/-- Both ways to initialize the receiver, if the buddy constructor takes one argument. -/
theorem usedLocals_constructorBlock (m : Method) (id : Nat) (delegated : MethodRef)
    {buddy : Option MethodRef} (b : Body)
    (hBuddy : ∀ target ∈ buddy, target.signature = Interceptor.buddySignature) :
    Code.usedLocals (constructorBlock m id delegated buddy b) ≤ initRoom delegated := by
  have hFive : initScratch ≤ initRoom delegated := Nat.le_trans (by decide) (Nat.le_max_left _ _)
  have hInit : Code.usedLocals (initCode delegated (b.nextLabel + 2) buddy) ≤
      initRoom delegated := by
    cases buddy with
    | none => exact usedLocals_initCall delegated
    | some buddy =>
        have hSix : initRoom buddy = 6 := by
          rw [initRoom, initStart, ranged, hBuddy buddy rfl]
          decide
        have hOther : Code.usedLocals (initCall buddy) ≤ initRoom delegated :=
          Nat.le_trans (hSix ▸ usedLocals_initCall buddy) (Nat.le_max_left _ _)
        have hChoice : Code.usedLocals [.binaryLit .and (.v 4) (.v 3) Interceptor.buddyBit,
            .branchZero .ne (.v 4) ⟨b.nextLabel + 2⟩] ≤ initRoom delegated := hFive
        simp only [initCode, chooseInit, Code.usedLocals_append_le_iff]
        exact ⟨⟨⟨⟨hChoice, usedLocals_initCall delegated⟩, Nat.zero_le _⟩, hOther⟩, Nat.zero_le _⟩
  simp only [constructorBlock, Code.usedLocals_append_le_iff]
  exact ⟨⟨⟨Nat.le_trans (usedLocals_ownContext _) hFive, hFive⟩, hInit⟩,
    Nat.le_trans (by decide) hFive⟩

end Locals

/-! ## The three protocols -/

section Tails

variable {b : Body} {next locals : Nat}

private theorem tail_returnAnswer (result : Option ValueType) :
    Tail b next locals (returnAnswer result (ownFork b).origin) := by
  have hReturn : Tail b next locals [Boxing.returnAs result (.v 1)] := by
    cases result <;> exact .stop ⟨rfl, rfl, rfl⟩ rfl
  refine .plain (.back (hReturn.line ?_) .eq (.v 0)) ⟨rfl, rfl, rfl⟩
  cases result with
  | none => simp
  | some type => exact List.forall_mem_cons.mpr ⟨⟨rfl, rfl, rfl⟩, plain_narrowTo (.v 1) type⟩

private theorem tail_announceClass (owner : ClassName) (hNext : b.nextLabel + 3 ≤ next) :
    Tail b next locals (announceClass owner (ownFork b).origin ⟨b.nextLabel + 2⟩) := by
  have hAnnounce : ∀ name, (Instruction.invoke .interface .fixed [.v 0, .v 1, .v 2]
      (Interceptor.clinitProtocol name)).Plain locals := fun name =>
    ⟨rfl, rfl, Code.invokeError?_fixed rfl (Nat.le_add_left 3 2)⟩
  have hReturn : Tail b next locals [.returnVoid] := .stop ⟨rfl, rfl, rfl⟩ rfl
  have hFlags : Tail b next locals
      [.instanceGet .plain (.v 5) (.v 4) Interceptor.resultFlags,
        .binaryLit .and (.v 5) (.v 5) Interceptor.clinitChangedBit,
        .branchZero .eq (.v 5) (ownFork b).origin,
        .invoke .interface .fixed [.v 0, .v 1, .v 2] Interceptor.invokePostClinit,
        .returnVoid] :=
    (((hReturn.plain (hAnnounce _)).back .eq (.v 5)).plain ⟨rfl, rfl, rfl⟩).plain ⟨rfl, rfl, rfl⟩
  have hInstall := (hFlags.label (l := ⟨b.nextLabel + 2⟩) (by simp)
    ⟨Nat.le_refl _, hNext⟩).plain (i := .staticPut .object (.v 3) (Interceptor.slot owner))
      ⟨rfl, rfl, rfl⟩
  have hCarried := (hInstall.forward (i := .branchZero .eq (.v 3) ⟨b.nextLabel + 2⟩) rfl rfl
    (by simp) rfl).plain
      (i := .instanceGet .object (.v 3) (.v 4) Interceptor.resultInterceptor) ⟨rfl, rfl, rfl⟩
  have hAnswer := (hCarried.back .eq (.v 4)).plain (i := .moveResult .object (.v 4))
    ⟨rfl, rfl, rfl⟩
  exact ((hAnswer.plain (hAnnounce _)).plain ⟨rfl, rfl, rfl⟩).plain ⟨rfl, rfl, rfl⟩

private theorem tail_runInitBody : Tail b next locals runInitBody := by
  have hReturn : Tail b next locals [.returnVoid] := .stop ⟨rfl, rfl, rfl⟩ rfl
  have hCall : (Instruction.invoke .interface .fixed [.v 0, .v 2, .v 1]
      Interceptor.invokeInitBody).Plain locals :=
    ⟨rfl, rfl, Code.invokeError?_fixed rfl (Nat.le_add_left 3 2)⟩
  exact (hReturn.plain hCall).plain ⟨rfl, rfl, rfl⟩

/-- Either way to initialize the receiver. -/
theorem Tail.initCode {code : List Instruction} (hTail : Tail b next locals code)
    (hBare : Code.placed code = []) {delegated : MethodRef} {buddy : Option MethodRef}
    (hFits : InitFits delegated) (hBuddyFits : ∀ target ∈ buddy, InitFits target)
    (hNext : buddy.isSome → b.nextLabel + 4 ≤ next) :
    Tail b next locals (initCode delegated (b.nextLabel + 2) buddy ++ code) := by
  cases buddy with
  | none => exact hTail.line (plain_initCall hFits)
  | some buddy =>
      have hLabels : b.nextLabel + 4 ≤ next := hNext rfl
      have hOther : InitFits buddy := hBuddyFits buddy rfl
      have hNone : ∀ {target : MethodRef} {l : Label}, InitFits target →
          .label l ∉ initCall target := by
        intro target l hTarget h
        have hPlain : (Instruction.label l).Plain locals := plain_initCall hTarget _ h
        cases hPlain.placed
      have hBare' : ∀ {l : Label}, .label l ∉ code := by
        intro l h
        rw [← Code.mem_placed, hBare] at h
        cases h
      have hDone : Tail b next locals (.label ⟨b.nextLabel + 3⟩ :: code) :=
        hTail.label hBare' ⟨Nat.le_succ _, hLabels⟩
      have hBuddy : Tail b next locals (.label ⟨b.nextLabel + 2⟩ ::
          (initCall buddy ++ .label ⟨b.nextLabel + 3⟩ :: code)) := by
        refine (hDone.line (plain_initCall hOther)).label ?_
          ⟨Nat.le_refl _, Nat.le_of_succ_le hLabels⟩
        simp [hNone hOther, hBare']
      have hGoto : Tail b next locals (.goto ⟨b.nextLabel + 3⟩ :: .label ⟨b.nextLabel + 2⟩ ::
          (initCall buddy ++ .label ⟨b.nextLabel + 3⟩ :: code)) :=
        hBuddy.forward rfl rfl (by simp) rfl
      have hChoice := ((hGoto.line (plain_initCall hFits)).forward
        (i := .branchZero .ne (.v 4) ⟨b.nextLabel + 2⟩) rfl rfl (by simp) rfl).plain
        (i := .binaryLit .and (.v 4) (.v 3) Interceptor.buddyBit) ⟨rfl, rfl, rfl⟩
      simpa [Intercept.initCode, chooseInit] using hChoice

private theorem tail_constructorBlock {m : Method} (id : Nat) {delegated : MethodRef}
    {buddy : Option MethodRef} (hFits : ConstructorFits m delegated buddy)
    (hNext : buddy.isSome → b.nextLabel + 4 ≤ next) :
    Tail b next locals (constructorBlock m id delegated buddy b) := by
  have hAsk : (Instruction.invoke .interface .fixed [.v 0, .v 2, .v 1]
      Interceptor.invokeUnInit).Plain locals :=
    ⟨rfl, rfl, Code.invokeError?_fixed rfl (Nat.le_add_left 3 2)⟩
  have hInit : Tail b next locals (initCode delegated (b.nextLabel + 2) buddy ++ runInitBody) :=
    tail_runInitBody.initCode rfl hFits.delegated hFits.buddy hNext
  have hAsked : Tail b next locals (askInterceptor id (ownFork b).origin ++
      (initCode delegated (b.nextLabel + 2) buddy ++ runInitBody)) :=
    ((((hInit.back .eq (.v 4)).plain ⟨rfl, rfl, rfl⟩).plain ⟨rfl, rfl, rfl⟩).plain hAsk).plain
      ⟨rfl, rfl, rfl⟩
  have hWhole := hAsked.line (plain_ownContext m.signature)
  rwa [← List.append_assoc, ← List.append_assoc] at hWhole

end Tails

private theorem usedLocals_returnAnswer (result : Option ValueType) (origin : Label) :
    Code.usedLocals (returnAnswer result origin) ≤ methodScratch := by
  have hValue : ∀ wide, ((Register.v 1).withWide wide).localExtent ≤ 4 := by decide
  have hAnswer : (Register.v 0).localExtent ≤ 4 := by decide
  have hObject : (Register.v 1).localExtent ≤ 4 := by decide
  have hNarrow : ∀ type, ∀ i ∈ narrowTo (.v 1) type, ∀ r ∈ i.registers,
      r.localExtent ≤ methodScratch := by
    intro type
    cases type <;> simp [narrowTo, Instruction.registers, methodScratch, hObject]
  rw [Code.usedLocals_le_iff]
  cases result with
  | none =>
      simp [returnAnswer, Boxing.returnAs, Instruction.registers, methodScratch, hAnswer]
  | some type =>
      simp only [returnAnswer, Boxing.returnAs, List.forall_mem_cons, List.forall_mem_append,
        Instruction.registers, List.cons_append, List.not_mem_nil, false_implies, implies_true,
        and_true]
      exact ⟨hAnswer, hAnswer, ⟨hValue _, hAnswer⟩, hNarrow type, hValue _⟩

section Bodies

variable {b : Body} (hBody : WellFormed b) (m : Method) (id : Nat)

include hBody

/-- A well-formed method is intercepted, with its body inside of the new one.  Only the call in
place depends on the frame, and nothing behind the body makes that larger. -/
theorem WellFormed.methodBody (dispatch : Dispatch)
    (hShape : ∀ shape, dispatch = .special shape → shape = m.signature.shape)
    (hCounted : Counted b methodScratch (m.signature.slots (!m.isStatic))) :
    ∃ b', Intercept.methodBody m id dispatch b = .ok b' ∧ Encloses methodScratch b b' := by
  let d := (guardBody b methodScratch (Interceptor.slot m.owner)).2
  have hLocals : methodScratch ≤ d.locals := methodScratch_le_locals b _
  have hGuard : d.instructions = guardCode b (Interceptor.slot m.owner) ++ [] := by
    rw [guardBody_instructions, List.append_nil]
  have hFrame : d.locals ≤ frame b methodScratch :=
    locals_le_frame hGuard rfl (by decide) (Nat.le_refl _) (Nat.zero_le _)
  have hAnswer : Code.usedLocals (returnAnswer m.signature.result (ownFork b).origin) ≤ d.locals :=
    Nat.le_trans (usedLocals_returnAnswer _ _) hLocals
  have hCall : Code.usedLocals (methodCall m id d.locals dispatch) ≤ d.locals := by
    cases dispatch with
    | special shape => exact usedLocals_shapeCall m id shape hLocals
    | common => exact Nat.le_trans (usedLocals_commonCall m id _ _) hLocals
    | init => exact Nat.le_trans (usedLocals_commonCall m id _ _) hLocals
  have hSame : (methodDraft m id dispatch b).locals = d.locals := by
    have hAsked := Draft.locals_append hCall
    exact (Draft.locals_append (hAsked.symm ▸ hAnswer)).trans hAsked
  have hTail : Tail b (b.nextLabel + 2) (methodDraft m id dispatch b).locals
      (methodCall m id d.locals dispatch ++
        returnAnswer m.signature.result (ownFork b).origin) := by
    rw [hSame]
    cases dispatch with
    | special shape =>
        obtain rfl := hShape shape rfl
        refine (tail_returnAnswer _).line (plain_shapeCall m id hLocals ?_)
        exact Nat.le_trans (Nat.add_le_add_right hFrame _) hCounted.parameters
    | common => exact (tail_returnAnswer _).line (plain_commonCall m id _)
    | init => exact (tail_returnAnswer _).line (plain_commonCall m id _)
  have hCode : (methodDraft m id dispatch b).instructions =
      guardCode b (Interceptor.slot m.owner) ++ (methodCall m id d.locals dispatch ++
        returnAnswer m.signature.result (ownFork b).origin) := by
    rw [methodDraft, append_instructions, append_instructions, guardBody_instructions,
      List.append_assoc]
  rw [methodBody_eq id dispatch b (hCounted.slots_le (by decide))]
  exact hBody.finish_guard hCode (Nat.le_refl _) rfl hTail hCounted (hSame.trans_le hFrame)

/-- A well-formed static initializer is intercepted, with its body inside of the new one. -/
theorem WellFormed.staticInitBody (owner : ClassName) (hCounted : Counted b clinitScratch 0) :
    ∃ b', Intercept.staticInitBody owner b = .ok b' ∧ Encloses clinitScratch b b' :=
  hBody.finish_guard rfl (Nat.le_succ _) rfl (tail_announceClass owner (Nat.le_refl _)) hCounted
    (locals_le_frame rfl rfl (by decide) (Nat.le_refl _) (Nat.le_refl 6))

/-- A well-formed constructor is intercepted, with its body inside of the new one. -/
theorem WellFormed.constructorBody (delegated : MethodRef) {buddy : Option MethodRef}
    (hBuddy : ∀ target ∈ buddy, target.signature = Interceptor.buddySignature)
    (hCounted : Counted b (initRoom delegated) (m.signature.slots true)) :
    ∃ b', Intercept.constructorBody m id delegated buddy b = .ok b' ∧
      Encloses initScratch b b' := by
  have hRoom : initRoom delegated ≤ frame b (initRoom delegated) :=
    Nat.le_trans (Nat.le_max_right _ _) (Nat.le_max_left _ _)
  have hFits : ConstructorFits m delegated buddy := by
    refine ⟨hCounted.slots_le (Nat.lt_of_lt_of_le (by decide) (Nat.le_max_left 6 _)),
      Nat.le_trans (Nat.le_max_right 6 _) (Nat.le_trans hRoom hCounted.locals), ?_⟩
    intro target hTarget
    rw [InitFits, initStart, ranged, hBuddy target hTarget]
    decide
  rw [constructorBody_eq id b hFits]
  refine hBody.finish_guard rfl (Nat.le_add_right _ _) rfl ?_ hCounted ?_
  · refine tail_constructorBlock id hFits fun hSome => ?_
    exact Nat.le_of_eq (by simp [constructorDraft, hSome]; rfl)
  · exact locals_le_frame rfl rfl (by decide) (Nat.le_trans (by decide) (Nat.le_max_left 6 _))
      (usedLocals_constructorBlock m id delegated b hBuddy)

end Bodies

end Intercept

end HotPatch
