import HotPatch.Proofs.Bytecode.Embedding
import HotPatch.Proofs.Intercept.Shape

/-!
# An empty slot changes nothing

While no interceptor is installed, an intercepted body does what the body did
before, after one read of the slot.  The test of the slot takes three steps
and then the body runs inside the longer code; the test uses `v0`, which a
body does not read before it writes it.
-/

namespace HotPatch

/-- A run of a body behind the test of its slot: three steps more, of which the first shows the
read of the slot. -/
def Observation.guarded {H E R : Type} (shown : List E) (own : Observation H E R) :
    Observation H E R :=
  ((own.after []).after []).after shown

namespace Machine

variable {V H E R : Type} {M : Machine V H E R} {code : List Instruction}

/-- An instruction that does nothing leads to the next one. -/
theorem forced_silent {k : Nat} {i : Instruction} {registers : Register → V} {heap : H}
    (hAt : code[k]? = some i) (hWrites : i.writtenSlots = [])
    (hCan : ∃ out, M.does i (i.readSlots.map registers) heap out)
    (hSilent : ∀ {out}, M.does i (i.readSlots.map registers) heap out → out.Silent heap) :
    Forced (M.Step code) (.running k registers heap) [] (.running (k + 1) registers heap) := by
  have hWrite : ∀ out : Outcome V H E R, out.write i registers = registers := by
    intro out
    funext slot
    simp [Outcome.write, hWrites]
  constructor
  · obtain ⟨out, hDoes⟩ := hCan
    have hOut := hSilent hDoes
    have hStep : M.Step code (.running k registers heap) out.effects
        (.running (k + 1) (out.write i registers) out.heap) :=
      .goesOn hAt hDoes (by rw [hOut.control]; rfl)
    rwa [hOut.effects, hOut.heap, hWrite] at hStep
  · intro effects d hStep
    cases hStep with
    | goesOn hAt' hDoes hTo =>
        obtain rfl := Option.some.inj (hAt.symm.trans hAt')
        have hOut := hSilent hDoes
        rw [hOut.control] at hTo
        obtain rfl := Option.some.inj hTo
        rw [hOut.effects, hOut.heap, hWrite]
        exact ⟨rfl, rfl⟩
    | stops hAt' hDoes hStop =>
        obtain rfl := Option.some.inj (hAt.symm.trans hAt')
        rw [(hSilent hDoes).control] at hStop
        cases hStop

/-- Reading an empty slot puts null into the register. -/
theorem forced_holdsNull {k : Nat} {r : Register} {slot : FieldRef} {registers : Register → V}
    {heap : H} {shown : List E} (hNarrow : r.wide = false)
    (hAt : code[k]? = some (.staticGet .object r slot)) (hNull : M.HoldsNull slot heap shown) :
    Forced (M.Step code) (.running k registers heap) shown
      (.running (k + 1) (fun s => if s = r then M.null else registers s) heap) := by
  have hSelf : r.narrow = r := by
    simp [Register.narrow, Register.withWide, ← hNarrow]
  have hSlots : (Instruction.staticGet .object r slot).writtenSlots = [r] := by
    simp [Instruction.writtenSlots, Instruction.written?, Register.slots, hNarrow, hSelf]
  have hWrite : ∀ out, M.does (.staticGet .object r slot) [] heap out →
      out.write (.staticGet .object r slot) registers =
        fun s => if s = r then M.null else registers s := by
    intro out hDoes
    have hValue := (hNull.must hDoes).2.2.2
    rw [hSelf] at hValue
    funext s
    by_cases hs : s = r
    · simp [Outcome.write, hSlots, hs, hValue]
    · simp [Outcome.write, hSlots, hs]
  constructor
  · obtain ⟨out, hDoes⟩ := hNull.can r
    obtain ⟨hEffects, hHeap, hControl, _⟩ := hNull.must hDoes
    have hStep : M.Step code (.running k registers heap) out.effects
        (.running (k + 1) (out.write (.staticGet .object r slot) registers) out.heap) :=
      .goesOn hAt hDoes (by rw [hControl]; rfl)
    rwa [hEffects, hHeap, hWrite out hDoes] at hStep
  · intro effects d hStep
    cases hStep with
    | goesOn hAt' hDoes hTo =>
        obtain rfl := Option.some.inj (hAt.symm.trans hAt')
        obtain ⟨hEffects, hHeap, hControl, _⟩ := hNull.must hDoes
        rw [hControl] at hTo
        obtain rfl := Option.some.inj hTo
        rw [hEffects, hHeap, hWrite _ hDoes]
        exact ⟨rfl, rfl⟩
    | stops hAt' hDoes hStop =>
        obtain rfl := Option.some.inj (hAt.symm.trans hAt')
        rw [(hNull.must hDoes).2.2.1] at hStop
        cases hStop

/-- While the slot is empty, the test of it leads to the code behind, with null in `v0`. -/
theorem behaves_forkCode {slot : FieldRef} {fork : Boxing.Fork} {rest : List Instruction}
    {registers : Register → V} {heap : H} {shown : List E} (hNull : M.HoldsNull slot heap shown)
    {obs : Observation H E R} :
    M.Behaves (Boxing.forkCode (.v 0) slot fork ++ rest) (.running 0 registers heap) obs ↔
      ∃ own, M.Behaves (Boxing.forkCode (.v 0) slot fork ++ rest)
          (.running 3 (fun s => if s = .v 0 then M.null else registers s) heap) own ∧
        obs = own.guarded shown := by
  have hRead : Forced (M.Step (Boxing.forkCode (.v 0) slot fork ++ rest))
      (.running 0 registers heap) shown
      (.running 1 (fun s => if s = .v 0 then M.null else registers s) heap) :=
    forced_holdsNull rfl rfl hNull
  have hTest : Forced (M.Step (Boxing.forkCode (.v 0) slot fork ++ rest))
      (.running 1 (fun s => if s = .v 0 then M.null else registers s) heap) []
      (.running 2 (fun s => if s = .v 0 then M.null else registers s) heap) :=
    forced_silent (i := .branchZero .ne (.v 0) fork.intercept) rfl rfl
      (M.null_can _ _ _) M.null_silent
  have hLabel : Forced (M.Step (Boxing.forkCode (.v 0) slot fork ++ rest))
      (.running 2 (fun s => if s = .v 0 then M.null else registers s) heap) []
      (.running 3 (fun s => if s = .v 0 then M.null else registers s) heap) :=
    forced_silent (i := .label fork.origin) rfl rfl (M.label_can _ _) M.label_silent
  rw [behaves_forced hRead]
  simp only [behaves_forced hTest, behaves_forced hLabel, Observation.guarded]
  constructor
  · rintro ⟨_, ⟨_, ⟨own, hOwn, rfl⟩, rfl⟩, rfl⟩
    exact ⟨own, hOwn, rfl⟩
  · rintro ⟨own, hOwn, rfl⟩
    exact ⟨_, ⟨_, ⟨own, hOwn, rfl⟩, rfl⟩, rfl⟩

end Machine

namespace Intercept

/-- The labels of a tidy body are not those of the test in front of it. -/
theorem ownFork_fresh {b : Body} (hTidy : b.Tidy) (slot : FieldRef) :
    ∀ l ∈ Code.placed b.instructions,
      l ∉ Code.placed (Boxing.forkCode (.v 0) slot (ownFork b)) := by
  intro l hMem hFork
  have hBelow := hTidy.below l hMem
  have hPlaced : Code.placed (Boxing.forkCode (.v 0) slot (ownFork b)) = [⟨b.nextLabel⟩] := rfl
  rw [hPlaced, List.mem_singleton] at hFork
  rw [hFork] at hBelow
  exact Nat.lt_irrefl _ hBelow

/--
**An empty slot keeps the behaviour.**  Take any machine, and a tidy body in which no path reads a
local before it writes it.  If interception succeeds, in any of its three forms, then from the same
parameters and the same shared state, with null in the tested slot, the new body has exactly the
runs of the old one, whether they end, get stuck or go on for ever: the same effects, result and
shared state, behind three steps of which the first shows the read of the slot and the others show
nothing.
-/
theorem behaves_of_empty_slot {V H E R : Type} (M : Machine V H E R) {m m' : Method}
    {slot : FieldRef} {b b' : Body} (hIntercepted : Intercepted m slot m')
    (hBody : m.body = some b) (hBody' : m'.body = some b') (hTidy : b.Tidy)
    (hReads : Code.ReadsWritten b.instructions) {heap : H} {shown : List E}
    (hNull : M.HoldsNull slot heap shown) {registers registers' : Register → V}
    (hParams : ∀ r : Register, r.bank = .params → registers' r = registers r)
    (obs : Observation H E R) :
    M.Behaves b'.instructions (.running 0 registers' heap) obs ↔
      ∃ own, M.Behaves b.instructions (.running 0 registers heap) own ∧
        obs = own.guarded shown := by
  obtain ⟨⟨block, hCode⟩, _⟩ := hIntercepted.guarded hBody hBody'
  have hRel : Machine.Alongside b.instructions
      (Boxing.forkCode (.v 0) slot (ownFork b)).length (.running 0 registers heap : Config V H R)
      (.running 3 (fun s => if s = .v 0 then M.null else registers' s) heap) := by
    refine .running (.start hTidy.length_pos) ?_
    rintro r (hBank | hMem)
    · have hNe : r ≠ .v 0 := by
        rintro rfl
        cases hBank
      rw [if_neg hNe]
      exact hParams r hBank
    · simp at hMem
  have hWithin : ∀ own : Observation H E R,
      M.Behaves (Boxing.forkCode (.v 0) slot (ownFork b) ++
          (b.instructions ++ ([.label (ownFork b).intercept] ++ block)))
        (.running 3 (fun s => if s = .v 0 then M.null else registers' s) heap) own ↔
      M.Behaves b.instructions (.running 0 registers heap) own := by
    intro own
    rw [← List.append_assoc]
    exact Machine.behaves_within hTidy.toClosed (ownFork_fresh hTidy slot) hReads hRel
  rw [hCode, guardCode, List.append_assoc, List.append_assoc, Machine.behaves_forkCode hNull]
  simp only [hWithin]

/-! ## An instance

A machine whose values are integers, whose shared state is the static fields, and whose visible
effects are their reads.  Instructions it has no use for do nothing. -/

def integerControl : Instruction → List Int → Control (Option Int)
  | .branchZero .ne _ target, [value] => if value = 0 then .next else .jump target
  | .branchZero .eq _ target, [value] => if value = 0 then .jump target else .next
  | .goto target, _ => .jump target
  | .returnValue _ _, [value] => .stop (some value)
  | i, _ => if i.fallsThrough then .next else .stop none

def integerOutcome (i : Instruction) (vs : List Int) (fields : FieldRef → Int) :
    Outcome Int (FieldRef → Int) FieldRef (Option Int) :=
  match i with
  | .const _ value => ⟨[], fields, fun _ => value.toInt, integerControl i vs⟩
  | .staticGet _ _ field => ⟨[field], fields, fun _ => fields field, integerControl i vs⟩
  | _ => ⟨[], fields, fun _ => 0, integerControl i vs⟩

private theorem integerOutcome_control (i : Instruction) (vs : List Int) (fields : FieldRef → Int) :
    (integerOutcome i vs fields).control = integerControl i vs := by
  unfold integerOutcome
  split <;> rfl

def integerMachine : Machine Int (FieldRef → Int) FieldRef (Option Int) where
  null := 0
  does i vs fields out := out = integerOutcome i vs fields
  next_falls := by
    rintro i vs fields out rfl hNext
    rw [integerOutcome_control] at hNext
    unfold integerControl at hNext
    split at hNext
    · rfl
    · rfl
    · cases hNext
    · cases hNext
    · split at hNext
      · assumption
      · cases hNext
  jump_target := by
    rintro i vs fields out l rfl hJump
    rw [integerOutcome_control] at hJump
    unfold integerControl at hJump
    split at hJump
    · split at hJump <;> cases hJump
      exact List.mem_singleton_self _
    · split at hJump <;> cases hJump
      exact List.mem_singleton_self _
    · cases hJump
      exact List.mem_singleton_self _
    · cases hJump
    · split at hJump <;> cases hJump
  label_can l fields := ⟨_, rfl⟩
  label_silent := by
    rintro l fields out rfl
    exact ⟨rfl, rfl, rfl⟩
  null_can r l fields := ⟨_, rfl⟩
  null_silent := by
    rintro r l fields out rfl
    exact ⟨rfl, rfl, rfl⟩

/-- A body that tests a local in a loop before it returns it. -/
def loopingBody : Body :=
  ⟨1, 1, [.const (.v 0) 7, .label ⟨0⟩, .branchZero .eq (.v 0) ⟨0⟩, .returnValue .single (.v 0)],
    1⟩

def loopingMethod : Method where
  owner := .of "a/Main"
  name := ⟨"seven"⟩
  signature := ⟨[], some (.base .int)⟩
  access := {}
  id := some 0
  body := some loopingBody

private theorem loopingBody_tidy : loopingBody.Tidy where
  targets := by decide
  last := ⟨_, rfl, rfl⟩
  distinct := by decide
  below := by decide

/-- Only `v0` is read, and past the first instruction it has been written. -/
theorem loopingBody_readsWritten : Code.ReadsWritten loopingBody.instructions := by
  intro k i written hPath hAt slot hMem _
  have hWritten : k = 0 ∨ Register.v 0 ∈ written := by
    clear hAt hMem
    induction hPath with
    | start _ => exact .inl rfl
    | @step k t i written _ hAt _ ih =>
        right
        rcases ih with rfl | hMem
        · obtain rfl := Option.some.inj hAt
          exact List.mem_append_left _ (by decide)
        · exact List.mem_append_right _ hMem
  rcases hWritten with rfl | hWritten
  · obtain rfl := Option.some.inj hAt
    simp [Instruction.readSlots, Instruction.reads, Instruction.written?,
      Instruction.registers] at hMem
  · have hOnly : ∀ i ∈ loopingBody.instructions, ∀ slot ∈ i.readSlots, slot = .v 0 := by decide
    rw [hOnly i (List.mem_of_getElem? hAt) slot hMem]
    exact hWritten

/-- A loop goes on as before behind the test of the slot. -/
theorem behaves_of_empty_slot_loop :
    ∃ m' b', Intercept.method .common loopingMethod = .ok m' ∧ m'.body = some b' ∧
      ∀ obs, integerMachine.Behaves b'.instructions
          (.running 0 (fun r => if r.isLocal then 9 else 0) fun _ => 0) obs ↔
        ∃ own, integerMachine.Behaves loopingBody.instructions
            (.running 0 (fun _ => 0) fun _ => 0) own ∧
          obs = own.guarded [Interceptor.slot (.of "a/Main")] := by
  refine ⟨_, _, rfl, rfl, behaves_of_empty_slot integerMachine
    (.method (m := loopingMethod) .common rfl) rfl rfl loopingBody_tidy loopingBody_readsWritten
    ⟨fun r => ⟨_, rfl⟩, ?_⟩ ?_⟩
  · rintro r out rfl
    exact ⟨rfl, rfl, rfl, rfl⟩
  · intro r hBank
    simp [Register.isLocal, hBank]

end Intercept

end HotPatch
