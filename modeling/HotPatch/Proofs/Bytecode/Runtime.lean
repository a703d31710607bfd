import Mathlib.Algebra.Group.Nat.Defs
import Mathlib.Logic.Function.Basic
import HotPatch.Interceptor
import HotPatch.Proofs.Bytecode.Progress

/-!
# Runtimes

A machine leaves open what instructions do.  A `Runtime` is a machine that
gives the instructions of generated code their usual meaning: constants,
moves, arrays of objects, fields, boxes, casts and tests.  It says so through
a `World`, which is what can be looked up in a shared state.

Nothing is said about other instructions, and little about calls.  A call
that `returns` may do anything to the shared state but take objects out of
it, so an interceptor is free to answer what it wants.  Effects, and what
else a shared state holds, stay open as before.
-/

namespace HotPatch

/-- Where values are kept in a shared state. -/
inductive Place (V : Type) where
  /-- The elements of an array of objects. -/
  | array (object : V)
  /-- The value in a box. -/
  | box (type : Primitive) (object : V)
  | field (object : V) (name : FieldRef)
  | static (name : FieldRef)

/-- How values and shared states are read. -/
structure World (V H R : Type) where
  int : Int32 → V
  /-- What tests against zero take for zero, and so for null. -/
  isZero : V → Prop
  /-- The values at a place, slot by slot, if there is such a place. -/
  look : H → Place V → Option (List V)
  /-- The result of the last call. -/
  answer : H → List V
  /-- The value can be cast to the type. -/
  fits : H → V → RefType → Prop
  /-- The result of a method that returns a value, or nothing. -/
  returned : List V → R
  /-- Calls to the method return normally. -/
  returns : MethodRef → Prop

namespace World

variable {V H E R : Type} (w : World V H R)

/-- All that could be seen before can be seen after, but for some places. -/
structure Keeps (changed : List (Place V)) (before after : H) : Prop where
  look : ∀ {place content}, place ∉ changed → w.look before place = some content →
    w.look after place = some content
  fits : ∀ {value type}, w.fits before value type → w.fits after value type

/-- No place is lost. -/
def Stays (before after : H) : Prop :=
  ∀ place, (w.look before place).isSome → (w.look after place).isSome

/-- The object has the fields through which a constructor and its interceptor talk. -/
def IsContext (heap : H) (object : V) : Prop :=
  ∀ name ∈ [Interceptor.initArgs, Interceptor.callArgs, Interceptor.thisArg,
      Interceptor.initFlag],
    (w.look heap (.field object name)).isSome

/-- The object has a field for a result of any type. -/
def IsResult (heap : H) (object : V) : Prop :=
  ∀ type, (w.look heap (.field object (Interceptor.resultValue type))).isSome

/-- A test against zero holds, for the two tests that generated code makes. -/
def Takes (test : Comparison) (value : V) : Prop :=
  match test with
  | .eq => w.isZero value
  | .ne => ¬ w.isZero value
  | _ => False

/-- On to the next instruction. -/
structure Proceeds (changed : List (Place V)) (heap : H) (out : Outcome V H E R) : Prop where
  control : out.control = .next
  keeps : w.Keeps changed heap out.heap

/-- On to the next instruction, with values for the register. -/
structure Yields (heap : H) (r : Register) (values : List V) (out : Outcome V H E R) : Prop
    extends w.Proceeds [] heap out where
  written : r.slots.map out.written = values

/-- On to the next instruction, with another content at one place. -/
structure Changes (heap : H) (place : Place V) (content : List V) (out : Outcome V H E R) : Prop
    extends w.Proceeds [place] heap out where
  now : w.look out.heap place = some content

/-- On to the next instruction, with a result that is at hand. -/
structure Answers (heap : H) (values : List V) (out : Outcome V H E R) : Prop
    extends w.Proceeds [] heap out where
  answer : w.answer out.heap = values

/-- Back from a method that may have done anything.  An interceptor's result is one, or null. -/
structure Returned (heap : H) (target : MethodRef) (out : Outcome V H E R) : Prop where
  control : out.control = .next
  stays : w.Stays heap out.heap
  result : target.signature.result = some (.object Interceptor.interceptResult) →
    ∃ object, w.answer out.heap = [object] ∧ (w.isZero object ∨ w.IsResult out.heap object)

end World

/-- A machine with the usual meaning of the instructions in generated code. -/
structure Runtime (V H E R : Type) extends Machine V H E R, World V H R where
  isZero_int : ∀ n, isZero (int n) ↔ n = 0
  box_width : ∀ {h p object value}, look h (.box p object) = some value → value.length = p.width
  field_width : ∀ {h object name value}, look h (.field object name) = some value →
    value.length = name.type.width
  field_int : ∀ {h object name value}, look h (.field object name) = some value →
    name.type = .base .int → ∃ n, value = [int n]
  const : ∀ {h dst n}, dst.wide = false →
    toMachine.Must (.const dst n) [] h (toWorld.Yields h dst [int n])
  move : ∀ {h dst src value}, dst.wide = false →
    toMachine.Must (.move .object dst src) [value] h (toWorld.Yields h dst [value])
  moveResult : ∀ {h kind dst}, (answer h).length = dst.width →
    toMachine.Must (.moveResult kind dst) [] h (toWorld.Yields h dst (answer h))
  and : ∀ {h dst left n literal}, dst.wide = false →
    toMachine.Must (.binaryLit .and dst left literal) [int n] h
      (toWorld.Yields h dst [int (n &&& literal.toInt32)])
  checkCast : ∀ {h r value type}, fits h value type →
    toMachine.Must (.checkCast r type) [value] h (toWorld.Proceeds [] h)
  newArray : ∀ {h dst size n}, dst.wide = false → n < 2 ^ 31 →
    toMachine.Must (.newArray dst size .objectArray) [int (.ofNat n)] h fun out =>
      ∃ object, toWorld.Yields h dst [object] out ∧
        look out.heap (.array object) = some (.replicate n null)
  arrayGet : ∀ {h dst array index object elements k value}, dst.wide = false → k < 2 ^ 31 →
    look h (.array object) = some elements → elements[k]? = some value →
    toMachine.Must (.arrayGet .object dst array index) [object, int (.ofNat k)] h
      (toWorld.Yields h dst [value])
  arrayPut : ∀ {h r array index object elements k value}, k < 2 ^ 31 →
    look h (.array object) = some elements → k < elements.length →
    toMachine.Must (.arrayPut .object r array index) [value, object, int (.ofNat k)] h
      (toWorld.Changes h (.array object) (elements.set k value))
  instanceGet : ∀ {h kind dst r object name value}, look h (.field object name) = some value →
    value.length = dst.width →
    toMachine.Must (.instanceGet kind dst r name) [object] h (toWorld.Yields h dst value)
  instancePut : ∀ {h r s object name value}, (look h (.field object name)).isSome →
    (∀ p, name.type ≠ .base p) →
    toMachine.Must (.instancePut .object r s name) [value, object] h
      (toWorld.Changes h (.field object name) [value])
  staticGet : ∀ {h dst name value}, dst.wide = false → look h (.static name) = some [value] →
    toMachine.Must (.staticGet .object dst name) [] h (toWorld.Yields h dst [value])
  branchZero : ∀ {h test r target value}, test = .eq ∨ test = .ne →
    toMachine.Must (.branchZero test r target) [value] h fun out =>
      toWorld.Keeps [] h out.heap ∧ (toWorld.Takes test value → out.control = .jump target) ∧
        (¬ toWorld.Takes test value → out.control = .next)
  goto : ∀ {h target},
    toMachine.Must (.goto target) [] h fun out =>
      toWorld.Keeps [] h out.heap ∧ out.control = .jump target
  returnVoid : ∀ {h},
    toMachine.Must .returnVoid [] h fun out =>
      toWorld.Keeps [] h out.heap ∧ out.control = .stop (returned [])
  returnValue : ∀ {h kind r values},
    toMachine.Must (.returnValue kind r) values h fun out =>
      toWorld.Keeps [] h out.heap ∧ out.control = .stop (returned values)
  box : ∀ {h args p value}, value.length = p.width →
    toMachine.Must (.invoke .static .fixed args (Interceptor.boxMethod p)) value h fun out =>
      ∃ object, toWorld.Answers h [object] out ∧ look out.heap (.box p object) = some value
  unbox : ∀ {h args p object value}, look h (.box p object) = some value →
    toMachine.Must (.invoke .virtual .fixed args (Interceptor.unboxMethod p)) [object] h
      (toWorld.Answers h value)
  newContext : ∀ {h},
    toMachine.Must (.invoke .static .fixed [] Interceptor.newInitContext) [] h fun out =>
      ∃ object, toWorld.Answers h [object] out ∧ toWorld.IsContext out.heap object
  call : ∀ {h kind form args target values}, returns target →
    toMachine.Must (.invoke kind form args target) values h (toWorld.Returned h target)

namespace World.Keeps

variable {V H R : Type} {w : World V H R} {changed : List (Place V)} {h₀ h₁ h₂ : H}

theorem refl (changed : List (Place V)) (h : H) : w.Keeps changed h h := ⟨fun _ h => h, id⟩

theorem trans (first : w.Keeps changed h₀ h₁) (second : w.Keeps changed h₁ h₂) :
    w.Keeps changed h₀ h₂ :=
  ⟨fun hPlace hLook => second.look hPlace (first.look hPlace hLook),
    fun hFits => second.fits (first.fits hFits)⟩

theorem weaken (h : w.Keeps [] h₀ h₁) : w.Keeps changed h₀ h₁ :=
  ⟨fun _ => h.look List.not_mem_nil, h.fits⟩

/-- No place is lost if those that changed are still there. -/
theorem stays (h : w.Keeps changed h₀ h₁)
    (hChanged : ∀ place ∈ changed, (w.look h₁ place).isSome) : w.Stays h₀ h₁ := by
  intro place hSome
  by_cases hPlace : place ∈ changed
  · exact hChanged place hPlace
  · obtain ⟨content, hLook⟩ := Option.isSome_iff_exists.mp hSome
    rw [h.look hPlace hLook]
    rfl

theorem stays_of_nil (h : w.Keeps [] h₀ h₁) : w.Stays h₀ h₁ :=
  h.stays fun _ hMem => absurd hMem List.not_mem_nil

end World.Keeps

/-- A context stays one. -/
theorem World.IsContext.stays {V H R : Type} {w : World V H R} {h₀ h₁ : H} {object : V}
    (h : w.IsContext h₀ object) (hStays : w.Stays h₀ h₁) : w.IsContext h₁ object :=
  fun name hName => hStays _ (h name hName)

theorem World.Stays.trans {V H R : Type} {w : World V H R} {h₀ h₁ h₂ : H}
    (first : w.Stays h₀ h₁) (second : w.Stays h₁ h₂) : w.Stays h₀ h₂ :=
  fun place hSome => second place (first place hSome)

/-- The register has the values, and all other slots are as before. -/
structure Wrote {V : Type} (r : Register) (values : List V) (before after : Register → V) :
    Prop where
  on : r.slots.map after = values
  off : ∀ slot, slot ∉ r.slots → after slot = before slot

@[simp] theorem Register.v_inj {m n : Nat} : Register.v m = Register.v n ↔ m = n := by
  simp [Register.v]

/-- A local register is a slot of its own. -/
theorem Register.slots_v (n : Nat) : (Register.v n).slots = [.v n] := rfl

theorem Register.slots_of_narrow {r : Register} (h : r.wide = false) : r.slots = [r] := by
  obtain ⟨bank, index, wide⟩ := r
  obtain rfl : wide = false := h
  rfl

/-- A narrow write is an update of the one register. -/
theorem Wrote.eq_update {V : Type} {r : Register} {value : V} {before after : Register → V}
    (hNarrow : r.wide = false) (h : Wrote r [value] before after) :
    after = Function.update before r value := by
  have hOn := h.on
  have hOff := h.off
  rw [Register.slots_of_narrow hNarrow] at hOn hOff
  funext slot
  by_cases hSlot : slot = r
  · subst hSlot
    rw [Function.update_self]
    exact (List.cons.inj hOn).1
  · rw [Function.update_of_ne hSlot]
    exact hOff slot (by simpa using hSlot)

/-- The parameter registers are as before. -/
def SameParameters {V : Type} (before after : Register → V) : Prop :=
  ∀ r : Register, r.bank = .params → after r = before r

theorem SameParameters.trans {V : Type} {first second third : Register → V}
    (h : SameParameters first second) (h' : SameParameters second third) :
    SameParameters first third :=
  fun r hr => (h' r hr).trans (h r hr)

/-- No parameter is a local. -/
theorem Register.ne_v_of_params {r : Register} (h : r.bank = .params) (n : Nat) : r ≠ .v n := by
  rintro rfl
  cases h

/-- Writing a local leaves the parameters as they are. -/
theorem SameParameters.update {V : Type} {before after : Register → V}
    (h : SameParameters before after) (n : Nat) (value : V) :
    SameParameters before (Function.update after (.v n) value) := by
  intro r hr
  rw [Function.update_of_ne (Register.ne_v_of_params hr n), h r hr]

namespace Outcome

variable {V H E R : Type} (out : Outcome V H E R) (registers : Register → V) {i : Instruction}

private theorem wrote {r : Register} (hWritten : i.written? = some r) :
    Wrote r (r.slots.map out.written) registers (out.write i registers) := by
  have hSlots : i.writtenSlots = r.slots := by simp [Instruction.writtenSlots, hWritten]
  constructor
  · refine List.map_congr_left fun slot hSlot => ?_
    simp [write, hSlots, hSlot]
  · intro slot hSlot
    simp [write, hSlots, hSlot]

private theorem write_of_unwritten (hWritten : i.written? = none) :
    out.write i registers = registers := by
  funext slot
  simp [write, Instruction.writtenSlots, hWritten]

end Outcome

/-! ## Lines, one instruction at a time -/

namespace Runtime

variable {V H E R : Type} {M : Runtime V H E R} {i : Instruction} {rest : List Instruction}
  {registers : Register → V} {heap : H} {reads : List V} {Q : Outcome V H E R → Prop}
  {required : List (Call V H) → (Register → V) → H → Prop}

/-- An instruction that writes a register, in front of a line. -/
theorem goes_writes {r : Register} (hWritten : i.written? = some r)
    (hReads : i.readSlots.map registers = reads) (hMust : M.Must i reads heap Q)
    (hRest : ∀ out, Q out → ∃ values, M.Yields heap r values out ∧
      ∀ registers', Wrote r values registers registers' →
        M.Goes rest registers' out.heap required) :
    M.Goes (i :: rest) registers heap required := by
  subst hReads
  refine ⟨hMust.can, fun {out} hDoes => ?_⟩
  obtain ⟨values, hYields, hGoes⟩ := hRest _ (hMust.must hDoes)
  have hWrote := out.wrote registers hWritten
  rw [hYields.written] at hWrote
  refine ⟨hYields.control, ?_⟩
  rw [i.calls_eq_nil (i.makesNoCall_of_written hWritten)]
  exact hGoes _ hWrote

/-- An instruction that writes known values to a register, in front of a line. -/
theorem goes_yields {r : Register} {values : List V} (hWritten : i.written? = some r)
    (hReads : i.readSlots.map registers = reads)
    (hMust : M.Must i reads heap (M.Yields heap r values))
    (hRest : ∀ registers' heap', Wrote r values registers registers' → M.Keeps [] heap heap' →
      M.Goes rest registers' heap' required) :
    M.Goes (i :: rest) registers heap required :=
  goes_writes hWritten hReads hMust fun out hYields =>
    ⟨values, hYields, fun registers' hWrote => hRest registers' out.heap hWrote hYields.keeps⟩

/-- The same for a single slot. -/
theorem goes_sets {r : Register} {value : V} (hWritten : i.written? = some r)
    (hNarrow : r.wide = false) (hReads : i.readSlots.map registers = reads)
    (hMust : M.Must i reads heap (M.Yields heap r [value]))
    (hRest : ∀ heap', M.Keeps [] heap heap' →
      M.Goes rest (Function.update registers r value) heap' required) :
    M.Goes (i :: rest) registers heap required :=
  goes_yields hWritten hReads hMust fun _ heap' hWrote hKeeps =>
    hWrote.eq_update hNarrow ▸ hRest heap' hKeeps

/-- The result of a call goes to a register. -/
theorem goes_result {kind : ValueKind} {dst : Register} {values : List V}
    (hAnswer : M.answer heap = values) (hWidth : values.length = dst.width)
    (hRest : ∀ registers' heap', Wrote dst values registers registers' → M.Keeps [] heap heap' →
      M.Goes rest registers' heap' required) :
    M.Goes (.moveResult kind dst :: rest) registers heap required := by
  subst hAnswer
  exact goes_yields rfl rfl (M.moveResult hWidth) hRest

/-- An instruction that only changes the shared state, or nothing at all. -/
theorem goes_plain (hWritten : i.written? = none) (hCalls : i.makesNoCall = true)
    (hReads : i.readSlots.map registers = reads) (hMust : M.Must i reads heap Q)
    (hRest : ∀ out, Q out → out.control = .next ∧ M.Goes rest registers out.heap required) :
    M.Goes (i :: rest) registers heap required := by
  subst hReads
  refine ⟨hMust.can, fun {out} hDoes => ?_⟩
  rw [out.write_of_unwritten registers hWritten, i.calls_eq_nil hCalls]
  exact hRest out (hMust.must hDoes)

/-- A call in front of a line is the first of its calls. -/
theorem goes_call {kind : InvokeKind} {form : InvokeForm} {args : RegisterList}
    {target : MethodRef} {values : List V}
    (hValues : (args.flatMap Register.slots).map registers = values)
    (hMust : M.Must (.invoke kind form args target) values heap Q)
    (hRest : ∀ out, Q out → out.control = .next ∧ M.Goes rest registers out.heap fun calls =>
      required (⟨kind, form, target, values, heap, out.heap⟩ :: calls)) :
    M.Goes (.invoke kind form args target :: rest) registers heap required := by
  subst hValues
  refine ⟨hMust.can, fun {out} hDoes => ?_⟩
  rw [out.write_of_unwritten registers rfl]
  exact hRest out (hMust.must hDoes)

/-- Make an array of objects; the register holds its length first. -/
theorem goes_newArray {r : Register} {n : Nat} (hNarrow : r.wide = false) (hn : n < 2 ^ 31)
    (hRest : ∀ object heap', M.Keeps [] heap heap' →
      M.look heap' (.array object) = some (.replicate n M.null) →
      M.Goes rest (Function.update registers r object) heap' required) :
    M.Goes (.const r (.ofNat n) :: .newArray r r .objectArray :: rest) registers heap
      required := by
  refine goes_sets rfl hNarrow rfl (M.const hNarrow) fun h₁ k₁ => ?_
  refine goes_writes rfl ?_ (M.newArray hNarrow hn) ?_
  · simp [Instruction.readSlots, Instruction.reads, Instruction.written?, Instruction.registers,
      Register.slots_of_narrow hNarrow]
  · rintro out ⟨object, hYields, hLook⟩
    refine ⟨[object], hYields, fun registers' hWrote => ?_⟩
    obtain rfl := hWrote.eq_update hNarrow
    rw [Function.update_idem]
    exact hRest object out.heap (k₁.trans hYields.keeps) hLook

/-! ## Steps of a run -/

variable {code : List Instruction} {within : Nat → Prop} {k : Nat}
  {goal : List (Call V H) → Config V H R → Prop}

/-- An instruction that only moves control. -/
theorem leads_to (t : Nat) (hWithin : within k) (hAt : code[k]? = some i)
    (hWritten : i.written? = none) (hCalls : i.makesNoCall = true)
    (hReads : i.readSlots.map registers = reads) (hMust : M.Must i reads heap Q)
    (hTo : ∀ out, Q out → M.Keeps [] heap out.heap ∧ out.control.position? code k = some t)
    (hRest : ∀ heap', M.Keeps [] heap heap' →
      M.Leads code within (.running t registers heap') goal) :
    M.Leads code within (.running k registers heap) goal := by
  subst hReads
  refine .of_must hWithin hAt hMust fun out hOut => .inl ⟨t, (hTo out hOut).2, ?_⟩
  rw [out.write_of_unwritten registers hWritten, i.calls_eq_nil hCalls]
  exact hRest out.heap (hTo out hOut).1

/-- A test against zero: to the target if it holds, and else on. -/
theorem leads_branch {test : Comparison} {r : Register} {target : Label} {value : V} (t : Nat)
    (hTest : test = .eq ∨ test = .ne) (hWithin : within k)
    (hAt : code[k]? = some (.branchZero test r target)) (hNarrow : r.wide = false)
    (hValue : registers r = value)
    (hTo : M.Takes test value ∧ Code.position? code target = some t ∨
      ¬ M.Takes test value ∧ t = k + 1)
    (hRest : ∀ heap', M.Keeps [] heap heap' →
      M.Leads code within (.running t registers heap') goal) :
    M.Leads code within (.running k registers heap) goal := by
  have hReads : (Instruction.branchZero test r target).readSlots.map registers = [value] := by
    rw [← hValue]
    simp [Instruction.readSlots, Instruction.reads, Instruction.written?, Instruction.registers,
      Register.slots_of_narrow hNarrow]
  refine leads_to t hWithin hAt rfl rfl hReads (M.branchZero hTest) ?_ hRest
  rintro out ⟨hKeeps, hJump, hNext⟩
  refine ⟨hKeeps, ?_⟩
  rcases hTo with ⟨hTakes, hTarget⟩ | ⟨hTakes, rfl⟩
  · rw [hJump hTakes]
    exact hTarget
  · rw [hNext hTakes]
    rfl

/-- A label is stepped over. -/
theorem leads_label {l : Label} (hWithin : within k) (hAt : code[k]? = some (.label l))
    (hRest : M.Leads code within (.running (k + 1) registers heap) goal) :
    M.Leads code within (.running k registers heap) goal := by
  refine .of_must hWithin hAt ⟨M.label_can l heap, id⟩ fun out hDoes => .inl ⟨k + 1, ?_, ?_⟩
  · rw [(M.label_silent hDoes).control]
    rfl
  · rw [out.write_of_unwritten registers rfl, (M.label_silent hDoes).heap]
    exact hRest

/-- An instruction that ends the method. -/
theorem leads_stop {result : R} (hWithin : within k) (hAt : code[k]? = some i)
    (hCalls : i.makesNoCall = true) (hReads : i.readSlots.map registers = reads)
    (hMust : M.Must i reads heap fun out =>
      M.Keeps [] heap out.heap ∧ out.control = .stop result)
    (hGoal : ∀ heap', M.Keeps [] heap heap' → goal [] (.ended result heap')) :
    M.Leads code within (.running k registers heap) goal := by
  subst hReads
  refine .of_must hWithin hAt hMust fun out hOut => .inr ⟨result, hOut.2, ?_⟩
  rw [i.calls_eq_nil hCalls]
  exact hGoal out.heap hOut.1

/-- A test against zero that picks one of two lines, after which control is at one place again. -/
theorem leads_diamond {test : Comparison} {r : Register} {value : V} {other join : Label}
    {front first second back : List Instruction} (hTest : test = .eq ∨ test = .ne)
    (hNarrow : r.wide = false) (hValue : registers r = value)
    (hCode : code = front ++ .branchZero test r other ::
      (first ++ .goto join :: .label other :: (second ++ .label join :: back)))
    (hNodup : (Code.placed code).Nodup) (hStart : front.length = k)
    (hWithin : ∀ j, k ≤ j → within j)
    (hFirst : ¬ M.Takes test value → ∀ heap', M.Keeps [] heap heap' →
      M.Goes first registers heap' required)
    (hSecond : M.Takes test value → ∀ heap', M.Keeps [] heap heap' →
      M.Goes second registers heap' required)
    (hRest : ∀ calls registers' heap' heap'', required calls registers' heap' →
      M.Keeps [] heap' heap'' → M.Leads code within
        (.running (k + first.length + second.length + 4) registers' heap'') fun more =>
          goal (calls ++ more)) :
    M.Leads code within (.running k registers heap) goal := by
  have hAtFirst : code = (front ++ [.branchZero test r other]) ++
      (first ++ .goto join :: .label other :: (second ++ .label join :: back)) := by
    simp [hCode]
  have hAtSecond : code = (front ++ .branchZero test r other :: (first ++
      [.goto join, .label other])) ++ (second ++ .label join :: back) := by
    simp [hCode]
  have hOther : Code.position? code other = some (k + first.length + 2) := by
    have hSplit : code = (front ++ .branchZero test r other :: (first ++ [.goto join])) ++
        .label other :: (second ++ .label join :: back) := by
      simp [hCode]
    rw [hSplit] at hNodup ⊢
    rw [Code.position?_of_nodup hNodup]
    simp [hStart, Nat.add_assoc]
  have hJoin : Code.position? code join = some (k + first.length + second.length + 3) := by
    have hSplit : code = (front ++ .branchZero test r other :: (first ++
        .goto join :: .label other :: second)) ++ .label join :: back := by
      simp [hCode]
    rw [hSplit] at hNodup ⊢
    rw [Code.position?_of_nodup hNodup]
    simp [hStart, Nat.add_assoc]
  have hBranch : code[k]? = some (.branchZero test r other) := by simp [hCode, ← hStart]
  have hLast : ∀ {registers' : Register → V} {heap' : H}
      {goal : List (Call V H) → Config V H R → Prop},
      M.Leads code within (.running (k + first.length + second.length + 4) registers' heap') goal →
      M.Leads code within (.running (k + first.length + second.length + 3) registers' heap') goal :=
    leads_label (hWithin _ (by omega)) (Code.getElem?_position? hJoin)
  by_cases hTakes : M.Takes test value
  · refine leads_branch _ hTest (hWithin _ (Nat.le_refl _)) hBranch hNarrow hValue
      (.inl ⟨hTakes, hOther⟩) fun h₁ k₁ => ?_
    refine leads_label (hWithin _ (by omega)) (Code.getElem?_position? hOther) ?_
    refine (hSecond hTakes h₁ k₁).leads hAtSecond ?_ (fun j hj _ => hWithin j (by omega)) ?_
    · simp [hStart, Nat.add_assoc]
    · intro calls registers₂ h₂ hRequired
      rw [show k + first.length + 2 + 1 + second.length =
        k + first.length + second.length + 3 by omega]
      exact hLast (hRest calls registers₂ h₂ h₂ hRequired (.refl _ _))
  · refine leads_branch _ hTest (hWithin _ (Nat.le_refl _)) hBranch hNarrow hValue
      (.inr ⟨hTakes, rfl⟩) fun h₁ k₁ => ?_
    refine (hFirst hTakes h₁ k₁).leads hAtFirst (by simp [hStart])
      (fun j hj _ => hWithin j (by omega)) ?_
    intro calls registers₂ h₂ hRequired
    refine leads_to _ (hWithin _ (by omega))
      (Machine.getElem?_behind hAtFirst (by simp [hStart])) rfl rfl rfl M.goto ?_ fun h₃ k₃ =>
        hLast (hRest calls registers₂ h₂ h₃ hRequired k₃)
    rintro out ⟨hKeeps, hJump⟩
    exact ⟨hKeeps, by rw [hJump]; exact hJoin⟩

end Runtime

end HotPatch
