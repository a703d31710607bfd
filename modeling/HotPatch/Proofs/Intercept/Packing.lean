import Mathlib.Data.List.Forall2
import HotPatch.Proofs.Bytecode.RegisterRuns
import HotPatch.Proofs.Bytecode.Runtime

/-!
# Packing and unpacking arguments

What the code for passing arguments does in any runtime.  `storeAll` fills an
array of objects with the values of registers: a primitive value goes in as
its box, a reference as it is.  `loadAll` reads such an array back into
consecutive registers.  Both make no calls but those to boxes, write no
registers but their own, and change nothing else that can be looked up.
-/

namespace HotPatch

/-- The call puts a value into a box. -/
def Call.boxes {V H : Type} (c : Call V H) : Prop :=
  c.kind = .static ∧ ∃ p, c.target = Interceptor.boxMethod p

/-- The call takes a value out of its box. -/
def Call.unboxes {V H : Type} (c : Call V H) : Prop :=
  c.kind = .virtual ∧ ∃ p, c.target = Interceptor.unboxMethod p

namespace World

variable {V H R : Type} (w : World V H R)

/-- The object stands for an argument: the box of a primitive value, or the reference itself. -/
def Carries (heap : H) (object : V) : ValueType × List V → Prop
  | (.base p, value) => w.look heap (.box p object) = some value
  | (_, value) => value = [object]

/-- The array has one element for each argument, in order, and no others. -/
def Packs (heap : H) (array : V) (arguments : List (ValueType × List V)) : Prop :=
  ∃ elements, w.look heap (.array array) = some elements ∧
    List.Forall₂ (w.Carries heap) elements arguments

/-- The casts succeed that turn an object into a value of the type. -/
def Casts (heap : H) (object : V) : ValueType → Prop
  | .base p => w.fits heap object (.object p.boxClass)
  | .object cls => cls ≠ .object → w.fits heap object (.object cls)
  | .array element => w.fits heap object (.array element)

/-- The object can be turned into the argument. -/
structure Converts (heap : H) (object : V) (argument : ValueType × List V) : Prop where
  casts : w.Casts heap object argument.1
  carries : w.Carries heap object argument

variable {w}

/-- An object carries its argument as long as no box changes. -/
theorem Keeps.carries {changed : List (Place V)} {before after : H}
    (hKeeps : w.Keeps changed before after) (hBoxes : ∀ p object, .box p object ∉ changed)
    {object : V} {argument : ValueType × List V} (h : w.Carries before object argument) :
    w.Carries after object argument := by
  obtain ⟨type, value⟩ := argument
  cases type with
  | base p => exact hKeeps.look (hBoxes p object) h
  | object cls => exact h
  | array element => exact h

theorem Keeps.casts {before after : H} (hKeeps : w.Keeps [] before after) {object : V}
    {type : ValueType} (h : w.Casts before object type) : w.Casts after object type := by
  cases type with
  | base p => exact hKeeps.fits h
  | object cls => exact fun hCls => hKeeps.fits (h hCls)
  | array element => exact hKeeps.fits h

theorem Keeps.converts {before after : H} (hKeeps : w.Keeps [] before after) {object : V}
    {argument : ValueType × List V} (h : w.Converts before object argument) :
    w.Converts after object argument :=
  ⟨hKeeps.casts h.casts, hKeeps.carries (fun _ _ => List.not_mem_nil) h.carries⟩

/-- A packed array stays packed while nothing is stored. -/
theorem Keeps.packs {before after : H} (hKeeps : w.Keeps [] before after) {array : V}
    {arguments : List (ValueType × List V)} (h : w.Packs before array arguments) :
    w.Packs after array arguments := by
  obtain ⟨elements, hLook, hElements⟩ := h
  exact ⟨elements, hKeeps.look List.not_mem_nil hLook,
    hElements.imp fun _ _ => hKeeps.carries fun _ _ => List.not_mem_nil⟩

end World

namespace Boxing

/-- The arguments that registers hold. -/
def held {V : Type} (registers : Register → V) (values : List (Register × ValueType)) :
    List (ValueType × List V) :=
  values.map fun x => (x.2, x.1.slots.map registers)

private theorem held_congr {V : Type} {before after : Register → V}
    {values : List (Register × ValueType)}
    (h : ∀ x ∈ values, ∀ slot ∈ x.1.slots, after slot = before slot) :
    held after values = held before values := by
  refine List.map_congr_left fun x hx => ?_
  rw [List.map_congr_left (h x hx)]

/-- The values of all argument slots are those of the arguments, one after the other. -/
theorem map_slots_eq_held {V : Type} (registers : Register → V)
    (values : List (Register × ValueType)) :
    ((values.map Prod.fst).flatMap Register.slots).map registers =
      (held registers values).flatMap Prod.snd := by
  simp [held, List.flatMap_map, List.map_flatMap]

/-- The same with a receiver in front. -/
theorem map_slots_receiver {V : Type} {registers : Register → V} {r : Register} {receiver : V}
    {values : List (Register × ValueType)} {arguments : List (ValueType × List V)}
    (hNarrow : r.wide = false) (hReceiver : registers r = receiver)
    (hHeld : held registers values = arguments) :
    ((r :: values.map Prod.fst).flatMap Register.slots).map registers =
      receiver :: arguments.flatMap Prod.snd := by
  rw [← hHeld, ← map_slots_eq_held]
  simp [Register.slots_of_narrow hNarrow, hReceiver]

theorem length_layout (bank : Bank) (types : List ValueType) :
    ∀ next, (layout bank next types).length = types.length := by
  induction types with
  | nil => intro next; rfl
  | cons type rest ih => intro next; rw [layout, List.length_cons, ih, List.length_cons]

/-- Values that lie in the parameter registers slot after slot are what `layout` finds there. -/
theorem held_layout {V : Type} {registers : Register → V} {arguments : List (ValueType × List V)} :
    ∀ {next : Nat}, (∀ x ∈ arguments, x.2.length = x.1.width) →
      (∀ j value, (arguments.flatMap Prod.snd)[j]? = some value →
        registers (.p (next + j)) = value) →
      held registers (layout .params next (arguments.map Prod.fst)) = arguments := by
  induction arguments with
  | nil => intro next _ _; rfl
  | cons argument rest ih =>
      intro next hWidths hSlots
      obtain ⟨type, values⟩ := argument
      have hWidth : values.length = type.width := hWidths _ List.mem_cons_self
      have hRest : held registers (layout .params (next + type.width) (rest.map Prod.fst)) =
          rest := by
        refine ih (fun x hx => hWidths x (List.mem_cons_of_mem _ hx)) fun j value hj => ?_
        rw [Nat.add_assoc]
        refine hSlots (type.width + j) value ?_
        rwa [List.flatMap_cons, ← hWidth, List.getElem?_append_right (Nat.le_add_right _ j),
          Nat.add_sub_cancel_left]
      have hFirst : (⟨.params, next, type.isWide⟩ : Register).slots.map registers = values := by
        rw [ValueType.width] at hWidth
        cases hWide : type.isWide with
        | false =>
            obtain ⟨first, rfl⟩ : ∃ first, values = [first] :=
              List.length_eq_one_iff.mp (by simpa [hWide] using hWidth)
            exact congrArg (· :: []) (hSlots 0 first rfl)
        | true =>
            obtain ⟨first, second, rfl⟩ : ∃ first second, values = [first, second] :=
              List.length_eq_two.mp (by simpa [hWide] using hWidth)
            show [registers (.p next), registers (.p (next + 1))] = _
            rw [← hSlots 0 first rfl, ← hSlots 1 second rfl]
            rfl
      show (type, _) :: held registers _ = _
      rw [hRest, hFirst]

/-- A method is entered: its parameter registers hold the receiver, if there is one, and the
arguments, slot after slot. -/
structure CalledWith {V : Type} (s : Signature) (receiver : Option V)
    (arguments : List (ValueType × List V)) (registers : Register → V) : Prop where
  types : arguments.map Prod.fst = s.parameters
  widths : ∀ x ∈ arguments, x.2.length = x.1.width
  slots : ∀ j value, (receiver.toList ++ arguments.flatMap Prod.snd)[j]? = some value →
    registers (.p j) = value

namespace CalledWith

variable {V : Type} {s : Signature} {receiver : Option V}
  {arguments : List (ValueType × List V)} {registers : Register → V}

/-- The registers of the parameters hold the arguments. -/
theorem held_declared (h : CalledWith s receiver arguments registers) :
    held registers (declared s receiver.isSome) = arguments := by
  rw [declared, ← h.types]
  refine held_layout h.widths fun j value hj => h.slots _ value ?_
  have hLength : receiver.isSome.toNat = receiver.toList.length := by cases receiver <;> rfl
  rw [hLength, List.getElem?_append_right (Nat.le_add_right _ j), Nat.add_sub_cancel_left]
  exact hj

theorem same {registers' : Register → V} (h : CalledWith s receiver arguments registers)
    (hSame : SameParameters registers registers') : CalledWith s receiver arguments registers' :=
  ⟨h.types, h.widths, fun j value hj => (hSame (.p j) rfl).trans (h.slots j value hj)⟩

theorem receiver_eq {object : V} (h : CalledWith s (some object) arguments registers) :
    registers (.p 0) = object :=
  h.slots 0 object rfl

end CalledWith

private theorem bank_of_mem_slots {r slot : Register} (h : slot ∈ r.slots) :
    slot.bank = r.bank := by
  unfold Register.slots at h
  split at h
  · simp only [List.mem_cons, List.not_mem_nil, or_false] at h
    rcases h with rfl | rfl <;> rfl
  · obtain rfl := List.mem_singleton.mp h
    rfl

private theorem index_of_mem_slots {bank : Bank} {n : Nat} {type : ValueType} {slot : Register}
    (h : slot ∈ (⟨bank, n, type.isWide⟩ : Register).slots) :
    n ≤ slot.index ∧ slot.index < n + type.width := by
  unfold Register.slots at h
  unfold ValueType.width
  split at h
  · next hWide =>
      simp only [List.mem_cons, List.not_mem_nil, or_false] at h
      rw [if_pos hWide]
      rcases h with rfl | rfl <;> simp [Register.narrow, Register.withWide]
  · next hNarrow =>
      obtain rfl := List.mem_singleton.mp h
      rw [if_neg hNarrow]
      simp [Register.narrow, Register.withWide]

private theorem v_mem_slots (n : Nat) (wide : Bool) :
    Register.v n ∈ (⟨.locals, n, wide⟩ : Register).slots := by
  cases wide <;> exact List.mem_cons_self

private theorem length_slots (r : Register) : r.slots.length = r.width := by
  unfold Register.slots Register.width
  split <;> rfl

variable {V H E R : Type} {M : Runtime V H E R} {registers : Register → V} {heap : H}

/-! ## Into an array -/

/-- A parameter register with the width of its type. -/
def IsParameter (x : Register × ValueType) : Prop := x.1.bank = .params ∧ x.1.wide = x.2.isWide

/-- The registers of a signature are parameters. -/
theorem isParameter_of_mem_declared {s : Signature} {hasReceiver : Bool}
    {x : Register × ValueType} (h : x ∈ declared s hasReceiver) : IsParameter x :=
  bank_of_mem_layout h

/-- A parameter register covers no local. -/
theorem IsParameter.ne_v {x : Register × ValueType} (h : IsParameter x) {slot : Register}
    (hSlot : slot ∈ x.1.slots) (n : Nat) : slot ≠ .v n := by
  rintro rfl
  have hBank := (bank_of_mem_slots hSlot).trans h.1
  cases hBank

private theorem goes_box {s : Nat} {value : Register} {type : ValueType}
    (hValue : IsParameter (value, type)) :
    M.Goes (box (.v s) value type).1 registers heap fun calls registers' heap' =>
      (∀ c ∈ calls, c.boxes) ∧ M.Keeps [] heap heap' ∧
        (∀ r, r ≠ .v s → registers' r = registers r) ∧
        M.Carries heap' (registers' (box (.v s) value type).2)
          (type, value.slots.map registers) := by
  obtain ⟨hBank, hWide⟩ := hValue
  cases type with
  | base p =>
      have hSelf : value.withWide p.isWide = value := by
        rw [← show value.wide = p.isWide from hWide]
        rfl
      have hLength : (value.slots.map registers).length = p.width := by
        rw [List.length_map, length_slots, Register.width, hWide]
        rfl
      refine Runtime.goes_call ?_ (M.box hLength) ?_
      · simp [hSelf]
      rintro out ⟨object, hAnswers, hLook⟩
      refine ⟨hAnswers.control, Runtime.goes_result hAnswers.answer rfl ?_⟩
      intro registers₂ h₂ hWrote k₂
      obtain rfl := hWrote.eq_update rfl
      refine ⟨?_, hAnswers.keeps.trans k₂, ?_, ?_⟩
      · intro c hc
        obtain rfl := List.mem_singleton.mp hc
        exact ⟨rfl, p, rfl⟩
      · intro r hr
        exact Function.update_of_ne hr _ _
      · show M.look h₂ (.box p (Function.update registers (.v s) object (.v s))) = _
        rw [Function.update_self]
        exact k₂.look List.not_mem_nil hLook
  | object cls =>
      refine ⟨nofun, .refl _ _, fun _ _ => rfl, ?_⟩
      show value.slots.map registers = [registers value]
      rw [Register.slots_of_narrow hWide]
      rfl
  | array element =>
      refine ⟨nofun, .refl _ _, fun _ _ => rfl, ?_⟩
      show value.slots.map registers = [registers value]
      rw [Register.slots_of_narrow hWide]
      rfl

private theorem goes_store {a i s k : Nat} {value : Register} {type : ValueType} {array : V}
    {before after : List V} {old : V} (hai : a ≠ i) (has : a ≠ s) (his : i ≠ s)
    (hk : k < 2 ^ 31) (hValue : IsParameter (value, type)) (hArray : registers (.v a) = array)
    (hBefore : before.length = k)
    (hLook : M.look heap (.array array) = some (before ++ old :: after)) :
    M.Goes (store (.v a) (.v i) (.v s) (.ofNat k) value type) registers heap
      fun calls registers' heap' =>
        (∀ c ∈ calls, c.boxes) ∧ M.Keeps [.array array] heap heap' ∧
          (∀ r, r ≠ .v i → r ≠ .v s → registers' r = registers r) ∧
          ∃ object, M.look heap' (.array array) = some (before ++ object :: after) ∧
            M.Carries heap' object (type, value.slots.map registers) := by
  have hSlots : value.slots.map (Function.update registers (.v i) (M.int (.ofNat k))) =
      value.slots.map registers :=
    List.map_congr_left fun slot hSlot => Function.update_of_ne (hValue.ne_v hSlot i) _ _
  refine Runtime.goes_sets rfl rfl rfl (M.const rfl) fun h₁ k₁ => .append ?_
  refine (goes_box hValue).mono ?_
  rintro calls registers₂ h₂ ⟨hCalls, k₂, hSame, hCarries⟩
  rw [hSlots] at hCarries
  have hLook₂ := k₂.look List.not_mem_nil (k₁.look List.not_mem_nil hLook)
  have hArray₂ : registers₂ (.v a) = array := by
    rw [hSame _ (by simpa using has), Function.update_of_ne (by simpa using hai), hArray]
  have hIndex₂ : registers₂ (.v i) = M.int (.ofNat k) := by
    rw [hSame _ (by simpa using his), Function.update_self]
  have hNarrow : (box (.v s) value type).2.wide = false := by
    cases type with
    | base p => rfl
    | object cls => exact hValue.2
    | array element => exact hValue.2
  have hReads : (Instruction.arrayPut .object (box (.v s) value type).2 (.v a) (.v i)).readSlots.map
      registers₂ = [registers₂ (box (.v s) value type).2, array, M.int (.ofNat k)] := by
    rw [← hArray₂, ← hIndex₂]
    simp [Instruction.readSlots, Instruction.reads, Instruction.written?, Instruction.registers,
      Register.slots_of_narrow hNarrow, Register.slots_v]
  refine Runtime.goes_plain rfl rfl hReads (M.arrayPut hk hLook₂ (by simp [hBefore])) ?_
  intro out hChanges
  refine ⟨hChanges.control, ?_, ?_, ?_, registers₂ (box (.v s) value type).2, ?_, ?_⟩
  · simpa using hCalls
  · exact (k₁.trans k₂).weaken.trans hChanges.keeps
  · intro r hi hs
    rw [hSame r hs, Function.update_of_ne hi]
  · rw [hChanges.now, ← hBefore, List.set_append_right _ _ (Nat.le_refl _), Nat.sub_self]
    rfl
  · exact hChanges.keeps.carries (by simp) hCarries

/-- Storing from an index on, behind elements that are there already. -/
theorem goes_storeFrom {a i s : Nat} {array : V} (hai : a ≠ i) (has : a ≠ s) (his : i ≠ s)
    {values : List (Register × ValueType)} (hValues : ∀ x ∈ values, IsParameter x) :
    ∀ (before after : List V) (registers : Register → V) (heap : H),
      after.length = values.length → before.length + values.length < 2 ^ 31 →
      registers (.v a) = array → M.look heap (.array array) = some (before ++ after) →
      M.Goes ((values.zipIdx before.length).flatMap fun x =>
          store (.v a) (.v i) (.v s) (.ofNat x.2) x.1.1 x.1.2) registers heap
        fun calls registers' heap' =>
          (∀ c ∈ calls, c.boxes) ∧ M.Keeps [.array array] heap heap' ∧
            (∀ r, r ≠ .v i → r ≠ .v s → registers' r = registers r) ∧
            ∃ elements, M.look heap' (.array array) = some (before ++ elements) ∧
              List.Forall₂ (M.Carries heap') elements (held registers values) := by
  induction values with
  | nil =>
      intro before after registers heap hAfter _ _ hLook
      obtain rfl := List.length_eq_zero_iff.mp hAfter
      exact ⟨nofun, .refl _ _, fun _ _ _ => rfl, [], hLook, .nil⟩
  | cons x rest ih =>
      intro before after registers heap hAfter hBound hArray hLook
      obtain ⟨old, after, rfl⟩ := List.exists_cons_of_length_eq_add_one hAfter
      simp only [List.length_cons, Nat.add_right_cancel_iff] at hAfter hBound
      have hParameter := hValues x List.mem_cons_self
      rw [List.zipIdx_cons, List.flatMap_cons]
      refine .append ((goes_store hai has his (by omega) hParameter hArray rfl hLook).mono ?_)
      rintro calls registers₁ h₁ ⟨hCalls, k₁, hSame, object, hLook₁, hCarries⟩
      have hArray₁ : registers₁ (.v a) = array := by
        rw [hSame _ (by simpa using hai) (by simpa using has), hArray]
      have hHeld : held registers₁ rest = held registers rest := by
        refine held_congr fun y hy slot hSlot => ?_
        have hLocal := (hValues y (List.mem_cons_of_mem x hy)).ne_v hSlot
        exact hSame slot (hLocal i) (hLocal s)
      have hRest := ih (fun y hy => hValues y (List.mem_cons_of_mem x hy)) (before ++ [object])
        after registers₁ h₁ hAfter (by simp; omega) hArray₁ (by simpa using hLook₁)
      rw [List.length_append, List.length_singleton] at hRest
      refine hRest.mono ?_
      rintro more registers₂ h₂ ⟨hMore, k₂, hSame₂, elements, hLook₂, hElements⟩
      refine ⟨?_, k₁.trans k₂, ?_, object :: elements, by simpa using hLook₂, ?_⟩
      · intro c hc
        exact (List.mem_append.mp hc).elim (hCalls c) (hMore c)
      · intro r hi hs
        rw [hSame₂ r hi hs, hSame r hi hs]
      · rw [hHeld] at hElements
        exact .cons (k₂.carries (by simp) hCarries) hElements

/-- **An array of arguments.**  Into an array with room for them all, `storeAll` puts every value in
order, and nothing else becomes of the array. -/
theorem goes_storeAll {a i s : Nat} {array : V} {elements : List V}
    {values : List (Register × ValueType)} (hai : a ≠ i) (has : a ≠ s) (his : i ≠ s)
    (hValues : ∀ x ∈ values, IsParameter x) (hBound : values.length < 2 ^ 31)
    (hArray : registers (.v a) = array) (hLook : M.look heap (.array array) = some elements)
    (hLength : elements.length = values.length) :
    M.Goes (storeAll (.v a) (.v i) (.v s) values) registers heap fun calls registers' heap' =>
      (∀ c ∈ calls, c.boxes) ∧ M.Keeps [.array array] heap heap' ∧
        (∀ r, r ≠ .v i → r ≠ .v s → registers' r = registers r) ∧
        M.Packs heap' array (held registers values) :=
  goes_storeFrom hai has his hValues [] elements registers heap hLength (by simpa using hBound)
    hArray hLook

/-! ## Out of an array -/

/-- A cast that succeeds changes nothing. -/
theorem goes_checkCast {n : Nat} {object : V} {type : RefType}
    (hObject : registers (.v n) = object) (hFits : M.fits heap object type) :
    M.Goes [.checkCast (.v n) type] registers heap fun calls registers' heap' =>
      calls = [] ∧ registers' = registers ∧ M.Keeps [] heap heap' := by
  subst hObject
  exact Runtime.goes_plain rfl rfl rfl (M.checkCast hFits) fun out hOut =>
    ⟨hOut.control, rfl, rfl, hOut.keeps⟩

/-- A reference stays where it is, and a box gives way to the value in it. -/
private theorem goes_unbox {n : Nat} {object : V} {argument : ValueType × List V}
    (hObject : registers (.v n) = object) (hConverts : M.Converts heap object argument) :
    M.Goes (unbox (.v n) argument.1) registers heap fun calls registers' heap' =>
      (∀ c ∈ calls, c.unboxes) ∧ M.Keeps [] heap heap' ∧
        Wrote ⟨.locals, n, argument.1.isWide⟩ argument.2 registers registers' := by
  obtain ⟨type, value⟩ := argument
  obtain ⟨hCasts, hCarries⟩ := hConverts
  have hReads : [Register.v n].map registers = [object] := by rw [← hObject]; rfl
  have hStays : ∀ {cls : Bool}, cls = false → value = [object] →
      Wrote ⟨.locals, n, cls⟩ value registers registers := by
    rintro cls rfl rfl
    exact ⟨hReads, fun _ _ => rfl⟩
  cases type with
  | base p =>
      show M.Goes ([_] ++ [_, _]) _ _ _
      refine .append ((goes_checkCast hObject hCasts).mono ?_)
      rintro calls registers₁ h₁ ⟨rfl, rfl, k₁⟩
      refine Runtime.goes_call hReads (M.unbox (k₁.look List.not_mem_nil hCarries)) ?_
      intro out hAnswers
      refine ⟨hAnswers.control, Runtime.goes_result hAnswers.answer ?_ ?_⟩
      · rw [M.box_width hCarries]
        rfl
      · intro registers₂ h₂ hWrote k₂
        refine ⟨?_, (k₁.trans hAnswers.keeps).trans k₂, hWrote⟩
        intro c hc
        obtain rfl := List.mem_singleton.mp hc
        exact ⟨rfl, p, rfl⟩
  | object cls =>
      show M.Goes (if cls = .object then [] else _) _ _ _
      split
      · exact ⟨nofun, .refl _ _, hStays rfl hCarries⟩
      · next hCls =>
          refine (goes_checkCast hObject (hCasts hCls)).mono ?_
          rintro calls registers₁ h₁ ⟨rfl, rfl, k₁⟩
          exact ⟨nofun, k₁, hStays rfl hCarries⟩
  | array element =>
      refine (goes_checkCast hObject hCasts).mono ?_
      rintro calls registers₁ h₁ ⟨rfl, rfl, k₁⟩
      exact ⟨nofun, k₁, hStays rfl hCarries⟩

private theorem goes_load {a i n k : Nat} {array object : V} {elements : List V}
    {argument : ValueType × List V} (hai : a ≠ i) (hk : k < 2 ^ 31)
    (hArray : registers (.v a) = array) (hLook : M.look heap (.array array) = some elements)
    (hAt : elements[k]? = some object) (hConverts : M.Converts heap object argument) :
    M.Goes (load ⟨.locals, n, argument.1.isWide⟩ (.v a) (.v i) (.ofNat k) argument.1) registers
      heap fun calls registers' heap' =>
        (∀ c ∈ calls, c.unboxes) ∧ M.Keeps [] heap heap' ∧
          Wrote ⟨.locals, n, argument.1.isWide⟩ argument.2
            (Function.update registers (.v i) (M.int (.ofNat k))) registers' := by
  refine Runtime.goes_sets rfl rfl rfl (M.const rfl) fun h₁ k₁ => ?_
  refine Runtime.goes_sets rfl rfl ?_
    (M.arrayGet rfl hk (k₁.look List.not_mem_nil hLook) hAt) fun h₂ k₂ => ?_
  · show [Function.update registers _ _ (.v a), Function.update registers _ _ (.v i)] = _
    rw [Function.update_of_ne (by simpa using hai), Function.update_self, hArray]
  refine (goes_unbox (Function.update_self _ _ _)
    ((k₁.trans k₂).converts hConverts)).mono ?_
  rintro calls registers₃ h₃ ⟨hCalls, k₃, hWrote⟩
  refine ⟨hCalls, (k₁.trans k₂).trans k₃, hWrote.on, fun slot hSlot => ?_⟩
  rw [hWrote.off slot hSlot, Function.update_of_ne]
  rintro rfl
  exact hSlot (v_mem_slots n _)

/-- Loading from an index on, behind elements that have been read. -/
theorem goes_loadFrom {a i : Nat} {array : V} (hai : a ≠ i)
    {arguments : List (ValueType × List V)} :
    ∀ (before objects after : List V) (next : Nat) (registers : Register → V) (heap : H),
      before.length + arguments.length < 2 ^ 31 → a < next → i < next →
      registers (.v a) = array →
      M.look heap (.array array) = some (before ++ (objects ++ after)) →
      List.Forall₂ (M.Converts heap) objects arguments →
      M.Goes (((layout .locals next (arguments.map Prod.fst)).zipIdx before.length).flatMap
          fun x => load x.1.1 (.v a) (.v i) (.ofNat x.2) x.1.2) registers heap
        fun calls registers' heap' =>
          (∀ c ∈ calls, c.unboxes) ∧ M.Keeps [] heap heap' ∧
            held registers' (layout .locals next (arguments.map Prod.fst)) = arguments ∧
            ∀ r : Register, r ≠ .v i → (r.bank = .locals → r.index < next) →
              registers' r = registers r := by
  induction arguments with
  | nil =>
      intro before objects after next registers heap _ _ _ _ _ _
      exact ⟨nofun, .refl _ _, rfl, fun _ _ _ => rfl⟩
  | cons argument rest ih =>
      intro before objects after next registers heap hBound ha hi hArray hLook hConverts
      cases hConverts with
      | @cons object _ objects _ hFirst hRest =>
      rw [List.map_cons, layout, List.zipIdx_cons, List.flatMap_cons]
      rw [List.length_cons] at hBound
      have hAt : (before ++ (object :: objects ++ after))[before.length]? = some object := by
        simp
      refine .append ((goes_load hai (by omega) hArray hLook hAt hFirst).mono ?_)
      rintro calls registers₁ h₁ ⟨hCalls, k₁, hWrote⟩
      have hSame : ∀ r : Register, r ≠ .v i → (r.bank = .locals → r.index < next) →
          registers₁ r = registers r := by
        intro r hr hBelow
        have hOff : r ∉ (⟨.locals, next, argument.1.isWide⟩ : Register).slots := by
          intro hMem
          have hIndex := index_of_mem_slots hMem
          have hLt := hBelow (bank_of_mem_slots hMem)
          omega
        rw [hWrote.off r hOff, Function.update_of_ne hr]
      have hArray₁ : registers₁ (.v a) = array := by
        rw [hSame _ (by simpa using hai) (fun _ => ha), hArray]
      have hRest := ih (before ++ [object]) objects after (next + argument.1.width) registers₁ h₁
        (by simp; omega) (by omega) (by omega) hArray₁
        (by simpa using k₁.look List.not_mem_nil hLook)
        (hRest.imp fun _ _ => k₁.converts)
      rw [List.length_append, List.length_singleton] at hRest
      refine hRest.mono ?_
      rintro more registers₂ h₂ ⟨hMore, k₂, hHeld, hSame₂⟩
      refine ⟨?_, k₁.trans k₂, ?_, ?_⟩
      · intro c hc
        exact (List.mem_append.mp hc).elim (hCalls c) (hMore c)
      · have hFirst : (⟨.locals, next, argument.1.isWide⟩ : Register).slots.map registers₂ =
            argument.2 := by
          rw [← hWrote.on]
          refine List.map_congr_left fun slot hSlot => hSame₂ slot ?_ fun _ => ?_
          · rintro rfl
            have hIndex := index_of_mem_slots hSlot
            simp only [Register.v] at hIndex
            omega
          · exact (index_of_mem_slots hSlot).2
        show (argument.1, _) :: held registers₂ _ = _
        rw [hHeld, hFirst]
      · intro r hr hBelow
        rw [hSame₂ r hr fun hBank => Nat.lt_add_right _ (hBelow hBank), hSame r hr hBelow]

/-- **Arguments from an array.**  `loadAll` turns the first elements of an array into the values
they stand for, in consecutive registers that all hold their values in the end. -/
theorem goes_loadAll {a i next : Nat} {array : V} {objects after : List V}
    {arguments : List (ValueType × List V)} (hai : a ≠ i) (ha : a < next) (hi : i < next)
    (hBound : arguments.length < 2 ^ 31) (hArray : registers (.v a) = array)
    (hLook : M.look heap (.array array) = some (objects ++ after))
    (hConverts : List.Forall₂ (M.Converts heap) objects arguments) :
    M.Goes (loadAll (.v a) (.v i) (layout .locals next (arguments.map Prod.fst))) registers heap
      fun calls registers' heap' =>
        (∀ c ∈ calls, c.unboxes) ∧ M.Keeps [] heap heap' ∧
          held registers' (layout .locals next (arguments.map Prod.fst)) = arguments ∧
          ∀ r : Register, r ≠ .v i → (r.bank = .locals → r.index < next) →
            registers' r = registers r :=
  goes_loadFrom hai [] objects after next registers heap (by simpa using hBound) ha hi hArray
    hLook hConverts

end Boxing

end HotPatch
