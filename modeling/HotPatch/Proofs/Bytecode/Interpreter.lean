import Mathlib.Data.List.Basic
import HotPatch.Proofs.Bytecode.Platform

/-!
# An interpreter

A platform that can be run.  Values are integers, texts and addresses, zero
doubles as null, and the shared state is a list of objects that only grows.
Casts always succeed.  Calls into boxes and for contexts are built in; any
other call is answered by an oracle, which may do to the state what it likes
as long as no object is lost and interceptors answer with results.
-/

namespace HotPatch.Interpreter

/-- The value of one register slot. -/
inductive Datum where
  | int (n : Int32)
  | text (content : String)
  | ref (address : Nat)
  deriving DecidableEq

/-- An object. -/
inductive Item where
  | array (elements : List Datum)
  | box (type : Primitive) (value : List Datum)
  | record (fields : FieldRef → List Datum)

structure Store where
  objects : List Item
  statics : FieldRef → Option (List Datum)
  /-- The result of the last call. -/
  answer : List Datum

/-- A value has the slots of its type, and that of an integer is one. -/
def typed : ValueType → List Datum → Bool
  | .base .int, value => match value with
      | [.int _] => true
      | _ => false
  | type, value => value.length == type.width

/-- What an object has at a place, if it is an object of that kind. -/
def Item.read : Item → Place Datum → Option (List Datum)
  | .array elements, .array _ => some elements
  | .box type value, .box p _ => if p = type ∧ value.length = p.width then some value else none
  | .record fields, .field _ name =>
      if typed name.type (fields name) then some (fields name) else none
  | _, _ => none

namespace Store

def item? (h : Store) : Datum → Option Item
  | .ref address => h.objects[address]?
  | _ => none

def look (h : Store) (place : Place Datum) : Option (List Datum) :=
  match place with
  | .static name => h.statics name
  | .array object | .box _ object | .field object _ =>
      (h.item? object).bind fun item => item.read place

/-- Add an object; it is the result. -/
def alloc (h : Store) (item : Item) : Store :=
  { h with objects := h.objects ++ [item], answer := [.ref h.objects.length] }

/-- Put another object in the place of one. -/
def set (h : Store) (object : Datum) (item : Item) : Store :=
  match object with
  | .ref address => { h with objects := h.objects.set address item }
  | _ => h

end Store

/-- An object with zero in every field. -/
def blank : Item := .record fun name => .replicate name.type.width (.int 0)

/-- The methods with a meaning of their own. -/
inductive Builtin where
  | box (type : Primitive)
  | unbox (type : Primitive)
  | context

def primitives : List Primitive :=
  [.boolean, .byte, .short, .char, .int, .long, .float, .double]

def builtin? (target : MethodRef) : Option Builtin :=
  match primitives.find? fun p => target = Interceptor.boxMethod p with
  | some p => some (.box p)
  | none =>
      match primitives.find? fun p => target = Interceptor.unboxMethod p with
      | some p => some (.unbox p)
      | none => if target = Interceptor.newInitContext then some .context else none

private theorem builtin?_boxMethod (p : Primitive) :
    builtin? (Interceptor.boxMethod p) = some (.box p) := by
  cases p <;> rfl

private theorem builtin?_unboxMethod (p : Primitive) :
    builtin? (Interceptor.unboxMethod p) = some (.unbox p) := by
  cases p <;> rfl

/-- Answers to all calls that are not built in. -/
structure Oracle where
  reply : MethodRef → List Datum → Store → Store
  stays : ∀ target values h place, (h.look place).isSome →
    ((reply target values h).look place).isSome
  result : ∀ target values h,
    target.signature.result = some (.object Interceptor.interceptResult) →
      ∃ object, (reply target values h).answer = [object] ∧
        (object = .int 0 ∨ ∀ type, ((reply target values h).look
          (.field object (Interceptor.resultValue type))).isSome)

/-! ## Execution -/

def call (oracle : Oracle) (target : MethodRef) (values : List Datum) (h : Store) :
    Option Store :=
  match builtin? target with
  | some (.box p) => if values.length = p.width then some (h.alloc (.box p values)) else none
  | some (.unbox p) =>
      match values with
      | [object] => (h.look (.box p object)).map fun value => { h with answer := value }
      | _ => none
  | some .context => some (h.alloc blank)
  | none => some (oracle.reply target values h)

/-- The state after an instruction and the values it writes, unless it gets stuck. -/
def effect? (oracle : Oracle) (i : Instruction) (values : List Datum) (h : Store) :
    Option (Store × List Datum) :=
  match i, values with
  | .const _ n, _ => some (h, [.int n])
  | .constString _ text, _ => some (h, [.text text])
  | .move _ _ _, _ => some (h, values)
  | .moveResult _ _, _ => some (h, h.answer)
  | .binaryLit .and _ _ literal, [.int n] => some (h, [.int (n &&& literal.toInt32)])
  | .newArray _ _ _, [.int n] =>
      some (h.alloc (.array (.replicate n.toNatClampNeg (.int 0))), [.ref h.objects.length])
  | .arrayGet _ _ _ _, [object, .int n] =>
      (h.look (.array object)).bind fun elements =>
        elements[n.toNatClampNeg]?.map fun value => (h, [value])
  | .arrayPut _ _ _ _, [value, object, .int n] =>
      (h.look (.array object)).map fun elements =>
        (h.set object (.array (elements.set n.toNatClampNeg value)), [])
  | .instanceGet _ _ _ name, [object] => (h.look (.field object name)).map fun value => (h, value)
  | .instancePut _ _ _ name, [value, object] =>
      match h.item? object with
      | some (.record fields) =>
          some (h.set object (.record (Function.update fields name [value])), [])
      | _ => none
  | .staticGet _ _ name, _ => (h.look (.static name)).map fun value => (h, value)
  | .staticPut _ _ name, _ =>
      (h.look (.static name)).map fun _ =>
        ({ h with statics := Function.update h.statics name (some values) }, [])
  | .newInstance _ _, _ => some (h.alloc blank, [.ref h.objects.length])
  | .invoke _ _ _ target, _ => (call oracle target values h).map fun h' => (h', [])
  | .label _, _ | .checkCast _ _, _ | .branchZero _ _ _, _ | .goto _, _ | .sparseSwitch _ _, _
  | .returnVoid, _ | .returnValue _ _, _ | .throw _, _ => some (h, [])
  | _, _ => none

section Effects

variable (oracle : Oracle) (values : List Datum) (h : Store)

private theorem effect?_arrayGet (kind : AccessKind) (dst array index : Register) (object : Datum)
    (n : Int32) :
    effect? oracle (.arrayGet kind dst array index) [object, .int n] h =
      (h.look (.array object)).bind fun elements =>
        elements[n.toNatClampNeg]?.map fun value => (h, [value]) := rfl

private theorem effect?_arrayPut (kind : AccessKind) (r array index : Register)
    (value object : Datum) (n : Int32) :
    effect? oracle (.arrayPut kind r array index) [value, object, .int n] h =
      (h.look (.array object)).map fun elements =>
        (h.set object (.array (elements.set n.toNatClampNeg value)), []) := rfl

private theorem effect?_instancePut (kind : AccessKind) (r s : Register) (name : FieldRef)
    (value : Datum) {object : Datum} {fields : FieldRef → List Datum}
    (hItem : h.item? object = some (.record fields)) :
    effect? oracle (.instancePut kind r s name) [value, object] h =
      some (h.set object (.record (Function.update fields name [value])), []) := by
  delta effect?
  simp only [hItem]

private theorem effect?_staticPut (kind : AccessKind) (r : Register) (name : FieldRef) :
    effect? oracle (.staticPut kind r name) values h =
      (h.look (.static name)).map fun _ =>
        ({ h with statics := Function.update h.statics name (some values) }, []) := rfl

private theorem effect?_invoke (kind : InvokeKind) (form : InvokeForm) (args : List Register)
    (target : MethodRef) :
    effect? oracle (.invoke kind form args target) values h =
      (call oracle target values h).map fun h' => (h', []) := rfl

end Effects

/-- Where control goes. -/
def control (i : Instruction) (values : List Datum) : Control (List Datum) :=
  match i, values with
  | .branchZero .eq _ target, [value] => if value = .int 0 then .jump target else .next
  | .branchZero .ne _ target, [value] => if value = .int 0 then .next else .jump target
  | .goto target, _ => .jump target
  | .sparseSwitch _ cases, [.int key] =>
      match cases.lookup key with
      | some target => .jump target
      | none => .next
  | .returnValue _ _, _ => .stop values
  | .throw _, _ => .stop (values ++ values ++ values)
  | _, _ => if i.fallsThrough then .next else .stop []

def outcome (i : Instruction) (values : List Datum) (h : Store) (written : List Datum) :
    Outcome Datum Store Empty (List Datum) where
  effects := []
  heap := h
  written slot :=
    if i.written?.map Register.narrow = some slot then written.headD (.int 0)
    else written.getD 1 (.int 0)
  control := control i values

private theorem control_next {i : Instruction} {values : List Datum}
    (h : control i values = .next) :
    i.fallsThrough = true := by
  unfold control at h
  split at h
  · rfl
  · rfl
  · cases h
  · rfl
  · cases h
  · cases h
  · split at h
    · assumption
    · cases h

private theorem control_jump {i : Instruction} {values : List Datum} {l : Label}
    (h : control i values = .jump l) : l ∈ i.targets := by
  unfold control at h
  split at h
  · split at h <;> cases h
    exact List.mem_singleton_self _
  · split at h <;> cases h
    exact List.mem_singleton_self _
  · cases h
    exact List.mem_singleton_self _
  · split at h
    · next cases key target hCase =>
        cases h
        obtain ⟨front, back, rfl, _⟩ := List.lookup_eq_some_iff.mp hCase
        simp [Instruction.targets]
    · cases h
  · cases h
  · cases h
  · split at h <;> cases h

def machine (oracle : Oracle) : Machine Datum Store Empty (List Datum) where
  null := .int 0
  does i values h out := ∃ h' written, effect? oracle i values h = some (h', written) ∧
    out = outcome i values h' written
  next_falls := by
    rintro i values h out ⟨h', written, _, rfl⟩ hNext
    exact control_next hNext
  jump_target := by
    rintro i values h out l ⟨h', written, _, rfl⟩ hJump
    exact control_jump hJump
  label_can l h := ⟨_, h, [], rfl, rfl⟩
  label_silent := by
    rintro l h out ⟨h', written, hEffect, rfl⟩
    cases hEffect
    exact ⟨rfl, rfl, rfl⟩
  null_can r l h := ⟨_, h, [], rfl, rfl⟩
  null_silent := by
    rintro r l h out ⟨h', written, hEffect, rfl⟩
    cases hEffect
    exact ⟨rfl, rfl, rfl⟩

private theorem must_of_effect? {oracle : Oracle} {i : Instruction} {values written : List Datum}
    {h h' : Store} {required : Outcome Datum Store Empty (List Datum) → Prop}
    (hEffect : effect? oracle i values h = some (h', written))
    (hRequired : required (outcome i values h' written)) :
    (machine oracle).Must i values h required := by
  refine ⟨⟨_, h', written, hEffect, rfl⟩, ?_⟩
  rintro out ⟨h₁, written₁, hEffect₁, rfl⟩
  obtain ⟨rfl, rfl⟩ := Prod.mk.inj (Option.some.inj (hEffect.symm.trans hEffect₁))
  exact hRequired

private theorem outcome_written {i : Instruction} {values written : List Datum} {h : Store}
    {r : Register} (hWritten : i.written? = some r) (hWidth : written.length = r.width) :
    r.slots.map (outcome i values h written).written = written := by
  cases hWide : r.wide with
  | false =>
      have hOne : written.length = 1 := by simpa [Register.width, hWide] using hWidth
      obtain ⟨value, rfl⟩ := List.length_eq_one_iff.mp hOne
      simp [Register.slots, hWide, outcome, hWritten]
  | true =>
      have hTwo : written.length = 2 := by simpa [Register.width, hWide] using hWidth
      obtain ⟨low, high, rfl⟩ := List.length_eq_two.mp hTwo
      simp [Register.slots, hWide, outcome, hWritten, Register.narrow, Register.withWide]

/-! ## What the state keeps -/

def world : World Datum Store (List Datum) where
  int := .int
  isZero value := value = .int 0
  look := Store.look
  answer := Store.answer
  fits _ _ _ := True
  returned := id
  returns target := builtin? target = none

/-- The object that a place belongs to. -/
def owner? : Place Datum → Option Datum
  | .static _ => none
  | .array object | .box _ object | .field object _ => some object

namespace Store

variable {h : Store} {place : Place Datum} {object : Datum} {item : Item}

private theorem look_of_owner? (hOwner : owner? place = some object) :
    h.look place = (h.item? object).bind fun item => item.read place := by
  cases place <;> cases hOwner <;> rfl

/-- Two states with the same statics, by the objects that they both have. -/
theorem look_eq_some_of_item? {h' : Store} {content : List Datum}
    (hStatics : h'.statics = h.statics)
    (hItem : ∀ {object item}, owner? place = some object → h.item? object = some item →
      item.read place = some content → ∃ item', h'.item? object = some item' ∧
        item'.read place = some content)
    (hLook : h.look place = some content) : h'.look place = some content := by
  cases hOwner : owner? place with
  | none =>
      obtain ⟨name, rfl⟩ : ∃ name, place = .static name := by
        cases place <;> first | exact ⟨_, rfl⟩ | cases hOwner
      exact (congrFun hStatics name).trans hLook
  | some object =>
      rw [look_of_owner? hOwner] at hLook ⊢
      obtain ⟨item, hThere, hRead⟩ := Option.bind_eq_some_iff.mp hLook
      obtain ⟨item', hThere', hRead'⟩ := hItem hOwner hThere hRead
      exact Option.bind_eq_some_iff.mpr ⟨item', hThere', hRead'⟩

/-- A new object is found at its address. -/
theorem item?_alloc_self : (h.alloc item).item? (.ref h.objects.length) = some item := by
  simp [alloc, item?]

private theorem item?_alloc {item' : Item} (hItem : h.item? object = some item) :
    (h.alloc item').item? object = some item := by
  cases object with
  | int n => cases hItem
  | text content => cases hItem
  | ref address =>
      have hLt : address < h.objects.length := (List.getElem?_eq_some_iff.mp hItem).1
      exact (List.getElem?_append_left hLt).trans hItem

private theorem item?_set_self (hItem : h.item? object = some item) (item' : Item) :
    (h.set object item').item? object = some item' := by
  cases object with
  | int n => cases hItem
  | text content => cases hItem
  | ref address =>
      have hLt : address < h.objects.length := (List.getElem?_eq_some_iff.mp hItem).1
      simp [set, item?, hLt]

private theorem item?_set_of_ne {other : Datum} (hNe : other ≠ object) :
    (h.set object item).item? other = h.item? other := by
  cases object with
  | int n => rfl
  | text content => rfl
  | ref address =>
      cases other with
      | int n => rfl
      | text content => rfl
      | ref address' =>
          have hNe' : address ≠ address' := fun hEq => hNe (hEq ▸ rfl)
          simp [set, item?, hNe']

end Store

section Keeps

variable {h : Store} {object : Datum} {item item' : Item} {changed : List (Place Datum)}

/-- Answering a call changes nothing that can be looked up. -/
theorem keeps_answer (values : List Datum) : world.Keeps [] h { h with answer := values } :=
  ⟨fun _ hLook => Store.look_eq_some_of_item? (h := h) rfl
    (fun _ hItem hRead => ⟨_, hItem, hRead⟩) hLook, fun _ => trivial⟩

private theorem keeps_alloc (item : Item) : world.Keeps [] h (h.alloc item) :=
  ⟨fun _ hLook => Store.look_eq_some_of_item? (h := h) rfl
    (fun _ hItem hRead => ⟨_, Store.item?_alloc hItem, hRead⟩) hLook, fun _ => trivial⟩

/-- Only one object is another one, and it still has what it had outside the changed places. -/
theorem keeps_set (hItem : h.item? object = some item)
    (hRead : ∀ {place content}, place ∉ changed → owner? place = some object →
      item.read place = some content → item'.read place = some content) :
    world.Keeps changed h (h.set object item') := by
  refine ⟨fun hPlace hLook => Store.look_eq_some_of_item? ?_ ?_ hLook, fun _ => trivial⟩
  · cases object <;> rfl
  · intro other found hOwner hFound hContent
    by_cases hOther : other = object
    · subst hOther
      obtain rfl := Option.some.inj (hItem.symm.trans hFound)
      exact ⟨item', Store.item?_set_self hItem item', hRead hPlace hOwner hContent⟩
    · exact ⟨found, (Store.item?_set_of_ne hOther).trans hFound, hContent⟩

end Keeps

/-! ## What is at a place -/

private theorem typed_length {type : ValueType} {value : List Datum} (h : typed type value = true) :
    value.length = type.width := by
  unfold typed at h
  split at h
  · split at h
    · rfl
    · cases h
  · exact beq_iff_eq.mp h

private theorem typed_replicate (type : ValueType) :
    typed type (.replicate type.width (.int 0)) = true := by
  unfold typed
  split
  · rfl
  · simp

private theorem typed_singleton {type : ValueType} (hType : ∀ p, type ≠ .base p) (value : Datum) :
    typed type [value] = true := by
  cases type with
  | base p => exact absurd rfl (hType p)
  | object name => rfl
  | array element => rfl

section Look

variable {h : Store} {object : Datum} {content : List Datum}

private theorem item?_of_array (hLook : h.look (.array object) = some content) :
    h.item? object = some (.array content) := by
  obtain ⟨item, hItem, hRead⟩ := Option.bind_eq_some_iff.mp hLook
  cases item with
  | array elements => rw [hItem, Option.some.inj hRead]
  | box type value => cases hRead
  | record fields => cases hRead

private theorem length_of_box {p : Primitive} (hLook : h.look (.box p object) = some content) :
    content.length = p.width := by
  obtain ⟨item, hItem, hRead⟩ := Option.bind_eq_some_iff.mp hLook
  cases item with
  | array elements => cases hRead
  | record fields => cases hRead
  | box type value =>
      obtain ⟨hFits, hContent⟩ := Option.ite_none_right_eq_some.mp hRead
      exact Option.some.inj hContent ▸ hFits.2

private theorem item?_of_field {name : FieldRef}
    (hLook : h.look (.field object name) = some content) :
    typed name.type content = true ∧ ∃ fields, h.item? object = some (.record fields) := by
  obtain ⟨item, hItem, hRead⟩ := Option.bind_eq_some_iff.mp hLook
  cases item with
  | array elements => cases hRead
  | box type value => cases hRead
  | record fields =>
      obtain ⟨hTyped, hContent⟩ := Option.ite_none_right_eq_some.mp hRead
      exact ⟨Option.some.inj hContent ▸ hTyped, fields, hItem⟩

/-- All fields of a new object are zero. -/
theorem look_blank (hItem : h.item? object = some blank) (name : FieldRef) :
    h.look (.field object name) = some (.replicate name.type.width (.int 0)) := by
  rw [Store.look_of_owner? rfl, hItem, Option.bind_some]
  exact if_pos (typed_replicate name.type)

end Look

/-! ## The laws -/

section Laws

variable {oracle : Oracle} {i : Instruction} {h : Store} {values : List Datum}

/-- An instruction that writes values and leaves the state alone. -/
theorem must_yield {r : Register} {written : List Datum}
    (hEffect : effect? oracle i values h = some (h, written)) (hNext : control i values = .next)
    (hWritten : i.written? = some r) (hWidth : written.length = r.width) :
    (machine oracle).Must i values h (world.Yields h r written) :=
  must_of_effect? hEffect ⟨⟨hNext, .refl _ _⟩, outcome_written hWritten hWidth⟩

private theorem width_of_narrow {r : Register} (h : r.wide = false) : 1 = r.width := by
  simp [Register.width, h]

private theorem must_newArray {dst size : Register} {type : RefType} {n : Nat}
    (hNarrow : dst.wide = false) (hSmall : n < 2 ^ 31) :
    (machine oracle).Must (.newArray dst size type) [.int (.ofNat n)] h fun out =>
      ∃ object, world.Yields h dst [object] out ∧
        out.heap.look (.array object) = some (.replicate n (.int 0)) := by
  have hLength : (Int32.ofNat n).toNatClampNeg = n := Int32.toNatClampNeg_ofNat_of_lt hSmall
  refine must_of_effect? rfl ⟨.ref h.objects.length,
    ⟨⟨rfl, keeps_alloc _⟩, outcome_written rfl (width_of_narrow hNarrow)⟩, ?_⟩
  show Store.look (h.alloc _) _ = _
  rw [Store.look_of_owner? rfl, Store.item?_alloc_self, hLength]
  rfl

private theorem must_arrayGet {kind : AccessKind} {dst array index : Register}
    {object value : Datum}
    {elements : List Datum} {k : Nat} (hNarrow : dst.wide = false) (hSmall : k < 2 ^ 31)
    (hLook : h.look (.array object) = some elements) (hAt : elements[k]? = some value) :
    (machine oracle).Must (.arrayGet kind dst array index) [object, .int (.ofNat k)] h
      (world.Yields h dst [value]) := by
  have hIndex : (Int32.ofNat k).toNatClampNeg = k := Int32.toNatClampNeg_ofNat_of_lt hSmall
  refine must_yield ?_ rfl rfl (width_of_narrow hNarrow)
  rw [effect?_arrayGet, hLook, Option.bind_some, hIndex, hAt, Option.map_some]

private theorem must_arrayPut {kind : AccessKind} {r array index : Register} {object value : Datum}
    {elements : List Datum} {k : Nat} (hSmall : k < 2 ^ 31)
    (hLook : h.look (.array object) = some elements) :
    (machine oracle).Must (.arrayPut kind r array index) [value, object, .int (.ofNat k)] h
      (world.Changes h (.array object) (elements.set k value)) := by
  have hIndex : (Int32.ofNat k).toNatClampNeg = k := Int32.toNatClampNeg_ofNat_of_lt hSmall
  have hItem := item?_of_array hLook
  have hEffect : effect? oracle (.arrayPut kind r array index) [value, object, .int (.ofNat k)] h =
      some (h.set object (.array (elements.set k value)), []) := by
    rw [effect?_arrayPut, hLook, hIndex, Option.map_some]
  refine must_of_effect? hEffect ⟨⟨rfl, keeps_set hItem ?_⟩, ?_⟩
  · -- An array is no box and has no fields, so all that it shows is its elements.
    intro place content hPlace hOwner hRead
    cases place with
    | array other => cases hOwner; exact absurd (List.mem_singleton_self _) hPlace
    | box type other => cases hRead
    | field other name => cases hRead
    | static name => cases hOwner
  · show Store.look (h.set object (.array (elements.set k value))) (.array object) = _
    rw [Store.look_of_owner? rfl, Store.item?_set_self hItem]
    rfl

private theorem must_instancePut {kind : AccessKind} {r s : Register} {object value : Datum}
    {name : FieldRef} (hSome : (h.look (.field object name)).isSome)
    (hType : ∀ p, name.type ≠ .base p) :
    (machine oracle).Must (.instancePut kind r s name) [value, object] h
      (world.Changes h (.field object name) [value]) := by
  obtain ⟨content, hLook⟩ := Option.isSome_iff_exists.mp hSome
  obtain ⟨_, fields, hItem⟩ := item?_of_field hLook
  refine must_of_effect? (effect?_instancePut oracle h kind r s name value hItem)
    ⟨⟨rfl, keeps_set hItem ?_⟩, ?_⟩
  · intro place content hPlace hOwner hRead
    cases place with
    | array other => cases hRead
    | box type other => cases hRead
    | static name => cases hOwner
    | field other name' =>
        cases hOwner
        have hNe : name' ≠ name := by
          rintro rfl
          exact hPlace (List.mem_singleton_self _)
        simpa [Item.read, Function.update_of_ne hNe] using hRead
  · show Store.look (h.set object (.record _)) (.field object name) = _
    rw [Store.look_of_owner? rfl, Store.item?_set_self hItem]
    simp [Item.read, typed_singleton hType]

private theorem must_branchZero {test : Comparison} {r : Register} {target : Label} {value : Datum}
    (hTest : test = .eq ∨ test = .ne) :
    (machine oracle).Must (.branchZero test r target) [value] h fun out =>
      world.Keeps [] h out.heap ∧ (world.Takes test value → out.control = .jump target) ∧
        (¬ world.Takes test value → out.control = .next) := by
  refine must_of_effect? rfl ⟨.refl _ _, ?_⟩
  rcases hTest with rfl | rfl
  · exact ⟨fun hZero => if_pos hZero, fun hZero => if_neg hZero⟩
  · exact ⟨fun hZero => if_neg hZero, fun hZero => if_pos (Classical.not_not.mp hZero)⟩

private theorem must_box {args : List Register} {p : Primitive} (hWidth : values.length = p.width) :
    (machine oracle).Must (.invoke .static .fixed args (Interceptor.boxMethod p)) values h
      fun out => ∃ object, world.Answers h [object] out ∧
        out.heap.look (.box p object) = some values := by
  have hEffect : effect? oracle (.invoke .static .fixed args (Interceptor.boxMethod p)) values h =
      some (h.alloc (.box p values), []) := by
    rw [effect?_invoke]
    simp [call, builtin?_boxMethod, hWidth]
  refine must_of_effect? hEffect ⟨.ref h.objects.length, ⟨⟨rfl, keeps_alloc _⟩, rfl⟩, ?_⟩
  show Store.look (h.alloc _) _ = _
  rw [Store.look_of_owner? rfl, Store.item?_alloc_self]
  exact if_pos ⟨rfl, hWidth⟩

private theorem must_unbox {args : List Register} {p : Primitive} {object : Datum}
    (hLook : h.look (.box p object) = some values) :
    (machine oracle).Must (.invoke .virtual .fixed args (Interceptor.unboxMethod p)) [object] h
      (world.Answers h values) := by
  have hEffect : effect? oracle (.invoke .virtual .fixed args (Interceptor.unboxMethod p)) [object]
      h = some ({ h with answer := values }, []) := by
    rw [effect?_invoke]
    simp [call, builtin?_unboxMethod, hLook]
  exact must_of_effect? hEffect ⟨⟨rfl, keeps_answer values⟩, rfl⟩

private theorem must_newContext :
    (machine oracle).Must (.invoke .static .fixed [] Interceptor.newInitContext) [] h fun out =>
      ∃ object, world.Answers h [object] out ∧ world.IsContext out.heap object := by
  have hEffect : effect? oracle (.invoke .static .fixed [] Interceptor.newInitContext) [] h =
      some (h.alloc blank, []) := by
    rfl
  exact must_of_effect? hEffect ⟨.ref h.objects.length, ⟨⟨rfl, keeps_alloc _⟩, rfl⟩,
    fun name _ => Option.isSome_of_eq_some (look_blank Store.item?_alloc_self name)⟩

private theorem must_call {kind : InvokeKind} {form : InvokeForm} {args : List Register}
    {target : MethodRef} (hTarget : builtin? target = none) :
    (machine oracle).Must (.invoke kind form args target) values h (world.Returned h target) := by
  have hEffect : effect? oracle (.invoke kind form args target) values h =
      some (oracle.reply target values h, []) := by
    rw [effect?_invoke]
    simp [call, hTarget]
  exact must_of_effect? hEffect
    ⟨rfl, oracle.stays target values h, oracle.result target values h⟩

private theorem must_staticPut {kind : AccessKind} {r : Register} {name : FieldRef} {value : Datum}
    (hSome : (h.look (.static name)).isSome) :
    (machine oracle).Must (.staticPut kind r name) [value] h
      (world.Changes h (.static name) [value]) := by
  obtain ⟨content, hLook⟩ := Option.isSome_iff_exists.mp hSome
  have hEffect : effect? oracle (.staticPut kind r name) [value] h =
      some ({ h with statics := Function.update h.statics name (some [value]) }, []) := by
    rw [effect?_staticPut, hLook, Option.map_some]
  refine must_of_effect? hEffect ⟨⟨rfl, ?_, fun _ => trivial⟩, Function.update_self _ _ _⟩
  intro place content hPlace hLook
  cases place with
  | array object => exact hLook
  | box type object => exact hLook
  | field object name' => exact hLook
  | static name' =>
      have hNe : name' ≠ name := by
        rintro rfl
        exact hPlace (List.mem_singleton_self _)
      exact (Function.update_of_ne hNe _ _).trans hLook

private theorem must_sparseSwitch {r : Register} {cases : List (Int32 × Label)} {key : Int32} :
    (machine oracle).Must (.sparseSwitch r cases) [.int key] h (world.Switches cases key h) := by
  have hControl : control (.sparseSwitch r cases) [.int key] =
      match cases.lookup key with
      | some target => .jump target
      | none => .next := rfl
  exact must_of_effect? rfl ⟨.refl _ _, fun hFound => hControl.trans (by rw [hFound]),
    fun hMissed => hControl.trans (by rw [hMissed])⟩

private theorem must_newInstance {dst : Register} {cls : ClassName} (hNarrow : dst.wide = false) :
    (machine oracle).Must (.newInstance dst cls) [] h fun out =>
      ∃ object, world.Yields h dst [object] out ∧ world.IsNew h object ∧
        world.fits out.heap object (.object cls) := by
  have hNew : ∀ name, h.look (.field (.ref h.objects.length) name) = none := by
    intro name
    simp [Store.look, Store.item?]
  exact must_of_effect? rfl ⟨.ref h.objects.length,
    ⟨⟨rfl, keeps_alloc _⟩, outcome_written rfl (width_of_narrow hNarrow)⟩, hNew, trivial⟩

end Laws

/-- The runtime in which an oracle stands for all code outside. -/
def runtime (oracle : Oracle) : Runtime Datum Store Empty (List Datum) where
  toMachine := machine oracle
  toWorld := world
  isZero_int n := ⟨fun h => Datum.int.inj h, fun h => h ▸ rfl⟩
  box_width := length_of_box
  field_width hLook := typed_length (item?_of_field hLook).1
  field_int := by
    intro h object name value hLook hType
    have hTyped := (item?_of_field hLook).1
    rw [hType] at hTyped
    unfold typed at hTyped
    split at hTyped
    · split at hTyped
      · exact ⟨_, rfl⟩
      · cases hTyped
    · contradiction
  const hNarrow := must_yield rfl rfl rfl (width_of_narrow hNarrow)
  move hNarrow := must_yield rfl rfl rfl (width_of_narrow hNarrow)
  moveResult hWidth := must_yield rfl rfl rfl hWidth
  and hNarrow := must_yield rfl rfl rfl (width_of_narrow hNarrow)
  checkCast _ := must_of_effect? rfl ⟨rfl, .refl _ _⟩
  newArray := must_newArray
  arrayGet := must_arrayGet
  arrayPut hSmall hLook _ := must_arrayPut hSmall hLook
  instanceGet hLook hWidth :=
    must_yield (Option.map_eq_some_iff.mpr ⟨_, hLook, rfl⟩) rfl rfl hWidth
  instancePut := must_instancePut
  staticGet hNarrow hLook :=
    must_yield (Option.map_eq_some_iff.mpr ⟨_, hLook, rfl⟩) rfl rfl (width_of_narrow hNarrow)
  branchZero := must_branchZero
  goto := must_of_effect? rfl ⟨.refl _ _, rfl⟩
  returnVoid := must_of_effect? rfl ⟨.refl _ _, rfl⟩
  returnValue := must_of_effect? rfl ⟨.refl _ _, rfl⟩
  box := must_box
  unbox := must_unbox
  newContext := must_newContext
  call := must_call

/-- A call that is not built in is answered by the oracle. -/
theorem after_of_makes {oracle : Oracle} {call : Call Datum Store}
    (h : (machine oracle).Makes call) (hTarget : builtin? call.target = none) :
    call.after = oracle.reply call.target call.values call.before := by
  obtain ⟨args, out, ⟨h', written, hEffect, rfl⟩, hAfter⟩ := h
  rw [← hAfter]
  simp only [effect?_invoke, Interpreter.call, hTarget, Option.map_some, Option.some.injEq,
    Prod.mk.injEq] at hEffect
  exact hEffect.1.symm

/-- A context is a new object. -/
theorem after_of_newContext {oracle : Oracle} {call : Call Datum Store}
    (h : (machine oracle).Makes call) (hTarget : call.target = Interceptor.newInitContext) :
    call.after = call.before.alloc blank := by
  obtain ⟨args, out, ⟨h', written, hEffect, rfl⟩, hAfter⟩ := h
  have hBuiltin : builtin? Interceptor.newInitContext = some .context := rfl
  rw [← hAfter]
  simp only [effect?_invoke, Interpreter.call, hTarget, hBuiltin, Option.map_some,
    Option.some.injEq, Prod.mk.injEq] at hEffect
  exact hEffect.1.symm

/-- A result that is not null has all that static initializers ask for. -/
def Oracle.Reports (oracle : Oracle) : Prop :=
  ∀ target values h object,
    target.signature.result = some (.object Interceptor.interceptResult) →
      (oracle.reply target values h).answer = [object] →
        object = .int 0 ∨ world.IsReport (oracle.reply target values h) object

/-- The same machine with all that it does.  An exception ends a method with more slots than any
value has. -/
def platform (oracle : Oracle) (hReports : oracle.Reports) :
    Platform Datum Store Empty (List Datum) where
  toRuntime := runtime oracle
  string := .text
  thrown object := [object, object, object]
  constString hNarrow := must_yield rfl rfl rfl (width_of_narrow hNarrow)
  staticPut hSome _ := must_staticPut hSome
  sparseSwitch := must_sparseSwitch
  newInstance := must_newInstance
  throw := must_of_effect? rfl ⟨.refl _ _, rfl⟩
  report := by
    rintro h kind form args target values out object hTarget hResult
      ⟨h', written, hEffect, rfl⟩ hAnswer
    have hBuiltin : builtin? target = none := hTarget
    simp only [effect?_invoke, call, hBuiltin, Option.map_some, Option.some.injEq,
      Prod.mk.injEq] at hEffect
    obtain ⟨rfl, _⟩ := hEffect
    exact hReports target values h object hResult hAnswer

/-! ## A patch -/

/-- Ask to take a constructor over, with the arguments that it was called with. -/
def takenOver (fields : FieldRef → List Datum) : FieldRef → List Datum :=
  Function.update (Function.update fields Interceptor.initFlag [.int 1]) Interceptor.callArgs
    (fields Interceptor.initArgs)

def takeOver (h : Store) (context : Datum) : Store :=
  match h.item? context with
  | some (.record fields) =>
      if typed Interceptor.initArgs.type (fields Interceptor.initArgs) then
        h.set context (.record (takenOver fields))
      else h
  | _ => h

section TakeOver

variable {h : Store} {context : Datum} {args : List Datum}

private theorem read_takenOver (context : Datum) {fields : FieldRef → List Datum}
    (hTyped : typed Interceptor.initArgs.type (fields Interceptor.initArgs) = true) :
    (Item.record (takenOver fields)).read (.field context Interceptor.initFlag) = some [.int 1] ∧
      (Item.record (takenOver fields)).read (.field context Interceptor.callArgs) =
        some (fields Interceptor.initArgs) := by
  have hFlag : takenOver fields Interceptor.initFlag = [.int 1] := by
    rw [takenOver, Function.update_of_ne (by decide), Function.update_self]
  have hArgs : takenOver fields Interceptor.callArgs = fields Interceptor.initArgs :=
    Function.update_self _ _ _
  constructor
  · rw [Item.read, hFlag]
    rfl
  · rw [Item.read, hArgs]
    exact if_pos hTyped

/-- Only the flag and the arguments for the next constructor are changed. -/
theorem keeps_takeOver : world.Keeps [.field context Interceptor.initFlag,
    .field context Interceptor.callArgs] h (takeOver h context) := by
  unfold takeOver
  split
  · next fields hItem =>
      split
      · refine keeps_set hItem fun {place content} hPlace hOwner hRead => ?_
        cases place with
        | array other => cases hRead
        | box type other => cases hRead
        | static name => cases hOwner
        | field other name =>
            cases hOwner
            have hFlag : name ≠ Interceptor.initFlag := by
              rintro rfl
              exact hPlace List.mem_cons_self
            have hArgs : name ≠ Interceptor.callArgs := by
              rintro rfl
              exact hPlace (List.mem_cons_of_mem _ List.mem_cons_self)
            have hSame : takenOver fields name = fields name := by
              rw [takenOver, Function.update_of_ne hArgs, Function.update_of_ne hFlag]
            rw [Item.read, hSame]
            exact hRead
      · exact .refl _ _
  · exact .refl _ _

/-- The patch asks for interception, and hands the arguments back as they were. -/
theorem look_takeOver (hArgs : h.look (.field context Interceptor.initArgs) = some args) :
    (takeOver h context).look (.field context Interceptor.initFlag) = some [.int 1] ∧
      (takeOver h context).look (.field context Interceptor.callArgs) = some args := by
  obtain ⟨item, hItem, hRead⟩ := Option.bind_eq_some_iff.mp hArgs
  cases item with
  | array elements => cases hRead
  | box type value => cases hRead
  | record fields =>
      obtain ⟨hTyped, hContent⟩ := Option.ite_none_right_eq_some.mp hRead
      obtain rfl := Option.some.inj hContent
      have hNow : takeOver h context = h.set context (.record (takenOver fields)) := by
        rw [takeOver, hItem]
        exact if_pos hTyped
      rw [hNow, Store.look_of_owner? rfl, Store.look_of_owner? rfl, Store.item?_set_self hItem]
      exact read_takenOver context hTyped

private theorem stays_takeOver : world.Stays h (takeOver h context) := by
  intro place hSome
  by_cases hArgs : (h.look (.field context Interceptor.initArgs)).isSome
  · obtain ⟨args, hLook⟩ := Option.isSome_iff_exists.mp hArgs
    obtain ⟨hFlag, hCall⟩ := look_takeOver hLook
    refine keeps_takeOver.stays (fun changed hMem => ?_) place hSome
    rcases List.mem_pair.mp hMem with rfl | rfl
    · exact Option.isSome_of_eq_some hFlag
    · exact Option.isSome_of_eq_some hCall
  · have hSame : takeOver h context = h := by
      unfold takeOver
      split
      · next fields hItem =>
          refine if_neg fun hTyped => hArgs ?_
          rw [Store.look_of_owner? rfl, hItem, Option.bind_some, Item.read, if_pos hTyped]
          rfl
      · rfl
    rw [hSame]
    exact hSome

end TakeOver

/-- Every method is answered with a new result, and every constructor is taken over. -/
def patch : Oracle where
  reply target values h :=
    if target.signature.result = some (.object Interceptor.interceptResult) then h.alloc blank
    else if target = Interceptor.invokeUnInit then takeOver h (values.getD 2 (.int 0))
    else h
  stays target values h place hSome := by
    split
    · exact (keeps_alloc blank).stays_of_nil place hSome
    · split
      · exact stays_takeOver place hSome
      · exact hSome
  result target values h hResult := by
    rw [if_pos hResult]
    exact ⟨_, rfl, .inr fun type => Option.isSome_of_eq_some (look_blank Store.item?_alloc_self _)⟩

/-- A result that carries an interceptor and says that a static initializer has changed. -/
def changed (interceptor : Datum) : Item :=
  .record (Function.update (Function.update (fun name => .replicate name.type.width (.int 0))
    Interceptor.resultInterceptor [interceptor]) Interceptor.resultFlags [.int 1])

/-- What a changed class is announced with. -/
theorem look_changed {h : Store} {object interceptor : Datum}
    (hItem : h.item? object = some (changed interceptor)) :
    h.look (.field object Interceptor.resultInterceptor) = some [interceptor] ∧
      h.look (.field object Interceptor.resultFlags) = some [.int 1] ∧
      ∀ type, (h.look (.field object (Interceptor.resultValue type))).isSome := by
  have hFlags : Interceptor.resultInterceptor ≠ Interceptor.resultFlags := by decide
  refine ⟨?_, ?_, fun type => ?_⟩
  all_goals rw [Store.look_of_owner? rfl, hItem, Option.bind_some, changed, Item.read]
  · rw [Function.update_of_ne hFlags, Function.update_self]
    rfl
  · rw [Function.update_self]
    rfl
  · have hName : Interceptor.resultValue type ≠ Interceptor.resultFlags ∧
        Interceptor.resultValue type ≠ Interceptor.resultInterceptor := by
      have hObject : Interceptor.resultValue .rootObject ≠ Interceptor.resultFlags ∧
          Interceptor.resultValue .rootObject ≠ Interceptor.resultInterceptor := by decide
      cases type with
      | base p => cases p <;> decide
      | object cls => exact hObject
      | array element => exact hObject
    rw [Function.update_of_ne hName.1, Function.update_of_ne hName.2, if_pos (typed_replicate _)]
    rfl

/-- Every class is announced with an interceptor for it, and with a new static initializer. -/
def overhaul (interceptor : Datum) : Oracle where
  reply target _ h :=
    if target.signature.result = some (.object Interceptor.interceptResult) then
      h.alloc (changed interceptor)
    else h
  stays target values h place hSome := by
    split
    · exact (keeps_alloc _).stays_of_nil place hSome
    · exact hSome
  result target values h hResult := by
    rw [if_pos hResult]
    exact ⟨_, rfl, .inr (look_changed Store.item?_alloc_self).2.2⟩

theorem reports_overhaul (interceptor : Datum) : (overhaul interceptor).Reports := by
  intro target values h object hResult hAnswer
  have hReply : (overhaul interceptor).reply target values h = h.alloc (changed interceptor) :=
    if_pos hResult
  rw [hReply] at hAnswer ⊢
  obtain rfl : .ref h.objects.length = object := (List.cons.inj hAnswer).1
  obtain ⟨hInterceptor, hFlags, _⟩ := look_changed (h := h.alloc (changed interceptor))
    Store.item?_alloc_self
  refine .inr fun name hName => ?_
  rcases List.mem_pair.mp hName with rfl | rfl
  · exact Option.isSome_of_eq_some hInterceptor
  · exact Option.isSome_of_eq_some hFlags

/-- The current holder is known; all else is answered as in `overhaul`. -/
def holding (holder : Datum) : Oracle where
  reply target values h :=
    if target = Interceptor.buddyCurrent then { h with answer := [holder] }
    else (overhaul (.int 0)).reply target values h
  stays target values h place hSome := by
    split
    · exact (keeps_answer _).stays_of_nil place hSome
    · exact (overhaul (.int 0)).stays target values h place hSome
  result target values h hResult := by
    have hOther : target ≠ Interceptor.buddyCurrent := by
      rintro rfl
      exact absurd hResult (by decide)
    rw [if_neg hOther]
    exact (overhaul (.int 0)).result target values h hResult

theorem reports_holding (holder : Datum) : (holding holder).Reports := by
  intro target values h object hResult hAnswer
  have hOther : target ≠ Interceptor.buddyCurrent := by
    rintro rfl
    exact absurd hResult (by decide)
  have hReply : (holding holder).reply target values h =
      (overhaul (.int 0)).reply target values h := if_neg hOther
  rw [hReply] at hAnswer ⊢
  exact reports_overhaul (.int 0) target values h object hResult hAnswer

/-- Nothing is to be changed: every question is answered with null. -/
def silent : Oracle where
  reply target _ h :=
    if target.signature.result = some (.object Interceptor.interceptResult) then
      { h with answer := [.int 0] }
    else h
  stays target values h place hSome := by
    split
    · exact (keeps_answer _).stays_of_nil place hSome
    · exact hSome
  result target values h hResult := by
    rw [if_pos hResult]
    exact ⟨_, rfl, .inl rfl⟩

theorem reports_silent : silent.Reports := by
  intro target values h object hResult hAnswer
  have hReply : silent.reply target values h = { h with answer := [.int 0] } := if_pos hResult
  rw [hReply] at hAnswer
  exact .inl (List.cons.inj hAnswer).1.symm

/-! ## Starting points -/

theorem ref_ne_zero (address : Nat) : Datum.ref address ≠ .int 0 := nofun

/-- The registers at the start of a method, by the values of its parameter slots. -/
def entered (slots : List Datum) (r : Register) : Datum := slots.getD r.index (.int 0)

/-- The parameters hold what the method was called with. -/
theorem entered_p {slots : List Datum} {j : Nat} {value : Datum} (h : slots[j]? = some value) :
    entered slots (.p j) = value := by
  simp [entered, Register.p, h]

/-- A state with two objects, one to be called and one that intercepts it, in the slot of a
class. -/
def installed (owner : ClassName) : Store where
  objects := [blank, blank]
  statics name := if name = Interceptor.slot owner then some [.ref 1] else none
  answer := []

end HotPatch.Interpreter
