import HotPatch.Proofs.Descriptor.Bytes
import HotPatch.Proofs.Descriptor.Rendering

/-!
# Reading undoes rendering

A reader takes a value off the front of a text exactly when the text starts
with the value's descriptor and the value is one that can be read: its class
names pass the check for names, and no array in it has more than 255
dimensions (`Reads`).  What follows does not matter, since a descriptor says
where it ends, so the readers of larger values are put together from those of
their parts: first types without brackets, then brackets in front of one, then
lists of types up to the closing bracket.

On whole texts this makes reading and rendering inverse to each other, for all
five kinds of descriptors (`parse_inverse_render`).
-/

namespace HotPatch

/-! ## What can be read -/

/-- The name passes the check for class names. -/
def ClassName.Accepted (name : ClassName) : Prop := ClassName.ofString? name.text = .ok name

namespace ValueType

/-- The class names in a type. -/
def names : ValueType → List ClassName
  | .base _ => []
  | .object cls => [cls]
  | .array element => element.names

/-- A type that can be read. -/
structure Readable (type : ValueType) : Prop where
  names : ∀ cls ∈ type.names, cls.Accepted
  dimensions : type.dimensions ≤ 255

end ValueType

/-- A reference type that can be read. -/
def RefType.Readable (type : RefType) : Prop := type.toValue.Readable

/-- A signature that can be read. -/
structure Signature.Readable (s : Signature) : Prop where
  parameters : ∀ type ∈ s.parameters, type.Readable
  result : ∀ type, s.result = some type → type.Readable

/-! ## Names -/

namespace ClassName

private theorem ofString?_eq_ok {text : String} {name : ClassName} :
    ofString? text = .ok name ↔ error? text = none ∧ name.text = text := by
  unfold ofString?
  split
  · next hSome => simp [hSome]
  · next hNone => simp [hNone, ClassName.ext_iff, eq_comm]

private theorem ofString?_eq_ok_iff {text : String} {name : ClassName} :
    ofString? text = .ok name ↔ name.Accepted ∧ name.text = text := by
  constructor
  · intro h
    obtain ⟨_, rfl⟩ := ofString?_eq_ok.mp h
    exact ⟨h, rfl⟩
  · rintro ⟨h, rfl⟩
    exact h

end ClassName

namespace Descriptor

/-- The reader takes exactly the values that can be read off a text that starts with their
descriptors, and leaves the cursor behind them. -/
def Reads {α : Type} (read : Cursor → Read α) (chars : α → List Char) (readable : α → Prop) :
    Prop :=
  ∀ cursor value stop, read cursor = (.ok value, stop) ↔
    readable value ∧ ∃ rest, cursor.rest = chars value ++ rest ∧
      stop = cursor.after (chars value) rest

/-! ## Types without brackets -/

/-- A primitive type is read from its letter and from nothing else. -/
theorem reads_primitive : Reads readPrimitive (fun p => [p.code]) fun _ => True := by
  intro cursor p stop
  unfold readPrimitive
  split
  · next hRest => simp [hRest]
  · next c rest hRest =>
      split
      · next hNone =>
          have hNot : ¬ c = p.code := by
            intro hCode
            rw [ofCode?_eq_some.mpr hCode] at hNone
            cases hNone
          simp [hRest, hNot]
      · next q hSome =>
          obtain rfl := ofCode?_eq_some.mp hSome
          simp only [hRest, Prod.mk.injEq, Except.ok.injEq, true_and, List.cons_append,
            List.nil_append, List.cons.injEq]
          constructor
          · rintro ⟨rfl, rfl⟩
            exact ⟨rest, ⟨rfl, rfl⟩, rfl⟩
          · rintro ⟨_, ⟨hCode, rfl⟩, rfl⟩
            exact ⟨Primitive.code_inj hCode, by rw [hCode]⟩

/-- A name is read up to the first `;`. -/
theorem readClass_mark {cursor : Cursor} {name rest : List Char}
    (hRest : cursor.rest = 'L' :: (name ++ ';' :: rest)) (hName : ';' ∉ name) {cls : ClassName}
    {stop : Cursor} :
    readClass cursor = (.ok cls, stop) ↔
      ClassName.ofString? (String.ofList name) = .ok cls ∧
        stop = cursor.after ('L' :: (name ++ [';'])) rest := by
  rw [readClass_named hRest hName]
  cases ClassName.ofString? (String.ofList name) with
  | error e => simp
  | ok found => simp [eq_comm]

/-- A class name is read from its descriptor and from nothing else. -/
theorem reads_class : Reads readClass ClassName.descriptorChars ClassName.Accepted := by
  intro cursor cls stop
  have hShape : ∀ rest, cls.descriptorChars ++ rest = 'L' :: (cls.text.toList ++ ';' :: rest) := by
    intro rest
    rw [ClassName.descriptorChars, List.cons_append, List.append_assoc, List.singleton_append]
  simp only [hShape]
  by_cases hL : ∃ text, cursor.rest = 'L' :: text
  · obtain ⟨text, hRest⟩ := hL
    by_cases hMark : ';' ∈ text
    · obtain ⟨name, rest, rfl, hName⟩ := List.eq_append_cons_of_mem hMark
      rw [readClass_mark hRest hName, ClassName.ofString?_eq_ok_iff]
      constructor
      · rintro ⟨⟨hAccepted, hText⟩, rfl⟩
        have hList : cls.text.toList = name := by rw [hText, String.toList_ofList]
        exact ⟨hAccepted, rest, by rw [hList, hRest], by rw [ClassName.descriptorChars, hList]⟩
      · rintro ⟨hAccepted, rest', hChars, rfl⟩
        rw [hRest] at hChars
        obtain ⟨rfl, rfl⟩ := append_mark_inj hName cls.bounded (List.cons.inj hChars).2
        exact ⟨⟨hAccepted, by rw [String.ofList_toList]⟩, rfl⟩
    · rw [readClass_open hRest hMark]
      refine iff_of_false (fun h => by cases h) ?_
      rintro ⟨_, rest, hChars, _⟩
      rw [hRest] at hChars
      rw [(List.cons.inj hChars).2] at hMark
      exact hMark (List.mem_append_right _ List.mem_cons_self)
  · rw [readClass_other fun rest h => hL ⟨rest, h⟩]
    refine iff_of_false (fun h => by cases h) ?_
    rintro ⟨_, rest, hChars, _⟩
    exact hL ⟨_, hChars⟩

/-- A type without brackets, and one that can be read. -/
def Plain (type : ValueType) : Prop := type.Readable ∧ type.dimensions = 0

theorem plain_base (p : Primitive) : Plain (.base p) :=
  ⟨⟨fun _ hcls => (List.not_mem_nil hcls).elim, Nat.zero_le 255⟩, rfl⟩

theorem plain_object {cls : ClassName} : Plain (.object cls) ↔ cls.Accepted := by
  constructor
  · rintro ⟨h, _⟩
    exact h.names cls (List.mem_singleton.mpr rfl)
  · intro h
    refine ⟨⟨fun name hname => ?_, Nat.zero_le 255⟩, rfl⟩
    rw [List.mem_singleton.mp hname]
    exact h

private theorem not_plain_array (element : ValueType) : ¬ Plain (.array element) := by
  rintro ⟨_, h⟩
  cases h

private theorem code_ne (p : Primitive) : p.code ≠ 'L' ∧ p.code ≠ '[' := by
  cases p <;> decide

private theorem reads_element : Reads readElement ValueType.descriptorChars Plain := by
  intro cursor type stop
  by_cases hL : ∃ rest, cursor.rest = 'L' :: rest
  · obtain ⟨text, hRest⟩ := hL
    rw [readElement_class hRest, Read.map_eq_ok]
    constructor
    · rintro ⟨cls, hClass, rfl⟩
      obtain ⟨hAccepted, hChars⟩ := (reads_class cursor cls stop).mp hClass
      exact ⟨plain_object.mpr hAccepted, hChars⟩
    · rintro ⟨hPlain, rest, hChars, hStop⟩
      cases type with
      | base p =>
          rw [hRest] at hChars
          exact absurd (List.cons.inj hChars).1.symm (code_ne p).1
      | object cls =>
          have hClass := (reads_class cursor cls stop).mpr
            ⟨plain_object.mp hPlain, rest, hChars, hStop⟩
          exact ⟨cls, hClass, rfl⟩
      | array element => exact absurd hPlain (not_plain_array element)
  · have hL' : ∀ rest, cursor.rest ≠ 'L' :: rest := fun rest h => hL ⟨rest, h⟩
    by_cases hNil : cursor.rest = []
    · obtain ⟨first, more, hFirst, _⟩ := type.descriptorChars_eq_cons
      rw [readElement_nil hNil]
      simp [hFirst, hNil]
    · rw [readElement_primitive hL' hNil, Read.map_eq_ok]
      constructor
      · rintro ⟨p, hPrimitive, rfl⟩
        exact ⟨plain_base p, ((reads_primitive cursor p stop).mp hPrimitive).2⟩
      · rintro ⟨hPlain, rest, hChars, hStop⟩
        cases type with
        | base p =>
          exact ⟨p, (reads_primitive cursor p stop).mpr ⟨trivial, rest, hChars, hStop⟩, rfl⟩
        | object cls => exact absurd hChars (hL' _)
        | array element => exact absurd hPlain (not_plain_array element)

/-! ## Brackets -/

private theorem nest_succ (n : Nat) (type : ValueType) : nest (n + 1) type = .array
    (nest n type) := rfl

/-- Arrays are written with a bracket for each dimension. -/
theorem descriptorChars_nest (n : Nat) (type : ValueType) :
    (nest n type).descriptorChars = List.replicate n '[' ++ type.descriptorChars := by
  induction n with
  | zero => rfl
  | succ n ih =>
      rw [nest_succ, ValueType.descriptorChars, ih, List.replicate_succ, List.cons_append]

private theorem dimensions_nest (n : Nat) (type : ValueType) :
    (nest n type).dimensions = n + type.dimensions := by
  induction n with
  | zero => rw [nest, Nat.zero_add]
  | succ n ih => rw [nest_succ, ValueType.dimensions, ih]; omega

private theorem names_nest (n : Nat) (type : ValueType) : (nest n type).names = type.names := by
  induction n with
  | zero => rfl
  | succ n ih => rw [nest_succ, ValueType.names, ih]

/-- Every type is one without brackets in as many dimensions as it has. -/
theorem exists_nest (type : ValueType) :
    ∃ inner, type = nest type.dimensions inner ∧ inner.dimensions = 0 := by
  induction type with
  | base p => exact ⟨_, rfl, rfl⟩
  | object cls => exact ⟨_, rfl, rfl⟩
  | array element ih =>
      obtain ⟨inner, hNest, hInner⟩ := ih
      exact ⟨inner, congrArg ValueType.array hNest, hInner⟩

/-- Nested arrays can be read as long as they have at most 255 dimensions. -/
theorem readable_nest {n : Nat} {inner : ValueType} (hInner : inner.dimensions = 0) :
    (nest n inner).Readable ↔ Plain inner ∧ n ≤ 255 := by
  constructor
  · rintro ⟨hNames, hLe⟩
    rw [names_nest] at hNames
    rw [dimensions_nest, hInner] at hLe
    exact ⟨⟨⟨hNames, by omega⟩, hInner⟩, hLe⟩
  · rintro ⟨⟨hReadable, _⟩, hLe⟩
    refine ⟨?_, ?_⟩
    · rw [names_nest]
      exact hReadable.names
    · rw [dimensions_nest, hInner]
      exact hLe

/-- The bracket run and what is behind it are read apart. -/
theorem readArray_brackets {cursor : Cursor} {n : Nat} {rest : List Char}
    (hRest : cursor.rest = List.replicate (n + 1) '[' ++ rest) (h : ∀ more, rest ≠ '[' :: more)
    {type : RefType} {stop : Cursor} :
    readArray cursor = (.ok type, stop) ↔
      n + 1 ≤ 255 ∧ ∃ inner, type = .array (nest n inner) ∧
        readElement (cursor.after (List.replicate (n + 1) '[') rest) = (.ok inner, stop) := by
  rw [readArray_eq hRest h]
  split
  · next hMany =>
      refine iff_of_false (fun hOk => by cases hOk) fun hFew => ?_
      exact Nat.not_le.mpr hMany hFew.1
  · next hFew =>
      rw [and_iff_right (Nat.le_of_not_lt hFew), Read.map_eq_ok]
      exact exists_congr fun inner => and_comm

/-- A descriptor without brackets starts with none. -/
theorem not_bracket {type : ValueType} (h : type.dimensions = 0) (rest more : List Char) :
    type.descriptorChars ++ rest ≠ '[' :: more := by
  cases type with
  | base p => exact fun hEq => (code_ne p).2 (List.cons.inj hEq).1
  | object cls => exact fun hEq => absurd (List.cons.inj hEq).1 (by decide)
  | array element => cases h

/-- All ways to write an array cut the text behind the same brackets. -/
private theorem reads_array {cursor : Cursor} {text : List Char} (hOpen : cursor.rest = '[' :: text)
    {type : RefType} {stop : Cursor} :
    readArray cursor = (.ok type, stop) ↔
      type.Readable ∧ ∃ rest, cursor.rest = type.toValue.descriptorChars ++ rest ∧
        stop = cursor.after type.toValue.descriptorChars rest := by
  obtain ⟨n, behind, hRun, hBehind⟩ := exists_brackets text
  have hRest : cursor.rest = List.replicate (n + 1) '[' ++ behind := by
    rw [hOpen, hRun, List.replicate_succ, List.cons_append]
  rw [readArray_brackets hRest hBehind]
  constructor
  · rintro ⟨hLe, inner, rfl, hElement⟩
    obtain ⟨hPlain, rest, hChars, rfl⟩ := (reads_element _ inner stop).mp hElement
    have hBehindEq : behind = inner.descriptorChars ++ rest := hChars
    refine ⟨(readable_nest (n := n + 1) hPlain.2).mpr ⟨hPlain, hLe⟩, rest, ?_, ?_⟩
    · rw [hRest, hBehindEq, ← List.append_assoc, ← descriptorChars_nest]
      rfl
    · rw [Cursor.after_after, ← descriptorChars_nest]
      rfl
  · rintro ⟨hReadable, rest, hChars, rfl⟩
    cases type with
    | object cls =>
        rw [hOpen] at hChars
        exact absurd (List.cons.inj hChars).1 (by decide)
    | array element =>
        obtain ⟨inner, hNest, hInner⟩ := exists_nest element
        have hType : ValueType.array element = nest (element.dimensions + 1) inner :=
          congrArg ValueType.array hNest
        have hReadable' : (ValueType.array element).Readable := hReadable
        rw [hType, readable_nest hInner] at hReadable'
        have hSame : List.replicate (n + 1) '[' ++ behind =
            List.replicate (element.dimensions + 1) '[' ++ (inner.descriptorChars ++ rest) := by
          rw [← hRest, hChars, ← List.append_assoc, ← descriptorChars_nest, ← hType]
          rfl
        obtain ⟨hTake, hDrop⟩ := cut_brackets (n + 1) hBehind
        obtain ⟨hTake', hDrop'⟩ := cut_brackets (element.dimensions + 1) (not_bracket hInner rest)
        rw [hSame, hTake'] at hTake
        rw [hSame, hDrop'] at hDrop
        have hCount := congrArg List.length hTake
        simp only [List.length_replicate, Nat.add_right_cancel_iff] at hCount
        refine ⟨hCount ▸ hReadable'.2, inner, by rw [← hCount, ← hNest], ?_⟩
        refine (reads_element _ inner _).mpr ⟨hReadable'.1, rest, hDrop.symm, ?_⟩
        rw [Cursor.after_after, ← hTake, ← descriptorChars_nest, ← hType]
        rfl

/-! ## References and values -/

/-- Reference types are read from their descriptors, and from nothing else. -/
theorem reads_ref : Reads readRef (fun type => type.toValue.descriptorChars) RefType.Readable := by
  intro cursor type stop
  by_cases hOpen : ∃ text, cursor.rest = '[' :: text
  · obtain ⟨text, hOpen⟩ := hOpen
    rw [readRef_array hOpen]
    exact reads_array hOpen
  · have hNot : ∀ text, cursor.rest ≠ '[' :: text := fun text h => hOpen ⟨text, h⟩
    rw [readRef_class hNot, Read.map_eq_ok]
    constructor
    · rintro ⟨cls, hClass, rfl⟩
      obtain ⟨hAccepted, hChars⟩ := (reads_class cursor cls stop).mp hClass
      exact ⟨(plain_object.mpr hAccepted).1, hChars⟩
    · rintro ⟨hReadable, rest, hChars, hStop⟩
      cases type with
      | object cls =>
          have hAccepted := plain_object.mp ⟨hReadable, rfl⟩
          exact ⟨cls, (reads_class cursor cls stop).mpr ⟨hAccepted, rest, hChars, hStop⟩, rfl⟩
      | array element => exact absurd hChars (hNot _)

/-- Value types are read from their descriptors, and from nothing else. -/
theorem reads_value : Reads readValue ValueType.descriptorChars ValueType.Readable := by
  intro cursor type stop
  by_cases hOpen : ∃ text, cursor.rest = '[' :: text
  · obtain ⟨text, hOpen⟩ := hOpen
    rw [readValue_array hOpen, Read.map_eq_ok]
    constructor
    · rintro ⟨ref, hArray, rfl⟩
      exact (reads_array hOpen).mp hArray
    · rintro ⟨hReadable, rest, hChars, hStop⟩
      cases type with
      | array element =>
          exact ⟨.array element, (reads_array hOpen).mpr ⟨hReadable, rest, hChars, hStop⟩, rfl⟩
      | base p => exact absurd (hChars.symm.trans hOpen) (not_bracket rfl rest text)
      | object cls => exact absurd (hChars.symm.trans hOpen) (not_bracket rfl rest text)
  · have hNot : ∀ text, cursor.rest ≠ '[' :: text := fun text h => hOpen ⟨text, h⟩
    rw [readValue_element hNot, reads_element cursor type stop]
    constructor
    · rintro ⟨hPlain, hChars⟩
      exact ⟨hPlain.1, hChars⟩
    · rintro ⟨hReadable, rest, hChars, hStop⟩
      refine ⟨⟨hReadable, ?_⟩, rest, hChars, hStop⟩
      cases type with
      | base p => rfl
      | object cls => rfl
      | array element => exact absurd hChars (hNot _)

/-! ## Signatures -/

private theorem readParameters_next {rounds : Nat} {cursor : Cursor}
    (h : ∀ rest, cursor.rest ≠ ')' :: rest) {types : List ValueType} {stop : Cursor} :
    readParameters (rounds + 1) cursor = (.ok types, stop) ↔
      ∃ type others next, types = type :: others ∧ readValue cursor = (.ok type, next) ∧
        readParameters rounds next = (.ok others, stop) := by
  by_cases hNil : cursor.rest = []
  · rw [readParameters_nil hNil]
    refine iff_of_false (fun hOk => by cases hOk) ?_
    rintro ⟨type, others, next, _, hValue, _⟩
    obtain ⟨_, rest, hChars, _⟩ := (reads_value cursor type next).mp hValue
    obtain ⟨first, more, hFirst, _⟩ := type.descriptorChars_eq_cons
    rw [hNil, hFirst] at hChars
    cases hChars
  · rw [readParameters_value rounds h hNil, Read.andThen_eq_ok]
    constructor
    · rintro ⟨type, next, hValue, hMap⟩
      obtain ⟨others, hOthers, hTypes⟩ := Read.map_eq_ok.mp hMap
      exact ⟨type, others, next, hTypes, hValue, hOthers⟩
    · rintro ⟨type, others, next, hTypes, hValue, hOthers⟩
      exact ⟨type, next, hValue, Read.map_eq_ok.mpr ⟨others, hOthers, hTypes⟩⟩

/-- As many rounds as there are types, and one for the closing bracket, are enough. -/
theorem reads_parameters {types : List ValueType} :
    ∀ {rounds : Nat} {cursor stop : Cursor}, types.length < rounds →
      (readParameters rounds cursor = (.ok types, stop) ↔
        (∀ type ∈ types, type.Readable) ∧
          ∃ rest, cursor.rest = types.flatMap ValueType.descriptorChars ++ ')' :: rest ∧
            stop = cursor.after (types.flatMap ValueType.descriptorChars ++ [')']) rest) := by
  induction types with
  | nil =>
      intro rounds cursor stop hLt
      obtain ⟨rounds, rfl⟩ := Nat.exists_eq_succ_of_ne_zero (Nat.ne_of_gt hLt)
      by_cases hClose : ∃ rest, cursor.rest = ')' :: rest
      · obtain ⟨rest, hClose⟩ := hClose
        rw [readParameters_close hClose]
        constructor
        · intro h
          cases h
          exact ⟨fun _ h => (List.not_mem_nil h).elim, rest, hClose, rfl⟩
        · rintro ⟨_, rest', hRest, rfl⟩
          rw [hClose] at hRest
          rw [(List.cons.inj hRest).2]
          rfl
      · have hNot : ∀ rest, cursor.rest ≠ ')' :: rest := fun rest h => hClose ⟨rest, h⟩
        rw [readParameters_next hNot]
        constructor
        · rintro ⟨_, _, _, hNil, _⟩
          cases hNil
        · rintro ⟨_, rest, hRest, _⟩
          exact absurd hRest (hNot rest)
  | cons type others ih =>
      intro rounds cursor stop hLt
      obtain ⟨rounds, rfl⟩ := Nat.exists_eq_succ_of_ne_zero (Nat.ne_of_gt (Nat.zero_lt_of_lt hLt))
      have hLt' : others.length < rounds := Nat.lt_of_succ_lt_succ hLt
      obtain ⟨first, more, hFirst, hBracket, _⟩ := type.descriptorChars_eq_cons
      by_cases hClose : ∃ rest, cursor.rest = ')' :: rest
      · obtain ⟨rest, hClose⟩ := hClose
        rw [readParameters_close hClose]
        constructor
        · intro h
          cases h
        · rintro ⟨_, rest', hRest, _⟩
          rw [hClose, List.flatMap_cons, hFirst] at hRest
          exact absurd (List.cons.inj hRest).1.symm hBracket
      · have hNot : ∀ rest, cursor.rest ≠ ')' :: rest := fun rest h => hClose ⟨rest, h⟩
        rw [readParameters_next hNot]
        constructor
        · rintro ⟨_, _, next, hTypes, hValue, hOthers⟩
          cases hTypes
          obtain ⟨hReadable, middle, hChars, rfl⟩ := (reads_value cursor type next).mp hValue
          obtain ⟨hRest, rest, hMore, rfl⟩ := (ih hLt').mp hOthers
          have hMiddle : middle = others.flatMap ValueType.descriptorChars ++ ')' :: rest := hMore
          refine ⟨List.forall_mem_cons.mpr ⟨hReadable, hRest⟩, rest, ?_, ?_⟩
          · rw [hChars, hMiddle, List.flatMap_cons, List.append_assoc]
          · rw [Cursor.after_after, List.flatMap_cons, List.append_assoc]
        · rintro ⟨hAll, rest, hRest, rfl⟩
          obtain ⟨hReadable, hOthers⟩ := List.forall_mem_cons.mp hAll
          rw [List.flatMap_cons, List.append_assoc] at hRest
          refine ⟨type, others, _, rfl, (reads_value cursor type _).mpr
            ⟨hReadable, _, hRest, rfl⟩, (ih hLt').mpr ⟨hOthers, rest, rfl, ?_⟩⟩
          rw [Cursor.after_after, List.flatMap_cons, List.append_assoc]

/-- The descriptor characters of a result. -/
def resultChars : Option ValueType → List Char
  | none => ['V']
  | some type => type.descriptorChars

private theorem reads_result : Reads readResult resultChars
    (fun result => ∀ type, result = some type → type.Readable) := by
  intro cursor result stop
  by_cases hVoid : ∃ text, cursor.rest = 'V' :: text
  · obtain ⟨text, hVoid⟩ := hVoid
    rw [readResult_none hVoid]
    constructor
    · intro h
      cases h
      exact ⟨fun _ hSome => (Option.some_ne_none _ hSome.symm).elim, text, hVoid, rfl⟩
    · rintro ⟨_, rest, hRest, rfl⟩
      rw [hVoid] at hRest
      cases result with
      | none => rw [(List.cons.inj hRest).2]; rfl
      | some type =>
          obtain ⟨first, more, hFirst, _, hV⟩ := type.descriptorChars_eq_cons
          rw [resultChars, hFirst] at hRest
          exact absurd (List.cons.inj hRest).1.symm hV
  · have hNot : ∀ text, cursor.rest ≠ 'V' :: text := fun text h => hVoid ⟨text, h⟩
    rw [readResult_value hNot, Read.map_eq_ok]
    constructor
    · rintro ⟨type, hValue, rfl⟩
      obtain ⟨hReadable, hChars⟩ := (reads_value cursor type stop).mp hValue
      exact ⟨fun _ h => Option.some.inj h ▸ hReadable, hChars⟩
    · rintro ⟨hReadable, rest, hRest, hStop⟩
      cases result with
      | none => exact absurd hRest (hNot rest)
      | some type =>
          exact ⟨type, (reads_value cursor type stop).mpr
            ⟨hReadable type rfl, rest, hRest, hStop⟩, rfl⟩

/-- A signature is written with its parameters in parentheses, and the result behind. -/
theorem descriptorChars_signature (s : Signature) :
    s.descriptorChars =
      '(' :: (s.parameters.flatMap ValueType.descriptorChars ++ ')' :: resultChars s.result) := by
  unfold Signature.descriptorChars resultChars
  cases s.result <;> rfl

/-- Types are no more than the characters of their descriptors. -/
theorem length_le_flatMap (types : List ValueType) :
    types.length ≤ (types.flatMap ValueType.descriptorChars).length := by
  induction types with
  | nil => exact Nat.le_refl 0
  | cons type others ih =>
      obtain ⟨first, more, hFirst, _⟩ := type.descriptorChars_eq_cons
      rw [List.flatMap_cons, hFirst]
      simp only [List.length_cons, List.length_append]
      omega

/-- A list of parameters that is read takes a round for each, and one for the closing bracket. -/
theorem length_lt_of_readParameters {rounds : Nat} :
    ∀ {cursor stop : Cursor} {types : List ValueType},
      readParameters rounds cursor = (.ok types, stop) → types.length < rounds := by
  induction rounds with
  | zero =>
      intro cursor stop types h
      cases h
  | succ rounds ih =>
      intro cursor stop types h
      by_cases hClose : ∃ rest, cursor.rest = ')' :: rest
      · obtain ⟨rest, hClose⟩ := hClose
        rw [readParameters_close hClose] at h
        cases h
        exact Nat.succ_pos rounds
      · have hNot : ∀ rest, cursor.rest ≠ ')' :: rest := fun rest h => hClose ⟨rest, h⟩
        obtain ⟨_, others, _, rfl, _, hOthers⟩ := (readParameters_next hNot).mp h
        exact Nat.succ_lt_succ (ih hOthers)

private theorem readSignature_eq_ok {cursor : Cursor} {text : List Char}
    (hOpen : cursor.rest = '(' :: text) {s : Signature} {stop : Cursor} :
    readSignature cursor = (.ok s, stop) ↔
      ∃ next, readParameters (cursor.size + 1) (cursor.after ['('] text) =
          (.ok s.parameters, next) ∧ readResult next = (.ok s.result, stop) := by
  rw [readSignature_open hOpen, Read.andThen_eq_ok]
  constructor
  · rintro ⟨types, next, hTypes, hMap⟩
    obtain ⟨result, hResult, rfl⟩ := Read.map_eq_ok.mp hMap
    exact ⟨next, hTypes, hResult⟩
  · rintro ⟨next, hTypes, hResult⟩
    exact ⟨s.parameters, next, hTypes, Read.map_eq_ok.mpr ⟨s.result, hResult, rfl⟩⟩

/-- Signatures are read from their descriptors, and from nothing else. -/
theorem reads_signature : Reads readSignature Signature.descriptorChars Signature.Readable := by
  intro cursor s stop
  simp only [descriptorChars_signature]
  by_cases hParen : ∃ text, cursor.rest = '(' :: text
  · obtain ⟨text, hOpen⟩ := hParen
    rw [readSignature_eq_ok hOpen]
    constructor
    · rintro ⟨next, hTypes, hResult⟩
      obtain ⟨hReadable, middle, hText, rfl⟩ :=
        (reads_parameters (length_lt_of_readParameters hTypes)).mp hTypes
      obtain ⟨hReadable', rest, hMiddle, rfl⟩ := (reads_result _ _ stop).mp hResult
      have hText' : text = _ ++ ')' :: middle := hText
      have hMiddle' : middle = resultChars s.result ++ rest := hMiddle
      refine ⟨⟨hReadable, hReadable'⟩, rest, ?_, ?_⟩
      · rw [hOpen, hText', hMiddle']
        simp
      · rw [Cursor.after_after, Cursor.after_after]
        simp
    · rintro ⟨⟨hReadable, hReadable'⟩, rest, hChars, rfl⟩
      rw [hOpen, List.cons_append, List.append_assoc, List.cons_append] at hChars
      have hText := (List.cons.inj hChars).2
      have hEnough : s.parameters.length < cursor.size + 1 := by
        have hLe := length_le_flatMap s.parameters
        have hLength := congrArg List.length hText
        have hBytes := Name.length_le_byteLength ('(' :: text)
        rw [List.length_append] at hLength
        rw [List.length_cons] at hBytes
        rw [Cursor.size, hOpen]
        omega
      refine ⟨_, (reads_parameters hEnough).mpr ⟨hReadable, _, hText, rfl⟩, ?_⟩
      refine (reads_result _ _ _).mpr ⟨hReadable', rest, rfl, ?_⟩
      rw [Cursor.after_after, Cursor.after_after]
      simp
  · rw [readSignature_other fun rest h => hParen ⟨rest, h⟩]
    refine iff_of_false (fun h => by cases h) ?_
    rintro ⟨_, rest, hChars, _⟩
    exact hParen ⟨_, hChars⟩

/-! ## Whole texts -/

/-- Reading and rendering are inverse to each other on the values that can be read, and no other
text is read. -/
structure Inverse {α : Type} (parse : String → Except DescriptorError α) (render : α → String)
    (readable : α → Prop) : Prop where
  parse_eq_ok : ∀ text value, parse text = .ok value ↔ text = render value ∧ readable value
  parse_render : ∀ value, readable value → parse (render value) = .ok value
  render_parse : ∀ text value, parse text = .ok value → render value = text
  render_injective : ∀ value value', readable value → readable value' →
    render value = render value' → value = value'

/-- The first of the four statements implies the others. -/
theorem Inverse.of_parse_eq_ok {α : Type} {parse : String → Except DescriptorError α}
    {render : α → String} {readable : α → Prop}
    (h : ∀ text value, parse text = .ok value ↔ text = render value ∧ readable value) :
    Inverse parse render readable where
  parse_eq_ok := h
  parse_render := fun value hReadable => (h _ value).mpr ⟨rfl, hReadable⟩
  render_parse := fun text value hParse => ((h text value).mp hParse).1.symm
  render_injective := fun value value' hReadable hReadable' hSame => by
    have hParse := (h _ value).mpr ⟨rfl, hReadable⟩
    have hParse' := (h _ value').mpr ⟨hSame, hReadable'⟩
    exact Except.ok.inj (hParse.symm.trans hParse')

private theorem parse_eq_ok {α : Type} {read : Cursor → Read α} {text : String} {value : α} :
    parse read text = .ok value ↔
      ∃ stop, read (.start text) = (.ok value, stop) ∧ stop.rest = [] := by
  unfold parse
  cases read (.start text) with
  | mk answer stop =>
      cases answer with
      | error e => simp
      | ok found =>
          simp only [List.isEmpty_iff, Prod.mk.injEq, Except.ok.injEq]
          constructor
          · intro h
            split at h
            · next hEnd =>
                cases h
                exact ⟨stop, ⟨rfl, rfl⟩, hEnd⟩
            · cases h
          · rintro ⟨_, ⟨rfl, rfl⟩, hEnd⟩
            rw [if_pos hEnd]

/-- A reader of single values reads whole texts. -/
theorem Reads.inverse {α : Type} {onBytes : Reader → Reader.Read α} {read : Cursor → Read α}
    {chars : α → List Char} {readable : α → Prop} (h : Reads read chars readable)
    (hAgrees : Agrees onBytes read) :
    Inverse (Reader.parse onBytes) (fun value => String.ofList (chars value)) readable := by
  refine .of_parse_eq_ok fun text value => ?_
  rw [hAgrees.parse_eq, parse_eq_ok]
  constructor
  · rintro ⟨stop, hRead, hEnd⟩
    obtain ⟨hReadable, rest, hText, rfl⟩ := (h _ value stop).mp hRead
    have hRest : rest = [] := hEnd
    have hChars : text.toList = chars value := by
      rw [hRest, List.append_nil] at hText
      exact hText
    exact ⟨by rw [← hChars, String.ofList_toList], hReadable⟩
  · rintro ⟨rfl, hReadable⟩
    refine ⟨_, (h _ value _).mpr ⟨hReadable, [], ?_, rfl⟩, rfl⟩
    rw [List.append_nil]
    exact String.toList_ofList

/-- **Reading is the exact inverse of rendering**, for each of the five kinds of descriptors. -/
theorem parse_inverse_render :
    Inverse Primitive.parse Primitive.render (fun _ => True) ∧
      Inverse ClassName.parse ClassName.render ClassName.Accepted ∧
      Inverse RefType.parse RefType.render RefType.Readable ∧
      Inverse ValueType.parse ValueType.render ValueType.Readable ∧
      Inverse Signature.parse Signature.render Signature.Readable :=
  ⟨reads_primitive.inverse agrees_primitive, reads_class.inverse agrees_class,
    reads_ref.inverse agrees_ref, reads_value.inverse agrees_value,
    reads_signature.inverse agrees_signature⟩

end Descriptor

end HotPatch
