import Mathlib.Data.List.TakeWhile
import HotPatch.Descriptor.Reader

/-!
# Readers on characters

What a reader does is easier to follow on whole characters than on bytes.  A
cursor holds what is left of a text, and the readers here take characters off
its front; the bytes in front of it are sums of character sizes.  They agree
with the readers on bytes wherever these are between two characters
(`HotPatch.Proofs.Descriptor.Bytes`).
-/

namespace HotPatch

theorem Name.byteLength_append (front back : List Char) :
    byteLength (front ++ back) = byteLength front + byteLength back := by
  induction front with
  | nil => rw [List.nil_append, byteLength, Nat.zero_add]
  | cons c rest ih => rw [List.cons_append, byteLength, byteLength, ih, Nat.add_assoc]

/-- Every character takes a byte. -/
theorem Name.length_le_byteLength (chars : List Char) : chars.length ≤ byteLength chars := by
  induction chars with
  | nil => exact Nat.le_refl 0
  | cons c rest ih =>
      rw [List.length_cons, byteLength, Nat.add_comm]
      exact Nat.add_le_add c.utf8Size_pos ih

/-- What is left of a text, and how many bytes of it are already read. -/
structure Cursor where
  offset : Nat
  rest : List Char
  deriving DecidableEq

namespace Cursor

/-- The cursor before the first character of a text. -/
def start (text : String) : Cursor := ⟨0, text.toList⟩

/-- The cursor after `chars`, when `rest` follows them. -/
def after (cursor : Cursor) (chars rest : List Char) : Cursor :=
  ⟨cursor.offset + Name.byteLength chars, rest⟩

/-- The bytes in the whole text. -/
def size (cursor : Cursor) : Nat := cursor.offset + Name.byteLength cursor.rest

theorem after_after (cursor : Cursor) (front back middle rest : List Char) :
    (cursor.after front middle).after back rest = cursor.after (front ++ back) rest := by
  rw [after, after, after, Name.byteLength_append, Nat.add_assoc]

/-- `stop` is behind `taken` in the text that is left at `cursor`. -/
def Passes (cursor : Cursor) (taken : List Char) (stop : Cursor) : Prop :=
  cursor.rest = taken ++ stop.rest ∧ stop = cursor.after taken stop.rest

/-- A cursor passes what it is put behind. -/
theorem passes_after {cursor : Cursor} {taken rest : List Char} (h : cursor.rest = taken ++ rest) :
    cursor.Passes taken (cursor.after taken rest) :=
  ⟨h, rfl⟩

theorem passes_self (cursor : Cursor) : cursor.Passes [] cursor := ⟨rfl, rfl⟩

/-- What is passed is passed in pieces. -/
theorem Passes.trans {cursor next stop : Cursor} {front back : List Char}
    (h : cursor.Passes front next) (h' : next.Passes back stop) :
    cursor.Passes (front ++ back) stop := by
  refine ⟨by rw [h.1, h'.1, List.append_assoc], ?_⟩
  rw [← cursor.after_after front back next.rest, ← h.2]
  exact h'.2

/-- The offset counts the bytes that were passed. -/
theorem Passes.offset_eq {cursor stop : Cursor} {taken : List Char}
    (h : cursor.Passes taken stop) : stop.offset = cursor.offset + Name.byteLength taken := by
  rw [h.2]
  rfl

end Cursor

namespace Descriptor

/-- An answer, with the cursor it leaves behind. -/
abbrev Read (α : Type) := Except Reason α × Cursor

/-- Change the value of an answer. -/
def Read.map {α β : Type} (f : α → β) (answer : Read α) : Read β := (answer.1.map f, answer.2)

/-- Go on where an answer stopped, unless it is an error. -/
def Read.andThen {α β : Type} (answer : Read α) (next : α → Cursor → Read β) : Read β :=
  match answer with
  | (.error e, stop) => (.error e, stop)
  | (.ok value, stop) => next value stop

def readPrimitive (cursor : Cursor) : Read Primitive :=
  match cursor.rest with
  | [] => (.error .expectedPrimitive, cursor)
  | c :: rest =>
      match Primitive.ofCode? c with
      | none => (.error .expectedPrimitive, cursor)
      | some p => (.ok p, cursor.after [c] rest)

/-- A class name up to its `;`; a name that fails the check is reported at its first character. -/
def readClass (cursor : Cursor) : Read ClassName :=
  match cursor.rest with
  | 'L' :: rest =>
      let inside := cursor.after ['L'] rest
      let name := rest.takeWhile (· != ';')
      match rest.dropWhile (· != ';') with
      | [] => (.error .unterminatedClass, inside)
      | close :: others =>
          match ClassName.ofString? (String.ofList name) with
          | .error _ => (.error .invalidClassName, inside)
          | .ok cls => (.ok cls, inside.after (name ++ [close]) others)
  | _ => (.error .expectedClass, cursor)

/-- A type other than an array. -/
def readElement (cursor : Cursor) : Read ValueType :=
  match cursor.rest with
  | [] => (.error .missingType, cursor)
  | 'L' :: _ => (readClass cursor).map .object
  | _ => (readPrimitive cursor).map .base

/-- An array type: brackets up to the limit, then the type of the elements. -/
def readArray (cursor : Cursor) : Read RefType :=
  let brackets := cursor.rest.takeWhile (· == '[')
  if brackets.length > maxDimensions then
    let read := brackets.take (maxDimensions + 1)
    (.error .tooManyDimensions, cursor.after read (cursor.rest.drop (maxDimensions + 1)))
  else
    (readElement (cursor.after brackets (cursor.rest.dropWhile (· == '[')))).map fun element =>
      .array (nest (brackets.length - 1) element)

def readRef (cursor : Cursor) : Read RefType :=
  match cursor.rest with
  | '[' :: _ => readArray cursor
  | _ => (readClass cursor).map .object

def readValue (cursor : Cursor) : Read ValueType :=
  match cursor.rest with
  | '[' :: _ => (readArray cursor).map RefType.toValue
  | _ => readElement cursor

/-- Parameter types up to the closing bracket, which is read too. -/
def readParameters : Nat → Cursor → Read (List ValueType)
  | 0, cursor => (.error .unterminatedParameters, cursor)
  | rounds + 1, cursor =>
      match cursor.rest with
      | [] => (.error .unterminatedParameters, cursor)
      | ')' :: rest => (.ok [], cursor.after [')'] rest)
      | _ =>
          (readValue cursor).andThen fun type next => (readParameters rounds next).map (type :: ·)

/-- A result type, `V` for none. -/
def readResult (cursor : Cursor) : Read (Option ValueType) :=
  match cursor.rest with
  | 'V' :: rest => (.ok none, cursor.after ['V'] rest)
  | _ => (readValue cursor).map some

def readSignature (cursor : Cursor) : Read Signature :=
  match cursor.rest with
  | '(' :: rest =>
      (readParameters (cursor.size + 1) (cursor.after ['('] rest)).andThen fun types next =>
        (readResult next).map (Signature.mk types)
  | _ => (.error .expectedParameters, cursor)

/-- Read a whole text, refusing characters after the type. -/
def parse {α : Type} (read : Cursor → Read α) (text : String) : Except DescriptorError α :=
  match read (.start text) with
  | (.error reason, stop) => .error ⟨text, stop.offset, reason⟩
  | (.ok value, stop) =>
      if stop.rest.isEmpty then .ok value
      else .error ⟨text, stop.offset, .trailingCharacters⟩

/-! ## Case by case -/

variable {cursor : Cursor}

/-- A name is read up to the first `;`. -/
theorem readClass_named {name rest : List Char} (hRest : cursor.rest = 'L' :: (name ++ ';' :: rest))
    (hName : ';' ∉ name) :
    readClass cursor =
      match ClassName.ofString? (String.ofList name) with
      | .error _ => (.error .invalidClassName, cursor.after ['L'] (name ++ ';' :: rest))
      | .ok cls => (.ok cls, cursor.after ('L' :: (name ++ [';'])) rest) := by
  have hPass : ∀ c ∈ name, (c != ';') = true := by
    intro c hc
    rw [bne_iff_ne]
    rintro rfl
    exact hName hc
  have hTake : (name ++ ';' :: rest).takeWhile (· != ';') = name := by
    rw [List.takeWhile_append_of_pos hPass]
    simp
  have hDrop : (name ++ ';' :: rest).dropWhile (· != ';') = ';' :: rest := by
    rw [List.dropWhile_append_of_pos hPass]
    simp
  unfold readClass
  simp only [hRest, hTake, hDrop, Cursor.after_after, List.singleton_append]

/-- Without a `;` no class name ends. -/
theorem readClass_open {text : List Char} (hRest : cursor.rest = 'L' :: text)
    (hOpen : ';' ∉ text) :
    readClass cursor = (.error .unterminatedClass, cursor.after ['L'] text) := by
  have hDrop : text.dropWhile (· != ';') = [] := by
    rw [List.dropWhile_eq_nil_iff]
    intro c hc
    rw [bne_iff_ne]
    rintro rfl
    exact hOpen hc
  unfold readClass
  simp [hRest, hDrop]

/-- Anything but the letter of a class is refused on the spot. -/
theorem readClass_other (h : ∀ rest, cursor.rest ≠ 'L' :: rest) :
    readClass cursor = (.error .expectedClass, cursor) := by
  unfold readClass
  split
  · next hRest => exact absurd hRest (h _)
  · rfl

/-- At the end of the text there is no type. -/
theorem readElement_nil (h : cursor.rest = []) :
    readElement cursor = (.error .missingType, cursor) := by
  unfold readElement
  rw [h]

theorem readElement_class {rest : List Char} (h : cursor.rest = 'L' :: rest) :
    readElement cursor = (readClass cursor).map .object := by
  unfold readElement
  simp only [h]

theorem readElement_primitive (hL : ∀ rest, cursor.rest ≠ 'L' :: rest)
    (hNil : cursor.rest ≠ []) : readElement cursor = (readPrimitive cursor).map .base := by
  unfold readElement
  split
  · next h => exact absurd h hNil
  · next h => exact absurd h (hL _)
  · rfl

/-- What is left of a text behind its brackets. -/
theorem exists_brackets (text : List Char) :
    ∃ n rest, text = List.replicate n '[' ++ rest ∧ ∀ more, rest ≠ '[' :: more := by
  induction text with
  | nil => exact ⟨0, [], rfl, fun _ h => by cases h⟩
  | cons c text ih =>
      by_cases hc : c = '['
      · obtain ⟨n, rest, rfl, hRest⟩ := ih
        exact ⟨n + 1, rest, by rw [hc, List.replicate_succ, List.cons_append], hRest⟩
      · exact ⟨0, c :: text, rfl, fun _ h => hc (List.cons.inj h).1⟩

/-- Brackets are cut off where they end. -/
theorem cut_brackets (n : Nat) {rest : List Char} (h : ∀ more, rest ≠ '[' :: more) :
    (List.replicate n '[' ++ rest).takeWhile (· == '[') = List.replicate n '[' ∧
      (List.replicate n '[' ++ rest).dropWhile (· == '[') = rest := by
  have hAll : ∀ c ∈ List.replicate n '[', (c == '[') = true := by
    intro c hc
    rw [List.eq_of_mem_replicate hc]
    rfl
  rw [List.takeWhile_append_of_pos hAll, List.dropWhile_append_of_pos hAll]
  cases rest with
  | nil => exact ⟨List.append_nil _, rfl⟩
  | cons c rest =>
      have hc : (c == '[') = false := by
        rw [beq_eq_false_iff_ne]
        rintro rfl
        exact h rest rfl
      simp [hc]

/-- Too many brackets are refused behind the first that is one too many; else the type of the
elements decides. -/
theorem readArray_eq {n : Nat} {rest : List Char}
    (hRest : cursor.rest = List.replicate (n + 1) '[' ++ rest) (h : ∀ more, rest ≠ '[' :: more) :
    readArray cursor =
      if 255 < n + 1 then
        (.error .tooManyDimensions,
          cursor.after (List.replicate 256 '[') (cursor.rest.drop 256))
      else
        (readElement (cursor.after (List.replicate (n + 1) '[') rest)).map fun inner =>
          .array (nest n inner) := by
  obtain ⟨hTake, hDrop⟩ := cut_brackets (n + 1) h
  unfold readArray
  simp only [hRest, hTake, hDrop, List.length_replicate, maxDimensions, Nat.add_sub_cancel]
  split
  · next hMany => rw [List.take_replicate, Nat.min_eq_left hMany]
  · rfl

theorem readRef_array {text : List Char} (h : cursor.rest = '[' :: text) :
    readRef cursor = readArray cursor := by
  unfold readRef
  simp only [h]

theorem readRef_class (h : ∀ text, cursor.rest ≠ '[' :: text) :
    readRef cursor = (readClass cursor).map .object := by
  unfold readRef
  split
  · next hOpen => exact absurd hOpen (h _)
  · rfl

theorem readValue_array {text : List Char} (h : cursor.rest = '[' :: text) :
    readValue cursor = (readArray cursor).map RefType.toValue := by
  unfold readValue
  simp only [h]

theorem readValue_element (h : ∀ text, cursor.rest ≠ '[' :: text) :
    readValue cursor = readElement cursor := by
  unfold readValue
  split
  · next hOpen => exact absurd hOpen (h _)
  · rfl

/-- Parameters that the text ends in are not closed. -/
theorem readParameters_nil {rounds : Nat} (h : cursor.rest = []) :
    readParameters (rounds + 1) cursor = (.error .unterminatedParameters, cursor) := by
  unfold readParameters
  simp only [h]

theorem readParameters_close {rounds : Nat} {rest : List Char} (h : cursor.rest = ')' :: rest) :
    readParameters (rounds + 1) cursor = (.ok [], cursor.after [')'] rest) := by
  unfold readParameters
  simp only [h]

/-- The next parameter, in front of the others. -/
theorem readParameters_value (rounds : Nat) (hClose : ∀ rest, cursor.rest ≠ ')' :: rest)
    (hNil : cursor.rest ≠ []) :
    readParameters (rounds + 1) cursor =
      (readValue cursor).andThen fun type next => (readParameters rounds next).map (type :: ·) := by
  rw [readParameters]
  split
  · next h => exact absurd h hNil
  · next h => exact absurd h (hClose _)
  · rfl

theorem readResult_none {rest : List Char} (h : cursor.rest = 'V' :: rest) :
    readResult cursor = (.ok none, cursor.after ['V'] rest) := by
  unfold readResult
  simp only [h]

theorem readResult_value (h : ∀ rest, cursor.rest ≠ 'V' :: rest) :
    readResult cursor = (readValue cursor).map some := by
  unfold readResult
  split
  · next hVoid => exact absurd hVoid (h _)
  · rfl

/-- Behind its bracket, a signature is its parameters and then its result. -/
theorem readSignature_open {rest : List Char} (h : cursor.rest = '(' :: rest) :
    readSignature cursor =
      (readParameters (cursor.size + 1) (cursor.after ['('] rest)).andThen fun types next =>
        (readResult next).map (Signature.mk types) := by
  unfold readSignature
  simp only [h]

/-- Anything but a parenthesis is refused on the spot. -/
theorem readSignature_other (h : ∀ rest, cursor.rest ≠ '(' :: rest) :
    readSignature cursor = (.error .expectedParameters, cursor) := by
  unfold readSignature
  split
  · next hOpen => exact absurd hOpen (h _)
  · rfl

/-! ## What an answer is made of -/

variable {α β : Type} {answer : Read α}

theorem Read.map_eq_ok {f : α → β} {b : β} {stop : Cursor} :
    answer.map f = (.ok b, stop) ↔ ∃ a, answer = (.ok a, stop) ∧ b = f a := by
  obtain ⟨outcome, last⟩ := answer
  constructor
  · intro h
    cases outcome with
    | error e => cases h
    | ok a =>
        cases h
        exact ⟨a, rfl, rfl⟩
  · rintro ⟨a, hAnswer, rfl⟩
    rw [hAnswer]
    rfl

theorem Read.map_eq_error {f : α → β} {reason : Reason} {stop : Cursor} :
    answer.map f = (.error reason, stop) ↔ answer = (.error reason, stop) := by
  obtain ⟨outcome, last⟩ := answer
  cases outcome <;> simp [map, Except.map]

/-- Two readers in a row succeed exactly if both do. -/
theorem Read.andThen_eq_ok {next : α → Cursor → Read β} {b : β} {stop : Cursor} :
    answer.andThen next = (.ok b, stop) ↔
      ∃ a middle, answer = (.ok a, middle) ∧ next a middle = (.ok b, stop) := by
  obtain ⟨outcome, last⟩ := answer
  constructor
  · intro h
    cases outcome with
    | error e => cases h
    | ok a => exact ⟨a, last, rfl, h⟩
  · rintro ⟨a, middle, hAnswer, hNext⟩
    rw [hAnswer]
    exact hNext

/-- They fail where the first of them fails. -/
theorem Read.andThen_eq_error {next : α → Cursor → Read β} {reason : Reason} {stop : Cursor} :
    answer.andThen next = (.error reason, stop) ↔
      answer = (.error reason, stop) ∨
        ∃ a middle, answer = (.ok a, middle) ∧ next a middle = (.error reason, stop) := by
  obtain ⟨outcome, last⟩ := answer
  constructor
  · intro h
    cases outcome with
    | error e =>
        cases h
        exact .inl rfl
    | ok a => exact .inr ⟨a, last, rfl, h⟩
  · rintro (hAnswer | ⟨a, middle, hAnswer, hNext⟩)
    · rw [hAnswer]
      rfl
    · rw [hAnswer]
      exact hNext

end Descriptor

end HotPatch
