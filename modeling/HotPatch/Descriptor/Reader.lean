import HotPatch.Descriptor.Type

/-!
# Reading descriptors

A reader takes one type off the front of what is left of a text and stops
behind it, or says why it cannot and stops at the offending place.  A later
reader may go on from there, so the place is part of the answer in both cases
and the error's offset is always the place where the reader stopped.

Every character the grammar asks for is a single byte, so readers look at
bytes and count them.  Only the name of a class is cut out of the text, and
to cut a text anywhere but between two of its characters is an error too.
-/

namespace HotPatch

/-- A place in a text: how many bytes are in front of it. -/
structure Reader where
  text : String
  position : Nat
  deriving DecidableEq

/-- Why a reader stopped. -/
inductive Reason where
  | trailingCharacters
  | missingType
  | expectedPrimitive
  | expectedClass
  | unterminatedClass
  | invalidClassName
  | tooManyDimensions
  | expectedParameters
  | unterminatedParameters
  /-- A place past the end of the text, or inside a character. -/
  | outOfRange
  deriving DecidableEq

def Reason.message : Reason → String
  | .trailingCharacters => "trailing characters"
  | .missingType => "missing type"
  | .expectedPrimitive => "expected a primitive type"
  | .expectedClass => "expected a class type"
  | .unterminatedClass => "unterminated class type"
  | .invalidClassName => "invalid class name"
  | .tooManyDimensions => "too many array dimensions"
  | .expectedParameters => "expected '(' to open the parameters"
  | .unterminatedParameters => "unterminated parameter list"
  | .outOfRange => "index out of range"

/-- A text that is no descriptor: where it goes wrong, and why. -/
structure DescriptorError where
  text : String
  offset : Nat
  reason : Reason
  deriving DecidableEq

def DescriptorError.message (e : DescriptorError) : String :=
  "bad descriptor '" ++ e.text ++ "' at offset " ++ toString e.offset ++ ": "
    ++ e.reason.message

/-- The primitive type with this letter. -/
def Primitive.ofByte? (byte : UInt8) : Option Primitive := ofCode? (Char.ofUInt8 byte)

/-- The part of a text between two places, if these are in order and between characters. -/
def Text.slice? (text : String) (start stop : Nat) : Option String :=
  if h : start ≤ stop ∧ String.Pos.Raw.IsValid text ⟨start⟩ ∧ String.Pos.Raw.IsValid text ⟨stop⟩
  then some (text.extract ⟨⟨start⟩, h.2.1⟩ ⟨⟨stop⟩, h.2.2⟩)
  else none

namespace Descriptor

/-- Arrays nest at most this deep. -/
def maxDimensions : Nat := 255

/-- Nest a type in the given number of array dimensions. -/
def nest : Nat → ValueType → ValueType
  | 0, type => type
  | n + 1, type => .array (nest n type)

end Descriptor

namespace Reader

open Descriptor

/-- An answer, with the place where the reader stopped. -/
abbrev Read (α : Type) := Except Reason α × Reader

/-- Change the value of an answer. -/
def Read.map {α β : Type} (f : α → β) (answer : Read α) : Read β := (answer.1.map f, answer.2)

/-- Go on where an answer stopped, unless it is an error. -/
def Read.andThen {α β : Type} (answer : Read α) (next : α → Reader → Read β) : Read β :=
  match answer with
  | (.error e, stop) => (.error e, stop)
  | (.ok value, stop) => next value stop

/-- The place before the first character of a text. -/
def start (text : String) : Reader := ⟨text, 0⟩

/-- The byte at this place. -/
def peek (r : Reader) : Option UInt8 := r.text.toByteArray[r.position]?

/-- The place behind the next byte. -/
def bump (r : Reader) : Reader :=
  match r.peek with
  | none => r
  | some _ => { r with position := r.position + 1 }

def expect (r : Reader) (expected : Char) (reason : Reason) : Read Unit :=
  if r.peek = some expected.toUInt8 then (.ok (), { r with position := r.position + 1 })
  else (.error reason, r)

/-- Everything in front of the next `terminator`, which is read too. -/
def takeUntil (r : Reader) (terminator : Char) (reason : Reason) : Read String :=
  let bytes := Text.bytes r.text
  if r.position ≤ bytes.length then
    match (bytes.drop r.position).findIdx? (· == terminator.toUInt8) with
    | none => (.error reason, r)
    | some length =>
        match Text.slice? r.text r.position (r.position + length) with
        | none => (.error .outOfRange, r)
        | some taken => (.ok taken, { r with position := r.position + length + 1 })
  else (.error .outOfRange, r)

def readPrimitive (r : Reader) : Read Primitive :=
  match r.peek.bind Primitive.ofByte? with
  | none => (.error .expectedPrimitive, r)
  | some p => (.ok p, r.bump)

/-- A class name up to its `;`; a name that fails the check is reported at its first character. -/
def readClass (r : Reader) : Read ClassName :=
  (r.expect 'L' .expectedClass).andThen fun _ inside =>
    (inside.takeUntil ';' .unterminatedClass).andThen fun name stop =>
      match ClassName.ofString? name with
      | .error _ => (.error .invalidClassName, inside)
      | .ok cls => (.ok cls, stop)

/-- A type other than an array. -/
def readElement (r : Reader) : Read ValueType :=
  match r.peek with
  | none => (.error .missingType, r)
  | some byte =>
      if byte = 'L'.toUInt8 then r.readClass.map .object else r.readPrimitive.map .base

/-- Brackets, of which at most `allowed` may follow each other. -/
def readBrackets (allowed : Nat) (r : Reader) : Read Nat :=
  if r.peek = some '['.toUInt8 then
    match allowed with
    | 0 => (.error .tooManyDimensions, r.bump)
    | allowed + 1 => (readBrackets allowed r.bump).map (· + 1)
  else (.ok 0, r)

/-- A class, or an array: brackets up to the limit, then the type of the elements. -/
def readRef (r : Reader) : Read RefType :=
  (r.readBrackets maxDimensions).andThen fun
    | 0, stop => stop.readClass.map .object
    | dimensions + 1, stop => stop.readElement.map fun element => .array (nest dimensions element)

def readValue (r : Reader) : Read ValueType :=
  match r.peek with
  | none => (.error .missingType, r)
  | some byte =>
      if byte = 'L'.toUInt8 ∨ byte = '['.toUInt8 then r.readRef.map RefType.toValue
      else r.readPrimitive.map .base

/-- Parameter types up to the closing bracket, which is read too.  Every parameter takes at least
one byte, so as many rounds as there are bytes always reach the bracket. -/
def readParameters : Nat → Reader → Read (List ValueType)
  | 0, r => (.error .unterminatedParameters, r)
  | rounds + 1, r =>
      match r.peek with
      | none => (.error .unterminatedParameters, r)
      | some byte =>
          if byte = ')'.toUInt8 then (.ok [], r.bump)
          else r.readValue.andThen fun type next => (readParameters rounds next).map (type :: ·)

/-- A result type, `V` for none. -/
def readResult (r : Reader) : Read (Option ValueType) :=
  if r.peek = some 'V'.toUInt8 then (.ok none, r.bump) else r.readValue.map some

def readSignature (r : Reader) : Read Signature :=
  (r.expect '(' .expectedParameters).andThen fun _ inside =>
    (readParameters (r.text.utf8ByteSize + 1) inside).andThen fun parameters next =>
      next.readResult.map fun result => ⟨parameters, result⟩

/-- The answer of a reader, with its error placed where the reader stopped. -/
def locate {α : Type} (answer : Read α) : Except DescriptorError α :=
  match answer with
  | (.error reason, stop) => .error ⟨stop.text, stop.position, reason⟩
  | (.ok value, _) => .ok value

/-- Read a whole text, refusing characters after the type. -/
def parse {α : Type} (read : Reader → Read α) (text : String) : Except DescriptorError α :=
  match read (.start text) with
  | (.error reason, stop) => .error ⟨text, stop.position, reason⟩
  | (.ok value, stop) =>
      if stop.peek.isSome then .error ⟨text, stop.position, .trailingCharacters⟩
      else .ok value

end Reader

def Primitive.parse (text : String) : Except DescriptorError Primitive :=
  Reader.parse Reader.readPrimitive text

def ClassName.parse (text : String) : Except DescriptorError ClassName :=
  Reader.parse Reader.readClass text

def RefType.parse (text : String) : Except DescriptorError RefType :=
  Reader.parse Reader.readRef text

def ValueType.parse (text : String) : Except DescriptorError ValueType :=
  Reader.parse Reader.readValue text

def Signature.parse (text : String) : Except DescriptorError Signature :=
  Reader.parse Reader.readSignature text

end HotPatch
